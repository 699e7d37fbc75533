import Mathlib.Order.Bounds.Defs
import TealForms.Proofs.Allocations.Fresh

set_option autoImplicit false

namespace TealForms

theorem Counters.set_set (counters : Counters) (family : Family) (first second : Nat) :
    (counters.set family first).set family second = counters.set family second := by
  cases family <;> rfl

theorem word_next (number : Nat) (fits : number + 1 < UInt32.size) :
    (UInt32.ofNat number).toNat = number ∧ (UInt32.ofNat number + 1).toNat = number + 1 := by
  have same : (UInt32.ofNat number).toNat = number :=
    UInt32.toNat_ofNat_of_lt (Nat.lt_of_succ_lt fits)
  refine ⟨same, ?_⟩
  rw [UInt32.toNat_add, same]
  exact Nat.mod_eq_of_lt fits

namespace Allocations

-- The counter is a word of 32 bits. It goes on whether or not its number is free.
def round (allocations : Allocations) (family : Family) : Option String × Allocations :=
  let counter : UInt32 := .ofNat (allocations.counters.get family)
  let label := family.label counter.toNat
  let counters := allocations.counters.set family (counter + 1).toNat
  if allocations.isTaken family counter.toNat then
    (none, { allocations with counters, events := allocations.events ++ [.labelSkipped label] })
  else
    (some label, { allocations with
      labels := allocations.labels ++ family.names counter.toNat
      counters
      events := allocations.events ++ [.labelAllocated label] })

-- The rounds up to the first one that gives a label, with their number.
inductive Search (family : Family) : Allocations → Nat → String × Allocations → Prop where
  | found (before after : Allocations) (label : String) (gives : before.round family = (some label, after)) :
      Search family before 1 (label, after)
  | next (before middle : Allocations) (rounds : Nat) (result : String × Allocations)
      (passes : before.round family = (none, middle)) (rest : Search family middle rounds result) :
      Search family before (rounds + 1) result

theorem search_unique (family : Family) (before : Allocations) (rounds count : Nat)
    (result other : String × Allocations) (first : Search family before rounds result)
    (second : Search family before count other) : count = rounds ∧ other = result := by
  induction first generalizing count other with
  | found before after label gives =>
      cases second with
      | found _ _ _ gives' =>
          cases gives.symm.trans gives'
          exact ⟨rfl, rfl⟩
      | next _ _ _ _ passes => cases gives.symm.trans passes
  | next before middle rounds result passes _ ih =>
      cases second with
      | found _ _ _ gives => cases gives.symm.trans passes
      | next _ _ count _ passes' rest =>
          cases passes.symm.trans passes'
          obtain ⟨rfl, rfl⟩ := ih count other rest
          exact ⟨rfl, rfl⟩

section

variable (allocations : Allocations) (family : Family)

theorem round_taken (fits : allocations.counters.get family + 1 < UInt32.size)
    (taken : allocations.isTaken family (allocations.counters.get family) = true) :
    allocations.round family = (none, { allocations with
      counters := allocations.counters.set family (allocations.counters.get family + 1)
      events := allocations.events ++ [.labelSkipped (family.label (allocations.counters.get family))] }) := by
  obtain ⟨same, next⟩ := word_next _ fits
  rw [round, same, next, if_pos taken]

theorem round_free (fits : allocations.counters.get family + 1 < UInt32.size)
    (free : allocations.isTaken family (allocations.counters.get family) = false) :
    allocations.round family = (some (family.label (allocations.counters.get family)), { allocations with
      labels := allocations.labels ++ family.names (allocations.counters.get family)
      counters := allocations.counters.set family (allocations.counters.get family + 1)
      events := allocations.events ++ [.labelAllocated (family.label (allocations.counters.get family))] }) := by
  obtain ⟨same, next⟩ := word_next _ fits
  rw [round, same, next, if_neg (by simp [free])]

-- Each number on the way takes a round, and the free one behind them the last.
theorem search_run (count : Nat) (fits : allocations.counters.get family + count + 1 < UInt32.size)
    (taken : ∀ number, allocations.counters.get family ≤ number → number < allocations.counters.get family + count →
      allocations.isTaken family number = true)
    (free : allocations.isTaken family (allocations.counters.get family + count) = false) :
    let number := allocations.counters.get family + count
    let skipped := List.range' (allocations.counters.get family) count
    Search family allocations (count + 1) (family.label number, { allocations with
      labels := allocations.labels ++ family.names number
      counters := allocations.counters.set family (number + 1)
      events := allocations.events ++ skipped.map (fun number => .labelSkipped (family.label number)) ++
        [.labelAllocated (family.label number)] }) := by
  induction count generalizing allocations with
  | zero => simpa using Search.found _ _ _ (allocations.round_free family fits free)
  | succ count ih =>
      have passes := allocations.round_taken family (by omega) (taken _ le_rfl (by omega))
      refine .next _ _ _ _ passes ?_
      generalize middled : ({ allocations with
        counters := allocations.counters.set family (allocations.counters.get family + 1)
        events := allocations.events ++ [.labelSkipped (family.label (allocations.counters.get family))] }
          : Allocations) = middle
      have start : middle.counters.get family = allocations.counters.get family + 1 := by
        rw [← middled, Counters.get_set, if_pos rfl]
      have same : middle.isTaken family = allocations.isTaken family := by
        rw [← middled]
        rfl
      have ahead : middle.counters.get family + count = allocations.counters.get family + (count + 1) := by omega
      have rest := ih middle (by omega) (fun number above below => same ▸ taken number (by omega) (by omega))
        (by rwa [ahead, same])
      rw [ahead, start] at rest
      subst middled
      simpa [Counters.set_set, List.range'_succ] using rest

theorem passed_run : allocations.passed family =
    List.range' (allocations.counters.get family) (allocations.passed family).length := by
  obtain ⟨rest, tried⟩ : allocations.passed family <+: _ := List.takeWhile_prefix _
  obtain ⟨count, _, run, _⟩ := List.range'_eq_append_iff.mp tried.symm
  rw [run, List.length_range']

theorem passed_iff (number : Nat) :
    number ∈ allocations.passed family ↔
      allocations.counters.get family ≤ number ∧ number < allocations.fresh family := by
  refine ⟨allocations.passed_between family number, fun between => ?_⟩
  rw [passed_run]
  exact List.mem_range'_1.mpr between

theorem allocate_search (fits : (allocations.allocateLabel family).2.counters.get family < UInt32.size) :
    Search family allocations ((allocations.passed family).length + 1) (allocations.allocateLabel family) := by
  have room : allocations.fresh family + 1 < UInt32.size := by
    rwa [allocateLabel, Counters.get_set, if_pos rfl] at fits
  have taken (number : Nat) (above : allocations.counters.get family ≤ number)
      (below : number < allocations.fresh family) : allocations.isTaken family number = true :=
    List.mem_takeWhile_imp ((allocations.passed_iff family number).mpr ⟨above, below⟩)
  have free := allocations.fresh_free family
  have run := allocations.search_run family (allocations.passed family).length room taken free
  rwa [← passed_run] at run

theorem taken_iff (number : Nat) :
    allocations.isTaken family number = true ↔ ∃ name ∈ family.names number, name ∈ allocations.labels := by
  simp [isTaken]

theorem fresh_least :
    IsLeast {number | allocations.counters.get family ≤ number ∧
      ∀ name ∈ family.names number, name ∉ allocations.labels} (allocations.fresh family) := by
  have free := allocations.fresh_free family
  rw [← Bool.not_eq_true, taken_iff] at free
  refine ⟨⟨Nat.le_add_right _ _, fun name named reserved => free ⟨name, named, reserved⟩⟩, ?_⟩
  rintro number ⟨above, unreserved⟩
  by_contra below
  have passed := (allocations.passed_iff family number).mpr ⟨above, Nat.lt_of_not_le below⟩
  obtain ⟨name, named, reserved⟩ := (allocations.taken_iff family number).mp (List.mem_takeWhile_imp passed)
  exact unreserved name named reserved

end

end Allocations

end TealForms
