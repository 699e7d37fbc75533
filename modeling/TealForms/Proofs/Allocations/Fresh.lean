import Mathlib.Data.List.Nodup
import Mathlib.Data.List.Perm.Subperm
import Mathlib.Data.List.TakeWhile
import TealForms.Allocations

set_option autoImplicit false

namespace TealForms

namespace Family

theorem digits_injective (first second : Nat) (same : toString first = toString second) : first = second := by
  have digits : Nat.toDigits 10 first = Nat.toDigits 10 second := by
    simpa only [Nat.toString_eq_repr, Nat.toList_repr] using congrArg String.toList same
  simpa using congrArg (Nat.ofDigitChars 10 · 0) digits

theorem label_injective (family : Family) (first second : Nat) (same : family.label first = family.label second) :
    first = second :=
  digits_injective first second ((String.append_right_inj _).mp same)

theorem label_not_end (family : Family) (first second : Nat) : family.label first ≠ loopEnd (family.label second) := by
  intro same
  have tails : toString first = toString second ++ "_end" := by
    apply (String.append_right_inj (family.stem ++ "_")).mp
    simpa [label, loopEnd, String.append_assoc] using same
  have inside : '_' ∈ Nat.toDigits 10 first := by
    rw [← Nat.toList_repr, ← Nat.toString_eq_repr, tails]
    simp
  exact Nat.underscore_not_in_toDigits inside

theorem names_distinct (family : Family) (number : Nat) : (family.names number).Nodup := by
  cases family with
  | loop => simpa [names] using label_not_end .loop number number
  | choice => simp [names]
  | case => simp [names]

theorem label_named (family : Family) (number : Nat) : family.label number ∈ family.names number := by
  cases family <;> simp [names]

theorem names_label (family : Family) (number : Nat) (name : String) (named : name ∈ family.names number) :
    name = family.label number ∨ family = .loop ∧ name = loopEnd (family.label number) := by
  cases family <;> simpa [names] using named

theorem names_head (family : Family) (number : Nat) (name : String) (named : name ∈ family.names number) :
    name.toList.head? = family.stem.toList.head? := by
  rcases family.names_label number name named with rfl | ⟨_, rfl⟩ <;> cases family <;> simp [loopEnd, label, stem]

theorem names_apart (family other : Family) (number place : Nat) (name : String) (first : name ∈ family.names number)
    (second : name ∈ other.names place) : family = other ∧ number = place := by
  have heads := (family.names_head number name first).symm.trans (other.names_head place name second)
  obtain rfl : family = other := by
    cases family <;> cases other <;> first | rfl | exact absurd heads (by decide)
  refine ⟨rfl, ?_⟩
  rcases family.names_label number name first with label | ⟨_, ends⟩ <;>
    rcases family.names_label place name second with label' | ⟨_, ends'⟩
  · exact family.label_injective number place (label.symm.trans label')
  · exact absurd (label.symm.trans ends') (family.label_not_end number place)
  · exact absurd (label'.symm.trans ends) (family.label_not_end place number)
  · exact family.label_injective number place ((String.append_left_inj _).mp (ends.symm.trans ends'))

end Family

namespace Allocations

-- One reserved name keeps one number of a family from use, and more numbers are tried than there are reserved names.
def blocker (labels : List String) (family : Family) (number : Nat) : String :=
  if family.label number ∈ labels then family.label number else loopEnd (family.label number)

theorem blocker_injective (labels : List String) (family : Family) (first second : Nat)
    (same : blocker labels family first = blocker labels family second) : first = second := by
  rw [blocker, blocker] at same
  by_cases firstTaken : family.label first ∈ labels
  · rw [if_pos firstTaken] at same
    by_cases secondTaken : family.label second ∈ labels
    · rw [if_pos secondTaken] at same
      exact family.label_injective first second same
    · rw [if_neg secondTaken] at same
      exact absurd same (family.label_not_end first second)
  · rw [if_neg firstTaken] at same
    by_cases secondTaken : family.label second ∈ labels
    · rw [if_pos secondTaken] at same
      exact absurd same.symm (family.label_not_end second first)
    · rw [if_neg secondTaken] at same
      exact family.label_injective first second ((String.append_left_inj _).mp same)

theorem blocker_reserved (allocations : Allocations) (family : Family) (number : Nat)
    (taken : allocations.isTaken family number = true) :
    blocker allocations.labels family number ∈ allocations.labels := by
  rw [blocker]
  by_cases reserved : family.label number ∈ allocations.labels
  · rwa [if_pos reserved]
  · rw [if_neg reserved]
    cases family with
    | loop => simpa [isTaken, Family.names, reserved] using taken
    | choice => simp [isTaken, Family.names, reserved] at taken
    | case => simp [isTaken, Family.names, reserved] at taken

theorem passed_bound (allocations : Allocations) (family : Family) :
    (allocations.passed family).length ≤ allocations.labels.length := by
  have distinct : ((allocations.passed family).map (blocker allocations.labels family)).Nodup := by
    refine List.Nodup.map (fun first second => blocker_injective _ family first second) ?_
    exact (List.nodup_range' 1).sublist (List.takeWhile_sublist _)
  have reserved : (allocations.passed family).map (blocker allocations.labels family) ⊆ allocations.labels := by
    intro name member
    obtain ⟨number, tried, same⟩ := List.mem_map.mp member
    rw [← same]
    exact allocations.blocker_reserved family number (List.mem_takeWhile_imp tried)
  simpa using (distinct.subperm reserved).length_le

def fresh (allocations : Allocations) (family : Family) : Nat :=
  allocations.counters.get family + (allocations.passed family).length

theorem allocate_label_same (allocations other : Allocations) (family : Family)
    (labels : other.labels = allocations.labels) (counters : other.counters = allocations.counters) :
    (other.allocateLabel family).1 = (allocations.allocateLabel family).1 ∧
      (other.allocateLabel family).2.labels = (allocations.allocateLabel family).2.labels ∧
      (other.allocateLabel family).2.counters = (allocations.allocateLabel family).2.counters := by
  have taken : other.isTaken family = allocations.isTaken family := by
    funext number
    rw [isTaken, isTaken, labels]
  have passed : other.passed family = allocations.passed family := by
    rw [Allocations.passed, Allocations.passed, counters, labels, taken]
  refine ⟨?_, ?_, ?_⟩
  · simp only [allocateLabel, passed, counters]
  · simp only [allocateLabel, passed, counters, labels]
  · simp only [allocateLabel, passed, counters]

theorem passed_between (allocations : Allocations) (family : Family) (number : Nat)
    (member : number ∈ allocations.passed family) :
    allocations.counters.get family ≤ number ∧ number < allocations.fresh family := by
  obtain ⟨rest, tried⟩ : allocations.passed family <+: _ := List.takeWhile_prefix _
  obtain ⟨count, _, run, _⟩ := List.range'_eq_append_iff.mp tried.symm
  rw [fresh, run, List.length_range']
  rw [run] at member
  exact List.mem_range'_1.mp member

theorem fresh_free (allocations : Allocations) (family : Family) :
    allocations.isTaken family (allocations.fresh family) = false := by
  let tried := List.range' (allocations.counters.get family) (allocations.labels.length + 1)
  have split : allocations.passed family ++ tried.dropWhile (allocations.isTaken family) = tried :=
    List.takeWhile_append_dropWhile
  have bound : (allocations.passed family).length < tried.length := by
    have reserved := allocations.passed_bound family
    simp only [tried, List.length_range']
    omega
  have stops := List.head?_dropWhile_not (allocations.isTaken family) tried
  cases rest : tried.dropWhile (allocations.isTaken family) with
  | nil =>
      rw [rest, List.append_nil] at split
      rw [split] at bound
      exact absurd bound (Nat.lt_irrefl _)
  | cons number later =>
      rw [rest] at split stops
      have here : tried[(allocations.passed family).length]? = some number := by
        rw [← split]
        simp
      have place : tried[(allocations.passed family).length]? = some (allocations.fresh family) := by
        rw [List.getElem?_eq_getElem bound]
        simp [tried, fresh]
      have same : number = allocations.fresh family := Option.some.inj (here.symm.trans place)
      rw [← same]
      simpa using stops

theorem allocate_label_names (allocations : Allocations) (family : Family) :
    (allocations.allocateLabel family).2.labels = allocations.labels ++ family.names (allocations.fresh family) := rfl

theorem allocate_label_distinct (allocations : Allocations) (family : Family) (distinct : allocations.labels.Nodup) :
    (allocations.allocateLabel family).2.labels.Nodup := by
  rw [allocate_label_names]
  apply List.Nodup.append distinct (family.names_distinct _)
  intro name reserved named
  have free := allocations.fresh_free family
  rw [isTaken, List.any_eq_false] at free
  exact free name named (by simpa using reserved)

end Allocations

end TealForms
