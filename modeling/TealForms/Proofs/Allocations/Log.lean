import TealForms.Proofs.Allocations.Fresh
import TealForms.Proofs.Allocations.Slots

set_option autoImplicit false

namespace TealForms

namespace Event

def slot? : Event → Option (String × Nat)
  | .slotAllocated slot name => some (name, slot)
  | _ => none

def bound? : Event → Option (String × String)
  | .constantBound name text => some (name, text)
  | _ => none

def allocated? : Event → Option String
  | .labelAllocated label => some label
  | _ => none

def skipped? : Event → Option String
  | .labelSkipped label => some label
  | _ => none

end Event

namespace Allocations

-- A label of a macro has a number below the counter of its family, and so has a label that was passed over.
structure Logged (declared generated : List String) (allocations : Allocations) : Prop where
  slots : allocations.events.filterMap Event.slot? = allocations.scratch.zipIdx
  constants : allocations.events.filterMap Event.bound? =
    allocations.constants.map fun entry => (entry.1, entry.2.token.value.text)
  labels : allocations.events.filterMap Event.allocated? = generated
  numbered : ∀ label, label ∈ generated ∨ label ∈ allocations.events.filterMap Event.skipped? →
    ∃ family number, number < allocations.counters.get family ∧ label = Family.label family number
  distinct : generated.Nodup
  apart : ∀ label ∈ allocations.events.filterMap Event.skipped?, label ∉ generated
  reserved : ∀ name ∈ allocations.labels, name ∈ declared ∨
    ∃ family number, number < allocations.counters.get family ∧ name ∈ Family.names family number

def Blocked (declared : List String) (label : String) : Prop :=
  label ∈ declared ∨ (∃ number, label = Family.loop.label number) ∧ loopEnd label ∈ declared

theorem generated_skipped (allocations : Allocations) (family : Family) :
    (allocations.allocateLabel family).2.events.filterMap Event.skipped? =
      allocations.events.filterMap Event.skipped? ++ (allocations.passed family).map family.label := by
  simp [allocateLabel, Event.skipped?, List.filterMap_map, Function.comp_def, List.filterMap_cons]

theorem logged_empty : Logged [] [] {} := by
  constructor <;> simp

section

variable {declared generated : List String} {allocations : Allocations}
variable (logged : Logged declared generated allocations)

include logged

theorem logged_slot (reuse : Bool) (name : String) :
    Logged declared generated (allocations.allocateSlot reuse name).2 := by
  have slots := logged.slots
  rw [allocateSlot]
  split
  · exact logged
  · dsimp only
    split
    · exact { logged with
        slots := by simp [slots, Event.slot?, List.zipIdx_append]
        constants := by simpa [Event.bound?, List.filterMap_cons] using logged.constants
        labels := by simpa [Event.allocated?, List.filterMap_cons] using logged.labels
        numbered := by simpa [Event.skipped?] using logged.numbered
        apart := by simpa [Event.skipped?] using logged.apart }
    · exact logged

theorem logged_bind (name : String) (literal : Literal Node) :
    Logged declared generated (allocations.bind name literal) := by
  have constants := logged.constants
  exact { logged with
    slots := by simpa [bind, Event.slot?, List.filterMap_cons] using logged.slots
    constants := by simp [bind, constants, Event.bound?]
    labels := by simpa [bind, Event.allocated?, List.filterMap_cons] using logged.labels
    numbered := by simpa [bind, Event.skipped?] using logged.numbered
    apart := by simpa [bind, Event.skipped?] using logged.apart }

theorem logged_declare (label : String) : Logged (declared ++ [label]) generated (allocations.declare label) := by
  refine { logged with reserved := fun name member => ?_ }
  rw [List.mem_append]
  rcases List.mem_append.mp member with old | new
  · exact (logged.reserved name old).imp_left .inl
  · exact .inl (.inr new)

-- The number is not below the counter, so that no macro has taken the name that blocks it.
theorem passed_blocked (family : Family) (number : Nat) (member : number ∈ allocations.passed family) :
    Blocked declared (family.label number) := by
  have taken : allocations.isTaken family number = true := List.mem_takeWhile_imp member
  obtain ⟨name, named, reserved⟩ := List.any_eq_true.mp taken
  rcases logged.reserved name (by simpa using reserved) with known | ⟨other, place, below, same⟩
  · rcases family.names_label number name named with rfl | ⟨rfl, rfl⟩
    · exact .inl known
    · exact .inr ⟨⟨number, rfl⟩, known⟩
  · obtain ⟨rfl, rfl⟩ := family.names_apart other number place name named same
    exact absurd below (Nat.not_lt.mpr (allocations.passed_between family number member).1)

theorem unnumbered (family : Family) (number : Nat) (above : allocations.counters.get family ≤ number) :
    family.label number ∉ generated ∧ family.label number ∉ allocations.events.filterMap Event.skipped? := by
  rw [← not_or]
  intro known
  obtain ⟨other, place, below, same⟩ := logged.numbered (family.label number) known
  obtain ⟨rfl, rfl⟩ := family.names_apart other number place _ (family.label_named number)
    (same ▸ other.label_named place)
  exact absurd below (Nat.not_lt.mpr above)

theorem logged_generate (family : Family) :
    Logged declared (generated ++ [(allocations.allocateLabel family).1]) (allocations.allocateLabel family).2 := by
  have grows (other : Family) (number : Nat) (below : number < allocations.counters.get other) :
      number < (allocations.counters.set family (allocations.fresh family + 1)).get other := by
    rw [Counters.get_set]
    split
    · rename_i same
      rw [same] at below
      exact Nat.lt_succ_of_lt (Nat.lt_of_lt_of_le below (Nat.le_add_right _ _))
    · exact below
  have own (number : Nat) (below : number ≤ allocations.fresh family) :
      number < (allocations.counters.set family (allocations.fresh family + 1)).get family := by
    rw [Counters.get_set, if_pos rfl]
    exact Nat.lt_succ_of_le below
  have skipped := allocations.generated_skipped family
  have unused := unnumbered logged family
  refine ⟨?_, ?_, ?_, ?_, ?_, ?_, ?_⟩
  · simpa [allocateLabel, Event.slot?, List.filterMap_cons, Function.comp_def] using logged.slots
  · simpa [allocateLabel, Event.bound?, List.filterMap_cons, Function.comp_def] using logged.constants
  · simpa [allocateLabel, Event.allocated?, List.filterMap_cons, Function.comp_def] using logged.labels
  · intro label known
    rw [skipped, List.mem_append, List.mem_append, List.mem_singleton, List.mem_map] at known
    have old (member : label ∈ generated ∨ label ∈ allocations.events.filterMap Event.skipped?) :
        ∃ other number, number < (allocations.allocateLabel family).2.counters.get other ∧
          label = Family.label other number := by
      obtain ⟨other, number, below, same⟩ := logged.numbered label member
      exact ⟨other, number, grows other number below, same⟩
    rcases known with (before | new) | before | ⟨number, member, same⟩
    · exact old (.inl before)
    · exact ⟨family, allocations.fresh family, own _ le_rfl, new⟩
    · exact old (.inr before)
    · exact ⟨family, number, own number (allocations.passed_between family number member).2.le, same.symm⟩
  · exact List.nodup_append_comm.mp (logged.distinct.cons (unused _ (Nat.le_add_right _ _)).1)
  · intro label member
    rw [skipped, List.mem_append, List.mem_map] at member
    rw [List.mem_append, List.mem_singleton, not_or]
    rcases member with before | ⟨number, passed, rfl⟩
    · exact ⟨logged.apart label before, fun same => (unused _ (Nat.le_add_right _ _)).2 (same ▸ before)⟩
    · obtain ⟨above, below⟩ := allocations.passed_between family number passed
      exact ⟨(unused number above).1, fun same => below.ne (family.label_injective _ _ same)⟩
  · intro name member
    rw [allocate_label_names, List.mem_append] at member
    rcases member with before | named
    · rcases logged.reserved name before with known | ⟨other, number, below, same⟩
      · exact .inl known
      · exact .inr ⟨other, number, grows other number below, same⟩
    · exact .inr ⟨family, allocations.fresh family, own _ le_rfl, named⟩

end

end Allocations

end TealForms
