import TealForms.Allocations

set_option autoImplicit false

namespace TealForms

namespace Allocations

def withSlot (reuse : Bool) (table : List String) (name : String) : List String :=
  if reuse = true ∧ name ∈ table ∨ scratchCapacity ≤ table.length then table else table ++ [name]

-- A variable has the first place of its name. A definition leaves the table as it is or adds one place at its end.
def slotTable (reuse : Bool) (defined : List String) : List String :=
  (if reuse then defined.eraseDups else defined).take scratchCapacity

theorem with_slot_bounded (reuse : Bool) (table : List String) (name : String)
    (bounded : table.length ≤ scratchCapacity) : (withSlot reuse table name).length ≤ scratchCapacity := by
  rw [withSlot]
  split
  · exact bounded
  · rename_i extends'
    have room : table.length < scratchCapacity := Nat.lt_of_not_le fun full => extends' (.inr full)
    simpa using Nat.succ_le_of_lt room

theorem slot_index (allocations : Allocations) (name : String) :
    allocations.slot? name = allocations.scratch.idxOf? name := by
  rw [slot?, List.idxOf?]
  congr 1

theorem slot_none (allocations : Allocations) (name : String) :
    allocations.slot? name = none ↔ name ∉ allocations.scratch := by
  rw [slot_index, List.idxOf?_eq_none_iff]

theorem slot_place (allocations : Allocations) (name : String) (slot : Nat)
    (known : allocations.slot? name = some slot) : allocations.scratch[slot]? = some name := by
  rw [slot?] at known
  obtain ⟨bound, same, _⟩ := List.findIdx?_eq_some_iff_getElem.mp known
  rw [List.getElem?_eq_getElem bound]
  simpa using same

theorem take_snoc (list : List String) (name : String) (count : Nat) :
    (list ++ [name]).take count =
      if count ≤ (list.take count).length then list.take count else list.take count ++ [name] := by
  by_cases full : count ≤ list.length
  · have filled : count ≤ (list.take count).length := by simp [full]
    rw [if_pos filled, List.take_append_of_le_length full]
  · have short : list.length < count := Nat.lt_of_not_le full
    have whole : list.take count = list := List.take_of_length_le (Nat.le_of_lt short)
    rw [whole, if_neg full, List.take_of_length_le]
    simpa using Nat.succ_le_of_lt short

theorem erase_snoc (list : List String) (name : String) :
    (list ++ [name]).eraseDups = if name ∈ list then list.eraseDups else list.eraseDups ++ [name] := by
  rw [List.eraseDups_append]
  by_cases member : name ∈ list <;> simp [member, List.removeAll, List.eraseDups_cons]

theorem slot_table_snoc (reuse : Bool) (defined : List String) (name : String) :
    slotTable reuse (defined ++ [name]) = withSlot reuse (slotTable reuse defined) name := by
  cases reuse with
  | false => simp [slotTable, withSlot, take_snoc]
  | true =>
      simp only [slotTable, withSlot, if_true, true_and, erase_snoc]
      by_cases member : name ∈ defined
      · have kept : name ∈ defined.eraseDups.take scratchCapacity ∨
            scratchCapacity ≤ (defined.eraseDups.take scratchCapacity).length := by
          by_cases full : scratchCapacity ≤ defined.eraseDups.length
          · exact .inr (by simp [full])
          · rw [List.take_of_length_le (Nat.le_of_not_le full)]
            exact .inl (List.mem_eraseDups.mpr member)
        rw [if_pos member, if_pos kept]
      · have absent : name ∉ defined.eraseDups.take scratchCapacity := by
          intro inside
          exact member (List.mem_eraseDups.mp (List.mem_of_mem_take inside))
        rw [if_neg member, take_snoc]
        simp [absent]

theorem reused_iff (allocations : Allocations) (reuse : Bool) (name : String) :
    (if reuse then allocations.slot? name else none) = none ↔ ¬(reuse = true ∧ name ∈ allocations.scratch) := by
  cases reuse with
  | false => simp
  | true => simpa using allocations.slot_none name

theorem allocate_slot_table (allocations : Allocations) (reuse : Bool) (name : String) :
    (allocations.allocateSlot reuse name).2.scratch = withSlot reuse allocations.scratch name := by
  have unused := allocations.reused_iff reuse name
  rw [allocateSlot, withSlot]
  cases reused : if reuse then allocations.slot? name else none with
  | some slot =>
      have known : reuse = true ∧ name ∈ allocations.scratch := by
        apply Decidable.of_not_not
        rw [← unused, reused]
        simp
      rw [if_pos (Or.inl known)]
  | none =>
      have unknown := unused.mp reused
      by_cases room : allocations.scratch.length < scratchCapacity
      · have keeps : ¬(reuse = true ∧ name ∈ allocations.scratch ∨ scratchCapacity ≤ allocations.scratch.length) :=
          fun either => either.elim unknown (Nat.not_le_of_lt room)
        simp only [if_pos room, if_neg keeps]
      · simp only [if_neg room, if_pos (Or.inr (Nat.le_of_not_lt room))]

theorem allocate_slot_others (allocations after : Allocations) (reuse : Bool) (name : String) (slot : Option Nat)
    (allocated : allocations.allocateSlot reuse name = (slot, after)) :
    after.labels = allocations.labels ∧ after.constants = allocations.constants := by
  rw [allocateSlot] at allocated
  split at allocated
  · cases allocated
    exact ⟨rfl, rfl⟩
  · dsimp only at allocated
    split at allocated <;> (cases allocated; exact ⟨rfl, rfl⟩)

theorem allocate_slot_none (allocations : Allocations) (reuse : Bool) (name : String) :
    (allocations.allocateSlot reuse name).1 = none ↔
      scratchCapacity ≤ allocations.scratch.length ∧ (reuse = true → allocations.slot? name = none) := by
  rw [allocateSlot]
  cases reuse <;> cases known : allocations.slot? name <;>
    by_cases room : allocations.scratch.length < scratchCapacity <;> simp [room] <;> omega

theorem allocate_slot_some (allocations : Allocations) (reuse : Bool) (name : String) (slot : Nat)
    (allocated : (allocations.allocateSlot reuse name).1 = some slot) :
    slot = (if reuse then allocations.slot? name else none).getD allocations.scratch.length := by
  rw [allocateSlot] at allocated
  split at allocated
  · rename_i found known
    rw [known, Option.getD_some]
    exact (Option.some.inj allocated).symm
  · rename_i unknown
    rw [unknown, Option.getD_none]
    dsimp only at allocated
    split at allocated
    · exact (Option.some.inj allocated).symm
    · cases allocated

theorem allocate_slot_place (allocations : Allocations) (reuse : Bool) (name : String) (slot : Nat)
    (allocated : (allocations.allocateSlot reuse name).1 = some slot) :
    (allocations.allocateSlot reuse name).2.scratch[slot]? = some name := by
  rw [allocateSlot] at allocated ⊢
  split
  · rename_i found reused
    rw [reused] at allocated
    cases allocated
    cases reuse with
    | false => cases reused
    | true => exact allocations.slot_place name slot reused
  · rename_i unused
    rw [unused] at allocated
    dsimp only at allocated ⊢
    split at allocated
    · rename_i room
      cases allocated
      simp [room]
    · cases allocated

theorem allocate_slot_old (allocations : Allocations) (reuse : Bool) (name other : String) (slot place : Nat)
    (allocated : (allocations.allocateSlot reuse name).1 = some slot)
    (named : (allocations.allocateSlot reuse name).2.scratch[place]? = some other) :
    allocations.scratch[place]? = some other ∨ place = slot ∧ other = name := by
  rw [allocateSlot] at allocated named
  split at named
  · exact .inl named
  · rename_i unused
    rw [unused] at allocated
    dsimp only at allocated named
    split at named
    · rename_i room
      rw [if_pos room] at allocated
      cases allocated
      rw [List.getElem?_append] at named
      split at named
      · exact .inl named
      · rename_i beyond
        obtain ⟨first, same⟩ : place - allocations.scratch.length = 0 ∧ name = other := by
          simpa [List.getElem?_singleton] using named
        exact .inr ⟨by omega, same.symm⟩
    · exact .inl named

end Allocations

end TealForms
