import TealForms.Proofs.Build.Settled
import TealForms.Proofs.Node.Rules

set_option autoImplicit false

namespace TealForms

-- What a record says of the immediate argument at a place; the last descriptor of a variadic record goes on for ever.
def Record.governing? (record : Record) (place : Nat) : Option Descriptor :=
  match record.immediates[place]? with
  | some descriptor => some descriptor
  | none => if record.isVariadic then record.immediates.getLast? else none

namespace Instruction

-- The immediate argument at a place, if there is one, is in the group that the descriptor governing it refers to.
def Enumerated (table : Table) (instruction : Instruction) (place : Nat) : Prop :=
  ∀ arg descriptor reference, instruction.immediates[place]? = some arg →
    instruction.record.governing? place = some descriptor → descriptor.reference = some reference →
    arg ∈ table.fieldNames instruction.record.name reference

def Fits (instruction : Instruction) (children : List Node) : Prop :=
  instruction.stackFault? children = none ∧ instruction.countFault? = none

theorem enumerated_pair (table : Table) (instruction : Instruction) (place : Nat)
    (described : place < instruction.record.immediates.length) :
    instruction.Enumerated table place ↔
      ∀ arg descriptor, (instruction.immediates.zip instruction.record.immediates)[place]? = some (arg, descriptor) →
        argFault? table instruction.record.name arg descriptor = none := by
  have governed : instruction.record.governing? place = some instruction.record.immediates[place] := by
    rw [Record.governing?, List.getElem?_eq_getElem described]
  simp only [Enumerated, governed, arg_fault_none, List.getElem?_zip_eq_some, List.getElem?_eq_getElem described]
  constructor
  · intro enumerated arg descriptor pair reference refers
    exact enumerated arg descriptor reference pair.1 pair.2 refers
  · intro passes arg descriptor reference given governs refers
    exact passes arg descriptor ⟨given, governs⟩ reference refers

theorem args_fault_none (table : Table) (instruction : Instruction) :
    instruction.argsFault? table = none ↔
      ∀ place < instruction.record.immediates.length, instruction.Enumerated table place := by
  rw [argsFault?, List.findSome?_eq_none_iff]
  constructor
  · intro passes place described
    refine (instruction.enumerated_pair table place described).mpr ?_
    intro arg descriptor pair
    exact passes (arg, descriptor) (List.mem_of_getElem? pair)
  · rintro enumerated ⟨arg, descriptor⟩ member
    obtain ⟨place, pair⟩ := List.getElem?_of_mem member
    obtain ⟨described, _⟩ := List.getElem?_eq_some_iff.mp (List.getElem?_zip_eq_some.mp pair).2
    exact (instruction.enumerated_pair table place described).mp (enumerated place described) arg descriptor pair

theorem args_fault_first (table : Table) (instruction : Instruction) (place : Nat)
    (described : place < instruction.record.immediates.length) (outside : ¬ instruction.Enumerated table place)
    (first : ∀ earlier < place, instruction.Enumerated table earlier) :
    ∃ arg reference, instruction.immediates[place]? = some arg ∧
      (instruction.record.governing? place).bind Descriptor.reference = some reference ∧
      instruction.argsFault? table = some (.invalidArg arg (table.fieldNames instruction.record.name reference)) := by
  simp only [Enumerated, Classical.not_forall] at outside
  obtain ⟨arg, descriptor, reference, given, governs, refers, absent⟩ := outside
  have pair : (instruction.immediates.zip instruction.record.immediates)[place]? = some (arg, descriptor) := by
    rw [Record.governing?, List.getElem?_eq_getElem described] at governs
    exact List.getElem?_zip_eq_some.mpr ⟨given, (List.getElem?_eq_getElem described).trans governs⟩
  have fault : argFault? table instruction.record.name arg descriptor =
      some (.invalidArg arg (table.fieldNames instruction.record.name reference)) := by
    simp [argFault?, refers, absent]
  refine ⟨arg, reference, given, by rw [governs]; exact refers, ?_⟩
  obtain ⟨inside, here⟩ := List.getElem?_eq_some_iff.mp pair
  let pairs := instruction.immediates.zip instruction.record.immediates
  refine List.findSome?_eq_some_iff.mpr ⟨pairs.take place, (arg, descriptor), pairs.drop (place + 1), ?_, fault, ?_⟩
  · rw [← here, ← List.drop_eq_getElem_cons inside, List.take_append_drop]
  · rintro ⟨arg, descriptor⟩ member
    obtain ⟨earlier, found⟩ := List.getElem?_of_mem member
    rw [List.getElem?_take] at found
    obtain ⟨before, found⟩ := Option.ite_none_right_eq_some.mp found
    exact (instruction.enumerated_pair table earlier (Nat.lt_trans before described)).mp (first earlier before) arg
      descriptor found

theorem fault_fits (table : Table) (instruction : Instruction) (children : List Node)
    (fits : instruction.Fits children) : instruction.fault? table children = instruction.argsFault? table := by
  rw [fault?, fits.1, fits.2]
  rfl

theorem fault_none_fits (table : Table) (instruction : Instruction) (children : List Node) :
    instruction.fault? table children = none ↔ instruction.Fits children ∧
      ∀ place < instruction.record.immediates.length, instruction.Enumerated table place := by
  rw [fault?, Option.or_eq_none_iff, Option.or_eq_none_iff, args_fault_none, ← and_assoc]
  rfl

end Instruction

namespace Dialect

def standsFor? (dialect : Dialect) (token : Token) : Option Instruction :=
  match token.kind with
  | .opcode => (dialect.table.record? (dialect.opcodeName token)).map (⟨·, token.args⟩)
  | .bytes => (dialect.table.record? "byte").map (⟨·, [token.text]⟩)
  | .integer => (dialect.table.record? "int").map (⟨·, [token.text]⟩)
  | _ => none

section

variable (dialect : Dialect) (before : Allocations) (token : Located Token) (children : List Node)
variable (instruction : Instruction)

theorem opcode_checked (record : Record) (unmarked : dialect.isExempt token.value = false)
    (found : dialect.table.record? (dialect.opcodeName token.value) = some record) :
    dialect.resolveOpcode token.value children =
      (dialect.check ⟨record, token.value.args⟩ children).map .opcode := by
  rw [resolveOpcode, dialect.record_found _ record found, unmarked]
  rfl

theorem literal_checked (name : String) (record : Record) (found : dialect.table.record? name = some record) :
    dialect.resolveLiteral name token.value children =
      (dialect.check ⟨record, [token.value.text]⟩ children).map .literal := by
  rw [resolveLiteral, dialect.record_found _ record found]
  rfl

variable (stands : dialect.standsFor? token.value = some instruction)
variable (unmarked : dialect.isExempt token.value = false)

include stands unmarked

theorem stands_resolved : ∃ kind : Instruction → Kind Node,
    (∀ checked, (Node.mk token (kind checked) children).instruction? = some checked) ∧
    dialect.resolve before token.value children = ((dialect.check instruction children).map kind, before) := by
  unfold standsFor? at stands
  rw [resolve]
  split at stands
  · rename_i named
    obtain ⟨record, found, rfl⟩ := Option.map_eq_some_iff.mp stands
    exact ⟨.opcode, fun _ => rfl, by rw [named, ← dialect.opcode_checked token children record unmarked found]⟩
  · rename_i named
    obtain ⟨record, found, rfl⟩ := Option.map_eq_some_iff.mp stands
    exact ⟨.literal, fun _ => rfl, by rw [named, ← dialect.literal_checked token children "byte" record found]⟩
  · rename_i named
    obtain ⟨record, found, rfl⟩ := Option.map_eq_some_iff.mp stands
    exact ⟨.literal, fun _ => rfl, by rw [named, ← dialect.literal_checked token children "int" record found]⟩
  · cases stands

theorem build_stands (strict : dialect.options.strict = true) :
    ∃ kind, (Node.mk token kind children).instruction? = some instruction ∧
      dialect.build before token children =
        match instruction.fault? dialect.table children with
        | none => (.ok (.mk token kind children), before)
        | some fault => (.error ⟨fault, token.location⟩, before) := by
  obtain ⟨kind, holds, resolved⟩ := dialect.stands_resolved before token children instruction stands unmarked
  refine ⟨kind instruction, holds instruction, ?_⟩
  rw [build, resolved, check, if_pos strict]
  cases instruction.fault? dialect.table children <;> rfl

end

/-- An instruction is built exactly if its stack and the number of its immediate arguments are as its record has them
and each argument at the place of a descriptor with a group is in that group; the first one outside makes the fault. In
what is built all arguments are in their groups if and only if those behind the last descriptor are. -/
theorem described_immediates_checked (dialect : Dialect) (before : Allocations) (token : Located Token)
    (children : List Node) (instruction : Instruction) (strict : dialect.options.strict = true)
    (stands : dialect.standsFor? token.value = some instruction)
    (unmarked : dialect.isExempt token.value = false) :
    ((∃ node, dialect.build before token children = (.ok node, before) ∧ node.instruction? = some instruction) ↔
      instruction.Fits children ∧
        ∀ place < instruction.record.immediates.length, instruction.Enumerated dialect.table place) ∧
    (∀ node after, dialect.build before token children = (.ok node, after) →
      ((∀ place, instruction.Enumerated dialect.table place) ↔
        ∀ place, instruction.record.immediates.length ≤ place → instruction.Enumerated dialect.table place)) ∧
    (instruction.Fits children → ∀ place < instruction.record.immediates.length,
      ¬ instruction.Enumerated dialect.table place →
      (∀ earlier < place, instruction.Enumerated dialect.table earlier) →
      ∃ arg reference, instruction.immediates[place]? = some arg ∧
        (instruction.record.governing? place).bind Descriptor.reference = some reference ∧
        dialect.build before token children =
          (.error ⟨.invalidArg arg (dialect.table.fieldNames instruction.record.name reference), token.location⟩,
            before)) := by
  obtain ⟨kind, holds, built⟩ := dialect.build_stands before token children instruction stands unmarked strict
  have decided := instruction.fault_none_fits dialect.table children
  refine ⟨?_, ?_, ?_⟩
  · rw [← decided, built]
    cases instruction.fault? dialect.table children with
    | none => exact ⟨fun _ => rfl, fun _ => ⟨_, rfl, holds⟩⟩
    | some fault => exact ⟨fun ⟨_, done, _⟩ => (nomatch (Prod.mk.inj done).1), fun none => nomatch none⟩
  · intro node after done
    rw [built] at done
    have passed : instruction.fault? dialect.table children = none := by
      cases fault : instruction.fault? dialect.table children with
      | none => rfl
      | some found =>
          rw [fault] at done
          exact nomatch (Prod.mk.inj done).1
    refine ⟨fun all place _ => all place, fun behind place => ?_⟩
    rcases Nat.lt_or_ge place instruction.record.immediates.length with described | later
    · exact (decided.mp passed).2 place described
    · exact behind place later
  · intro fits place described outside first
    obtain ⟨arg, reference, given, refers, fault⟩ :=
      instruction.args_fault_first dialect.table place described outside first
    refine ⟨arg, reference, given, refers, ?_⟩
    rw [built, instruction.fault_fits dialect.table children fits, fault]

def picking : Record where
  name := "pick"
  immediates := [⟨"Kind", "", .uint8, some "kind"⟩, ⟨"Values", "", .integers, some "value"⟩]

def pickTable : Table := ⟨1, [picking], [("kind", [⟨"K", .uint64, none, 0⟩]), ("value", [⟨"A", .uint64, none, 0⟩])]⟩

theorem first_list_element_refused :
    let dialect : Dialect := ⟨pickTable, {}⟩
    let token : Located Token := ⟨⟨.opcode, "pick.K.Bogus.A"⟩, default⟩
    let instruction : Instruction := ⟨picking, ["K", "Bogus", "A"]⟩
    dialect.options.strict = true ∧ dialect.standsFor? token.value = some instruction ∧
      dialect.isExempt token.value = false ∧ instruction.Fits [] ∧ ¬ instruction.Enumerated dialect.table 1 ∧
      dialect.build {} token [] = (.error ⟨.invalidArg "Bogus" ["A"], token.location⟩, {}) := by
  intro dialect token instruction
  have stands : dialect.standsFor? token.value = some instruction := by decide
  have outside : ¬ instruction.Enumerated dialect.table 1 := by
    intro enumerated
    exact absurd (enumerated "Bogus" ⟨"Values", "", .integers, some "value"⟩ "value" rfl rfl rfl) (by decide)
  have before : ∀ earlier < 1, instruction.Enumerated dialect.table earlier := by
    intro earlier first arg descriptor reference given governs refers
    obtain rfl : earlier = 0 := Nat.lt_one_iff.mp first
    cases given
    cases governs
    cases refers
    decide
  have fits : instruction.Fits [] := ⟨by decide, by decide⟩
  obtain ⟨arg, reference, given, refers, built⟩ :=
    (described_immediates_checked dialect {} token [] instruction rfl stands (by decide)).2.2 fits 1 (by decide)
      outside before
  cases given
  cases refers
  exact ⟨rfl, stands, by decide, fits, outside, built⟩

theorem second_list_element_unchecked :
    let dialect : Dialect := ⟨pickTable, {}⟩
    let token : Located Token := ⟨⟨.opcode, "pick.K.A.Bogus"⟩, default⟩
    let instruction : Instruction := ⟨picking, ["K", "A", "Bogus"]⟩
    dialect.options.strict = true ∧ dialect.isExempt token.value = false ∧
      dialect.build {} token [] = (.ok (.mk token (.opcode instruction) []), {}) ∧
      ¬ ∀ place, instruction.Enumerated dialect.table place := by
  intro dialect token instruction
  have args : token.value.args = ["K", "A", "Bogus"] := by decide
  have built := dialect.settled_build {} {} token [] _ (.opcode picking rfl (by decide) (fun _ _ => by decide))
  rw [args] at built
  refine ⟨rfl, by decide, built, fun enumerated => ?_⟩
  exact absurd (enumerated 2 "Bogus" ⟨"Values", "", .integers, some "value"⟩ "value" rfl rfl rfl) (by decide)

end Dialect

end TealForms
