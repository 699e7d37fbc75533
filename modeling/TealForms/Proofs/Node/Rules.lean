import TealForms.Proofs.Allocations.Slots
import TealForms.Proofs.Build.Settled
import TealForms.Proofs.Node.Traversal

set_option autoImplicit false

namespace TealForms

namespace Node

def isLiteral : Node → Bool
  | .mk token (.literal _) _ => token.value.kind = .integer || token.value.kind = .bytes
  | _ => false

end Node

namespace Instruction

structure Checked (table : Table) (instruction : Instruction) (children : List Node) : Prop where
  stack : Node.returnsAll children = instruction.record.args.length
  count : instruction.record.immediates ≠ [] →
    if instruction.record.isVariadic then instruction.record.immediates.length ≤ instruction.immediates.length + 1
    else instruction.immediates.length = instruction.record.immediates.length
  args : ∀ arg descriptor, (arg, descriptor) ∈ instruction.immediates.zip instruction.record.immediates →
    ∀ reference, descriptor.reference = some reference → arg ∈ table.fieldNames instruction.record.name reference

theorem arg_fault_none (table : Table) (opcode arg : String) (descriptor : Descriptor) :
    argFault? table opcode arg descriptor = none ↔
      ∀ reference, descriptor.reference = some reference → arg ∈ table.fieldNames opcode reference := by
  rw [argFault?]
  cases descriptor.reference with
  | none => simp
  | some reference => simp

theorem fault_none_iff (table : Table) (instruction : Instruction) (children : List Node) :
    instruction.fault? table children = none ↔ instruction.Checked table children := by
  have stack : instruction.stackFault? children = none ↔
      Node.returnsAll children = instruction.record.args.length := by
    simp [stackFault?]
  have count : instruction.countFault? = none ↔ (instruction.record.immediates ≠ [] →
      if instruction.record.isVariadic then instruction.record.immediates.length ≤ instruction.immediates.length + 1
      else instruction.immediates.length = instruction.record.immediates.length) := by
    cases variadic : instruction.record.isVariadic <;> simp [countFault?, variadic, Decidable.or_iff_not_imp_left]
  have args : instruction.argsFault? table = none ↔
      ∀ arg descriptor, (arg, descriptor) ∈ instruction.immediates.zip instruction.record.immediates →
        ∀ reference, descriptor.reference = some reference →
          arg ∈ table.fieldNames instruction.record.name reference := by
    simp only [argsFault?, List.findSome?_eq_none_iff, Prod.forall, arg_fault_none]
  rw [fault?, Option.or_eq_none_iff, Option.or_eq_none_iff, stack, count, args]
  exact ⟨fun parts => ⟨parts.1, parts.2.1, parts.2.2⟩, fun checked => ⟨checked.stack, checked.count, checked.args⟩⟩

end Instruction

namespace Dialect

def Passes (dialect : Dialect) (instruction : Instruction) (children : List Node) : Prop :=
  dialect.options.strict = true → instruction.Checked dialect.table children

-- The rules of a node's kind. Programs, groups, labels and comments have none.
def Sound (dialect : Dialect) : Node → Prop
  | .mk token (.opcode instruction) children =>
      dialect.table.record? (dialect.opcodeName token.value) = some instruction.record ∧
      instruction.immediates = token.value.args ∧
      (dialect.isExempt token.value = false → dialect.Passes instruction children)
  | .mk token (.literal instruction) children =>
      (∃ name, IsLiteral token.value.kind name ∧ dialect.table.record? name = some instruction.record) ∧
      instruction.immediates = [token.value.text] ∧ dialect.Passes instruction children
  | .mk _ (.scratch instruction) children =>
      dialect.table.record? (if (Node.significant children).isEmpty then "load" else "store") =
        some instruction.record ∧
      (∃ slot, slot < 256 ∧ instruction.immediates = [toString slot]) ∧ dialect.Passes instruction children
  | .mk _ .definition children => ∃ value, Node.significant children = [value] ∧ value.isLiteral = true
  | .mk _ (.reference literal) children => Node.significant children = [] ∧ literal.node.isLiteral = true
  | .mk _ (.case _) children | .mk _ (.loop _) children => 2 ≤ (Node.significant children).length
  | .mk _ (.choice _) children =>
      2 ≤ (Node.significant children).length ∧ ∀ child ∈ Node.significant children, child.isCase = true
  | .mk _ .transaction children =>
      1 ≤ (Node.significant children).length ∧ ∀ child ∈ Node.significant children, child.isField = true
  | .mk _ (.root _) _ | .mk _ .group _ | .mk _ .label _ | .mk _ .comment _ => True

theorem accepts_passes (dialect : Dialect) (instruction : Instruction) (children : List Node)
    (accepted : dialect.Accepts instruction children) : dialect.Passes instruction children :=
  fun strict => (instruction.fault_none_iff dialect.table children).mp (accepted strict)

theorem literal_sound (dialect : Dialect) (value : Node) (literal : Literal Node) (sound : dialect.Sound value)
    (read : value.literal? = some literal) : value = literal.node ∧ value.isLiteral = true := by
  obtain ⟨token, kind, children⟩ := value
  cases kind with
  | literal instruction =>
      cases read
      obtain ⟨⟨name, named, _⟩, _⟩ := sound
      refine ⟨rfl, ?_⟩
      rcases named with ⟨kind, _⟩ | ⟨kind, _⟩ <;> simp [Node.isLiteral, kind]
  | _ => cases read

theorem settled_sound (dialect : Dialect) (before after : Allocations) (token : Located Token) (children : List Node)
    (kind : Kind Node) (settled : dialect.Settled before token.value children kind after)
    (bounded : after.scratch.length ≤ scratchCapacity)
    (bound : ∀ name literal, before.constant? name = some literal → literal.node.isLiteral = true)
    (below : ∀ child ∈ children, dialect.Sound child) : dialect.Sound (.mk token kind children) := by
  cases settled with
  | opcode record _ found accepted =>
      exact ⟨found, rfl, fun checked => dialect.accepts_passes _ children (accepted checked)⟩
  | literal name record named found accepted =>
      exact ⟨⟨name, named, found⟩, rfl, dialect.accepts_passes _ children accepted⟩
  | load record slot _ bare known found accepted =>
      have place := before.slot_place token.value.text slot known
      obtain ⟨inside, _⟩ := List.getElem?_eq_some_iff.mp place
      exact ⟨by simpa [bare] using found, ⟨slot, Nat.lt_of_lt_of_le inside bounded, rfl⟩,
        dialect.accepts_passes _ children accepted⟩
  | store record slot after _ filled allocated found accepted =>
      have place := before.allocate_slot_place dialect.options.reuse token.value.text slot (by rw [allocated])
      rw [allocated] at place
      obtain ⟨inside, _⟩ := List.getElem?_eq_some_iff.mp place
      exact ⟨by simpa [filled] using found, ⟨slot, Nat.lt_of_lt_of_le inside bounded, rfl⟩,
        dialect.accepts_passes _ children accepted⟩
  | reference literal _ bare known => exact ⟨bare, bound token.value.text literal known⟩
  | definition value literal _ single read =>
      have member : value ∈ Node.significant children := by simp [single]
      have sound := below value (List.mem_filter.mp member).1
      exact ⟨value, single, (dialect.literal_sound value literal sound read).2⟩
  | case _ filled => exact filled
  | loop _ filled => exact filled
  | choice _ filled cases => exact ⟨filled, cases⟩
  | transaction _ filled fields => exact ⟨filled, fields⟩
  | label | comment | root | group => trivial

end Dialect

end TealForms
