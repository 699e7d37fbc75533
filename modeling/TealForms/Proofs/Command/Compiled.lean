import TealForms.Proofs.Build.Ledger
import TealForms.Proofs.Command.Emission

set_option autoImplicit false

namespace TealForms

namespace Node

theorem own_labels (node : Node) : node.own.filterMap Command.label? = node.ownLabels := by
  obtain ⟨token, kind, children⟩ := node
  cases kind <;> rfl

theorem own_label (node : Node) (name : String) (emitted : .label name ∈ node.own) : name ∈ node.ownLabels := by
  rw [← node.own_labels]
  exact List.mem_filterMap.mpr ⟨.label name, emitted, rfl⟩

theorem target_reserved (node : Node) (command : Command) (target : String) (goes : command.target? = some target)
    (member : command ∈ node.commands) : ∃ other ∈ node.performed, target ∈ other.ownLabels := by
  obtain ⟨other, performed, emitted⟩ := node.target_performed command target goes member
  exact ⟨other, performed, other.own_label target emitted⟩

end Node

namespace Dialect

theorem built_regular (dialect : Dialect) (node : Node) (built : dialect.Built node) : node.Regular := by
  obtain ⟨before, after, settled⟩ := built
  obtain ⟨token, kind, children⟩ := node
  cases kind with
  | case label =>
      cases settled with
      | case _ filled => exact List.ne_nil_of_length_pos (Nat.lt_of_lt_of_le Nat.two_pos filled)
  | loop label =>
      cases settled with
      | loop _ filled => exact List.ne_nil_of_length_pos (Nat.lt_of_lt_of_le Nat.two_pos filled)
  | choice label =>
      cases settled with
      | choice _ _ cases => exact cases
  | _ => trivial

theorem written_atom (token : Located Token) (written : Written token) (kind : TokenKind)
    (named : token.value.kind = kind) (worded : kind = .opcode ∨ kind = .label ∨ kind = .scratch ∨ kind = .constant) :
    token.value.IsAtom := by
  rcases written with spelled | root
  · unfold Token.Spelled at spelled
    rw [named] at spelled
    rcases worded with rfl | rfl | rfl | rfl <;> exact spelled
  · subst named
    simp [root, Token.root] at worded

theorem built_opcode (dialect : Dialect) (token : Located Token) (instruction : Instruction) (children : List Node)
    (built : dialect.Built (.mk token (.opcode instruction) children)) (written : Written token) :
    token.value.IsAtom ∧ instruction.record.name = dialect.opcodeName token.value ∧
      instruction.immediates = token.value.args := by
  obtain ⟨before, after, settled⟩ := dialect.built_parts token _ children built
  cases settled with
  | opcode record named found =>
      exact ⟨written_atom token written _ named (by simp), dialect.table.record_name _ record found, rfl⟩

theorem built_literal (dialect : Dialect) (token : Located Token) (instruction : Instruction) (children : List Node)
    (built : dialect.Built (.mk token (.literal instruction) children)) :
    IsLiteral token.value.kind instruction.record.name ∧ instruction.immediates = [token.value.text] := by
  obtain ⟨before, after, settled⟩ := dialect.built_parts token _ children built
  cases settled with
  | literal name record named found =>
      refine ⟨?_, rfl⟩
      rw [dialect.table.record_name _ record found]
      exact named

theorem built_scratch (dialect : Dialect) (token : Located Token) (instruction : Instruction) (children : List Node)
    (built : dialect.Built (.mk token (.scratch instruction) children)) (written : Written token) :
    token.value.IsAtom ∧ (instruction.record.name = "load" ∨ instruction.record.name = "store") ∧
      ∃ slot : Nat, instruction.immediates = [toString slot] := by
  obtain ⟨before, after, settled⟩ := dialect.built_parts token _ children built
  cases settled with
  | load record slot named _ _ found =>
      exact ⟨written_atom token written _ named (by simp), .inl (dialect.table.record_name _ record found), slot, rfl⟩
  | store record slot _ named _ _ found =>
      exact ⟨written_atom token written _ named (by simp), .inr (dialect.table.record_name _ record found), slot, rfl⟩

theorem built_reference (dialect : Dialect) (token : Located Token) (bound : Literal Node) (children : List Node)
    (built : dialect.Built (.mk token (.reference bound) children)) (written : Written token) : token.value.IsAtom := by
  obtain ⟨before, after, settled⟩ := dialect.built_parts token _ children built
  cases settled with
  | reference _ named => exact written_atom token written _ named (by simp)

theorem built_label (dialect : Dialect) (token : Located Token) (children : List Node)
    (built : dialect.Built (.mk token .label children)) (written : Written token) : token.value.IsAtom := by
  obtain ⟨before, after, settled⟩ := dialect.built_parts token _ children built
  cases settled with
  | label named => exact written_atom token written _ named (by simp)

theorem opcode_atomic (dialect : Dialect) (token : Token) (atom : token.IsAtom) (c : Char)
    (member : c ∈ (dialect.opcodeName token).toList) : Scanner.isAtomic c = true := by
  rw [opcodeName] at member
  split at member
  · rw [String.toList_ofList] at member
    exact token.atom_head atom c (List.mem_of_mem_drop member)
  · exact token.atom_head atom c member

section

variable {dialect : Dialect} {root : Node} {allocations : Allocations}
variable (ledger : dialect.Ledger Written [root] allocations)

include ledger

theorem ledger_regular (other : Node) (reached : root.Involves other) : other.Regular :=
  dialect.built_regular other (ledger_built ledger root other root.mem_postorder_self reached).1

theorem ledger_performed (other : Node) (member : other ∈ root.performed) : dialect.Built other ∧ Written other.token :=
  ledger_built ledger root other root.mem_postorder_self (root.performed_involved other member)

theorem ledger_literal (node : Node) (literal : Literal Node) (member : node ∈ root.performed)
    (refers : node.kind = .reference literal) : dialect.Built literal.node ∧ Written literal.token :=
  ledger_built ledger root literal.node root.mem_postorder_self
    (.literal node literal (root.performed_involved node member) refers)

end

end Dialect

end TealForms
