import TealForms.Proofs.Build.Agreement
import TealForms.Proofs.Build.Definitions
import TealForms.Proofs.Command.Compiled

set_option autoImplicit false

namespace TealForms

namespace Command

-- The command without the name of a constant. Literals are commented with no other name.
def unnamed : Command → Command
  | .plain instruction comment =>
      .plain instruction (if instruction.record.name = "byte" ∨ instruction.record.name = "int" then none else comment)
  | command => command

def Unnames (command other : Command) : Prop := other = command.unnamed

theorem unnamed_lets : Dialect.Lets Unnames False where
  steady := by
    intro command other
    cases command with
    | plain => cases other
    | _ => rfl
  bare := by
    intro instruction
    simp [Unnames, unnamed]
  access := by
    rintro instruction name (accessed | accessed) <;> simp [Unnames, unnamed, accessed]
  linked := fun never => never.elim

end Command

namespace Node

theorem comments_return (children : List Node) (bare : significant children = []) :
    returnsAll children = 0 := by
  induction children with
  | nil => rfl
  | cons node rest ih =>
      by_cases comment : node.isComment = true
      · rw [significant_comment node rest comment] at bare
        obtain ⟨token, kind, below⟩ := node
        cases kind with
        | comment => rw [returnsAll, ih bare]; rfl
        | _ => cases comment
      · rw [significant_other node rest comment] at bare
        cases bare

theorem comments_commands (children : List Node) (bare : significant children = []) :
    commandsAll children = [] := by
  rw [← commands_all_significant, bare, commandsAll]

end Node

namespace Dialect

section

variable {dialect : Dialect}

theorem literal_word (literal : Literal Node) (built : dialect.Built literal.node) :
    literal.instruction.record.name = "byte" ∨ literal.instruction.record.name = "int" := by
  have named := (dialect.built_literal literal.token literal.instruction literal.children built).1
  exact named.imp And.right And.right

theorem reference_agrees (token other : Located Token) (literal : Literal Node) (children others : List Node)
    (named : literal.instruction.record.name = "byte" ∨ literal.instruction.record.name = "int")
    (alone : Node.significant literal.children = []) (bare : Node.significant others = []) :
    Node.Agrees Command.Unnames (.mk token (.reference literal) children)
      (.mk other (.literal literal.instruction) others) where
  comment := rfl
  case := rfl
  field := rfl
  returns := rfl
  commands := by
    rw [Node.commands, Node.commands, Node.comments_commands literal.children alone, Node.comments_commands others bare]
    exact .cons (by simp [Command.Unnames, Command.unnamed, named]) .nil
  cases := fun _ => .nil
  literal := fun _ read => by cases read

theorem own_unnamed (node : Node) (built : dialect.Built node) (command : Command) (emitted : command ∈ node.own)
    (changed : command.unnamed ≠ command) :
    ∃ literal, node.kind = .reference literal ∧
      command = .plain literal.instruction (some node.token.value.text) := by
  obtain ⟨token, kind, children⟩ := node
  cases kind with
  | reference literal => exact ⟨literal, rfl, List.mem_singleton.mp emitted⟩
  | scratch instruction =>
      obtain ⟨before, after, settled⟩ := dialect.built_parts token _ children built
      obtain rfl := List.mem_singleton.mp emitted
      refine absurd (Eq.symm (Command.unnamed_lets.access instruction token.value.text ?_)) changed
      cases settled with
      | load record slot _ _ _ found => exact .inl (dialect.table.record_name "load" record found)
      | store record slot after _ _ _ found => exact .inr (dialect.table.record_name "store" record found)
  | loop | transaction => rcases List.mem_pair.mp emitted with rfl | rfl <;> exact absurd rfl changed
  | _ => simp_all [Node.own, Command.unnamed]

section

variable {origin : Located Token → Prop} {root : Node} {allocations : Allocations}
variable (ledger : dialect.Ledger origin [root] allocations)

include ledger

theorem unnamed_reference (command : Command) (member : command ∈ root.commands) :
    command.unnamed ≠ command ↔ ∃ reference ∈ root.postorder, ∃ literal, reference.kind = .reference literal ∧
      command = .plain literal.instruction (some reference.token.value.text) := by
  constructor
  · intro changed
    have regular (other : Node) (reached : root.Involves other) : other.Regular :=
      dialect.built_regular other (ledger_built ledger root other root.mem_postorder_self reached).1
    have steady : command.isBranch = false := by
      cases command with
      | branchIfZero | branch => exact absurd rfl changed
      | _ => rfl
    obtain ⟨node, performed, emitted⟩ := root.emitted_own regular command steady member
    have involved := root.performed_involved node performed
    have built := (ledger_built ledger root node root.mem_postorder_self involved).1
    obtain ⟨literal, refers, same⟩ := own_unnamed node built command emitted changed
    exact ⟨node, ledger_involved ledger root node root.mem_postorder_self involved, literal, refers, same⟩
  · rintro ⟨reference, inside, literal, refers, rfl⟩
    have defined := reference_defined ledger reference literal inside refers
    have word := literal_word literal (definition_built ledger _ literal defined)
    simp [Command.unnamed, word]

end

end

end Dialect

end TealForms
