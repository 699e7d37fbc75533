import TealForms.Proofs.Command.Compiled
import TealForms.Proofs.Execution.Simulation

set_option autoImplicit false

namespace TealForms

namespace Instruction

theorem statement_operation (instruction : Instruction) (comment : Option String)
    (whole : ' ' ∉ instruction.record.name.toList) (noBranch : instruction.record.name ≠ "b")
    (noTest : instruction.record.name ≠ "bz") :
    (Line.instruction instruction.statement comment).operation =
      .perform (.instruction instruction.statement comment) := by
  have named : instruction.statement.toList.takeWhile (· != ' ') = instruction.record.name.toList := by
    rw [statement, String.toList_ofList]
    exact Text.rejoin_first ' ' _ _ whole
  rw [Line.operation]
  split
  · rename_i target text
    refine absurd (String.toList_inj.mp ?_) noBranch
    rw [← named, text]
    rfl
  · rename_i target text
    refine absurd (String.toList_inj.mp ?_) noTest
    rw [← named, text]
    rfl
  · rfl

end Instruction

theorem branch_operation (target : String) : (Command.branch target).line.operation = .branch target := by
  simp [Command.line, Line.operation]

theorem test_operation (target : String) : (Command.branchIfZero target).line.operation = .branchIfZero target := by
  simp [Command.line, Line.operation]

theorem operations_label (commands : List Command) :
    (operations commands).filterMap Operation.label? = commands.filterMap Command.label? := by
  have same : Operation.label? ∘ Command.operation = Command.label? := by
    funext command
    cases command <;> rfl
  rw [operations, List.filterMap_map, same]

namespace Dialect

theorem literal_name (kind : TokenKind) (name : String) (named : IsLiteral kind name) :
    ' ' ∉ name.toList ∧ name ≠ "b" ∧ name ≠ "bz" := by
  rcases named with ⟨_, rfl⟩ | ⟨_, rfl⟩ <;> decide

section

variable {dialect : Dialect} {root : Node} {allocations : Allocations}
variable (ledger : dialect.Ledger Written [root] allocations)
variable (plain : ∀ node ∈ root.postorder, ∀ instruction, node.kind = .opcode instruction →
  instruction.record.name ≠ "b" ∧ instruction.record.name ≠ "bz")

include ledger plain

theorem plain_name (node : Node) (member : node ∈ root.performed) (instruction : Instruction) (comment : Option String)
    (emitted : .plain instruction comment ∈ node.own) :
    ' ' ∉ instruction.record.name.toList ∧ instruction.record.name ≠ "b" ∧ instruction.record.name ≠ "bz" := by
  have inside := ledger_involved ledger root node root.mem_postorder_self (root.performed_involved node member)
  obtain ⟨built, written⟩ := ledger_performed ledger node member
  obtain ⟨token, kind, children⟩ := node
  cases kind with
  | opcode found =>
      cases List.mem_singleton.mp emitted
      obtain ⟨atom, named, _⟩ := dialect.built_opcode token instruction children built written
      refine ⟨?_, plain _ inside instruction rfl⟩
      intro blank
      rw [named] at blank
      exact absurd (dialect.opcode_atomic token.value atom ' ' blank) (by decide)
  | literal found =>
      cases List.mem_singleton.mp emitted
      exact literal_name _ _ (dialect.built_literal token instruction children built).1
  | scratch found =>
      cases List.mem_singleton.mp emitted
      obtain ⟨_, named, _⟩ := dialect.built_scratch token instruction children built written
      rcases named with named | named <;> (rw [named]; decide)
  | reference bound =>
      cases List.mem_singleton.mp emitted
      have boundBuilt := (ledger_literal ledger _ bound member rfl).1
      exact literal_name _ _ (dialect.built_literal bound.token bound.instruction bound.children boundBuilt).1
  | _ => simp [Node.own] at emitted

theorem lines_operations : root.lines.map Line.operation = operations root.commands := by
  rw [Node.lines, List.map_map]
  refine List.map_congr_left fun command member => ?_
  cases command with
  | plain instruction comment =>
      have regular := ledger_regular ledger
      obtain ⟨node, performed, emitted⟩ := Node.emitted_own root regular (.plain instruction comment) rfl member
      obtain ⟨whole, noBranch, noTest⟩ := plain_name ledger plain node performed instruction comment emitted
      exact instruction.statement_operation comment whole noBranch noTest
  | branchIfZero target => exact test_operation target
  | branch target => exact branch_operation target
  | beginTransaction => rfl
  | submitTransaction => rfl
  | pragma version => rfl
  | label name => rfl

end

/-- A program with no branches of its own and no label twice runs line by line as its tree evaluates, on any machine. -/
theorem compiled_lines_evaluate (dialect : Dialect) (source : Source) (root : Node) (allocations : Allocations)
    (compiled : dialect.compile source = (.ok root, allocations))
    (plain : ∀ node ∈ root.postorder, ∀ instruction, node.kind = .opcode instruction →
      instruction.record.name ≠ "b" ∧ instruction.record.name ≠ "bz")
    (distinct : (root.lines.filterMap Line.label?).Nodup) {σ : Type} (machine : Machine σ) (start final : σ) :
    machine.Completes root.lines start final ↔ Evaluates machine (.one root) start final := by
  have ledger := dialect.compile_ledger source root allocations compiled
  rw [Node.lines_label, ← operations_label] at distinct
  rw [Machine.Completes, lines_operations ledger plain]
  have whole : (Task.one root).place "" [] = operations root.commands := List.append_nil _
  have inside : (Task.one root).place "" [] <:+ operations root.commands := ⟨[], whole⟩
  constructor
  · intro completes
    obtain ⟨count, ran⟩ := completes
    have retraces : Retraces machine (operations root.commands) (.one root) :=
      (node_retraces distinct root (ledger_regular ledger)).1
    obtain ⟨middle, left, _, evaluates, ending⟩ :=
      retraces "" count [] start final inside (by rw [whole]; exact ran)
    have same : middle = final := by
      cases left with
      | zero => simpa [Task.landing, Machine.run] using ending
      | succ left => simp [Task.landing, Machine.run, Machine.step] at ending
    rw [← same]
    exact evaluates
  · intro evaluates
    have reaches := evaluates_reaches distinct (.one root) start final evaluates "" [] inside
    rw [whole] at reaches
    exact reaches

theorem nested_lines_evaluate : ∃ root allocations,
    standard.compile (.ofString "($n 9) (#while $n (#in (#case $n (pop 1)) (#case 0 (pop 2))) ($n (- $n 1)))"
      "nested") = (.ok root, allocations) ∧
    (∀ node ∈ root.postorder, ∀ instruction, node.kind = .opcode instruction →
      instruction.record.name ≠ "b" ∧ instruction.record.name ≠ "bz") ∧
    (root.lines.filterMap Line.label?).Nodup ∧
    ∀ (machine : Machine Nat) (start final : Nat),
      machine.Completes root.lines start final ↔ Evaluates machine (.one root) start final := by
  let source : Source :=
    .ofString "($n 9) (#while $n (#in (#case $n (pop 1)) (#case 0 (pop 2))) ($n (- $n 1)))" "nested"
  obtain ⟨root, allocations, compiled, checked⟩ := standard.compile_checked source
    (fun root => root.postorder.all (fun node => node.instruction?.all fun instruction =>
        instruction.record.name ≠ "b" ∧ instruction.record.name ≠ "bz") &&
      decide (root.lines.filterMap Line.label?).Nodup) (by decide +kernel)
  obtain ⟨names, labels⟩ := Bool.and_eq_true_iff.mp checked
  have distinct : (root.lines.filterMap Line.label?).Nodup := of_decide_eq_true labels
  have plain : ∀ node ∈ root.postorder, ∀ instruction, node.kind = .opcode instruction →
      instruction.record.name ≠ "b" ∧ instruction.record.name ≠ "bz" := by
    intro node member instruction kind
    have named := List.all_eq_true.mp names node member
    obtain ⟨token, _, children⟩ := node
    cases kind
    exact of_decide_eq_true named
  exact ⟨root, allocations, compiled, plain, distinct,
    fun machine start final => compiled_lines_evaluate standard source root allocations compiled plain distinct machine
      start final⟩

end Dialect

end TealForms
