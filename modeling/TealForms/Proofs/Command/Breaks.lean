import TealForms.Proofs.Command.Compiled

set_option autoImplicit false

namespace TealForms

namespace Text

-- The parts of a text, each up to a mark and with it; what follows the last mark is a part of its own.
def cutAfter (mark : Char) : List Char → List (List Char)
  | [] => []
  | c :: rest =>
      if c = mark then [c] :: cutAfter mark rest
      else match cutAfter mark rest with
        | [] => [[c]]
        | first :: others => (c :: first) :: others

theorem cut_line (mark : Char) (line rest : List Char) (absent : mark ∉ line) :
    cutAfter mark (line ++ mark :: rest) = (line ++ [mark]) :: cutAfter mark rest := by
  induction line with
  | nil => simp [cutAfter]
  | cons c line ih =>
      have other : c ≠ mark := fun same => absent (by simp [same])
      have later := ih fun member => absent (by simp [member])
      simp [cutAfter, other, later]

theorem cut_inside (mark : Char) (text part : List Char) (member : part ∈ cutAfter mark text) :
    mark ∉ part.dropLast := by
  induction text generalizing part with
  | nil => simp [cutAfter] at member
  | cons c rest ih =>
      rw [cutAfter] at member
      by_cases same : c = mark
      · rw [if_pos same] at member
        rcases List.mem_cons.mp member with first | later
        · simp [first]
        · exact ih part later
      · rw [if_neg same] at member
        cases parts : cutAfter mark rest with
        | nil =>
            rw [parts] at member
            simp [List.mem_singleton.mp member]
        | cons head others =>
            rw [parts] at ih member
            rcases List.mem_cons.mp member with first | later
            · rw [first]
              cases head with
              | nil => simp
              | cons next tail =>
                  have inside := ih (next :: tail) (by simp)
                  simpa [List.dropLast, Ne.symm same] using inside
            · exact ih part (by simp [later])

theorem cut_lines_iff (mark : Char) (lines : List (List Char)) :
    cutAfter mark (lines.flatMap fun line => line ++ [mark]) = lines.map (fun line => line ++ [mark]) ↔
      ∀ line ∈ lines, mark ∉ line := by
  constructor
  · intro cut line member
    have part : line ++ [mark] ∈ lines.map fun line => line ++ [mark] := List.mem_map_of_mem member
    rw [← cut] at part
    simpa using cut_inside mark _ _ part
  · intro absent
    induction lines with
    | nil => rfl
    | cons line rest ih =>
        have later := ih fun other member => absent other (by simp [member])
        simp only [List.flatMap_cons, List.append_assoc, List.singleton_append, List.map_cons] at later ⊢
        rw [cut_line mark line _ (absent line (by simp)), later]

def Unbroken (text : String) : Prop := '\n' ∉ text.toList

instance (text : String) : Decidable (Unbroken text) := inferInstanceAs (Decidable (¬ _))

theorem unbroken_append (first second : String) : Unbroken (first ++ second) ↔ Unbroken first ∧ Unbroken second := by
  simp [Unbroken]

theorem unbroken_number (number : Nat) : Unbroken (toString number) := by
  intro member
  rw [Nat.toString_eq_repr, Nat.toList_repr] at member
  exact absurd (Nat.isDigit_of_mem_toDigits (by decide) (by decide) member) (by decide)

theorem unbroken_atomic (text : String) (atomic : ∀ c ∈ text.toList, Scanner.isAtomic c = true) : Unbroken text := by
  intro member
  exact absurd (atomic '\n' member) (by decide)

end Text

theorem unbroken_label (family : Family) (number : Nat) : Text.Unbroken (family.label number) := by
  have stem : Text.Unbroken family.stem := by
    cases family <;> decide
  rw [Family.label, Text.unbroken_append, Text.unbroken_append]
  exact ⟨⟨stem, by decide⟩, Text.unbroken_number number⟩

theorem unbroken_statement (instruction : Instruction) :
    Text.Unbroken instruction.statement ↔
      Text.Unbroken instruction.record.name ∧ ∀ immediate ∈ instruction.immediates, Text.Unbroken immediate := by
  rw [Text.Unbroken, Instruction.statement, String.toList_ofList, Text.mem_rejoin]
  simp [Text.Unbroken]

theorem unbroken_commented (statement comment : String) :
    Text.Unbroken (Line.instruction statement (some comment)).text ↔
      Text.Unbroken statement ∧ Text.Unbroken comment := by
  have bar : Text.Unbroken " // " := by decide
  apply (Text.unbroken_append _ _).trans
  rw [Text.unbroken_append, and_iff_left bar]

theorem unbroken_label_line (name : String) (unbroken : Text.Unbroken name) : Text.Unbroken (Line.label name).text :=
  (Text.unbroken_append _ _).mpr ⟨unbroken, by decide⟩

namespace Node

def literalText? : Node → Option String
  | .mk token (.literal _) _ => some token.value.text
  | .mk _ (.reference bound) _ => some bound.token.value.text
  | _ => none

theorem assembly_cut_iff (node : Node) :
    (Text.cutAfter '\n' node.assembly.toList = node.lines.map fun line => line.text.toList ++ ['\n']) ↔
      ∀ line ∈ node.lines, Text.Unbroken line.text := by
  have whole : node.assembly.toList =
      (node.lines.map fun line => line.text.toList).flatMap fun line => line ++ ['\n'] := by
    rw [assembly, Line.joined, String.toList_join, List.flatMap_map, List.flatMap_map]
    simp
  have parts : (node.lines.map fun line => line.text.toList ++ ['\n']) =
      (node.lines.map fun line => line.text.toList).map fun line => line ++ ['\n'] := by
    rw [List.map_map]
    rfl
  rw [whole, parts, Text.cut_lines_iff, List.forall_mem_map]
  rfl

end Node

namespace Dialect

theorem built_label_unbroken (dialect : Dialect) (node : Node) (built : dialect.Built node)
    (written : Written node.token) (name : String) (member : name ∈ node.ownLabels) : Text.Unbroken name := by
  obtain ⟨token, kind, children⟩ := node
  obtain ⟨before, after, settled⟩ := dialect.built_parts token kind children built
  cases kind with
  | label =>
      rw [List.mem_singleton.mp member]
      exact Text.unbroken_atomic _ (token.value.atom_label (dialect.built_label token children built written))
  | case label =>
      rw [List.mem_singleton.mp member]
      cases settled with
      | case => exact unbroken_label .case _
  | choice label =>
      rw [List.mem_singleton.mp member]
      cases settled with
      | choice => exact unbroken_label .choice _
  | loop label =>
      have own : Text.Unbroken label := by
        cases settled with
        | loop => exact unbroken_label .loop _
      rcases List.mem_pair.mp member with first | last
      · rw [first]
        exact own
      · rw [last, loopEnd, Text.unbroken_append]
        exact ⟨own, by decide⟩
  | _ => cases member

theorem literal_unbroken (dialect : Dialect) (token : Located Token) (instruction : Instruction) (children : List Node)
    (built : dialect.Built (.mk token (.literal instruction) children)) :
    Text.Unbroken instruction.statement ↔ Text.Unbroken token.value.text := by
  obtain ⟨named, immediates⟩ := dialect.built_literal token instruction children built
  have name : Text.Unbroken instruction.record.name := by
    rcases named with ⟨_, same⟩ | ⟨_, same⟩ <;> (rw [same]; decide)
  rw [unbroken_statement, immediates]
  simp [name]

theorem own_unbroken_iff (dialect : Dialect) (node : Node) (built : dialect.Built node) (written : Written node.token)
    (bound : ∀ literal, node.kind = .reference literal → dialect.Built literal.node) :
    (∀ command ∈ node.own, Text.Unbroken command.line.text) ↔
      ∀ text, node.literalText? = some text → Text.Unbroken text := by
  obtain ⟨token, kind, children⟩ := node
  cases kind with
  | root version =>
      have word : Text.Unbroken "#pragma version " := by decide
      have pragma : Text.Unbroken (Line.pragma version).text :=
        (Text.unbroken_append _ _).mpr ⟨word, Text.unbroken_number version⟩
      refine iff_of_true ?_ (fun text literal => by cases literal)
      intro command member
      rw [List.mem_singleton.mp member]
      exact pragma
  | opcode instruction =>
      obtain ⟨atom, named, args⟩ := dialect.built_opcode token instruction children built written
      have statement : Text.Unbroken instruction.statement := by
        rw [unbroken_statement, named, args]
        exact ⟨Text.unbroken_atomic _ (dialect.opcode_atomic token.value atom),
          fun arg listed => Text.unbroken_atomic arg (token.value.atom_args atom arg listed)⟩
      refine iff_of_true ?_ (fun text literal => by cases literal)
      intro command member
      rw [List.mem_singleton.mp member]
      exact statement
  | literal instruction =>
      have same := dialect.literal_unbroken token instruction children built
      constructor
      · intro unbroken text literal
        cases literal
        exact same.mp (unbroken (.plain instruction none) (List.mem_singleton_self _))
      · intro literals command member
        rw [List.mem_singleton.mp member]
        exact same.mpr (literals token.value.text rfl)
  | scratch instruction =>
      obtain ⟨atom, named, slot, immediates⟩ := dialect.built_scratch token instruction children built written
      have name : Text.Unbroken instruction.record.name := by
        rcases named with same | same <;> (rw [same]; decide)
      have statement : Text.Unbroken instruction.statement := by
        rw [unbroken_statement, immediates]
        refine ⟨name, ?_⟩
        intro immediate member
        rw [List.mem_singleton.mp member]
        exact Text.unbroken_number slot
      have comment := Text.unbroken_atomic token.value.text atom.atomic
      refine iff_of_true ?_ (fun text literal => by cases literal)
      intro command member
      rw [List.mem_singleton.mp member]
      exact (unbroken_commented _ _).mpr ⟨statement, comment⟩
  | reference literal =>
      have atom := dialect.built_reference token literal children built written
      have comment := Text.unbroken_atomic token.value.text atom.atomic
      have same := dialect.literal_unbroken literal.token literal.instruction literal.children (bound literal rfl)
      constructor
      · intro unbroken text refers
        cases refers
        have line := unbroken (.plain literal.instruction (some token.value.text)) (List.mem_singleton_self _)
        exact same.mp ((unbroken_commented _ _).mp line).1
      · intro literals command member
        rw [List.mem_singleton.mp member]
        exact (unbroken_commented _ _).mpr ⟨same.mpr (literals literal.token.value.text rfl), comment⟩
  | label | case | choice | loop =>
      refine iff_of_true ?_ (fun text literal => by cases literal)
      intro command member
      cases command with
      | label name =>
          have reserved := Node.own_label _ name member
          exact unbroken_label_line name (dialect.built_label_unbroken _ built written name reserved)
      | _ => simp [Node.own] at member
  | transaction =>
      refine iff_of_true ?_ (fun text literal => by cases literal)
      intro command member
      rcases List.mem_pair.mp member with begins | submits
      · rw [begins]
        decide
      · rw [submits]
        decide
  | definition | comment | group => simp [Node.own, Node.literalText?]

section

variable {dialect : Dialect} {root : Node} {allocations : Allocations}
variable (ledger : dialect.Ledger Written [root] allocations)

include ledger

theorem performed_unbroken (node : Node) (member : node ∈ root.performed) :
    (∀ command ∈ node.own, Text.Unbroken command.line.text) ↔
      ∀ text, node.literalText? = some text → Text.Unbroken text := by
  obtain ⟨built, written⟩ := ledger_performed ledger node member
  exact dialect.own_unbroken_iff node built written fun literal refers =>
    (ledger_literal ledger node literal member refers).1

theorem target_unbroken (command : Command) (target : String) (member : command ∈ root.commands)
    (goes : command.target? = some target) : Text.Unbroken target := by
  obtain ⟨node, performed, reserved⟩ := root.target_reserved command target goes member
  obtain ⟨built, written⟩ := ledger_performed ledger node performed
  exact dialect.built_label_unbroken node built written target reserved

theorem lines_unbroken_iff :
    (∀ line ∈ root.lines, Text.Unbroken line.text) ↔
      ∀ text ∈ root.performed.filterMap Node.literalText?, Text.Unbroken text := by
  have regular := ledger_regular ledger
  constructor
  · intro unbroken text member
    obtain ⟨node, performed, literal⟩ := List.mem_filterMap.mp member
    refine (performed_unbroken ledger node performed).mp ?_ text literal
    intro command own
    exact unbroken command.line (List.mem_map_of_mem (root.own_emitted regular node performed command own))
  · intro literals line member
    obtain ⟨command, emitted, same⟩ := List.mem_map.mp member
    rw [← same]
    by_cases branch : command.isBranch = true
    · cases command with
      | branchIfZero target =>
          have word : Text.Unbroken "bz " := by decide
          exact (Text.unbroken_append _ _).mpr ⟨word, target_unbroken ledger _ target emitted rfl⟩
      | branch target =>
          have word : Text.Unbroken "b " := by decide
          exact (Text.unbroken_append _ _).mpr ⟨word, target_unbroken ledger _ target emitted rfl⟩
      | _ => cases branch
    · obtain ⟨node, performed, own⟩ := root.emitted_own regular command (Bool.eq_false_iff.mpr branch) emitted
      refine (performed_unbroken ledger node performed).mpr ?_ command own
      intro text literal
      exact literals text (List.mem_filterMap.mpr ⟨node, performed, literal⟩)

end

/-- Every line is one line of the text exactly if no literal that is emitted has a line break. -/
theorem compiled_lines_unbroken_iff (dialect : Dialect) (source : Source) (root : Node) (allocations : Allocations)
    (compiled : dialect.compile source = (.ok root, allocations)) :
    ((∀ line ∈ root.lines, Text.Unbroken line.text) ∧
      Text.cutAfter '\n' root.assembly.toList = root.lines.map fun line => line.text.toList ++ ['\n']) ↔
    ∀ text ∈ root.performed.filterMap Node.literalText?, Text.Unbroken text := by
  have ledger := dialect.compile_ledger source root allocations compiled
  rw [← lines_unbroken_iff ledger, root.assembly_cut_iff, and_self]

theorem quoted_space_unbroken : ∃ root allocations,
    standard.compile (.ofString "(@c \"a b\") (log (concat @c \"c\"))" "space") = (.ok root, allocations) ∧
    root.performed.filterMap Node.literalText? = ["\"a b\"", "\"c\""] ∧
    (∀ line ∈ root.lines, Text.Unbroken line.text) ∧
    Text.cutAfter '\n' root.assembly.toList = root.lines.map fun line => line.text.toList ++ ['\n'] := by
  let source : Source := .ofString "(@c \"a b\") (log (concat @c \"c\"))" "space"
  obtain ⟨root, allocations, compiled, checked⟩ := standard.compile_checked source
    (fun root => root.performed.filterMap Node.literalText? = ["\"a b\"", "\"c\""]) (by decide +kernel)
  have texts : root.performed.filterMap Node.literalText? = ["\"a b\"", "\"c\""] := of_decide_eq_true checked
  have unbroken : ∀ text ∈ root.performed.filterMap Node.literalText?, Text.Unbroken text := by
    rw [texts]
    decide
  exact ⟨root, allocations, compiled, texts,
    (compiled_lines_unbroken_iff standard source root allocations compiled).mpr unbroken⟩

theorem quoted_break_kept : ∃ root allocations,
    standard.compile (.ofString "\"a\nb\"" "break") = (.ok root, allocations) ∧
    ¬ ∀ line ∈ root.lines, Text.Unbroken line.text := by
  obtain ⟨root, allocations, compiled, checked⟩ := standard.compile_checked (.ofString "\"a\nb\"" "break")
    (fun root => root.lines.any fun line => ¬ Text.Unbroken line.text) (by decide +kernel)
  refine ⟨root, allocations, compiled, ?_⟩
  intro unbroken
  obtain ⟨line, member, broken⟩ := List.any_eq_true.mp checked
  exact of_decide_eq_true broken (unbroken line member)

end Dialect

end TealForms
