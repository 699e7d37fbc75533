import Mathlib.Data.List.Pairwise
import TealForms.Proofs.Command.Compiled

set_option autoImplicit false

namespace TealForms

namespace Node

-- The labels that a reference repeats, and those that a definition keeps for its references.
def carried : Node → List String
  | .mk _ (.reference bound) _ => (placedAll bound.children).flatMap ownLabels
  | _ => []

def housed : Node → List String
  | .mk _ .definition children => (placedAll children).flatMap ownLabels
  | _ => []

theorem steady_labels (commands : List Command) :
    (Command.steady commands).filterMap Command.label? = commands.filterMap Command.label? := by
  induction commands with
  | nil => rfl
  | cons command rest ih =>
      cases command with
      | label name => exact congrArg (name :: ·) ih
      | _ => exact ih

theorem commands_labels (node : Node) (regular : ∀ other, node.Involves other → other.Regular) :
    (node.commands.filterMap Command.label?).Perm (node.performed.flatMap ownLabels) := by
  have same := (steady_performed node regular).filterMap Command.label?
  rw [steady_labels, List.filterMap_flatMap] at same
  simpa only [own_labels] using same

theorem performed_all_labels (nodes : List Node)
    (each : ∀ node ∈ nodes,
      (node.performed.flatMap ownLabels).Perm (node.placed.flatMap ownLabels ++ node.performed.flatMap carried)) :
    ((performedAll nodes).flatMap ownLabels).Perm
      ((placedAll nodes).flatMap ownLabels ++ (performedAll nodes).flatMap carried) := by
  induction nodes with
  | nil => exact .nil
  | cons node rest ih =>
      have first := List.perm_iff_count.mp (each node (by simp))
      have later := List.perm_iff_count.mp (ih fun other member => each other (by simp [member]))
      apply List.perm_iff_count.mpr
      intro name
      have here := first name
      have there := later name
      simp only [performedAll, placedAll, List.flatMap_append, List.count_append] at here there ⊢
      omega

theorem placed_own (token : Located Token) (kind : Kind Node) (children : List Node)
    (emitted : kind ≠ .definition) (visible : kind ≠ .comment) (direct : ∀ bound, kind ≠ .reference bound) :
    placed (.mk token kind children) = placedAll children ++ [.mk token kind children] := by
  cases kind <;> simp_all [placed]

theorem performed_labels (node : Node) :
    (node.performed.flatMap ownLabels).Perm (node.placed.flatMap ownLabels ++ node.performed.flatMap carried) := by
  induction node using induction with
  | step token kind children ih ihLiteral =>
      cases kind with
      | definition => exact .nil
      | comment => exact .nil
      | reference bound =>
          have below := List.perm_iff_count.mp (performed_all_labels bound.children (ihLiteral bound rfl))
          apply List.perm_iff_count.mpr
          intro name
          have here := below name
          simp only [performed, placed, carried, ownLabels, List.flatMap_append, List.flatMap_singleton,
            List.count_append, List.count_nil] at here ⊢
          omega
      | _ =>
          have below := List.perm_iff_count.mp (performed_all_labels children ih)
          apply List.perm_iff_count.mpr
          intro name
          have here := below name
          rw [performed_own token _ children (by simp) (by simp) (by simp),
            placed_own token _ children (by simp) (by simp) (by simp)]
          simp only [carried, List.flatMap_append, List.flatMap_singleton, List.count_append, List.count_nil] at here ⊢
          omega

theorem housed_all_labels (nodes : List Node) (name : String)
    (each : ∀ node ∈ nodes, (node.placed.flatMap ownLabels ++ node.postorder.flatMap housed).count name ≤
      (node.postorder.flatMap ownLabels).count name) :
    ((placedAll nodes).flatMap ownLabels ++ (postorderAll nodes).flatMap housed).count name ≤
      ((postorderAll nodes).flatMap ownLabels).count name := by
  induction nodes with
  | nil => exact Nat.le_refl _
  | cons node rest ih =>
      have first := each node (by simp)
      have later := ih fun other member => each other (by simp [member])
      simp only [placedAll, postorderAll, List.flatMap_append, List.count_append] at first later ⊢
      omega

-- No label is both in the open and below a definition, or below two definitions, unless it is reserved twice.
theorem housed_labels (node : Node) (name : String) :
    (node.placed.flatMap ownLabels ++ node.postorder.flatMap housed).count name ≤
      (node.postorder.flatMap ownLabels).count name := by
  induction node using induction with
  | step token kind children ih _ =>
      have below := housed_all_labels children name ih
      cases kind with
      | definition | comment | reference =>
          simp only [placed, postorder, housed, ownLabels, List.flatMap_append, List.flatMap_singleton,
            List.flatMap_nil, List.count_append, List.count_nil] at below ⊢
          omega
      | _ =>
          rw [placed_own token _ children (by simp) (by simp) (by simp), postorder]
          simp only [housed, List.flatMap_append, List.flatMap_singleton, List.count_append, List.count_nil] at below ⊢
          omega

theorem carried_reference (node : Node) (filled : node.carried ≠ []) : ∃ bound, node.kind = .reference bound := by
  obtain ⟨token, kind, children⟩ := node
  cases kind with
  | reference bound => exact ⟨bound, rfl⟩
  | _ => exact absurd rfl filled

theorem placed_significant (nodes : List Node) : placedAll (significant nodes) = placedAll nodes := by
  induction nodes with
  | nil => rfl
  | cons node rest ih =>
      by_cases comment : node.isComment = true
      · have silent : placed node = [] := by
          obtain ⟨token, kind, children⟩ := node
          cases kind <;> simp_all [isComment, placed]
        rw [significant_comment node rest comment, ih, placedAll, silent, List.nil_append]
      · rw [significant_other node rest comment, placedAll, placedAll, ih]

theorem housed_binding (definition : Node) (name : String) (literal : Literal Node)
    (bound : definition.binding? = some (name, literal)) :
    definition.housed = (placedAll literal.children).flatMap ownLabels := by
  obtain ⟨kind, _, single⟩ := definition.binding_some name literal bound
  obtain ⟨token, _, children⟩ := definition
  cases kind
  have below : placedAll children = placedAll literal.children ++ [literal.node] := by
    rw [← placed_significant children]
    rw [show significant children = [literal.node] from single]
    simp [placedAll, Literal.node, placed]
  rw [housed, below]
  simp [Literal.node, ownLabels]

-- The constants that are referred to, each with labels below its literal, once for each time that these are emitted.
def repeated (root : Node) : List String :=
  (root.performed.filter fun node => !node.carried.isEmpty).map fun node => node.token.value.text

end Node

namespace Dialect

section

variable {dialect : Dialect} {root : Node} {allocations : Allocations}
variable (ledger : dialect.Ledger Written [root] allocations)

include ledger

theorem reserved_distinct : (root.placed.flatMap Node.ownLabels ++ root.postorder.flatMap Node.housed).Nodup := by
  have distinct := ledger.distinct
  rw [ledger.labels, Node.postorderAll, Node.postorderAll, List.append_nil] at distinct
  apply List.nodup_iff_count_le_one.mpr
  intro name
  exact Nat.le_trans (root.housed_labels name) (List.nodup_iff_count_le_one.mp distinct name)

theorem carried_housed (node : Node) (bound : Literal Node) (member : node ∈ root.performed)
    (refers : node.kind = .reference bound) :
    ∃ definition ∈ root.postorder, definition.binding? = some (node.token.value.text, bound) ∧
      node.carried = definition.housed := by
  have inside := ledger_involved ledger root node root.mem_postorder_self (root.performed_involved node member)
  obtain ⟨definition, defined, binds⟩ := ledger_reference ledger node bound inside refers
  refine ⟨definition, defined, binds, ?_⟩
  rw [definition.housed_binding _ bound binds]
  obtain ⟨token, kind, children⟩ := node
  cases refers
  rfl

theorem carried_disjoint (first second : Node) (firstMember : first ∈ root.performed)
    (secondMember : second ∈ root.performed) :
    List.Disjoint first.carried second.carried ↔
      (first.carried ≠ [] → second.carried ≠ [] → first.token.value.text ≠ second.token.value.text) := by
  by_cases firstFilled : first.carried = []
  · simp [firstFilled]
  by_cases secondFilled : second.carried = []
  · simp [secondFilled]
  obtain ⟨firstBound, firstRefers⟩ := first.carried_reference firstFilled
  obtain ⟨secondBound, secondRefers⟩ := second.carried_reference secondFilled
  obtain ⟨firstHome, firstDefined, firstBinds, firstHoused⟩ :=
    carried_housed ledger first firstBound firstMember firstRefers
  obtain ⟨secondHome, secondDefined, secondBinds, secondHoused⟩ :=
    carried_housed ledger second secondBound secondMember secondRefers
  constructor
  · intro disjoint _ _ same
    have firstKnown := List.mem_filterMap.mpr ⟨firstHome, firstDefined, firstBinds⟩
    have secondKnown := List.mem_filterMap.mpr ⟨secondHome, secondDefined, secondBinds⟩
    have single := ledger.single
    rw [ledger.constants, Node.postorderAll, Node.postorderAll, List.append_nil] at single
    have bindings := List.inj_on_of_nodup_map single firstKnown secondKnown same
    have repeats : first.carried = second.carried := by
      rw [firstHoused, secondHoused, firstHome.housed_binding _ _ firstBinds, secondHome.housed_binding _ _ secondBinds,
        (Prod.mk.inj bindings).2]
    obtain ⟨name, member⟩ := List.exists_mem_of_ne_nil _ firstFilled
    exact disjoint member (repeats ▸ member)
  · intro different
    have homes : firstHome ≠ secondHome := by
      intro same
      rw [same, secondBinds] at firstBinds
      exact different firstFilled secondFilled (Prod.mk.inj (Option.some.inj firstBinds)).1.symm
    have apart := (List.nodup_flatMap.mp (List.nodup_append.mp (reserved_distinct ledger)).2.1).2
    have symmetric : Std.Symm (Function.onFun List.Disjoint Node.housed) :=
      ⟨fun _ _ disjoint _ there here => disjoint here there⟩
    rw [firstHoused, secondHoused]
    exact apart.forall firstDefined secondDefined homes

theorem carried_distinct : (root.performed.flatMap Node.carried).Nodup ↔ root.repeated.Nodup := by
  have each : ∀ node ∈ root.performed, node.carried.Nodup := by
    intro node member
    by_cases filled : node.carried = []
    · rw [filled]
      exact List.nodup_nil
    · obtain ⟨bound, refers⟩ := node.carried_reference filled
      obtain ⟨definition, defined, _, housed⟩ := carried_housed ledger node bound member refers
      rw [housed]
      exact (List.nodup_flatMap.mp (List.nodup_append.mp (reserved_distinct ledger)).2.1).1 definition defined
  rw [List.nodup_flatMap, and_iff_right each, Node.repeated, List.Nodup, List.pairwise_map, List.pairwise_filter]
  refine List.Pairwise.iff_of_mem fun {first second} firstMember secondMember => ?_
  simpa using carried_disjoint ledger first second firstMember secondMember

theorem emitted_distinct : (root.lines.filterMap Line.label?).Nodup ↔ root.repeated.Nodup := by
  rw [root.lines_label, (root.commands_labels (ledger_regular ledger)).nodup_iff, root.performed_labels.nodup_iff,
    List.nodup_append, carried_distinct ledger]
  have reserved := List.nodup_append.mp (reserved_distinct ledger)
  constructor
  · exact fun parts => parts.2.1
  · intro distinct
    refine ⟨reserved.1, distinct, ?_⟩
    intro open' placed name carried
    obtain ⟨node, member, here⟩ := List.mem_flatMap.mp carried
    obtain ⟨bound, refers⟩ := node.carried_reference (List.ne_nil_of_mem here)
    obtain ⟨definition, defined, _, housed⟩ := carried_housed ledger node bound member refers
    exact reserved.2.2 open' placed name (List.mem_flatMap.mpr ⟨definition, defined, housed ▸ here⟩)

theorem target_emitted (command : Command) (target : String) (member : command ∈ root.commands)
    (goes : command.target? = some target) : target ∈ root.lines.filterMap Line.label? := by
  rw [root.lines_label, (root.commands_labels (ledger_regular ledger)).mem_iff]
  exact List.mem_flatMap.mpr (root.target_reserved command target goes member)

end

/-- No label line stands twice and every branch has one target line exactly if no constant with labels below its literal
is emitted through more than one reference. -/
theorem compiled_labels_unique_iff (dialect : Dialect) (source : Source) (root : Node) (allocations : Allocations)
    (compiled : dialect.compile source = (.ok root, allocations)) :
    ((root.lines.filterMap Line.label?).Nodup ∧ ∀ command ∈ root.commands, ∀ target, command.target? = some target →
      (root.lines.filterMap Line.label?).count target = 1) ↔ root.repeated.Nodup := by
  have ledger := dialect.compile_ledger source root allocations compiled
  constructor
  · intro unique
    exact (emitted_distinct ledger).mp unique.1
  · intro single
    have distinct := (emitted_distinct ledger).mpr single
    refine ⟨distinct, ?_⟩
    intro command member target goes
    exact List.count_eq_one_of_mem distinct (target_emitted ledger command target member goes)

theorem single_reference_labels_unique : ∃ root allocations,
    standard.compile (.ofString "(@c (1 (#case 1 (pop 2)))) (#while @c (#case 0 (pop 3)))" "single") =
      (.ok root, allocations) ∧
    root.repeated = ["@c"] ∧ (root.lines.filterMap Line.label?).Nodup ∧
    ∀ command ∈ root.commands, ∀ target, command.target? = some target →
      (root.lines.filterMap Line.label?).count target = 1 := by
  let source : Source := .ofString "(@c (1 (#case 1 (pop 2)))) (#while @c (#case 0 (pop 3)))" "single"
  obtain ⟨root, allocations, compiled, checked⟩ :=
    standard.compile_checked source (fun root => root.repeated = ["@c"]) (by decide +kernel)
  have repeats : root.repeated = ["@c"] := of_decide_eq_true checked
  have single : root.repeated.Nodup := by
    rw [repeats]
    exact List.nodup_singleton _
  exact ⟨root, allocations, compiled, repeats,
    (compiled_labels_unique_iff standard source root allocations compiled).mpr single⟩

theorem second_reference_repeats_label : ∃ root allocations,
    standard.compile (.ofString "(@c (1 (#case 1 (pop 2)))) @c @c" "double") = (.ok root, allocations) ∧
    ¬ (root.lines.filterMap Line.label?).Nodup := by
  obtain ⟨root, allocations, compiled, checked⟩ :=
    standard.compile_checked (.ofString "(@c (1 (#case 1 (pop 2)))) @c @c" "double")
      (fun root => root.lines.filterMap Line.label? = ["case_0", "case_0"]) (by decide +kernel)
  refine ⟨root, allocations, compiled, ?_⟩
  rw [of_decide_eq_true checked]
  decide

end Dialect

end TealForms
