import TealForms.Compile
import TealForms.Proofs.Allocations.Fresh
import TealForms.Proofs.Allocations.Slots
import TealForms.Proofs.Build.Settled
import TealForms.Proofs.Forms.History
import TealForms.Proofs.Node.Traversal
import TealForms.Proofs.Token.Spelling

set_option autoImplicit false

namespace TealForms

namespace Node

def ownLabels : Node → List String
  | .mk token .label _ => [token.value.labelName]
  | .mk _ (.case label) _ | .mk _ (.choice label) _ => [label]
  | .mk _ (.loop label) _ => [label, loopEnd label]
  | _ => []

def binding? : Node → Option (String × Literal Node)
  | .mk token .definition children =>
      match significant children with
      | [value] => value.literal?.map (token.value.text, ·)
      | _ => none
  | _ => none

end Node

namespace Allocations

theorem constant_some (allocations : Allocations) (name : String) (literal : Literal Node)
    (found : allocations.constant? name = some literal) : (name, literal) ∈ allocations.constants := by
  obtain ⟨entry, located, same⟩ := Option.map_eq_some_iff.mp found
  have named : entry.1 = name := by simpa using List.find?_some located
  rw [← named, ← same]
  exact List.mem_of_find?_eq_some located

theorem constant_none (allocations : Allocations) (name : String) (absent : allocations.constant? name = none) :
    name ∉ allocations.constants.map Prod.fst := by
  intro member
  obtain ⟨entry, known, named⟩ := List.mem_map.mp member
  have missing := List.find?_eq_none.mp (Option.map_eq_none_iff.mp absent) entry known
  simp [named] at missing

end Allocations

namespace Dialect

theorem settled_labels (dialect : Dialect) (before after : Allocations) (token : Located Token) (children : List Node)
    (kind : Kind Node) (settled : dialect.Settled before token.value children kind after) :
    after.labels = before.labels ++ Node.ownLabels (.mk token kind children) := by
  cases settled with
  | store record slot after _ _ allocated =>
      simp [Node.ownLabels, (before.allocate_slot_others after _ _ _ allocated).1]
  | label => rfl
  | case => rfl
  | loop => rfl
  | choice => rfl
  | _ => simp [Node.ownLabels, Allocations.bind]

theorem settled_constants (dialect : Dialect) (before after : Allocations) (token : Located Token)
    (children : List Node) (kind : Kind Node) (settled : dialect.Settled before token.value children kind after) :
    after.constants = before.constants ++ (Node.binding? (.mk token kind children)).toList := by
  cases settled with
  | store record slot after _ _ allocated =>
      simp [Node.binding?, (before.allocate_slot_others after _ _ _ allocated).2]
  | definition value literal _ single read =>
      simp [Node.binding?, single, read, Allocations.bind]
  | _ => simp [Node.binding?, Allocations.allocateLabel, Allocations.declare]

theorem settled_distinct (dialect : Dialect) (before after : Allocations) (token : Token) (children : List Node)
    (kind : Kind Node) (settled : dialect.Settled before token children kind after) (distinct : before.labels.Nodup) :
    after.labels.Nodup := by
  cases settled with
  | store record slot after _ _ allocated =>
      rw [(before.allocate_slot_others after _ _ _ allocated).1]
      exact distinct
  | label _ fresh =>
      apply List.Nodup.append distinct (by simp)
      intro name member here
      rw [List.mem_singleton.mp here] at member
      exact fresh member
  | case => exact before.allocate_label_distinct .case distinct
  | loop => exact before.allocate_label_distinct .loop distinct
  | choice => exact before.allocate_label_distinct .choice distinct
  | _ => exact distinct

theorem settled_single (dialect : Dialect) (before after : Allocations) (token : Token) (children : List Node)
    (kind : Kind Node) (settled : dialect.Settled before token children kind after)
    (single : (before.constants.map Prod.fst).Nodup) : (after.constants.map Prod.fst).Nodup := by
  cases settled with
  | store record slot after _ _ allocated =>
      rw [(before.allocate_slot_others after _ _ _ allocated).2]
      exact single
  | definition value literal _ _ _ fresh =>
      have absent := before.constant_none token.text fresh
      rw [Allocations.bind, List.map_append]
      apply List.Nodup.append single (by simp)
      intro name member here
      rw [List.mem_singleton.mp here] at member
      exact absent member
  | _ => exact single

def Built (dialect : Dialect) (node : Node) : Prop :=
  ∃ before after, dialect.Settled before node.token.value node.children node.kind after

theorem built_parts (dialect : Dialect) (token : Located Token) (kind : Kind Node) (children : List Node)
    (built : dialect.Built (.mk token kind children)) :
    ∃ before after, dialect.Settled before token.value children kind after := built

-- The reserved labels and the bound constants are those of the nodes, in the order of building, and nothing is handed
-- out twice.
structure Ledger (dialect : Dialect) (origin : Located Token → Prop) (forest : List Node) (allocations : Allocations) :
    Prop where
  sourced : ∀ node ∈ Node.postorderAll forest, origin node.token
  built : ∀ node ∈ Node.postorderAll forest, dialect.Built node
  labels : allocations.labels = (Node.postorderAll forest).flatMap Node.ownLabels
  distinct : allocations.labels.Nodup
  constants : allocations.constants = (Node.postorderAll forest).filterMap Node.binding?
  single : (allocations.constants.map Prod.fst).Nodup
  known : ∀ node ∈ Node.postorderAll forest, ∀ literal, node.kind = .reference literal →
    (node.token.value.text, literal) ∈ allocations.constants

theorem ledger_empty (dialect : Dialect) (origin : Located Token → Prop) : dialect.Ledger origin [] {} := by
  constructor <;> simp [Node.postorderAll]

theorem postorder_build (rest children : List Node) (token : Located Token) (kind : Kind Node) :
    Node.postorderAll (rest ++ [.mk token kind children]) =
      Node.postorderAll (rest ++ children) ++ [.mk token kind children] := by
  simp [Node.postorder_all_append, Node.postorderAll, Node.postorder]

theorem ledger_step (dialect : Dialect) (origin : Located Token → Prop) :
    dialect.Preserves origin (dialect.Ledger origin) := by
  intro rest children before token node after here ledger built
  obtain ⟨kind, rfl, settled⟩ := dialect.build_settled before after token children node built
  have constants := dialect.settled_constants before after token children kind settled
  have either : ∀ node ∈ Node.postorderAll (rest ++ [.mk token kind children]),
      node ∈ Node.postorderAll (rest ++ children) ∨ node = .mk token kind children := by
    intro node member
    simpa [postorder_build] using member
  constructor
  · intro node member
    rcases either node member with old | new
    · exact ledger.sourced node old
    · rw [new]
      exact here
  · intro node member
    rcases either node member with old | new
    · exact ledger.built node old
    · rw [new]
      exact ⟨before, after, settled⟩
  · rw [dialect.settled_labels before after token children kind settled, ledger.labels, postorder_build]
    simp
  · exact dialect.settled_distinct before after token.value children kind settled ledger.distinct
  · rw [constants, ledger.constants, postorder_build, List.filterMap_append]
    cases bound : Node.binding? (.mk token kind children) <;> simp [bound]
  · exact dialect.settled_single before after token.value children kind settled ledger.single
  · intro node member literal refers
    rcases either node member with old | new
    · rw [constants]
      exact List.mem_append_left _ (ledger.known node old literal refers)
    · subst new
      cases refers
      cases settled with
      | reference _ _ _ found => exact before.constant_some token.value.text literal found

def Written (token : Located Token) : Prop := token.value.Spelled ∨ token.value = .root

theorem parse_checked (dialect : Dialect) (before : Allocations) (start : Location) (tokens : List Scanned)
    (check : Node → Bool) (checked : (dialect.parse before start tokens).1.toOption.any check = true) :
    ∃ root allocations, dialect.parse before start tokens = (.ok root, allocations) ∧ check root = true := by
  generalize dialect.parse before start tokens = parsed at checked ⊢
  obtain ⟨result, allocations⟩ := parsed
  cases result with
  | error fault => cases checked
  | ok root => exact ⟨root, allocations, rfl, checked⟩

theorem compile_checked (dialect : Dialect) (source : Source) (check : Node → Bool)
    (checked : (dialect.compile source).1.toOption.any check = true) :
    ∃ root allocations, dialect.compile source = (.ok root, allocations) ∧ check root = true :=
  dialect.parse_checked {} source.start source.scan check checked

theorem parse_refused (dialect : Dialect) (before : Allocations) (start : Location) (tokens : List Scanned)
    (check : Located Fault → Bool)
    (checked : (match (dialect.parse before start tokens).1 with
      | .error fault => check fault
      | .ok _ => false) = true) :
    ∃ fault allocations, dialect.parse before start tokens = (.error fault, allocations) ∧ check fault = true := by
  generalize dialect.parse before start tokens = parsed at checked ⊢
  obtain ⟨result, allocations⟩ := parsed
  cases result with
  | error fault => exact ⟨fault, allocations, rfl, checked⟩
  | ok root => cases checked

theorem compile_refused (dialect : Dialect) (source : Source) (check : Located Fault → Bool)
    (checked : (match (dialect.compile source).1 with
      | .error fault => check fault
      | .ok _ => false) = true) :
    ∃ fault allocations, dialect.compile source = (.error fault, allocations) ∧ check fault = true :=
  dialect.parse_refused {} source.start source.scan check checked

theorem compile_ledger (dialect : Dialect) (source : Source) (root : Node) (allocations : Allocations)
    (compiled : dialect.compile source = (.ok root, allocations)) : dialect.Ledger Written [root] allocations :=
  parse_preserves (dialect.ledger_step Written) source.start source.scan
    (fun token member => .inl (source.scanner.all_spelled token member)) (.inr rfl) {} allocations
    (dialect.ledger_empty Written) root compiled

end Dialect

namespace Node

theorem binding_some (node : Node) (name : String) (literal : Literal Node)
    (bound : node.binding? = some (name, literal)) :
    node.kind = .definition ∧ node.token.value.text = name ∧ significant node.children = [literal.node] := by
  obtain ⟨token, kind, children⟩ := node
  cases kind with
  | definition =>
      simp only [binding?] at bound
      split at bound
      · rename_i value single
        obtain ⟨read, found, same⟩ := Option.map_eq_some_iff.mp bound
        cases same
        refine ⟨rfl, rfl, ?_⟩
        obtain ⟨origin, kind, below⟩ := value
        cases kind with
        | literal instruction =>
            cases found
            exact single
        | _ => cases found
      · cases bound
  | _ => cases bound

end Node

namespace Dialect

section

variable {dialect : Dialect} {origin : Located Token → Prop} {root : Node} {allocations : Allocations}
variable (ledger : dialect.Ledger origin [root] allocations)

include ledger

theorem ledger_reference (node : Node) (literal : Literal Node) (member : node ∈ root.postorder)
    (refers : node.kind = .reference literal) :
    ∃ definition ∈ root.postorder, definition.binding? = some (node.token.value.text, literal) := by
  have known := ledger.known node (by simpa [Node.postorderAll] using member) literal refers
  rw [ledger.constants] at known
  simpa [Node.postorderAll] using List.mem_filterMap.mp known

theorem ledger_literal_below (reference : Node) (literal : Literal Node) (member : reference ∈ root.postorder)
    (refers : reference.kind = .reference literal) : ∃ parent ∈ root.postorder, literal.node ∈ parent.children := by
  obtain ⟨definition, defined, bound⟩ := ledger_reference ledger reference literal member refers
  have single := (definition.binding_some _ literal bound).2.2
  have below : literal.node ∈ Node.significant definition.children := by simp [single]
  exact ⟨definition, defined, (List.mem_filter.mp below).1⟩

theorem ledger_involved (node other : Node) (member : node ∈ root.postorder) (reached : node.Involves other) :
    other ∈ root.postorder := by
  induction reached with
  | self => exact member
  | child parent other _ below ih => exact root.mem_postorder_child parent other ih below
  | literal reference literal _ refers ih =>
      obtain ⟨parent, inside, below⟩ := ledger_literal_below ledger reference literal ih refers
      exact root.mem_postorder_child parent literal.node inside below

theorem ledger_parent (node other : Node) (member : node ∈ root.postorder) (reached : node.Involves other) :
    other = node ∨ ∃ parent ∈ root.postorder, other ∈ parent.children := by
  cases reached with
  | self => exact .inl rfl
  | child parent _ reached below => exact .inr ⟨parent, ledger_involved ledger node parent member reached, below⟩
  | literal reference literal reached refers =>
      exact .inr (ledger_literal_below ledger reference literal
        (ledger_involved ledger node reference member reached) refers)

theorem ledger_built (node other : Node) (member : node ∈ root.postorder) (reached : node.Involves other) :
    dialect.Built other ∧ origin other.token := by
  have inside : other ∈ Node.postorderAll [root] := by
    simpa [Node.postorderAll] using ledger_involved ledger node other member reached
  exact ⟨ledger.built other inside, ledger.sourced other inside⟩

end

end Dialect

end TealForms
