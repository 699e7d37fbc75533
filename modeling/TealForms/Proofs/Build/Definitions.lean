import TealForms.Proofs.Build.Ledger

set_option autoImplicit false

namespace TealForms

namespace Node

def definitions (node : Node) : List (String × Literal Node) := node.postorder.filterMap binding?

def meaning? (node : Node) (name : String) : Option (Located Token) :=
  (node.definitions.find? fun entry => entry.1 = name).map fun entry => entry.2.token

-- Before each reference stands the definition of its name.
def Backed (nodes : List Node) : Prop :=
  ∀ front reference rest literal, nodes = front ++ reference :: rest → reference.kind = .reference literal →
    (reference.token.value.text, literal) ∈ front.filterMap binding?

theorem backed_snoc (nodes : List Node) (node : Node) (backed : Backed nodes)
    (known : ∀ literal, node.kind = .reference literal →
      (node.token.value.text, literal) ∈ nodes.filterMap binding?) : Backed (nodes ++ [node]) := by
  intro front reference rest literal split refers
  rcases List.eq_nil_or_concat rest with rfl | ⟨between, last, rfl⟩
  · obtain ⟨rfl, same⟩ := List.append_inj' split rfl
    cases same
    exact known literal refers
  · rw [List.concat_eq_append, ← List.cons_append, ← List.append_assoc] at split
    obtain ⟨rfl, _⟩ := List.append_inj' split rfl
    exact backed front reference between literal rfl refers

end Node

namespace Dialect

structure Assigned (forest : List Node) (allocations : Allocations) : Prop where
  constants : allocations.constants = (Node.postorderAll forest).filterMap Node.binding?
  backed : Node.Backed (Node.postorderAll forest)

theorem assigned_empty : Assigned [] {} := by
  refine ⟨rfl, ?_⟩
  intro front reference rest literal split
  simp [Node.postorderAll] at split

theorem assigned_step (dialect : Dialect) (origin : Located Token → Prop) : dialect.Preserves origin Assigned := by
  intro rest children before token node after _ assigned built
  obtain ⟨kind, rfl, settled⟩ := dialect.build_settled before after token children node built
  have constants := dialect.settled_constants before after token children kind settled
  rw [assigned.constants] at constants
  refine ⟨?_, ?_⟩
  · rw [constants, postorder_build, List.filterMap_append]
    cases bound : Node.binding? (.mk token kind children) <;> simp [bound]
  · rw [postorder_build]
    refine Node.backed_snoc _ _ assigned.backed ?_
    intro literal refers
    cases refers
    cases settled with
    | reference _ _ _ known =>
        rw [← assigned.constants]
        exact before.constant_some token.value.text literal known

section

variable {dialect : Dialect} {start : Location} {tokens : List Scanned} {root : Node} {after : Allocations}
variable (parsed : dialect.parse {} start tokens = (.ok root, after))

include parsed

theorem parse_ledger : dialect.Ledger (fun _ => True) [root] after :=
  parse_preserves (dialect.ledger_step _) start tokens (fun _ _ => trivial) trivial {} after
    (dialect.ledger_empty _) root parsed

theorem parse_backed : Node.Backed root.postorder := by
  have assigned := parse_preserves (dialect.assigned_step fun _ => True) start tokens (fun _ _ => trivial) trivial {}
    after assigned_empty root parsed
  simpa [Node.postorderAll] using assigned.backed

end

section

variable {dialect : Dialect} {origin : Located Token → Prop} {root : Node} {allocations : Allocations}
variable (ledger : dialect.Ledger origin [root] allocations)

include ledger

theorem ledger_definitions : allocations.constants = root.definitions := by
  simpa [Node.postorderAll, Node.definitions] using ledger.constants

theorem definitions_single : (root.definitions.map Prod.fst).Nodup := by
  rw [← ledger_definitions ledger]
  exact ledger.single

theorem definition_meaning (name : String) (literal : Literal Node) (member : (name, literal) ∈ root.definitions) :
    root.meaning? name = some literal.token := by
  have single := definitions_single ledger
  cases found : root.definitions.find? fun entry => entry.1 = name with
  | none =>
      have other := List.find?_eq_none.mp found (name, literal) member
      simp at other
  | some entry =>
      have named : entry.1 = name := by simpa using List.find?_some found
      have same : entry = (name, literal) :=
        List.inj_on_of_nodup_map single (List.mem_of_find?_eq_some found) member named
      rw [Node.meaning?, found, same]
      rfl

theorem definition_built (name : String) (literal : Literal Node) (member : (name, literal) ∈ root.definitions) :
    dialect.Built literal.node := by
  obtain ⟨definition, inside, bound⟩ := List.mem_filterMap.mp member
  have single := (definition.binding_some name literal bound).2.2
  have below : literal.node ∈ Node.significant definition.children := by simp [single]
  have reached := root.mem_postorder_child definition literal.node inside (List.mem_filter.mp below).1
  exact ledger.built literal.node (by simpa [Node.postorderAll] using reached)

theorem reference_defined (reference : Node) (literal : Literal Node) (member : reference ∈ root.postorder)
    (refers : reference.kind = .reference literal) : (reference.token.value.text, literal) ∈ root.definitions :=
  List.mem_filterMap.mpr (ledger_reference ledger reference literal member refers)

end

end Dialect

end TealForms
