import TealForms.Node

set_option autoImplicit false

namespace TealForms

def Literal.node (literal : Literal Node) : Node := .mk literal.token (.literal literal.instruction) literal.children

namespace Node

-- The same nodes with those below a literal repeated at each reference to it.
mutual
def postorder : Node → List Node
  | .mk token kind children => postorderAll children ++ [.mk token kind children]
def postorderAll : List Node → List Node
  | [] => []
  | node :: rest => postorder node ++ postorderAll rest
end

-- Nodes that emit in their own place. Nothing below a comment or a definition does.
mutual
def placed : Node → List Node
  | .mk _ .definition _ | .mk _ .comment _ => []
  | .mk token (.reference literal) children => [.mk token (.reference literal) children]
  | .mk token kind children => placedAll children ++ [.mk token kind children]
def placedAll : List Node → List Node
  | [] => []
  | node :: rest => placed node ++ placedAll rest
end

mutual
def performed : Node → List Node
  | .mk _ .definition _ | .mk _ .comment _ => []
  | .mk token (.reference ⟨origin, instruction, below⟩) children =>
      performedAll below ++ [.mk token (.reference ⟨origin, instruction, below⟩) children]
  | .mk token kind children => performedAll children ++ [.mk token kind children]
def performedAll : List Node → List Node
  | [] => []
  | node :: rest => performed node ++ performedAll rest
end

inductive Involves (node : Node) : Node → Prop where
  | self : Involves node node
  | child (parent other : Node) (reached : Involves node parent) (member : other ∈ parent.children) :
      Involves node other
  | literal (reference : Node) (literal : Literal Node) (reached : Involves node reference)
      (refers : reference.kind = .reference literal) : Involves node literal.node

theorem induction {motive : Node → Prop}
    (step : ∀ token kind children, (∀ child ∈ children, motive child) →
      (∀ literal, kind = .reference literal → ∀ child ∈ literal.children, motive child) →
      motive (.mk token kind children)) : ∀ node, motive node
  | .mk token kind children => by
      apply step
      · intro child member
        exact induction step child
      · intro literal refers child member
        exact induction step child
termination_by node => sizeOf node
decreasing_by
  · have smaller := List.sizeOf_lt_of_mem member
    simp only [mk.sizeOf_spec]
    omega
  · have smaller := List.sizeOf_lt_of_mem member
    subst refers
    cases literal
    simp only [mk.sizeOf_spec, Kind.reference.sizeOf_spec, Literal.mk.sizeOf_spec] at smaller ⊢
    omega

theorem involves_trans (node middle other : Node) (first : Involves node middle) (second : Involves middle other) :
    Involves node other := by
  induction second with
  | self => exact first
  | child parent other _ member ih => exact .child parent other ih member
  | literal reference literal _ refers ih => exact .literal reference literal ih refers

theorem involves_child (node child other : Node) (member : child ∈ node.children) (reached : Involves child other) :
    Involves node other :=
  involves_trans node child other (.child node child .self member) reached

theorem involves_literal (node child other : Node) (literal : Literal Node) (refers : node.kind = .reference literal)
    (member : child ∈ literal.children) (reached : Involves child other) : Involves node other :=
  involves_trans node literal.node other (.literal node literal .self refers)
    (involves_child literal.node child other member reached)

theorem involves_cases (token : Located Token) (kind : Kind Node) (children : List Node) (other : Node)
    (reached : Involves (.mk token kind children) other) :
    other = .mk token kind children ∨ (∃ child ∈ children, Involves child other) ∨
      ∃ literal, kind = .reference literal ∧ Involves literal.node other := by
  induction reached with
  | self => exact .inl rfl
  | child parent other _ member ih =>
      rcases ih with here | ⟨child, below, inside⟩ | ⟨literal, refers, inside⟩
      · subst here
        exact .inr (.inl ⟨other, member, .self⟩)
      · exact .inr (.inl ⟨child, below, .child parent other inside member⟩)
      · exact .inr (.inr ⟨literal, refers, .child parent other inside member⟩)
  | literal reference found _ refers ih =>
      rcases ih with here | ⟨child, below, inside⟩ | ⟨literal, bound, inside⟩
      · subst here
        exact .inr (.inr ⟨found, refers, .self⟩)
      · exact .inr (.inl ⟨child, below, .literal reference found inside refers⟩)
      · exact .inr (.inr ⟨literal, bound, .literal reference found inside refers⟩)

theorem mem_postorder_all (node : Node) (nodes : List Node) :
    node ∈ postorderAll nodes ↔ ∃ root ∈ nodes, node ∈ postorder root := by
  induction nodes with
  | nil => simp [postorderAll]
  | cons first rest ih => simp [postorderAll, ih]

theorem postorder_all_append (first second : List Node) :
    postorderAll (first ++ second) = postorderAll first ++ postorderAll second := by
  induction first with
  | nil => rfl
  | cons node rest ih => simp [postorderAll, ih]

theorem mem_postorder_self (node : Node) : node ∈ postorder node := by
  cases node
  simp [postorder]

theorem mem_postorder_child (root node child : Node) (reached : node ∈ postorder root)
    (member : child ∈ node.children) : child ∈ postorder root := by
  induction root using induction with
  | step token kind children ih _ =>
      rw [postorder, List.mem_append, List.mem_singleton] at reached ⊢
      left
      rcases reached with below | here
      · obtain ⟨top, topMember, reached⟩ := (mem_postorder_all node children).mp below
        exact (mem_postorder_all child children).mpr ⟨top, topMember, ih top topMember reached⟩
      · subst here
        exact (mem_postorder_all child children).mpr ⟨child, member, mem_postorder_self child⟩

theorem mem_performed_all (node : Node) (nodes : List Node) :
    node ∈ performedAll nodes ↔ ∃ root ∈ nodes, node ∈ performed root := by
  induction nodes with
  | nil => simp [performedAll]
  | cons first rest ih => simp [performedAll, ih]

theorem performed_involved (node other : Node) (member : other ∈ performed node) : Involves node other := by
  induction node using induction with
  | step token kind children ih ihLiteral =>
      have below (member : other ∈ performedAll children) : Involves (.mk token kind children) other := by
        obtain ⟨child, childMember, reached⟩ := (mem_performed_all other children).mp member
        exact involves_child _ child other childMember (ih child childMember reached)
      cases kind with
      | definition => simp [performed] at member
      | comment => simp [performed] at member
      | reference literal =>
          rcases List.mem_append.mp (by simpa only [performed] using member) with inside | here
          · obtain ⟨child, childMember, reached⟩ := (mem_performed_all other literal.children).mp inside
            exact involves_literal _ child other literal rfl childMember (ihLiteral literal rfl child childMember reached)
          · rw [List.mem_singleton.mp here]
            exact .self
      | _ =>
          rcases List.mem_append.mp (by simpa only [performed] using member) with inside | here
          · exact below inside
          · rw [List.mem_singleton.mp here]
            exact .self

end Node

end TealForms
