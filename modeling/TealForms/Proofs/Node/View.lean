import TealForms.Proofs.Command.Emission

set_option autoImplicit false

namespace TealForms

structure View where
  place : Location → Location
  hides : Bool

namespace View

def unplaced : View := ⟨fun _ => default, false⟩

def uncommented : View := ⟨id, true⟩

def located {α : Type} (view : View) (item : Located α) : Located α := ⟨item.value, view.place item.location⟩

def skips (view : View) (node : Node) : Bool := view.hides && node.isComment

end View

namespace Node

mutual
def seen (view : View) : Node → Node
  | .mk token (.reference ⟨origin, instruction, below⟩) children =>
      .mk (view.located token) (.reference ⟨view.located origin, instruction, seenAll view below⟩)
        (seenAll view children)
  | .mk token kind children => .mk (view.located token) kind (seenAll view children)
def seenAll (view : View) : List Node → List Node
  | [] => []
  | node :: rest => if view.skips node then seenAll view rest else seen view node :: seenAll view rest
end

end Node

def Literal.seen (view : View) (literal : Literal Node) : Literal Node :=
  ⟨view.located literal.token, literal.instruction, Node.seenAll view literal.children⟩

def Kind.seen (view : View) : Kind Node → Kind Node
  | .reference bound => .reference (bound.seen view)
  | kind => kind

namespace Node

section

variable (view : View)

theorem seen_mk (token : Located Token) (kind : Kind Node) (children : List Node) :
    (mk token kind children).seen view = mk (view.located token) (kind.seen view) (seenAll view children) := by
  cases kind <;> simp only [seen, Kind.seen, Literal.seen]

theorem seen_all_append (first second : List Node) :
    seenAll view (first ++ second) = seenAll view first ++ seenAll view second := by
  induction first with
  | nil => rfl
  | cons node rest ih => cases skipped : view.skips node <;> simp [seenAll, skipped, ih]

theorem seen_all_reverse (nodes : List Node) : seenAll view nodes.reverse = (seenAll view nodes).reverse := by
  induction nodes with
  | nil => rfl
  | cons node rest ih =>
      rw [List.reverse_cons, seen_all_append, ih]
      cases skipped : view.skips node <;> simp [seenAll, skipped]

theorem seen_comment (node : Node) : (node.seen view).isComment = node.isComment := by
  obtain ⟨token, kind, children⟩ := node
  rw [seen_mk]
  cases kind <;> rfl

theorem seen_case (node : Node) : (node.seen view).isCase = node.isCase := by
  obtain ⟨token, kind, children⟩ := node
  rw [seen_mk]
  cases kind <;> rfl

theorem seen_field (node : Node) : (node.seen view).isField = node.isField := by
  obtain ⟨token, kind, children⟩ := node
  rw [seen_mk]
  cases kind <;> rfl

theorem seen_returns (node : Node) : (node.seen view).returns = node.returns := by
  obtain ⟨token, kind, children⟩ := node
  rw [seen_mk]
  cases kind <;> rfl

theorem seen_literal (node : Node) : (node.seen view).literal? = node.literal?.map (Literal.seen view) := by
  obtain ⟨token, kind, children⟩ := node
  rw [seen_mk]
  cases kind <;> rfl

theorem seen_significant (children : List Node) :
    significant (seenAll view children) = (significant children).map (seen view) := by
  induction children with
  | nil => rfl
  | cons node rest ih =>
      rw [seenAll, View.skips]
      by_cases comment : node.isComment = true
      · rw [significant_comment node rest comment, comment, Bool.and_true]
        split
        · exact ih
        · rwa [significant_comment _ _ ((seen_comment view node).trans comment)]
      · rw [significant_other node rest comment, Bool.eq_false_iff.mpr comment, Bool.and_false,
          if_neg Bool.false_ne_true, significant_other _ _ (by rwa [seen_comment]), ih, List.map_cons]

theorem comment_returns (node : Node) (comment : node.isComment = true) : node.returns = 0 := by
  obtain ⟨token, kind, children⟩ := node
  cases kind with
  | comment => rfl
  | _ => cases comment

theorem seen_returns_all (children : List Node) : returnsAll (seenAll view children) = returnsAll children := by
  induction children with
  | nil => rfl
  | cons node rest ih =>
      rw [seenAll]
      split
      · rename_i skipped
        rw [ih, returnsAll, comment_returns node (Bool.and_eq_true_iff.mp skipped).2, Nat.zero_add]
      · rw [returnsAll, returnsAll, seen_returns, ih]

theorem seen_all_property (property : Node → Bool) (kept : ∀ node : Node, property (node.seen view) = property node)
    (children : List Node) :
    (significant (seenAll view children)).all property = (significant children).all property := by
  rw [seen_significant, List.all_map]
  exact congrArg _ (funext kept)

end

-- Comments have no commands, and no branch looks at a comment.
mutual
theorem seen_commands (view : View) (node : Node) : commands (seen view node) = commands node := by
  match node with
  | .mk _ (.reference ⟨_, _, below⟩) _ => simp only [seen, commands, View.located, seen_commands_all view below]
  | .mk _ .definition _ | .mk _ .comment _ => simp only [seen, commands]
  | .mk _ (.case label) children => simp only [seen, commands, seen_guarded view label children]
  | .mk _ (.loop label) children => simp only [seen, commands, seen_guarded view (loopEnd label) children]
  | .mk _ (.choice label) children => simp only [seen, commands, seen_cases view label children]
  | .mk _ (.root _) children | .mk _ (.opcode _) children | .mk _ (.literal _) children | .mk _ (.scratch _) children
  | .mk _ .label children | .mk _ .group children | .mk _ .transaction children =>
      simp only [seen, commands, View.located, seen_commands_all view children]
theorem seen_commands_all (view : View) (nodes : List Node) : commandsAll (seenAll view nodes) = commandsAll nodes := by
  match nodes with
  | [] => rfl
  | node :: rest =>
      rw [seenAll]
      split
      · rename_i skipped
        rw [seen_commands_all view rest, commandsAll, comment_commands node (Bool.and_eq_true_iff.mp skipped).2,
          List.nil_append]
      · rw [commandsAll, commandsAll, seen_commands view node, seen_commands_all view rest]
theorem seen_guarded (view : View) (target : String) (nodes : List Node) :
    guarded target (seenAll view nodes) = guarded target nodes := by
  match nodes with
  | [] => rfl
  | node :: rest =>
      rw [seenAll, guarded]
      split
      · rename_i skipped
        rw [if_pos (Bool.and_eq_true_iff.mp skipped).2, seen_guarded view target rest]
      · rw [guarded, seen_comment, seen_commands view node, seen_commands_all view rest, seen_guarded view target rest]
theorem seen_cases (view : View) (exit : String) (nodes : List Node) :
    cases exit (seenAll view nodes) = cases exit nodes := by
  match nodes with
  | [] => rfl
  | .mk token kind children :: rest =>
      have later := seen_cases view exit rest
      cases kind with
      | case label =>
          have body := seen_guarded view label children
          simp [seenAll, View.skips, isComment, seen, cases, body, later]
      | _ =>
          rw [seenAll, cases_other exit _ rest (by simp [isCase])]
          split
          · exact later
          · rw [cases_other exit _ _ (by rw [seen_case]; simp [isCase]), later]
end

theorem seen_lines (view : View) (node : Node) : (node.seen view).lines = node.lines := by
  rw [lines, lines, seen_commands]

end Node

end TealForms
