import TealForms.Command
import TealForms.Proofs.Node.Traversal

set_option autoImplicit false

namespace TealForms

def Line.label? : Line → Option String
  | .label name => some name
  | _ => none

namespace Command

def isBranch : Command → Bool
  | .branchIfZero _ | .branch _ => true
  | _ => false

def label? : Command → Option String
  | .label name => some name
  | _ => none

def target? : Command → Option String
  | .branchIfZero target | .branch target => some target
  | _ => none

def steady (commands : List Command) : List Command := commands.filter fun command => !command.isBranch

theorem steady_append (first second : List Command) : steady (first ++ second) = steady first ++ steady second :=
  List.filter_append first second

theorem mem_steady (command : Command) (commands : List Command) :
    command ∈ steady commands ↔ command ∈ commands ∧ command.isBranch = false := by
  simp [steady]

end Command

namespace Node

def own : Node → List Command
  | .mk _ (.root version) _ => [.pragma version]
  | .mk _ (.opcode instruction) _ | .mk _ (.literal instruction) _ => [.plain instruction none]
  | .mk token (.scratch instruction) _ => [.plain instruction (some token.value.text)]
  | .mk token (.reference bound) _ => [.plain bound.instruction (some token.value.text)]
  | .mk token .label _ => [.label token.value.labelName]
  | .mk _ (.case label) _ | .mk _ (.choice label) _ => [.label label]
  | .mk _ (.loop label) _ => [.label label, .label (loopEnd label)]
  | .mk _ .transaction _ => [.beginTransaction, .submitTransaction]
  | .mk _ .definition _ | .mk _ .comment _ | .mk _ .group _ => []

-- What emission relies on: a condition where one is tested, and nothing but cases in a choice.
def Regular : Node → Prop
  | .mk _ (.case _) children | .mk _ (.loop _) children => significant children ≠ []
  | .mk _ (.choice _) children => ∀ child ∈ significant children, child.isCase = true
  | _ => True

theorem lines_label (node : Node) : node.lines.filterMap Line.label? = node.commands.filterMap Command.label? := by
  have same : Line.label? ∘ Command.line = Command.label? := by
    funext command
    cases command <;> rfl
  rw [lines, List.filterMap_map, same]

theorem mem_significant (node : Node) (children : List Node) (member : node ∈ significant children) :
    node ∈ children :=
  (List.mem_filter.mp member).1

theorem comment_commands (node : Node) (comment : node.isComment = true) : commands node = [] := by
  obtain ⟨token, kind, children⟩ := node
  cases kind <;> simp_all [isComment, commands]

theorem significant_comment (node : Node) (rest : List Node) (comment : node.isComment = true) :
    significant (node :: rest) = significant rest := by
  simp [significant, comment]

theorem significant_other (node : Node) (rest : List Node) (other : ¬ node.isComment = true) :
    significant (node :: rest) = node :: significant rest := by
  simp [significant, other]

theorem guarded_parts (target : String) (children body : List Node) (condition : Node)
    (parts : significant children = condition :: body) :
    guarded target children = commands condition ++ .branchIfZero target :: commandsAll body := by
  induction children with
  | nil => simp [significant] at parts
  | cons node rest ih =>
      by_cases comment : node.isComment = true
      · rw [significant_comment node rest comment] at parts
        rw [guarded, if_pos comment]
        exact ih parts
      · rw [significant_other node rest comment] at parts
        cases parts
        rw [guarded, if_neg comment, commands_all_significant]

theorem cases_other (exit : String) (node : Node) (rest : List Node) (other : ¬ node.isCase = true) :
    cases exit (node :: rest) = cases exit rest := by
  obtain ⟨token, kind, children⟩ := node
  cases kind <;> simp_all [isCase, cases]

theorem comment_no_case (node : Node) (comment : node.isComment = true) : ¬ node.isCase = true := by
  obtain ⟨token, kind, children⟩ := node
  cases kind <;> simp_all [isComment, isCase]

theorem cases_significant (exit : String) (nodes : List Node) : cases exit (significant nodes) = cases exit nodes := by
  induction nodes with
  | nil => rfl
  | cons node rest ih =>
      by_cases comment : node.isComment = true
      · rw [significant_comment node rest comment, cases_other exit node rest (node.comment_no_case comment), ih]
      · rw [significant_other node rest comment]
        by_cases case : node.isCase = true
        · obtain ⟨token, kind, children⟩ := node
          cases kind with
          | case label => rw [cases, cases, ih]
          | _ => simp [isCase] at case
        · rw [cases_other exit node _ case, cases_other exit node rest case, ih]

theorem guarded_steady (target : String) (children : List Node) :
    Command.steady (guarded target children) = Command.steady (commandsAll children) := by
  induction children with
  | nil => simp [guarded, commandsAll, Command.steady, Command.isBranch]
  | cons node rest ih =>
      by_cases comment : node.isComment = true
      · rw [guarded, if_pos comment, ih, commandsAll, comment_commands node comment, List.nil_append]
      · rw [guarded, if_neg comment, commandsAll]
        simp [Command.steady, Command.isBranch]

theorem cases_steady (exit : String) (nodes : List Node) (uniform : ∀ node ∈ significant nodes, node.isCase = true) :
    Command.steady (cases exit nodes) = Command.steady (commandsAll nodes) := by
  induction nodes with
  | nil => rw [cases, commandsAll]
  | cons node rest ih =>
      by_cases comment : node.isComment = true
      · rw [significant_comment node rest comment] at uniform
        rw [cases_other exit node rest (node.comment_no_case comment), ih uniform, commandsAll,
          comment_commands node comment, List.nil_append]
      · rw [significant_other node rest comment] at uniform
        have first := uniform node (by simp)
        have later := ih fun other member => uniform other (by simp [member])
        obtain ⟨token, kind, children⟩ := node
        cases kind with
        | case label =>
            rw [cases, commandsAll, commands]
            simp only [Command.steady_append, later]
            simp [Command.steady, Command.isBranch]
        | _ => simp [isCase] at first

theorem steady_all (nodes : List Node)
    (each : ∀ node ∈ nodes, (Command.steady (commands node)).Perm ((performed node).flatMap own)) :
    (Command.steady (commandsAll nodes)).Perm ((performedAll nodes).flatMap own) := by
  induction nodes with
  | nil => simp [commandsAll, performedAll, Command.steady]
  | cons node rest ih =>
      rw [commandsAll, performedAll, Command.steady_append, List.flatMap_append]
      exact (each node (by simp)).append (ih fun other member => each other (by simp [member]))

theorem steady_own (token : Located Token) (kind : Kind Node) (children : List Node)
    (sound : Regular (.mk token kind children)) (emitted : kind ≠ .definition) (visible : kind ≠ .comment)
    (direct : ∀ bound, kind ≠ .reference bound) :
    (Command.steady (commands (.mk token kind children))).Perm
      (Command.steady (commandsAll children) ++ own (.mk token kind children)) := by
  cases kind with
  | definition => exact absurd rfl emitted
  | comment => exact absurd rfl visible
  | reference bound => exact absurd rfl (direct bound)
  | root version => exact (List.perm_append_singleton _ _).symm
  | label => exact (List.perm_append_singleton _ _).symm
  | case label =>
      rw [commands, Command.steady_append, guarded_steady]
      exact .refl _
  | choice label =>
      rw [commands, Command.steady_append, cases_steady label children sound]
      exact .refl _
  | loop label =>
      have body : Command.steady (commands (.mk token (.loop label) children)) =
          .label label :: (Command.steady (commandsAll children) ++ [.label (loopEnd label)]) := by
        rw [commands, ← guarded_steady (loopEnd label) children]
        simp [Command.steady, Command.isBranch]
      rw [body]
      exact List.perm_middle.symm
  | group =>
      rw [commands, own, List.append_nil]
  | transaction =>
      have body : Command.steady (commands (.mk token .transaction children)) =
          .beginTransaction :: (Command.steady (commandsAll children) ++ [.submitTransaction]) := by
        rw [commands]
        simp [Command.steady, Command.isBranch]
      rw [body]
      exact List.perm_middle.symm
  | _ =>
      rw [commands, Command.steady_append]
      exact .refl _

theorem performed_own (token : Located Token) (kind : Kind Node) (children : List Node)
    (emitted : kind ≠ .definition) (visible : kind ≠ .comment) (direct : ∀ bound, kind ≠ .reference bound) :
    performed (.mk token kind children) = performedAll children ++ [.mk token kind children] := by
  cases kind <;> simp_all [performed]

theorem steady_performed (node : Node) (regular : ∀ other, node.Involves other → other.Regular) :
    (Command.steady (commands node)).Perm ((performed node).flatMap own) := by
  induction node using induction with
  | step token kind children ih ihLiteral =>
      have sound : Regular (.mk token kind children) := regular _ .self
      have all : (Command.steady (commandsAll children)).Perm ((performedAll children).flatMap own) := by
        refine steady_all children fun child member => ih child member ?_
        intro other reached
        exact regular other (involves_child (.mk token kind children) child other member reached)
      cases kind with
      | definition => exact .nil
      | comment => exact .nil
      | reference bound =>
          have held : (Command.steady (commandsAll bound.children)).Perm
              ((performedAll bound.children).flatMap own) := by
            refine steady_all bound.children fun child member => ihLiteral bound rfl child member ?_
            intro other reached
            exact regular other (involves_literal _ child other bound rfl member reached)
          rw [commands, performed, Command.steady_append, List.flatMap_append]
          exact held.append (.refl _)
      | _ =>
          rw [performed_own token _ children (by simp) (by simp) (by simp), List.flatMap_append, List.flatMap_singleton]
          apply (steady_own token _ children sound (by simp) (by simp) (by simp)).trans
          exact all.append_right _

theorem emitted_own (node : Node) (regular : ∀ other, node.Involves other → other.Regular) (command : Command)
    (steady : command.isBranch = false) (member : command ∈ commands node) :
    ∃ other ∈ performed node, command ∈ own other := by
  have kept := (Command.mem_steady command _).mpr ⟨member, steady⟩
  exact List.mem_flatMap.mp ((steady_performed node regular).mem_iff.mp kept)

theorem own_emitted (node : Node) (regular : ∀ other, node.Involves other → other.Regular) (other : Node)
    (member : other ∈ performed node) (command : Command) (emitted : command ∈ own other) :
    command ∈ commands node := by
  have steady := (steady_performed node regular).mem_iff.mpr (List.mem_flatMap.mpr ⟨other, member, emitted⟩)
  exact ((Command.mem_steady command _).mp steady).1

theorem guarded_command (command : Command) (target : String) (children : List Node)
    (member : command ∈ guarded target children) :
    command = .branchIfZero target ∨ command ∈ commandsAll children := by
  induction children with
  | nil => exact .inl (by simpa [guarded] using member)
  | cons node rest ih =>
      rw [commandsAll, List.mem_append]
      by_cases comment : node.isComment = true
      · rw [guarded, if_pos comment] at member
        rcases ih member with branch | later
        · exact .inl branch
        · exact .inr (.inr later)
      · rw [guarded, if_neg comment, List.mem_append, List.mem_cons] at member
        rcases member with first | branch | later
        · exact .inr (.inl first)
        · exact .inl branch
        · exact .inr (.inr later)

theorem cases_command (command : Command) (exit : String) (nodes : List Node) (member : command ∈ cases exit nodes) :
    command = .branch exit ∨ command ∈ commandsAll nodes := by
  induction nodes with
  | nil => simp [cases] at member
  | cons node rest ih =>
      rw [commandsAll, List.mem_append]
      by_cases case : node.isCase = true
      · obtain ⟨token, kind, children⟩ := node
        cases kind with
        | case label =>
            rw [cases, List.mem_append, List.mem_append] at member
            rcases member with (body | ends) | later
            · exact .inr (.inl (List.mem_append_left _ body))
            · rcases List.mem_cons.mp ends with branch | label
              · exact .inl branch
              · exact .inr (.inl (List.mem_append_right _ label))
            · rcases ih later with branch | below
              · exact .inl branch
              · exact .inr (.inr below)
        | _ => simp [isCase] at case
      · rw [cases_other exit node rest case] at member
        rcases ih member with branch | later
        · exact .inl branch
        · exact .inr (.inr later)

-- A branch of a node goes to a label of its own, or is one of those below.
theorem target_own (token : Located Token) (kind : Kind Node) (children : List Node) (command : Command)
    (target : String) (goes : command.target? = some target) (member : command ∈ commands (.mk token kind children))
    (direct : ∀ bound, kind ≠ .reference bound) :
    .label target ∈ own (.mk token kind children) ∨ command ∈ commandsAll children := by
  have other (different : Command) (silent : different.target? = none) : command ≠ different := by
    intro same
    rw [same, silent] at goes
    cases goes
  cases kind with
  | definition => simp [commands] at member
  | comment => simp [commands] at member
  | reference bound => exact absurd rfl (direct bound)
  | root version => exact .inr ((List.mem_cons.mp member).resolve_left (other _ rfl))
  | label => exact .inr ((List.mem_cons.mp member).resolve_left (other _ rfl))
  | group => exact .inr member
  | case label =>
      rw [commands, List.mem_append, List.mem_singleton] at member
      rcases guarded_command command label children (member.resolve_right (other _ rfl)) with branch | below
      · rw [branch, Command.target?, Option.some.injEq] at goes
        exact .inl (by simp [own, goes])
      · exact .inr below
  | choice label =>
      rw [commands, List.mem_append, List.mem_singleton] at member
      rcases cases_command command label children (member.resolve_right (other _ rfl)) with branch | below
      · rw [branch, Command.target?, Option.some.injEq] at goes
        exact .inl (by simp [own, goes])
      · exact .inr below
  | loop label =>
      rw [commands, List.mem_append, List.mem_cons, List.mem_cons, List.mem_singleton] at member
      rcases member with (first | body) | back | ends
      · exact absurd first (other _ rfl)
      · rcases guarded_command command (loopEnd label) children body with branch | below
        · rw [branch, Command.target?, Option.some.injEq] at goes
          exact .inl (by simp [own, goes])
        · exact .inr below
      · rw [back, Command.target?, Option.some.injEq] at goes
        exact .inl (by simp [own, goes])
      · exact absurd ends (other _ rfl)
  | transaction =>
      rw [commands, List.mem_append, List.mem_cons, List.mem_singleton] at member
      exact .inr ((member.resolve_right (other _ rfl)).resolve_left (other _ rfl))
  | _ =>
      rw [commands, List.mem_append, List.mem_singleton] at member
      exact .inr (member.resolve_right (other _ rfl))

theorem mem_commands_all (command : Command) (nodes : List Node) :
    command ∈ commandsAll nodes ↔ ∃ node ∈ nodes, command ∈ commands node := by
  induction nodes with
  | nil => simp [commandsAll]
  | cons first rest ih => simp [commandsAll, ih]

theorem target_performed (node : Node) (command : Command) (target : String) (goes : command.target? = some target)
    (member : command ∈ commands node) : ∃ other ∈ performed node, .label target ∈ own other := by
  induction node using induction with
  | step token kind children ih ihLiteral =>
      cases kind with
      | definition => simp [commands] at member
      | comment => simp [commands] at member
      | reference bound =>
          rw [commands, List.mem_append, List.mem_singleton] at member
          rcases member with below | here
          · obtain ⟨child, childMember, inside⟩ := (mem_commands_all command bound.children).mp below
            obtain ⟨other, reached, label⟩ := ihLiteral bound rfl child childMember inside
            refine ⟨other, ?_, label⟩
            rw [performed]
            exact List.mem_append_left _ ((mem_performed_all other bound.children).mpr ⟨child, childMember, reached⟩)
          · rw [here] at goes
            cases goes
      | _ =>
          rw [performed_own token _ children (by simp) (by simp) (by simp)]
          rcases target_own token _ children command target goes member (by simp) with here | below
          · exact ⟨_, List.mem_append_right _ (List.mem_singleton_self _), here⟩
          · obtain ⟨child, childMember, inside⟩ := (mem_commands_all command children).mp below
            obtain ⟨other, reached, label⟩ := ih child childMember inside
            exact ⟨other, List.mem_append_left _ ((mem_performed_all other children).mpr ⟨child, childMember, reached⟩),
              label⟩

end Node

end TealForms
