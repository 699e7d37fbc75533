import Mathlib.Data.List.Forall2
import TealForms.Proofs.Command.Order
import TealForms.Proofs.Node.Traversal

set_option autoImplicit false

namespace TealForms

namespace Literal

structure Agrees (same : Command → Command → Prop) (bound other : Literal Node) : Prop where
  instruction : other.instruction = bound.instruction
  below : List.Forall₂ same (Node.commandsAll bound.children) (Node.commandsAll other.children)

end Literal

namespace Node

-- A node without commands of cases gives none to a choice.
structure Agrees (same : Command → Command → Prop) (node other : Node) : Prop where
  comment : other.isComment = node.isComment
  case : other.isCase = node.isCase
  field : other.isField = node.isField
  returns : other.returns = node.returns
  commands : List.Forall₂ same node.commands other.commands
  cases : ∀ exit, List.Forall₂ same (cases exit [node]) (cases exit [other])
  literal : ∀ bound, node.literal? = some bound → ∃ twin, other.literal? = some twin ∧ bound.Agrees same twin

theorem cases_cons (exit : String) (node : Node) (rest : List Node) :
    cases exit (node :: rest) = cases exit [node] ++ cases exit rest := by
  obtain ⟨token, kind, children⟩ := node
  cases kind <;> simp [cases]

theorem significant_related (related : Node → Node → Prop)
    (seen : ∀ node other, related node other → other.isComment = node.isComment) {nodes others : List Node}
    (alike : List.Forall₂ related nodes others) : List.Forall₂ related (significant nodes) (significant others) := by
  induction alike with
  | nil => exact .nil
  | @cons node other nodes others here _ ih =>
      have comments := seen node other here
      by_cases comment : node.isComment = true
      · rwa [significant_comment node nodes comment, significant_comment other others (comments.trans comment)]
      · have visible : ¬ other.isComment = true := by rwa [comments]
        rw [significant_other node nodes comment, significant_other other others visible]
        exact .cons here ih

section

variable {same : Command → Command → Prop} {nodes others : List Node}
variable (agree : List.Forall₂ (Agrees same) nodes others)

include agree

theorem significant_agree : List.Forall₂ (Agrees same) (significant nodes) (significant others) :=
  significant_related _ (fun _ _ agrees => agrees.comment) agree

theorem returns_agree : returnsAll others = returnsAll nodes := by
  induction agree with
  | nil => rfl
  | cons agrees _ ih => rw [returnsAll, returnsAll, agrees.returns, ih]

theorem commands_agree : List.Forall₂ same (commandsAll nodes) (commandsAll others) := by
  induction agree with
  | nil => exact .nil
  | cons agrees _ ih => exact List.rel_append agrees.commands ih

theorem cases_agree (exit : String) : List.Forall₂ same (cases exit nodes) (cases exit others) := by
  induction agree with
  | nil => exact .nil
  | @cons node other nodes others agrees _ ih =>
      rw [cases_cons exit node, cases_cons exit other]
      exact List.rel_append (agrees.cases exit) ih

theorem guarded_agree (target : String) (tests : same (.branchIfZero target) (.branchIfZero target)) :
    List.Forall₂ same (guarded target nodes) (guarded target others) := by
  induction agree with
  | nil => exact .cons tests .nil
  | @cons node other nodes others agrees later ih =>
      rw [guarded, guarded, agrees.comment]
      split
      · exact ih
      · exact List.rel_append agrees.commands (.cons tests (commands_agree later))

theorem all_same (property : Node → Bool)
    (seen : ∀ node other, Agrees same node other → property other = property node) :
    others.all property = nodes.all property := by
  induction agree with
  | nil => rfl
  | @cons node other _ _ agrees _ ih => rw [List.all_cons, List.all_cons, seen node other agrees, ih]

theorem all_agree (property : Node → Bool)
    (seen : ∀ node other, Agrees same node other → property other = property node)
    (holds : ∀ node ∈ nodes, property node = true) : ∀ other ∈ others, property other = true := by
  rw [← List.all_eq_true] at holds ⊢
  rw [all_same agree property seen, holds]

end

inductive Matches (same : Command → Command → Prop) (token other : Token) : Kind Node → Kind Node → Prop where
  | root (version : Nat) : Matches same token other (.root version) (.root version)
  | opcode (instruction : Instruction) (own : same (.plain instruction none) (.plain instruction none)) :
      Matches same token other (.opcode instruction) (.opcode instruction)
  | literal (instruction : Instruction) (own : same (.plain instruction none) (.plain instruction none)) :
      Matches same token other (.literal instruction) (.literal instruction)
  | scratch (instruction : Instruction)
      (own : same (.plain instruction (some token.text)) (.plain instruction (some other.text))) :
      Matches same token other (.scratch instruction) (.scratch instruction)
  | definition : Matches same token other .definition .definition
  | reference (bound twin : Literal Node) (agree : bound.Agrees same twin)
      (own : same (.plain bound.instruction (some token.text)) (.plain bound.instruction (some other.text))) :
      Matches same token other (.reference bound) (.reference twin)
  | label (named : other.labelName = token.labelName) : Matches same token other .label .label
  | comment : Matches same token other .comment .comment
  | case (label : String) : Matches same token other (.case label) (.case label)
  | choice (label : String) : Matches same token other (.choice label) (.choice label)
  | loop (label : String) : Matches same token other (.loop label) (.loop label)
  | group : Matches same token other .group .group
  | transaction : Matches same token other .transaction .transaction

def Steady (same : Command → Command → Prop) : Prop := ∀ command, command.isPlain = false → same command command

theorem matches_commands (same : Command → Command → Prop) (token other : Located Token) (kind twin : Kind Node)
    (children others : List Node) (steady : Steady same) (matching : Matches same token.value other.value kind twin)
    (below : List.Forall₂ (Agrees same) children others) :
    List.Forall₂ same (commands (.mk token kind children)) (commands (.mk other twin others)) := by
  have inside := commands_agree below
  cases matching with
  | root version => exact .cons (steady _ rfl) inside
  | opcode instruction own | literal instruction own | scratch instruction own =>
      exact List.rel_append inside (.cons own .nil)
  | definition | comment => exact .nil
  | reference bound twin agree own =>
      obtain ⟨origin, instruction, children⟩ := bound
      obtain ⟨place, _, grown⟩ := twin
      obtain ⟨same, below⟩ := agree
      cases same
      exact List.rel_append below (.cons own .nil)
  | label named =>
      rw [commands, commands, named]
      exact .cons (steady _ rfl) inside
  | case label => exact List.rel_append (guarded_agree below label (steady _ rfl)) (.cons (steady _ rfl) .nil)
  | choice label => exact List.rel_append (cases_agree below label) (.cons (steady _ rfl) .nil)
  | loop label =>
      have body := guarded_agree below (loopEnd label) (steady _ rfl)
      exact .cons (steady _ rfl) (List.rel_append body (.cons (steady _ rfl) (.cons (steady _ rfl) .nil)))
  | group => exact inside
  | transaction => exact .cons (steady _ rfl) (List.rel_append inside (.cons (steady _ rfl) .nil))

theorem matches_cases (same : Command → Command → Prop) (token other : Located Token) (kind twin : Kind Node)
    (children others : List Node) (steady : Steady same) (matching : Matches same token.value other.value kind twin)
    (below : List.Forall₂ (Agrees same) children others) (exit : String) :
    List.Forall₂ same (cases exit [.mk token kind children]) (cases exit [.mk other twin others]) := by
  cases matching with
  | case label =>
      have body := guarded_agree below label (steady _ rfl)
      exact List.rel_append (List.rel_append body (.cons (steady _ rfl) (.cons (steady _ rfl) .nil))) .nil
  | _ => exact .nil

theorem matches_agree (same : Command → Command → Prop) (token other : Located Token) (kind twin : Kind Node)
    (children others : List Node) (steady : Steady same) (matching : Matches same token.value other.value kind twin)
    (below : List.Forall₂ (Agrees same) children others) :
    Agrees same (.mk token kind children) (.mk other twin others) where
  comment := by cases matching <;> rfl
  case := by cases matching <;> rfl
  field := by cases matching <;> rfl
  returns := by
    cases matching with
    | reference bound twin agree => simp [returns, instruction?, agree.instruction]
    | _ => rfl
  commands := matches_commands same token other kind twin children others steady matching below
  cases := matches_cases same token other kind twin children others steady matching below
  literal := by
    intro bound read
    cases matching with
    | literal instruction own =>
        cases read
        exact ⟨_, rfl, rfl, commands_agree below⟩
    | _ => cases read

end Node

end TealForms
