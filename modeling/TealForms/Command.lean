import TealForms.Allocations
import TealForms.Line

set_option autoImplicit false

namespace TealForms

-- Macros turn into jumps and labels of their own, which are kept apart from the instructions of the program.
inductive Command where
  | pragma (version : Nat)
  | label (name : String)
  | plain (instruction : Instruction) (comment : Option String)
  | branchIfZero (target : String)
  | branch (target : String)
  | beginTransaction
  | submitTransaction
deriving DecidableEq, Repr

def Command.line : Command → Line
  | .pragma version => .pragma version
  | .label name => .label name
  | .plain instruction comment => .instruction instruction.statement comment
  | .branchIfZero target => .instruction ("bz " ++ target) none
  | .branch target => .instruction ("b " ++ target) none
  | .beginTransaction => .instruction "itxn_begin" none
  | .submitTransaction => .instruction "itxn_submit" none

namespace Node

mutual
def commands : Node → List Command
  | .mk _ (.root version) children => .pragma version :: commandsAll children
  | .mk _ (.opcode instruction) children => commandsAll children ++ [.plain instruction none]
  | .mk _ (.literal instruction) children => commandsAll children ++ [.plain instruction none]
  | .mk token (.scratch instruction) children =>
      commandsAll children ++ [.plain instruction (some token.value.text)]
  | .mk _ .definition _ => []
  | .mk token (.reference ⟨_, instruction, children⟩) _ =>
      commandsAll children ++ [.plain instruction (some token.value.text)]
  | .mk token .label children => .label token.value.labelName :: commandsAll children
  | .mk _ .comment _ => []
  | .mk _ (.case label) children => guarded label children ++ [.label label]
  | .mk _ (.choice label) children => cases label children ++ [.label label]
  | .mk _ (.loop label) children =>
      .label label :: guarded (loopEnd label) children ++ [.branch label, .label (loopEnd label)]
  | .mk _ .group children => commandsAll children
  | .mk _ .transaction children => .beginTransaction :: commandsAll children ++ [.submitTransaction]
def commandsAll : List Node → List Command
  | [] => []
  | node :: rest => commands node ++ commandsAll rest
-- The first child that is no comment is a condition; the rest is skipped if it is zero.
def guarded (target : String) : List Node → List Command
  | [] => [.branchIfZero target]
  | node :: rest =>
      if node.isComment then guarded target rest else commands node ++ .branchIfZero target :: commandsAll rest
def cases (exit : String) : List Node → List Command
  | [] => []
  | .mk _ (.case label) children :: rest => guarded label children ++ [.branch exit, .label label] ++ cases exit rest
  | _ :: rest => cases exit rest
end

def lines (node : Node) : List Line := node.commands.map Command.line

def assembly (node : Node) : String := Line.joined node.lines

theorem commands_all_append (first second : List Node) :
    commandsAll (first ++ second) = commandsAll first ++ commandsAll second := by
  induction first with
  | nil => simp [commandsAll]
  | cons node rest ih => simp [commandsAll, ih]

theorem commands_all_significant (children : List Node) :
    commandsAll (significant children) = commandsAll children := by
  induction children with
  | nil => rfl
  | cons node rest ih =>
      by_cases comment : node.isComment = true
      · have none : commands node = [] := by
          cases node with
          | mk token kind children => cases kind <;> simp_all [isComment, commands]
        have kept : significant (node :: rest) = significant rest := by simp [significant, comment]
        rw [kept, ih, commandsAll, none, List.nil_append]
      · have kept : significant (node :: rest) = node :: significant rest := by simp [significant, comment]
        rw [kept, commandsAll, commandsAll, ih]

end Node

end TealForms
