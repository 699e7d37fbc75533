import TealForms.Proofs.Execution.Machine

set_option autoImplicit false

namespace TealForms

inductive Task where
  | one (node : Node)
  | all (nodes : List Node)
  | first (nodes : List Node)

-- A case runs its body if its condition leaves a value that is not zero, a choice runs the body of the first such case,
-- and a loop runs its body as long as its condition holds.
inductive Evaluates {σ : Type} (machine : Machine σ) : Task → σ → σ → Prop where
  | nil (state : σ) : Evaluates machine (.all []) state state
  | cons (node : Node) (rest : List Node) (start middle final : σ) (head : Evaluates machine (.one node) start middle)
      (tail : Evaluates machine (.all rest) middle final) : Evaluates machine (.all (node :: rest)) start final
  | root (token : Located Token) (version : Nat) (children : List Node) (start final : σ)
      (all : Evaluates machine (.all children) start final) :
      Evaluates machine (.one (.mk token (.root version) children)) start final
  | opcode (token : Located Token) (instruction : Instruction) (children : List Node) (start middle final : σ)
      (all : Evaluates machine (.all children) start middle)
      (own : machine.perform (.instruction instruction.statement none) middle = some final) :
      Evaluates machine (.one (.mk token (.opcode instruction) children)) start final
  | literal (token : Located Token) (instruction : Instruction) (children : List Node) (start middle final : σ)
      (all : Evaluates machine (.all children) start middle)
      (own : machine.perform (.instruction instruction.statement none) middle = some final) :
      Evaluates machine (.one (.mk token (.literal instruction) children)) start final
  | scratch (token : Located Token) (instruction : Instruction) (children : List Node) (start middle final : σ)
      (all : Evaluates machine (.all children) start middle)
      (own : machine.perform (.instruction instruction.statement (some token.value.text)) middle = some final) :
      Evaluates machine (.one (.mk token (.scratch instruction) children)) start final
  | definition (token : Located Token) (children : List Node) (state : σ) :
      Evaluates machine (.one (.mk token .definition children)) state state
  | reference (token : Located Token) (bound : Literal Node) (children : List Node) (start middle final : σ)
      (all : Evaluates machine (.all bound.children) start middle)
      (own : machine.perform (.instruction bound.instruction.statement (some token.value.text)) middle = some final) :
      Evaluates machine (.one (.mk token (.reference bound) children)) start final
  | label (token : Located Token) (children : List Node) (start final : σ)
      (all : Evaluates machine (.all children) start final) :
      Evaluates machine (.one (.mk token .label children)) start final
  | comment (token : Located Token) (children : List Node) (state : σ) :
      Evaluates machine (.one (.mk token .comment children)) state state
  | caseTaken (token : Located Token) (label : String) (children body : List Node) (condition : Node)
      (start tested entered final : σ) (value : Nat) (parts : Node.significant children = condition :: body)
      (test : Evaluates machine (.one condition) start tested) (top : machine.pop tested = some (value, entered))
      (holds : value ≠ 0) (all : Evaluates machine (.all body) entered final) :
      Evaluates machine (.one (.mk token (.case label) children)) start final
  | casePassed (token : Located Token) (label : String) (children body : List Node) (condition : Node)
      (start tested final : σ) (parts : Node.significant children = condition :: body)
      (test : Evaluates machine (.one condition) start tested) (top : machine.pop tested = some (0, final)) :
      Evaluates machine (.one (.mk token (.case label) children)) start final
  | choice (token : Located Token) (label : String) (children : List Node) (start final : σ)
      (first : Evaluates machine (.first (Node.significant children)) start final) :
      Evaluates machine (.one (.mk token (.choice label) children)) start final
  | loopAgain (token : Located Token) (label : String) (children body : List Node) (condition : Node)
      (start tested entered left final : σ) (value : Nat) (parts : Node.significant children = condition :: body)
      (test : Evaluates machine (.one condition) start tested) (top : machine.pop tested = some (value, entered))
      (holds : value ≠ 0) (all : Evaluates machine (.all body) entered left)
      (again : Evaluates machine (.one (.mk token (.loop label) children)) left final) :
      Evaluates machine (.one (.mk token (.loop label) children)) start final
  | loopDone (token : Located Token) (label : String) (children body : List Node) (condition : Node)
      (start tested final : σ) (parts : Node.significant children = condition :: body)
      (test : Evaluates machine (.one condition) start tested) (top : machine.pop tested = some (0, final)) :
      Evaluates machine (.one (.mk token (.loop label) children)) start final
  | group (token : Located Token) (children : List Node) (start final : σ)
      (all : Evaluates machine (.all children) start final) :
      Evaluates machine (.one (.mk token .group children)) start final
  | transaction (token : Located Token) (children : List Node) (start opened filled final : σ)
      (begins : machine.perform (.instruction "itxn_begin" none) start = some opened)
      (all : Evaluates machine (.all children) opened filled)
      (submits : machine.perform (.instruction "itxn_submit" none) filled = some final) :
      Evaluates machine (.one (.mk token .transaction children)) start final
  | firstNone (state : σ) : Evaluates machine (.first []) state state
  | firstTaken (token : Located Token) (label : String) (children body rest : List Node) (condition : Node)
      (start tested entered final : σ) (value : Nat) (parts : Node.significant children = condition :: body)
      (test : Evaluates machine (.one condition) start tested) (top : machine.pop tested = some (value, entered))
      (holds : value ≠ 0) (all : Evaluates machine (.all body) entered final) :
      Evaluates machine (.first (.mk token (.case label) children :: rest)) start final
  | firstPassed (token : Located Token) (label : String) (children body rest : List Node) (condition : Node)
      (start tested left final : σ) (parts : Node.significant children = condition :: body)
      (test : Evaluates machine (.one condition) start tested) (top : machine.pop tested = some (0, left))
      (later : Evaluates machine (.first rest) left final) :
      Evaluates machine (.first (.mk token (.case label) children :: rest)) start final

end TealForms
