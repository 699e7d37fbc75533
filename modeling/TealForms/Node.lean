import TealForms.Position
import TealForms.Table
import TealForms.Token

set_option autoImplicit false

namespace TealForms

structure Instruction where
  record : Record
  immediates : List String
deriving DecidableEq, Repr

def Instruction.statement (instruction : Instruction) : String :=
  .ofList (Text.rejoin ' ' (instruction.record.name.toList, instruction.immediates.map String.toList))

structure Literal (ν : Type) where
  token : Located Token
  instruction : Instruction
  children : List ν

inductive Kind (ν : Type) where
  | root (version : Nat)
  | opcode (instruction : Instruction)
  | literal (instruction : Instruction)
  | scratch (instruction : Instruction)
  | definition
  | reference (bound : Literal ν)
  | label
  | comment
  | case (label : String)
  | choice (label : String)
  | loop (label : String)
  | group
  | transaction

inductive Node where
  | mk (token : Located Token) (kind : Kind Node) (children : List Node)

namespace Node

def token : Node → Located Token
  | .mk token _ _ => token

def kind : Node → Kind Node
  | .mk _ kind _ => kind

def children : Node → List Node
  | .mk _ _ children => children

def isComment : Node → Bool
  | .mk _ .comment _ => true
  | _ => false

def isCase : Node → Bool
  | .mk _ (.case _) _ => true
  | _ => false

def isField : Node → Bool
  | .mk _ (.opcode instruction) _ => instruction.record.name = "itxn_field"
  | _ => false

def literal? : Node → Option (Literal Node)
  | .mk token (.literal instruction) children => some ⟨token, instruction, children⟩
  | _ => none

def instruction? : Node → Option Instruction
  | .mk _ (.opcode instruction) _ | .mk _ (.literal instruction) _ | .mk _ (.scratch instruction) _ => some instruction
  | .mk _ (.reference bound) _ => some bound.instruction
  | _ => none

def doc? : Node → Option String
  | .mk token (.scratch _) _ | .mk token .definition _ | .mk token (.reference _) _ => some token.value.text
  | _ => none

def returns (node : Node) : Nat :=
  match node.instruction? with
  | some instruction => instruction.record.returns.length
  | none => 0

def returnsAll : List Node → Nat
  | [] => 0
  | node :: rest => node.returns + returnsAll rest

def significant (children : List Node) : List Node := children.filter fun child => !child.isComment

mutual
def preorder (depth : Nat) : Node → List (Nat × Node)
  | .mk token kind children => (depth, .mk token kind children) :: preorderAll (depth + 1) children
def preorderAll (depth : Nat) : List Node → List (Nat × Node)
  | [] => []
  | node :: rest => preorder depth node ++ preorderAll depth rest
end

end Node

end TealForms
