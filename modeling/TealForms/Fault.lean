import TealForms.Source
import TealForms.Token

set_option autoImplicit false

namespace TealForms

inductive Fault where
  | input (failure : ReadFailure)
  | unclosedExpression
  | invalidToken (text : String)
  | invalidOpcode (name : String)
  | stackArgs (expected found : Nat)
  | immediateArgs (expected found : Nat)
  | invalidArg (arg : String) (valid : List String)
  | scratchOverflow (name : String)
  | scratchNotFound (name : String)
  | constantNotDefined (name : String)
  | constantRedefined (name : String)
  | constantArity
  | constantLiteral
  | labelRedefined (name : String)
  | macroArity (keyword : Keyword)
  | choiceNotCase
  | transactionField
deriving DecidableEq, Repr

def Keyword.leastChildren : Keyword → Nat
  | .choice | .case | .loop => 2
  | .transaction => 1
  | .group => 0

def Fault.message : Fault → String
  | .input failure => s!"I/O error: {failure.message}"
  | .unclosedExpression => "Unclosed expression"
  | .invalidToken text => s!"Invalid token `{text}`"
  | .invalidOpcode name => s!"Invalid opcode `{name}`"
  | .stackArgs expected found => s!"Invalid number of stack args: expected {expected}, found {found}"
  | .immediateArgs expected found => s!"Invalid number of immediate args: expected {expected}, found {found}"
  | .invalidArg arg valid => s!"Invalid arg `{arg}`, need one of the following: " ++ ", ".intercalate valid
  | .scratchOverflow name => s!"Scratch space overflow while allocating `{name}`"
  | .scratchNotFound name => s!"Scratch space not found for `{name}`"
  | .constantNotDefined name => s!"Constant not defined yet: `{name}`"
  | .constantRedefined name => s!"Constant already defined: `{name}`"
  | .constantArity => "Constants require exactly one child"
  | .constantLiteral => "Constants accept only byte or int literals"
  | .labelRedefined name => s!"Label already defined: `{name}`"
  | .macroArity keyword =>
      keyword.text ++ " requires at least " ++ if keyword.leastChildren = 2 then "two children" else "one child"
  | .choiceNotCase => "#in requires all children to be a #case"
  | .transactionField => "#itxn requires all children to be itxn_field"

end TealForms
