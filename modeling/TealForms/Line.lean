set_option autoImplicit false

namespace TealForms

inductive Line where
  | pragma (version : Nat)
  | label (name : String)
  | instruction (statement : String) (comment : Option String)
deriving DecidableEq, Repr

namespace Line

def text : Line → String
  | .pragma version => s!"#pragma version {version}"
  | .label name => name ++ ":"
  | .instruction statement none => statement
  | .instruction statement (some comment) => statement ++ " // " ++ comment

def joined (lines : List Line) : String := String.join (lines.map fun line => line.text ++ "\n")

end Line

end TealForms
