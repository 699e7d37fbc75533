import TealForms.Text.Divide

set_option autoImplicit false

namespace TealForms

inductive Keyword where
  | choice
  | case
  | loop
  | group
  | transaction
deriving DecidableEq, Repr

namespace Keyword

def text : Keyword → String
  | .choice => "#in"
  | .case => "#case"
  | .loop => "#while"
  | .group => "#fn"
  | .transaction => "#itxn"

def all : List Keyword := [.choice, .case, .loop, .group, .transaction]

def ofText? (text : String) : Option Keyword := all.find? fun keyword => keyword.text = text

theorem ofText_text (keyword : Keyword) : ofText? keyword.text = some keyword := by
  cases keyword <;> decide

end Keyword

inductive TokenKind where
  | opening
  | closing
  | bytes
  | integer
  | opcode
  | label
  | scratch
  | constant
  | comment
  | keyword (keyword : Keyword)
  | root
deriving DecidableEq, Repr

structure Token where
  kind : TokenKind
  text : String
deriving DecidableEq, Repr

def commentMark : Char := '\x60'

def quoteMark : Char := '\x22'

def exemptionMark : Char := '?'

namespace Token

def root : Token := ⟨.root, ""⟩

def isVerbatim : TokenKind → Bool
  | .bytes | .integer | .comment => true
  | _ => false

-- Outside literals and comments a text is a head and inline arguments, separated by points.
def parts (token : Token) : List Char × List (List Char) :=
  if isVerbatim token.kind then (token.text.toList, []) else Text.divide '.' token.text.toList

def head (token : Token) : String := .ofList token.parts.1

def args (token : Token) : List String := token.parts.2.map .ofList

def isMarked (token : Token) : Bool :=
  match token.kind, token.text.toList with
  | .opcode, c :: _ :: _ => c = exemptionMark
  | _, _ => false

def labelName (token : Token) : String :=
  if token.text.toList.getLast? = some ':' then .ofList token.text.toList.dropLast else token.text

def shown (token : Token) : String :=
  match token.kind with
  | .keyword keyword => s!"keyword `{keyword.text}`"
  | .label => s!"label `{token.text}`"
  | .scratch => s!"variable `{token.text}`"
  | .constant => s!"constant `{token.text}`"
  | .comment => s!"comment `{token.text}`"
  | .bytes | .integer => s!"literal `{token.text}`"
  | .root => "program root"
  | .opening | .closing | .opcode => s!"`{token.text}`"

-- The kind of an atom: a final colon comes before the first character, and that before the keywords.
def classify (chars : List Char) : TokenKind :=
  if chars.getLast? = some ':' then .label
  else if chars.head? = some '$' then .scratch
  else if chars.head? = some '@' then .constant
  else match Keyword.ofText? (.ofList chars) with
    | some keyword => .keyword keyword
    | none => .opcode

theorem head_args_rejoin (token : Token) :
    Text.rejoin '.' (token.head.toList, token.args.map String.toList) = token.text.toList := by
  unfold head args parts
  split
  · simp [Text.rejoin]
  · simpa [Text.rejoin] using Text.rejoin_divide '.' token.text.toList

end Token

end TealForms
