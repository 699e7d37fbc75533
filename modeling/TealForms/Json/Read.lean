import TealForms.Json.Lexeme

set_option autoImplicit false

namespace TealForms.Json

-- An array or object that waits for a value. What it holds already is kept newest first.
inductive Frame where
  | array (items : List Value)
  | object (members : List (Option String × Value)) (key : Option String)

inductive Stage where
  | value
  | firstItem
  | firstKey
  | key (members : List (Option String × Value))
  | colon (members : List (Option String × Value)) (key : Option String)
  | after (value : Value)

namespace Stage

def start (frames : List Frame) : Lexeme → Option (Stage × List Frame)
  | .scalar atom => some (.after (.scalar atom), frames)
  | .openArray => some (.firstItem, frames)
  | .openObject => some (.firstKey, frames)
  | _ => none

def step : Stage → List Frame → Lexeme → Option (Stage × List Frame)
  | .value, frames, lexeme => start frames lexeme
  | .firstItem, frames, .closeArray => some (.after (.array []), frames)
  | .firstItem, frames, lexeme => start (.array [] :: frames) lexeme
  | .firstKey, frames, .closeObject => some (.after (.object []), frames)
  | .firstKey, frames, .scalar (.string name) => some (.colon [] name, frames)
  | .key members, frames, .scalar (.string name) => some (.colon members name, frames)
  | .colon members name, frames, .colon => some (.value, .object members name :: frames)
  | .after last, .array items :: frames, .comma => some (.value, .array (last :: items) :: frames)
  | .after last, .array items :: frames, .closeArray => some (.after (.array (last :: items).reverse), frames)
  | .after last, .object members name :: frames, .comma => some (.key ((name, last) :: members), frames)
  | .after last, .object members name :: frames, .closeObject =>
      some (.after (.object ((name, last) :: members).reverse), frames)
  | _, _, _ => none

def run (stage : Stage) (frames : List Frame) : List Lexeme → Option (Stage × List Frame)
  | [] => some (stage, frames)
  | lexeme :: rest =>
      match step stage frames lexeme with
      | some (stage, frames) => run stage frames rest
      | none => none

end Stage

def Value.ofLexemes? (lexemes : List Lexeme) : Option Value :=
  match Stage.run .value [] lexemes with
  | some (.after value, []) => some value
  | _ => none

def Value.ofText? (text : List Char) : Option Value := (Lexeme.all text).bind Value.ofLexemes?

end TealForms.Json
