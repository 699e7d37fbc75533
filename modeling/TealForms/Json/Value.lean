set_option autoImplicit false

namespace TealForms.Json

-- A number keeps its spelling. A string is `none` if it holds half of a surrogate pair, which no text can spell.
inductive Scalar where
  | null
  | bool (value : Bool)
  | number (spelling : List Char)
  | string (text : Option String)
deriving DecidableEq, Repr

inductive Value where
  | scalar (scalar : Scalar)
  | array (items : List Value)
  | object (members : List (Option String × Value))

def escape (c : Char) : List Char :=
  if c = '\x22' then ['\\', '\x22']
  else if c = '\\' then ['\\', '\\']
  else if c = '\x08' then ['\\', 'b']
  else if c = '\x0C' then ['\\', 'f']
  else if c = '\n' then ['\\', 'n']
  else if c = '\r' then ['\\', 'r']
  else if c = '\t' then ['\\', 't']
  else if c.toNat < 0x20 then ['\\', 'u', '0', '0', Nat.digitChar (c.toNat / 16), Nat.digitChar (c.toNat % 16)]
  else [c]

def quoted : Option String → List Char
  | some text => '\x22' :: text.toList.flatMap escape ++ ['\x22']
  | none => "\"\\ud800\"".toList

namespace Scalar

def written : Scalar → List Char
  | .null => "null".toList
  | .bool true => "true".toList
  | .bool false => "false".toList
  | .number spelling => spelling
  | .string text => quoted text

end Scalar

namespace Value

def text (text : String) : Value := .scalar (.string (some text))

def natural (value : Nat) : Value := .scalar (.number (Nat.toDigits 10 value))

def record (members : List (String × Value)) : Value := .object (members.map fun (key, value) => (some key, value))

def natural? : Value → Option Nat
  | .scalar (.number spelling) =>
      if spelling.all Char.isDigit then
        some (spelling.foldl (fun value digit => 10 * value + (digit.toNat - '0'.toNat)) 0)
      else none
  | _ => none

mutual
def compact : Value → List Char
  | .scalar atom => atom.written
  | .array items => '[' :: compactItems items ++ [']']
  | .object members => '\x7b' :: compactMembers members ++ ['\x7d']
def compactItems : List Value → List Char
  | [] => []
  | [item] => compact item
  | item :: next :: rest => compact item ++ ',' :: compactItems (next :: rest)
def compactMembers : List (Option String × Value) → List Char
  | [] => []
  | [(key, value)] => quoted key ++ ':' :: compact value
  | (key, value) :: next :: rest => quoted key ++ ':' :: compact value ++ ',' :: compactMembers (next :: rest)
end

def newline (depth : Nat) : List Char := '\n' :: List.replicate (2 * depth) ' '

mutual
-- Items and members stand on lines of their own, two columns deeper; an empty list or object stays on its line.
def indented (depth : Nat) : Value → List Char
  | .scalar atom => atom.written
  | .array [] => ['[', ']']
  | .array items => '[' :: indentedItems (depth + 1) items ++ newline depth ++ [']']
  | .object [] => ['\x7b', '\x7d']
  | .object members => '\x7b' :: indentedMembers (depth + 1) members ++ newline depth ++ ['\x7d']
def indentedItems (depth : Nat) : List Value → List Char
  | [] => []
  | [item] => newline depth ++ indented depth item
  | item :: next :: rest => newline depth ++ indented depth item ++ ',' :: indentedItems depth (next :: rest)
def indentedMembers (depth : Nat) : List (Option String × Value) → List Char
  | [] => []
  | [(key, value)] => newline depth ++ quoted key ++ [':', ' '] ++ indented depth value
  | (key, value) :: next :: rest =>
      newline depth ++ quoted key ++ [':', ' '] ++ indented depth value ++ ',' :: indentedMembers depth (next :: rest)
end

end Value

end TealForms.Json
