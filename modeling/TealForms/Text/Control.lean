set_option autoImplicit false

namespace TealForms.Text

inductive Control where
  | outside
  | escape
  | escapeIntermediate
  | sequence
  | device
  | deviceParameter
  | deviceIntermediate
  | string
  | command
deriving DecidableEq, Repr

def cancel : Char := '\x18'

def substitute : Char := '\x1A'

def escape : Char := '\x1B'

def bell : Char := '\x07'

def delete : Char := '\x7F'

def isMovement (c : Char) : Bool := c = '\t' || c = '\n' || c = '\x0C' || c = '\r'

def isIntermediate (c : Char) : Bool := ' ' ≤ c && c ≤ '/'

def isParameter (c : Char) : Bool := '0' ≤ c && c ≤ '?'

def isFinal (c : Char) : Bool := '@' ≤ c && c ≤ '~'

-- A string ends at the byte that terminates strings, also in the midst of a character.
def terminates (c : Char) : Bool := (String.utf8EncodeChar c).contains 0x9C

namespace Control

def introduced (c : Char) : Control :=
  if c = '[' then .sequence
  else if c = 'P' then .device
  else if c = ']' then .command
  else if c = 'X' || c = '^' || c = '_' then .string
  else if isIntermediate c then .escapeIntermediate
  else if isParameter c || isFinal c then .outside
  else .escape

def after (c : Char) (control : Control) : Control :=
  if c = Text.escape then .escape
  else if c = cancel || c = substitute then .outside
  else
    match control with
    | .outside => .outside
    | .escape => introduced c
    | .escapeIntermediate => if isParameter c || isFinal c then .outside else .escapeIntermediate
    | .sequence => if isFinal c then .outside else .sequence
    | .device =>
        if isFinal c then .string
        else if isIntermediate c then .deviceIntermediate
        else if isParameter c then .deviceParameter
        else .device
    | .deviceParameter =>
        if isFinal c || isParameter c && '<' ≤ c then .string
        else if isIntermediate c then .deviceIntermediate
        else .deviceParameter
    | .deviceIntermediate => if isFinal c || isParameter c then .string else .deviceIntermediate
    | .string => if terminates c then .outside else .string
    | .command => if c = bell then .outside else .command

def shows (c : Char) : Control → Bool
  | .outside => ' ' ≤ c && c != delete || isMovement c
  | .escape | .escapeIntermediate | .sequence => isMovement c
  | _ => false

end Control

-- A movement inside a sequence is shown, and so is the text after it up to the next control character, where the
-- sequence goes on. A character beyond ASCII ends the sequence that it is shown in.
def plainFrom (shown : Bool) (control : Control) : List Char → List Char
  | [] => []
  | c :: rest =>
      if (if shown then Control.outside else control).shows c then
        c :: plainFrom true (if c.toNat < 0x80 then control else .outside) rest
      else plainFrom false (control.after c) rest

def plain (chars : List Char) : List Char := plainFrom false .outside chars

theorem plain_from_shown (chars : List Char) (shown : Bool) (visible : ∀ c ∈ chars, Control.outside.shows c = true) :
    plainFrom shown .outside chars = chars := by
  induction chars generalizing shown with
  | nil => rfl
  | cons c rest ih =>
      rw [plainFrom, ite_self, ite_self, if_pos (visible c List.mem_cons_self),
        ih true fun other member => visible other (List.mem_cons_of_mem c member)]

theorem plain_shown (chars : List Char) (visible : ∀ c ∈ chars, Control.outside.shows c = true) :
    plain chars = chars :=
  plain_from_shown chars false visible

example : plain "\x1B[31mred\x1B[0m and\x07 plain".toList = "red and plain".toList := by decide +kernel

example : plain "a\x1BPdevice\x1B\\b\x1B]title\x07c".toList = "abc".toList := by decide +kernel

end TealForms.Text
