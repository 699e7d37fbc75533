import TealForms.Position

set_option autoImplicit false

namespace TealForms

inductive ReadFailure where
  | notUtf8
  | device (message : String)
deriving DecidableEq, Repr

def ReadFailure.message : ReadFailure → String
  | .notUtf8 => "stream did not contain valid UTF-8"
  | .device message => message

structure SourceLine where
  text : List Char
  terminated : Bool
deriving DecidableEq, Repr

namespace SourceLine

-- A carriage return belongs to the line end only directly before the line feed.
def ofChars (chars : List Char) : SourceLine :=
  match chars.reverse with
  | '\n' :: '\r' :: reversed => ⟨reversed.reverse, true⟩
  | '\n' :: reversed => ⟨reversed.reverse, true⟩
  | _ => ⟨chars, false⟩

def chars (line : SourceLine) : List Char := line.text ++ if line.terminated then ['\n'] else []

end SourceLine

structure Source where
  name : String := "<input>"
  bytes : List UInt8
  failure : Option String := none
deriving DecidableEq, Repr

namespace Source

def ofString (text : String) (name : String) : Source := ⟨name, text.toUTF8.toList, none⟩

def lineFeed : UInt8 := 0x0A

def cut (byte : UInt8) : List (List UInt8) → List (List UInt8)
  | [] => [[byte]]
  | chunk :: chunks => if byte = lineFeed then [byte] :: chunk :: chunks else (byte :: chunk) :: chunks

def chunks (bytes : List UInt8) : List (List UInt8) := bytes.foldr cut []

def decode (chunk : List UInt8) : Except ReadFailure SourceLine :=
  match String.fromUTF8? ⟨chunk.toArray⟩ with
  | some text => .ok (.ofChars text.toList)
  | none => .error .notUtf8

-- A failing device takes the unfinished last line with it.
def lines (source : Source) : List (Except ReadFailure SourceLine) :=
  match source.failure with
  | none => (chunks source.bytes).map decode
  | some message =>
      ((chunks source.bytes).filter fun chunk => chunk.getLast? = some lineFeed).map decode ++
        [.error (.device message)]

end Source

abbrev Element := Except ReadFailure (Located Char)

namespace Source

def lineElements : Except ReadFailure SourceLine → List (Except ReadFailure Char)
  | .ok line => line.chars.map .ok
  | .error failure => [.error failure]

-- A failure takes no room: the next character stands where the failure found the text.
def place (origin : String) : Position → List (Except ReadFailure Char) → List Element
  | _, [] => []
  | here, .error failure :: rest => .error failure :: place origin here rest
  | here, .ok c :: rest => .ok ⟨c, .single origin here⟩ :: place origin (here.after c) rest

def start (source : Source) : Location := .single source.name {}

def elements (source : Source) : List Element := place source.name {} (source.lines.flatMap lineElements)

def record : Nat → List (Except ReadFailure SourceLine) → List (List Char)
  | 0, _ => []
  | _ + 1, [] => []
  | count + 1, .error _ :: rest => record count rest
  | count + 1, .ok line :: rest => line.text :: record (count + 1 - line.chars.length) rest

def recorded (source : Source) (count : Nat) : List (List Char) := record count source.lines

def readable (source : Source) : Nat := (source.elements.takeWhile fun element => element.isOk).length

theorem chunks_flatten (bytes : List UInt8) : (chunks bytes).flatten = bytes := by
  induction bytes with
  | nil => rfl
  | cons byte rest ih =>
      rw [show chunks (byte :: rest) = cut byte (chunks rest) from rfl]
      cases cutRest : chunks rest with
      | nil => simp_all [cut]
      | cons chunk others =>
          rw [cutRest] at ih
          by_cases ends : byte = lineFeed <;> simp_all [cut]

theorem place_length (origin : String) (here : Position) (chars : List (Except ReadFailure Char)) :
    (place origin here chars).length = chars.length := by
  fun_induction place origin here chars <;> simp_all

end Source

end TealForms
