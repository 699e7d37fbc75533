import TealForms.Json.Value

set_option autoImplicit false

namespace TealForms.Json

inductive Lexeme where
  | openArray
  | closeArray
  | openObject
  | closeObject
  | comma
  | colon
  | scalar (scalar : Scalar)
deriving DecidableEq, Repr

inductive Piece where
  | char (c : Char)
  | unit (code : Nat)
deriving DecidableEq, Repr

namespace Piece

def isHigh (code : Nat) : Bool := 0xD800 ≤ code && code < 0xDC00

def isLow (code : Nat) : Bool := 0xDC00 ≤ code && code < 0xE000

-- A high and a low surrogate unit make one character; neither may stand alone.
def join : List Piece → Option (List Char)
  | [] => some []
  | .char c :: rest => (join rest).map (c :: ·)
  | .unit high :: .unit low :: rest =>
      if isHigh high && isLow low then
        (join rest).map (Char.ofNat (0x10000 + (high - 0xD800) * 0x400 + (low - 0xDC00)) :: ·)
      else if isHigh high || isLow high then none
      else (join (.unit low :: rest)).map (Char.ofNat high :: ·)
  | .unit code :: rest => if isHigh code || isLow code then none else (join rest).map (Char.ofNat code :: ·)

end Piece

namespace Lexeme

def isBlank (c : Char) : Bool := c = ' ' || c = '\t' || c = '\n' || c = '\r'

def hexValue? (c : Char) : Option Nat :=
  if c.isDigit then some (c.toNat - '0'.toNat)
  else if 'a' ≤ c ∧ c ≤ 'f' then some (c.toNat - 'a'.toNat + 10)
  else if 'A' ≤ c ∧ c ≤ 'F' then some (c.toNat - 'A'.toNat + 10)
  else none

def unit? (a b c d : Char) : Option Piece := do
  return .unit ((((← hexValue? a) * 16 + (← hexValue? b)) * 16 + (← hexValue? c)) * 16 + (← hexValue? d))

def unescape? : Char → Option Char
  | '\x22' => some '\x22'
  | '\\' => some '\\'
  | '/' => some '/'
  | 'b' => some '\x08'
  | 'f' => some '\x0C'
  | 'n' => some '\n'
  | 'r' => some '\r'
  | 't' => some '\t'
  | _ => none

def pieces : List Char → Option (List Piece × List Char)
  | [] => none
  | '\x22' :: rest => some ([], rest)
  | '\\' :: 'u' :: a :: b :: c :: d :: rest => do
      let piece ← unit? a b c d
      let (others, rest) ← pieces rest
      return (piece :: others, rest)
  | '\\' :: c :: rest => do
      let c ← unescape? c
      let (others, rest) ← pieces rest
      return (.char c :: others, rest)
  | c :: rest =>
      if c = '\\' ∨ c.toNat < 0x20 then none
      else do
        let (others, rest) ← pieces rest
        return (.char c :: others, rest)

def isExponent : List Char → Bool
  | [] => true
  | mark :: rest =>
      let digits := match rest with
        | '+' :: digits | '-' :: digits => digits
        | _ => rest
      (mark = 'e' || mark = 'E') && !digits.isEmpty && digits.all Char.isDigit

def isFraction : List Char → Bool
  | '.' :: rest => !(rest.takeWhile Char.isDigit).isEmpty && isExponent (rest.dropWhile Char.isDigit)
  | rest => isExponent rest

def isNumber (spelling : List Char) : Bool :=
  let unsigned := match spelling with
    | '-' :: rest => rest
    | _ => spelling
  let whole := unsigned.takeWhile Char.isDigit
  !whole.isEmpty && (whole.length = 1 || whole.head? ≠ some '0') && isFraction (unsigned.dropWhile Char.isDigit)

def punctuation? : Char → Option Lexeme
  | '[' => some .openArray
  | ']' => some .closeArray
  | '\x7b' => some .openObject
  | '\x7d' => some .closeObject
  | ',' => some .comma
  | ':' => some .colon
  | _ => none

def isAtomic (c : Char) : Bool := !isBlank c && (punctuation? c).isNone && c != '\x22'

def atom? (spelling : List Char) : Option Scalar :=
  if spelling = "null".toList then some .null
  else if spelling = "true".toList then some (.bool true)
  else if spelling = "false".toList then some (.bool false)
  else if isNumber spelling then some (.number spelling)
  else none

def take? (first : Char) (rest : List Char) : Option (Lexeme × List Char) :=
  match punctuation? first with
  | some lexeme => some (lexeme, rest)
  | none =>
      if first = '\x22' then do
        let (content, rest) ← pieces rest
        return (.scalar (.string ((Piece.join content).map .ofList)), rest)
      else do
        let scalar ← atom? (first :: rest.takeWhile isAtomic)
        return (.scalar scalar, rest.dropWhile isAtomic)

theorem pieces_shorter (chars rest : List Char) (found : List Piece) (taken : pieces chars = some (found, rest)) :
    rest.length < chars.length := by
  fun_induction pieces chars generalizing found with
  | case1 => simp at taken
  | case2 after => simp_all
  | case3 a b c d after ih =>
      simp only [Option.bind_eq_bind, Option.bind_eq_some_iff] at taken
      obtain ⟨_, _, ⟨others, last⟩, inner, same⟩ := taken
      have shorter := ih others (by simp_all)
      simp only [List.length_cons]
      omega
  | case4 c after _ ih =>
      simp only [Option.bind_eq_bind, Option.bind_eq_some_iff] at taken
      obtain ⟨_, _, ⟨others, last⟩, inner, same⟩ := taken
      have shorter := ih others (by simp_all)
      simp only [List.length_cons]
      omega
  | case5 => simp at taken
  | case6 c after _ _ _ _ ih =>
      simp only [Option.bind_eq_bind, Option.bind_eq_some_iff] at taken
      obtain ⟨⟨others, last⟩, inner, same⟩ := taken
      have shorter := ih others (by simp_all)
      simp only [List.length_cons]
      omega

theorem take_shorter (first : Char) (rest after : List Char) (lexeme : Lexeme)
    (taken : take? first rest = some (lexeme, after)) : after.length ≤ rest.length := by
  unfold take? at taken
  split at taken
  · simp_all
  split at taken
  · simp only [Option.bind_eq_bind, Option.bind_eq_some_iff] at taken
    obtain ⟨⟨found, last⟩, inner, same⟩ := taken
    have shorter := pieces_shorter _ _ _ inner
    simp_all
    omega
  · simp only [Option.bind_eq_bind, Option.bind_eq_some_iff] at taken
    obtain ⟨scalar, inner, same⟩ := taken
    have shorter := (List.dropWhile_sublist isAtomic (l := rest)).length_le
    simp_all

def all : List Char → Option (List Lexeme)
  | [] => some []
  | c :: rest =>
      if isBlank c then all rest
      else match _taken : take? c rest with
        | some (lexeme, after) => (all after).map (lexeme :: ·)
        | none => none
termination_by chars => chars.length
decreasing_by
  · simp
  · have shorter := take_shorter _ _ _ _ _taken
    simp only [List.length_cons]
    omega

end Lexeme

end TealForms.Json
