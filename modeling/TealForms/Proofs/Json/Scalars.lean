import Mathlib.Data.List.TakeWhile
import TealForms.Json.Lexeme

set_option autoImplicit false

namespace TealForms.Json

namespace Piece

def Spells (piece : Piece) (c : Char) : Prop := ∀ later, join (piece :: later) = (join later).map (c :: ·)

theorem char_spells (c : Char) : (Piece.char c).Spells c := fun _ => rfl

theorem unit_spells (code : Nat) (small : code < 0xD800) : (Piece.unit code).Spells (.ofNat code) := by
  have high : isHigh code = false := by
    rw [isHigh, Bool.and_eq_false_iff]
    exact .inl (decide_eq_false (Nat.not_le_of_lt small))
  have low : isLow code = false := by
    rw [isLow, Bool.and_eq_false_iff]
    exact .inl (decide_eq_false (Nat.not_le_of_lt (Nat.lt_of_lt_of_le small (by decide))))
  intro later
  cases later with
  | nil => simp [join, high, low]
  | cons piece later => cases piece <;> simp [join, high, low]

end Piece

namespace Lexeme

theorem hex_value_digit : ∀ digit < 16, hexValue? (Nat.digitChar digit) = some digit := by decide

theorem unit_low (code : Nat) (small : code < 0x20) :
    unit? '0' '0' (Nat.digitChar (code / 16)) (Nat.digitChar (code % 16)) = some (.unit code) := by
  have zero : hexValue? '0' = some 0 := by decide
  rw [unit?, zero, hex_value_digit (code / 16) (by omega), hex_value_digit (code % 16) (by omega)]
  show some (Piece.unit _) = _
  congr 2
  omega

section

variable (rest : List Char)

theorem pieces_named (mark c : Char) (named : unescape? mark = some c) :
    pieces ('\\' :: mark :: rest) = (pieces rest).map fun (others, after) => (.char c :: others, after) := by
  have other : mark ≠ 'u' := by
    rintro rfl
    cases named
  rw [pieces, named]
  · cases pieces rest <;> rfl
  · rintro a b c d after rfl
    exact absurd rfl other

theorem pieces_unit (a b c d : Char) (piece : Piece) (spelled : unit? a b c d = some piece) :
    pieces ('\\' :: 'u' :: a :: b :: c :: d :: rest) =
      (pieces rest).map fun (others, after) => (piece :: others, after) := by
  rw [pieces, spelled]
  cases pieces rest <;> rfl

theorem pieces_plain (c : Char) (unquoted : c ≠ '\x22') (unescaped : c ≠ '\\') (printed : ¬c.toNat < 0x20) :
    pieces (c :: rest) = (pieces rest).map fun (others, after) => (.char c :: others, after) := by
  rw [pieces, if_neg (not_or.mpr ⟨unescaped, printed⟩)]
  · cases pieces rest <;> rfl
  · exact unquoted
  · intro a b c d after same
    exact absurd same unescaped
  · intro mark after same
    exact absurd same unescaped

end

def named : List Char := ['\x22', '\\', '\x08', '\x0C', '\n', '\r', '\t']

theorem escape_named (c : Char) (special : c ∈ named) :
    ∃ mark, escape c = ['\\', mark] ∧ unescape? mark = some c := by
  simp only [named, List.mem_cons, List.not_mem_nil, or_false] at special
  rcases special with rfl | rfl | rfl | rfl | rfl | rfl | rfl <;> exact ⟨_, rfl, rfl⟩

theorem escape_unnamed (c : Char) (unnamed : c ∉ named) :
    escape c =
      if c.toNat < 0x20 then ['\\', 'u', '0', '0', Nat.digitChar (c.toNat / 16), Nat.digitChar (c.toNat % 16)]
      else [c] := by
  simp only [named, List.mem_cons, List.not_mem_nil, or_false, not_or] at unnamed
  obtain ⟨quote, backslash, backspace, formFeed, lineFeed, carriage, tab⟩ := unnamed
  rw [escape, if_neg quote, if_neg backslash, if_neg backspace, if_neg formFeed, if_neg lineFeed, if_neg carriage,
    if_neg tab]

theorem pieces_escape (c : Char) : ∃ piece : Piece, piece.Spells c ∧ ∀ rest,
    pieces (escape c ++ rest) = (pieces rest).map fun (others, after) => (piece :: others, after) := by
  by_cases special : c ∈ named
  · obtain ⟨mark, escaped, unescaped⟩ := escape_named c special
    exact ⟨_, Piece.char_spells c, fun rest => by rw [escaped]; exact pieces_named rest mark c unescaped⟩
  · rw [escape_unnamed c special]
    by_cases control : c.toNat < 0x20
    · have spelled := Piece.unit_spells c.toNat (by omega)
      rw [Char.ofNat_toNat] at spelled
      refine ⟨_, spelled, fun rest => ?_⟩
      rw [if_pos control]
      exact pieces_unit rest _ _ _ _ _ (unit_low c.toNat control)
    · refine ⟨_, Piece.char_spells c, fun rest => ?_⟩
      rw [if_neg control]
      refine pieces_plain rest c ?_ ?_ control
      · exact fun quote => special (by rw [quote]; decide)
      · exact fun backslash => special (by rw [backslash]; decide)

theorem pieces_escaped (text rest : List Char) :
    ∃ found, pieces (text.flatMap escape ++ '\x22' :: rest) = some (found, rest) ∧ Piece.join found = some text := by
  induction text with
  | nil => exact ⟨[], by simp [pieces], rfl⟩
  | cons c text ih =>
      obtain ⟨found, read, joined⟩ := ih
      obtain ⟨piece, spells, opened⟩ := pieces_escape c
      refine ⟨piece :: found, ?_, ?_⟩
      · rw [List.flatMap_cons, List.append_assoc, opened, read]
        rfl
      · rw [spells, joined]
        rfl

theorem take_quoted (text : Option String) (rest : List Char) :
    ∃ inside, quoted text = '\x22' :: inside ∧
      take? '\x22' (inside ++ rest) = some (.scalar (.string text), rest) := by
  cases text with
  | none => exact ⟨"\\ud800\"".toList, rfl, rfl⟩
  | some text =>
      obtain ⟨found, read, joined⟩ := pieces_escaped text.toList rest
      refine ⟨text.toList.flatMap escape ++ ['\x22'], rfl, ?_⟩
      have whole : text.toList.flatMap escape ++ ['\x22'] ++ rest = text.toList.flatMap escape ++ '\x22' :: rest :=
        List.append_assoc ..
      rw [whole, take?, show punctuation? '\x22' = none from rfl, read]
      simp [joined]

def delimiters : List Char := [' ', '\t', '\n', '\r', '[', ']', '\x7b', '\x7d', ',', ':', '\x22']

theorem atomic_iff (c : Char) : isAtomic c = true ↔ c ∉ delimiters := by
  constructor
  · intro atomic member
    have none : delimiters.filter isAtomic = [] := by decide
    exact List.filter_eq_nil_iff.mp none c member atomic
  · intro other
    have unpunctuated : punctuation? c = none := by
      unfold punctuation?
      split <;> simp_all [delimiters]
    simp_all [isAtomic, isBlank, delimiters]

theorem digit_atomic (c : Char) (digit : c.isDigit = true) : isAtomic c = true := by
  rw [atomic_iff]
  intro member
  have none : delimiters.filter Char.isDigit = [] := by decide
  exact List.filter_eq_nil_iff.mp none c member digit

theorem exponent_atomic (spelling : List Char) (exponent : isExponent spelling = true) :
    ∀ c ∈ spelling, isAtomic c = true := by
  have sign : isAtomic '+' = true ∧ isAtomic '-' = true := by decide
  cases spelling with
  | nil => simp
  | cons mark rest =>
      simp only [isExponent, Bool.and_eq_true, Bool.or_eq_true, decide_eq_true_eq, List.all_eq_true] at exponent
      obtain ⟨⟨marks, -⟩, digits⟩ := exponent
      have opens : isAtomic mark = true := by
        rcases marks with rfl | rfl <;> decide
      have others : ∀ c ∈ rest, isAtomic c = true := by
        split at digits
        · exact List.forall_mem_cons.mpr ⟨sign.1, fun c member => digit_atomic c (digits c member)⟩
        · exact List.forall_mem_cons.mpr ⟨sign.2, fun c member => digit_atomic c (digits c member)⟩
        · exact fun c member => digit_atomic c (digits c member)
      exact List.forall_mem_cons.mpr ⟨opens, others⟩

theorem digits_atomic (spelling : List Char)
    (behind : ∀ c ∈ spelling.dropWhile Char.isDigit, isAtomic c = true) : ∀ c ∈ spelling, isAtomic c = true := by
  intro c member
  rw [← List.takeWhile_append_dropWhile (p := Char.isDigit) (l := spelling)] at member
  rcases List.mem_append.mp member with front | back
  · exact digit_atomic c (List.all_eq_true.mp List.all_takeWhile c front)
  · exact behind c back

theorem fraction_atomic (spelling : List Char) (fraction : isFraction spelling = true) :
    ∀ c ∈ spelling, isAtomic c = true := by
  unfold isFraction at fraction
  split at fraction
  · rw [Bool.and_eq_true] at fraction
    exact List.forall_mem_cons.mpr ⟨by decide, digits_atomic _ (exponent_atomic _ fraction.2)⟩
  · exact exponent_atomic _ fraction

theorem number_atomic (spelling : List Char) (number : isNumber spelling = true) :
    ∀ c ∈ spelling, isAtomic c = true := by
  simp only [isNumber, Bool.and_eq_true] at number
  have unsigned := digits_atomic _ (fraction_atomic _ number.2)
  split at unsigned
  · exact List.forall_mem_cons.mpr ⟨by decide, unsigned⟩
  · exact unsigned

theorem atom_number (spelling : List Char) (number : isNumber spelling = true) :
    atom? spelling = some (.number spelling) := by
  have word : ∀ word ∈ ["null".toList, "true".toList, "false".toList], spelling ≠ word := by
    rintro word member rfl
    have worded : ∀ word ∈ ["null".toList, "true".toList, "false".toList], isNumber word = false := by decide
    rw [worded spelling member] at number
    cases number
  simp only [List.forall_mem_cons] at word
  rw [atom?, if_neg word.1, if_neg word.2.1, if_neg word.2.2.1, if_pos number]

def Apart (rest : List Char) : Prop := ∀ c ∈ rest.head?, isAtomic c = false

theorem take_atom (first : Char) (others rest : List Char) (atom : Scalar)
    (atomic : ∀ c ∈ first :: others, isAtomic c = true) (spelled : atom? (first :: others) = some atom)
    (apart : Apart rest) : take? first (others ++ rest) = some (.scalar atom, rest) := by
  obtain ⟨opens, atomic⟩ := List.forall_mem_cons.mp atomic
  have taken : (others ++ rest).takeWhile isAtomic = others ∧ (others ++ rest).dropWhile isAtomic = rest := by
    rw [List.takeWhile_append_of_pos atomic, List.dropWhile_append_of_pos atomic]
    cases rest with
    | nil => exact ⟨List.append_nil others, rfl⟩
    | cons c rest =>
        have stops : isAtomic c = false := apart c rfl
        simp [stops]
  simp only [isAtomic, Bool.and_eq_true, Option.isNone_iff_eq_none, bne_iff_ne] at opens
  rw [take?, opens.1.2]
  show (if first = '\x22' then _ else _) = _
  rw [if_neg opens.2, taken.1, taken.2, spelled]
  rfl

end Lexeme

theorem digits_head (value : Nat) (positive : 0 < value) : (Nat.toDigits 10 value).head? ≠ some '0' := by
  induction value using Nat.strongRecOn with
  | ind value ih =>
      rcases Nat.lt_or_ge value 10 with small | large
      · have digit : ∀ digit < 10, 0 < digit → some (Nat.digitChar digit) ≠ some '0' := by decide
        rw [Nat.toDigits_of_lt_base small]
        exact digit value small positive
      · have front := ih (value / 10) (by omega) (by omega)
        have nonempty : Nat.toDigits 10 (value / 10) ≠ [] := Nat.toDigits_ne_nil
        obtain ⟨first, others, spelled⟩ := List.exists_cons_of_ne_nil nonempty
        rw [spelled] at front
        rw [Nat.toDigits_of_base_le (by decide) large, spelled]
        exact front

theorem number_of_digits (spelling : List Char) (digits : ∀ c ∈ spelling, c.isDigit = true) (nonempty : spelling ≠ [])
    (lead : spelling.length = 1 ∨ spelling.head? ≠ some '0') : Lexeme.isNumber spelling = true := by
  have whole : spelling.takeWhile Char.isDigit = spelling ∧ spelling.dropWhile Char.isDigit = [] := by
    exact ⟨List.takeWhile_eq_self_iff.mpr digits, List.dropWhile_eq_nil_iff.mpr digits⟩
  simp only [Lexeme.isNumber]
  split
  · have minus := digits '-' (List.mem_cons_self ..)
    cases minus
  · rw [whole.1, whole.2]
    simp [Lexeme.isFraction, Lexeme.isExponent, nonempty, lead]

theorem digits_number (value : Nat) : Lexeme.isNumber (Nat.toDigits 10 value) = true := by
  refine number_of_digits _ (fun c => Nat.isDigit_of_mem_toDigits (by decide) (by decide)) Nat.toDigits_ne_nil ?_
  rcases Nat.eq_zero_or_pos value with rfl | positive
  · exact .inl rfl
  · exact .inr (digits_head value positive)

theorem natural_natural (value : Nat) : (Value.natural value).natural? = some value := by
  have digits : (Nat.toDigits 10 value).all Char.isDigit = true :=
    List.all_eq_true.mpr fun c => Nat.isDigit_of_mem_toDigits (by decide) (by decide)
  rw [Value.natural, Value.natural?, if_pos digits, ← Nat.ofDigitChars_eq_foldl,
    Nat.ofDigitChars_toDigits (by decide) (by decide)]

end TealForms.Json
