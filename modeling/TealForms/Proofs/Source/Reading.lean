import Mathlib.Data.List.Basic
import TealForms.Compile
import TealForms.Proofs.Token.Layout

set_option autoImplicit false

namespace TealForms

namespace Source

def Reads (source : Source) (chars : List Char) : Prop := source.elements = stream source.name {} chars

-- Line ends are written in two characters, so that one before them in the text is not taken for a part of them.
def encoded (c : Char) : List UInt8 := if c = '\n' then [0x0D, lineFeed] else String.utf8EncodeChar c

def written (name : String) (chars : List Char) : Source := ⟨name, chars.flatMap encoded, none⟩

theorem utf8_feed (c : Char) (other : c ≠ '\n') : lineFeed ∉ String.utf8EncodeChar c := by
  have value : c.toNat ≠ 10 := fun same => other (Char.ext (UInt32.toNat_inj.mp same))
  intro member
  have byte : ∃ byte ∈ String.utf8EncodeChar c, byte.toNat = 10 := ⟨lineFeed, member, rfl⟩
  unfold String.utf8EncodeChar at byte
  rw [show c.val.toNat = c.toNat from rfl] at byte
  dsimp only at byte
  -- Every byte of a longer encoding is beyond 127.
  split_ifs at byte <;> simp at byte <;> omega

theorem chunks_line (front rest : List UInt8) (absent : lineFeed ∉ front) :
    chunks (front ++ lineFeed :: rest) = (front ++ [lineFeed]) :: chunks rest := by
  induction front with
  | nil =>
      show cut lineFeed (chunks rest) = _
      cases chunks rest <;> simp [cut]
  | cons byte front ih =>
      obtain ⟨other, absent⟩ := List.ne_and_not_mem_of_not_mem_cons absent
      show cut byte (chunks (front ++ lineFeed :: rest)) = _
      rw [ih absent, cut, if_neg (Ne.symm other)]
      rfl

theorem chunks_last (bytes : List UInt8) (absent : lineFeed ∉ bytes) (filled : bytes ≠ []) :
    chunks bytes = [bytes] := by
  induction bytes with
  | nil => exact absurd rfl filled
  | cons byte rest ih =>
      obtain ⟨other, absent⟩ := List.ne_and_not_mem_of_not_mem_cons absent
      show cut byte (chunks rest) = _
      cases rest with
      | nil => rfl
      | cons next rest => rw [ih absent (by simp), cut, if_neg (Ne.symm other)]

theorem decode_utf8 (chars : List Char) : decode (chars.flatMap String.utf8EncodeChar) = .ok (.ofChars chars) := by
  have bytes : (⟨(chars.flatMap String.utf8EncodeChar).toArray⟩ : ByteArray) = (String.ofList chars).toByteArray := by
    rw [String.toByteArray_ofList, List.utf8Encode]
    exact ByteArray.ext (by simp)
  have valid : String.fromUTF8? (String.ofList chars).toByteArray = some (String.ofList chars) :=
    dif_pos (String.ofList chars).isValidUTF8
  rw [decode, bytes, valid]
  simp

theorem encoded_others (chars : List Char) (absent : '\n' ∉ chars) :
    chars.flatMap encoded = chars.flatMap String.utf8EncodeChar ∧ lineFeed ∉ chars.flatMap encoded := by
  have same : chars.flatMap encoded = chars.flatMap String.utf8EncodeChar := by
    refine List.flatMap_congr fun c member => ?_
    rw [encoded, if_neg (by rintro rfl; exact absent member)]
  refine ⟨same, ?_⟩
  rw [same, List.mem_flatMap]
  rintro ⟨c, member, byte⟩
  exact utf8_feed c (fun same => absent (same ▸ member)) byte

theorem decode_line (chars : List Char) :
    decode (chars.flatMap String.utf8EncodeChar ++ [0x0D, lineFeed]) = .ok ⟨chars, true⟩ := by
  have decoded := decode_utf8 (chars ++ ['\r', '\n'])
  have ends : ['\r', '\n'].flatMap String.utf8EncodeChar = [0x0D, lineFeed] := by decide
  rw [List.flatMap_append, ends] at decoded
  rw [decoded, SourceLine.ofChars, List.reverse_append]
  simp

theorem decode_last (chars : List Char) (absent : '\n' ∉ chars) :
    decode (chars.flatMap String.utf8EncodeChar) = .ok ⟨chars, false⟩ := by
  rw [decode_utf8, SourceLine.ofChars]
  cases reversed : chars.reverse with
  | nil => rfl
  | cons c rest =>
      have other : c ≠ '\n' := fun same => absent (List.mem_reverse.mp (by simp [reversed, same]))
      split
      · rename_i shape
        exact absurd (List.cons.inj shape).1 other
      · rename_i shape
        exact absurd (List.cons.inj shape).1 other
      · rfl

theorem written_elements (chars : List Char) :
    ((chunks (chars.flatMap encoded)).map decode).flatMap lineElements = chars.map .ok := by
  rcases Scanner.exists_mark '\n' chars with ⟨body, later, rfl, absent⟩ | absent
  · obtain ⟨same, free⟩ := encoded_others body absent
    have line : (body ++ '\n' :: later).flatMap encoded =
        (body.flatMap encoded ++ [0x0D]) ++ lineFeed :: later.flatMap encoded := by
      simp [encoded]
    have ended : lineFeed ∉ body.flatMap encoded ++ [0x0D] := by
      rw [List.mem_append, not_or]
      exact ⟨free, by decide⟩
    rw [line, chunks_line _ _ ended, List.map_cons, List.flatMap_cons, written_elements later, same, List.append_assoc]
    rw [show [0x0D] ++ [lineFeed] = [0x0D, lineFeed] from rfl, decode_line]
    simp [lineElements, SourceLine.chars]
  · obtain ⟨same, free⟩ := encoded_others chars absent
    by_cases filled : chars.flatMap encoded = []
    · have empty : chars = [] := by
        cases chars with
        | nil => rfl
        | cons c rest =>
            rw [same, List.flatMap_cons, List.append_eq_nil_iff] at filled
            exact absurd filled.1 String.utf8EncodeChar_ne_nil
      subst empty
      rfl
    · rw [chunks_last _ free filled, same, List.map_singleton, List.flatMap_singleton, decode_last chars absent]
      simp [lineElements, SourceLine.chars]
termination_by chars.length

theorem written_reads (name : String) (chars : List Char) : (written name chars).Reads chars :=
  congrArg (place name {}) (written_elements chars)

theorem place_chars (origin : String) (here : Position) (items : List (Except ReadFailure Char))
    (sound : ∀ failure, .error failure ∉ place origin here items) : ∃ chars : List Char, items = chars.map .ok := by
  fun_induction place origin here items with
  | case1 => exact ⟨[], rfl⟩
  | case2 here failure rest => exact absurd (List.mem_cons_self ..) (sound failure)
  | case3 here c rest ih =>
      obtain ⟨chars, rfl⟩ := ih fun failure member => sound failure (List.mem_cons_of_mem _ member)
      exact ⟨c :: chars, rfl⟩

end Source

namespace Scanner

theorem mem_drop_while (property : Char → Bool) {failure : ReadFailure} {elements : List Element}
    (member : .error failure ∈ elements) : .error failure ∈ elements.dropWhile (holds property) := by
  rw [← List.takeWhile_append_dropWhile (p := holds property) (l := elements), List.mem_append] at member
  rcases member with taken | left
  · have held := List.mem_takeWhile_imp taken
    cases held
  · exact left

theorem delimited_failure (mark : Char) (build : List Char → Token) (first : Located Char) (rest : List Element)
    (failure : ReadFailure) (member : .error failure ∈ rest) :
    (∃ located, (delimited mark build first rest).1 = .error located) ∨
      (delimited mark build first rest).2.stopped = false ∧
        .error failure ∈ (delimited mark build first rest).2.rest := by
  have left := mem_drop_while (· != mark) member
  rw [delimited]
  split
  · rename_i none
    rw [none] at left
    cases left
  · rename_i closing rest shape
    rw [shape] at left
    exact .inr ⟨rfl, List.mem_of_ne_of_mem (by simp) left⟩
  · exact .inl ⟨_, rfl⟩

theorem lexeme_failure (first : Located Char) (rest : List Element) (failure : ReadFailure)
    (member : .error failure ∈ rest) :
    (∃ located, (lexeme first rest).1 = .error located) ∨
      (lexeme first rest).2.stopped = false ∧ .error failure ∈ (lexeme first rest).2.rest := by
  unfold lexeme
  split_ifs
  · exact .inr ⟨rfl, member⟩
  · exact .inr ⟨rfl, member⟩
  · exact delimited_failure commentMark comment first rest failure member
  · exact delimited_failure quoteMark byteString first rest failure member
  · exact .inr ⟨rfl, mem_drop_while _ member⟩
  · exact .inr ⟨rfl, mem_drop_while _ member⟩

-- No failure is passed over.
theorem all_failure (scanner : Scanner) (failure : ReadFailure) (running : scanner.stopped = false)
    (member : .error failure ∈ scanner.rest) : ∃ located, .error located ∈ scanner.all := by
  have left := mem_drop_while Text.isBlank member
  cases shape : scanner.rest.dropWhile (holds Text.isBlank) with
  | nil =>
      rw [shape] at left
      cases left
  | cons element later =>
      cases element with
      | error found =>
          have taken : ∃ located after, scanner.next = (some (.error located), after) := by
            rw [next, running, if_neg Bool.false_ne_true]
            dsimp only
            rw [shape]
            exact ⟨_, _, rfl⟩
          obtain ⟨located, after, taken⟩ := taken
          rw [all_some _ _ _ taken]
          exact ⟨located, List.mem_cons_self ..⟩
      | ok first =>
          have taken : scanner.next = (some (lexeme first later).1, (lexeme first later).2) := by
            obtain ⟨rest, last, stopped⟩ := scanner
            cases running
            exact next_lexeme rest later last first shape
          rw [shape] at left
          rw [all_some _ _ _ taken]
          rcases lexeme_failure first later failure (List.mem_of_ne_of_mem (by simp) left) with
            ⟨located, failed⟩ | ⟨running, behind⟩
          · exact ⟨located, by simp [failed]⟩
          · have shorter := next_shorter _ _ _ taken
            obtain ⟨located, reached⟩ := all_failure (lexeme first later).2 failure running behind
            exact ⟨located, List.mem_cons_of_mem _ reached⟩
termination_by scanner.rest.length
decreasing_by exact shorter

end Scanner

namespace Dialect

theorem feed_sound (dialect : Dialect) (tokens : List Scanned) (nesting next : Nesting) (before after : Allocations)
    (fed : dialect.feed nesting before tokens = (.ok next, after)) : ∀ failure, .error failure ∉ tokens := by
  induction tokens generalizing nesting before with
  | nil => simp
  | cons scanned rest ih =>
      cases scanned with
      | error failure => cases fed
      | ok token =>
          rw [feed] at fed
          split at fed
          · intro failure member
            exact ih _ _ fed failure (List.mem_of_ne_of_mem (by simp) member)
          · cases fed

theorem parse_sound (dialect : Dialect) (before after : Allocations) (start : Location) (tokens : List Scanned)
    (root : Node) (parsed : dialect.parse before start tokens = (.ok root, after)) :
    ∀ failure, .error failure ∉ tokens := by
  rw [parse] at parsed
  split at parsed
  · cases parsed
  · rename_i nesting left fed
    exact dialect.feed_sound tokens {} nesting before left fed

theorem compile_reads (dialect : Dialect) (source : Source) (root : Node) (after : Allocations)
    (compiled : dialect.compile source = (.ok root, after)) : ∃ chars, source.Reads chars := by
  have sound := dialect.parse_sound {} after source.start source.scan root compiled
  obtain ⟨chars, read⟩ := Source.place_chars source.name {} (source.lines.flatMap Source.lineElements) (by
    intro failure member
    obtain ⟨located, reached⟩ := source.scanner.all_failure failure rfl member
    exact sound located reached)
  exact ⟨chars, congrArg (Source.place source.name {}) read⟩

end Dialect

end TealForms
