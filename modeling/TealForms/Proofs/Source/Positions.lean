import Mathlib.Data.List.Forall2
import Mathlib.Data.List.Induction
import TealForms.Proofs.Source.Pieces

set_option autoImplicit false

namespace TealForms

namespace Position

-- The position behind some characters: the line breaks among them, what follows the last of these, and all of them.
def behind (earlier : List Char) : Position :=
  ⟨1 + earlier.count '\n', 1 + (earlier.reverse.takeWhile (· ≠ '\n')).length, earlier.length⟩

theorem after_all_behind (chars : List Char) : ({} : Position).afterAll chars = behind chars := by
  induction chars using List.reverseRecOn with
  | nil => rfl
  | append_singleton chars c ih =>
      rw [after_all_append, ih]
      show after _ c = _
      by_cases feeds : c = '\n'
      · simp [behind, after, newline, feeds, Nat.add_assoc]
      · simp [behind, after, advance, feeds, Nat.add_comm]

theorem after_all_unbroken (here : Position) (chars : List Char) (unbroken : '\n' ∉ chars) :
    here.afterAll chars = ⟨here.line, here.column + chars.length, here.offset + chars.length⟩ := by
  induction chars generalizing here with
  | nil => rfl
  | cons c rest ih =>
      obtain ⟨other, unbroken⟩ := List.ne_and_not_mem_of_not_mem_cons unbroken
      show (here.after c).afterAll rest = _
      rw [ih (here.after c) unbroken, after, if_neg (Ne.symm other)]
      simp [advance]
      omega

end Position

namespace Source

theorem place_get (origin : String) (here : Position) (items : List (Except ReadFailure Char)) (count : Nat)
    (located : Located Char) (found : (place origin here items)[count]? = some (.ok located)) :
    items[count]? = some (.ok located.value) ∧
      located.location = .single origin (here.afterAll (Scanner.chars ((place origin here items).take count))) := by
  induction items generalizing here count with
  | nil => cases found
  | cons item items ih =>
      cases item with
      | error failure =>
          cases count with
          | zero => cases found
          | succ count => exact ih here count found
      | ok c =>
          cases count with
          | zero =>
              cases found
              exact ⟨rfl, rfl⟩
          | succ count => exact ih (here.after c) count found

theorem place_take (origin : String) (here : Position) (items : List (Except ReadFailure Char)) (count : Nat) :
    (place origin here items).take count = place origin here (items.take count) := by
  induction items generalizing here count with
  | nil => simp [place]
  | cons item items ih =>
      cases count with
      | zero => rfl
      | succ count =>
          cases item with
          | error failure => exact congrArg (.error failure :: ·) (ih here count)
          | ok c => exact congrArg (.ok ⟨c, .single origin here⟩ :: ·) (ih (here.after c) count)

theorem stream_get (origin : String) (here : Position) (chars : List Char) (count : Nat) (located : Located Char)
    (found : (stream origin here chars)[count]? = some (.ok located)) :
    chars[count]? = some located.value ∧ located.location = .single origin (here.afterAll (chars.take count)) := by
  obtain ⟨item, location⟩ := place_get origin here (chars.map .ok) count located found
  rw [place_take, ← List.map_take, show place origin here ((chars.take count).map .ok) =
    stream origin here (chars.take count) from rfl, Scanner.chars_stream] at location
  refine ⟨?_, location⟩
  rw [List.getElem?_map] at item
  obtain ⟨c, read, same⟩ := Option.map_eq_some_iff.mp item
  cases same
  exact read

-- What the record of lines holds where a character was read: under the number of its line, counted from the first one,
-- a text that has the character at its column; a line break stands right behind the text.
def Kept (recorded : List (List Char)) (first : Nat) (located : Located Char) : Prop :=
  ∃ text, recorded[located.location.start.line - first]? = some text ∧
    if located.value = '\n' then located.location.start.column = text.length + 1
    else text[located.location.start.column - 1]? = some located.value

theorem line_kept (origin : String) (here : Position) (line : SourceLine) (count : Nat) (located : Located Char)
    (column : here.column = 1) (unbroken : '\n' ∉ line.text)
    (found : (stream origin here line.chars)[count]? = some (.ok located)) (others : List (List Char)) :
    here.line ≤ located.location.start.line ∧ Kept (line.text :: others) here.line located := by
  obtain ⟨read, location⟩ := stream_get origin here line.chars count located found
  have inside : count ≤ line.text.length ∧ line.chars.take count = line.text.take count := by
    obtain ⟨bound, _⟩ := List.getElem?_eq_some_iff.mp read
    have short : count ≤ line.text.length := by
      rw [SourceLine.chars, List.length_append] at bound
      split at bound
      · exact Nat.lt_succ_iff.mp bound
      · exact Nat.le_of_lt bound
    exact ⟨short, List.take_append_of_le_length short⟩
  have place : located.location.start = ⟨here.line, 1 + count, here.offset + count⟩ := by
    have clean : '\n' ∉ line.text.take count := fun member => unbroken (List.mem_of_mem_take member)
    rw [location, inside.2]
    show here.afterAll _ = _
    rw [here.after_all_unbroken _ clean, column, List.length_take_of_le inside.1]
  refine ⟨Nat.le_of_eq (by rw [place]), line.text, by rw [place]; simp, ?_⟩
  rw [SourceLine.chars] at read
  rw [place]
  dsimp only
  rcases Nat.lt_or_eq_of_le inside.1 with before | ends
  · rw [List.getElem?_append_left before] at read
    have other : located.value ≠ '\n' := fun same => unbroken (same ▸ List.mem_of_getElem? read)
    rw [if_neg other, Nat.add_sub_cancel_left]
    exact read
  · rw [ends, List.getElem?_append_right (Nat.le_refl _), Nat.sub_self] at read
    split at read
    · rw [if_pos (Option.some.inj read).symm, ends, Nat.add_comm]
    · cases read

theorem record_kept (origin : String) (here : Position) (lines : List (Except ReadFailure SourceLine))
    (count later : Nat) (located : Located Char) (column : here.column = 1)
    (unbroken : ∀ line, .ok line ∈ lines → '\n' ∉ line.text)
    (terminated : ∀ line, .ok line ∈ lines.dropLast → line.terminated = true)
    (found : (place origin here (lines.flatMap lineElements))[count]? = some (.ok located)) (taken : count < later) :
    here.line ≤ located.location.start.line ∧ Kept (record later lines) here.line located := by
  induction lines generalizing here count later with
  | nil => cases found
  | cons line lines ih =>
      obtain ⟨later, rfl⟩ : ∃ fewer, later = fewer + 1 := ⟨later - 1, by omega⟩
      have others : ∀ line, .ok line ∈ lines → '\n' ∉ line.text :=
        fun line member => unbroken line (List.mem_cons_of_mem _ member)
      have inner : ∀ line, .ok line ∈ lines.dropLast → line.terminated = true := by
        intro inside member
        refine terminated inside ?_
        rw [List.dropLast_cons_of_ne_nil (by rintro rfl; cases member)]
        exact List.mem_cons_of_mem _ member
      cases line with
      | error failure =>
          cases count with
          | zero => cases found
          | succ count => exact ih here count later column others inner found (Nat.lt_of_succ_lt_succ taken)
      | ok line =>
          have clean := unbroken line (List.mem_cons_self ..)
          rw [List.flatMap_cons, show lineElements (.ok line) = line.chars.map .ok from rfl, place_append] at found
          have length : (stream origin here line.chars).length = line.chars.length := by
            rw [stream, place_length, List.length_map]
          rcases Nat.lt_or_ge count line.chars.length with inside | behind
          · rw [List.getElem?_append_left (length ▸ inside)] at found
            exact line_kept origin here line count located column clean found _
          · rw [List.getElem?_append_right (length ▸ behind), length] at found
            have more : lines ≠ [] := by
              rintro rfl
              cases found
            have ends : line.terminated = true := by
              refine terminated line ?_
              rw [List.dropLast_cons_of_ne_nil more]
              exact List.mem_cons_self ..
            have next : here.afterAll line.chars =
                ⟨here.line + 1, 1, here.offset + line.text.length + 1⟩ := by
              rw [SourceLine.chars, if_pos ends, here.after_all_append, here.after_all_unbroken _ clean]
              rfl
            rw [next] at found
            obtain ⟨below, text, kept, shows⟩ := ih _ (count - line.chars.length) (later + 1 - line.chars.length) rfl
              others inner found (by omega)
            refine ⟨Nat.le_of_succ_le below, text, ?_, shows⟩
            show (line.text :: record (later + 1 - line.chars.length) lines)[_]? = some text
            rw [← kept, show located.location.start.line - here.line =
              located.location.start.line - (here.line + 1) + 1 by dsimp only at below; omega]
            rfl

theorem place_values (origin : String) (here : Position) (items : List (Except ReadFailure Char)) :
    (place origin here items).map (Except.map Located.value) = items := by
  fun_induction place origin here items with
  | case1 => rfl
  | case2 here failure rest ih => exact congrArg (.error failure :: ·) ih
  | case3 here c rest ih => exact congrArg (.ok c :: ·) ih

/-- What a source gives, piece by piece and character by character. A piece that is not UTF-8, or is lost with the
device, gives one failure, every other piece its characters, with one line feed for its end. A character stands where
what was read before it puts it, and from then on the record of lines holds it there. -/
theorem elements_placed (source : Source) :
    (∃ whole last results rest, Cut source.bytes whole last ∧
      List.Forall₂ Decoded (whole.map (· ++ [lineFeed])) results ∧
      (match source.failure with
        | none => Decoded last rest
        | some message => rest = .error (.device message)) ∧
      source.elements.map (Except.map Located.value) = (results ++ [rest]).flatMap lineElements) ∧
    ∀ place located, source.elements[place]? = some (.ok located) →
      located.location = .single source.name (.behind (Scanner.chars (source.elements.take place))) ∧
      ∀ count, place < count → Kept (source.recorded count) 1 located := by
  refine ⟨?_, ?_⟩
  · obtain ⟨whole, last, cut⟩ := exists_cut source.bytes
    have empty : lineElements (decode []) = [] := by
      rw [show decode [] = .ok (.ofChars []) from decode_utf8 []]
      rfl
    refine ⟨whole, last, (whole.map (· ++ [lineFeed])).map decode, ?_⟩
    have pieces : List.Forall₂ Decoded (whole.map (· ++ [lineFeed])) ((whole.map (· ++ [lineFeed])).map decode) :=
      List.forall₂_map_right_iff.mpr (List.forall₂_same.mpr fun piece _ => decode_decoded piece)
    rw [elements, place_values, source.lines_cut whole last cut]
    cases source.failure with
    | none =>
        refine ⟨decode last, cut, pieces, decode_decoded last, ?_⟩
        rw [List.flatMap_append, List.flatMap_append, List.flatMap_singleton]
        by_cases none : last = []
        · simp [none, empty]
        · simp [none]
    | some message => exact ⟨.error (.device message), cut, pieces, rfl, rfl⟩
  · intro count located found
    refine ⟨?_, fun later taken => ?_⟩
    · rw [(place_get source.name {} _ count located found).2, Position.after_all_behind]
      rfl
    · exact (record_kept source.name {} source.lines count later located rfl source.lines_unbroken
        source.lines_terminated found taken).2

theorem line_behind_failure :
    let source : Source := ⟨"in", "a\r\r\n".toUTF8.toList ++ [0xFF, lineFeed] ++ "b\rc\nd".toUTF8.toList, some "boom"⟩
    source.elements[6]? = some (.ok ⟨'c', .single "in" ⟨2, 3, 5⟩⟩) ∧
      ∀ count, 6 < count → Kept (source.recorded count) 1 ⟨'c', .single "in" ⟨2, 3, 5⟩⟩ := by
  intro source
  have found : source.elements[6]? = some (.ok ⟨'c', .single "in" ⟨2, 3, 5⟩⟩) := by decide +kernel
  exact ⟨found, ((elements_placed source).2 6 _ found).2⟩

end Source

end TealForms
