import TealForms.Proofs.Source.Failing

set_option autoImplicit false

namespace TealForms

namespace Source

structure Cut (bytes : List UInt8) (whole : List (List UInt8)) (last : List UInt8) : Prop where
  joined : whole.flatMap (· ++ [lineFeed]) ++ last = bytes
  inner : ∀ line ∈ whole, lineFeed ∉ line
  final : lineFeed ∉ last

-- A carriage return is dropped directly before the final line feed and nowhere else.
inductive Decoded : List UInt8 → Except ReadFailure SourceLine → Prop where
  | invalid (piece : List UInt8) (unspelled : ∀ text : List Char, text.flatMap String.utf8EncodeChar ≠ piece) :
      Decoded piece (.error .notUtf8)
  | returned (text : List Char) :
      Decoded ((text ++ ['\r', '\n']).flatMap String.utf8EncodeChar) (.ok ⟨text, true⟩)
  | fed (text : List Char) (plain : text.getLast? ≠ some '\r') :
      Decoded ((text ++ ['\n']).flatMap String.utf8EncodeChar) (.ok ⟨text, true⟩)
  | unfinished (text : List Char) (open_ : text.getLast? ≠ some '\n') :
      Decoded (text.flatMap String.utf8EncodeChar) (.ok ⟨text, false⟩)

theorem exists_cut (bytes : List UInt8) : ∃ whole last, Cut bytes whole last := by
  induction bytes with
  | nil => exact ⟨[], [], rfl, by simp, by simp⟩
  | cons byte rest ih =>
      obtain ⟨whole, last, cut⟩ := ih
      by_cases feeds : byte = lineFeed
      · refine ⟨[] :: whole, last, ?_, ?_, cut.final⟩
        · rw [← cut.joined, feeds]
          rfl
        · exact List.forall_mem_cons.mpr ⟨List.not_mem_nil, cut.inner⟩
      · cases whole with
        | nil =>
            refine ⟨[], byte :: last, ?_, cut.inner, ?_⟩
            · rw [← cut.joined]
              rfl
            · exact List.not_mem_cons_of_ne_of_not_mem (Ne.symm feeds) cut.final
        | cons line whole =>
            obtain ⟨front, others⟩ := List.forall_mem_cons.mp cut.inner
            refine ⟨(byte :: line) :: whole, last, ?_, ?_, cut.final⟩
            · rw [← cut.joined]
              rfl
            · exact List.forall_mem_cons.mpr ⟨List.not_mem_cons_of_ne_of_not_mem (Ne.symm feeds) front, others⟩

theorem chunks_cut (bytes : List UInt8) (whole : List (List UInt8)) (last : List UInt8) (cut : Cut bytes whole last) :
    chunks bytes = whole.map (· ++ [lineFeed]) ++ if last = [] then [] else [last] := by
  induction whole generalizing bytes with
  | nil =>
      rw [← cut.joined]
      by_cases empty : last = []
      · rw [empty]
        rfl
      · rw [if_neg empty]
        exact chunks_last last cut.final empty
  | cons line whole ih =>
      obtain ⟨front, others⟩ := List.forall_mem_cons.mp cut.inner
      have rest := ih _ ⟨rfl, others, cut.final⟩
      rw [← cut.joined, List.flatMap_cons, List.append_assoc, List.append_assoc, List.singleton_append,
        chunks_line line _ front, rest]
      rfl

theorem of_chars_decoded (chars : List Char) :
    Decoded (chars.flatMap String.utf8EncodeChar) (.ok (.ofChars chars)) := by
  unfold SourceLine.ofChars
  split
  · rename_i reversed shape
    rw [List.reverse_eq_iff.mp shape, List.reverse_cons, List.reverse_cons, List.append_assoc]
    exact .returned reversed.reverse
  · rename_i reversed other shape
    rw [List.reverse_eq_iff.mp shape, List.reverse_cons]
    refine .fed reversed.reverse fun returns => ?_
    rw [List.getLast?_reverse] at returns
    obtain ⟨front, rfl⟩ := List.head?_eq_some_iff.mp returns
    exact other front rfl
  · rename_i _ other
    refine .unfinished chars fun feeds => ?_
    rw [← List.head?_reverse] at feeds
    obtain ⟨front, shape⟩ := List.head?_eq_some_iff.mp feeds
    exact other front shape

theorem decode_decoded (piece : List UInt8) : Decoded piece (decode piece) := by
  cases spelled : String.fromUTF8? ⟨piece.toArray⟩ with
  | none =>
      rw [decode, spelled]
      refine .invalid piece fun text same => ?_
      have decoded := decode_utf8 text
      rw [same, decode, spelled] at decoded
      cases decoded
  | some text =>
      rw [decode, spelled]
      dsimp only
      rw [decoded_bytes piece text spelled]
      exact of_chars_decoded text.toList

theorem last_unfed (last : List UInt8) (clean : lineFeed ∉ last) : last.getLast? ≠ some lineFeed :=
  fun feeds => clean (List.mem_of_getLast? feeds)

theorem lines_cut (source : Source) (whole : List (List UInt8)) (last : List UInt8)
    (cut : Cut source.bytes whole last) :
    source.lines = (whole.map (· ++ [lineFeed])).map decode ++
      match source.failure with
      | none => if last = [] then [] else [decode last]
      | some message => [.error (.device message)] := by
  rw [lines]
  have chunked := chunks_cut source.bytes whole last cut
  cases source.failure with
  | none =>
      dsimp only
      rw [chunked, List.map_append]
      by_cases empty : last = [] <;> simp [empty]
  | some message =>
      have kept : (whole.map (· ++ [lineFeed])).filter (fun chunk => chunk.getLast? = some lineFeed) =
          whole.map (· ++ [lineFeed]) := by
        simp [List.filter_eq_self]
      have lost : (if last = [] then [] else [last]).filter (fun chunk => chunk.getLast? = some lineFeed) = [] := by
        by_cases empty : last = []
        · rw [if_pos empty]
          rfl
        · simp [empty, last_unfed last cut.final]
      dsimp only
      rw [chunked, List.filter_append, kept, lost, List.append_nil]

-- A piece has no line feed before its end, so that what is kept of it is free of line breaks.
theorem decoded_unbroken (piece : List UInt8) (line : SourceLine) (clean : lineFeed ∉ piece.dropLast)
    (decoded : Decoded piece (.ok line)) : '\n' ∉ line.text := by
  have early (front back : List Char) (inside : '\n' ∈ front) (more : back ≠ []) :
      lineFeed ∈ ((front ++ back).flatMap String.utf8EncodeChar).dropLast := by
    obtain ⟨c, back, rfl⟩ := List.exists_cons_of_ne_nil more
    have filled : (c :: back).flatMap String.utf8EncodeChar ≠ [] := by
      rw [List.flatMap_cons]
      exact List.append_ne_nil_of_left_ne_nil String.utf8EncodeChar_ne_nil _
    rw [List.flatMap_append, List.dropLast_append_of_ne_nil filled]
    exact List.mem_append_left _ (List.mem_flatMap.mpr ⟨'\n', inside, by decide⟩)
  intro inside
  cases decoded with
  | returned text => exact clean (early text ['\r', '\n'] inside (by simp))
  | fed text plain => exact clean (early text ['\n'] inside (by simp))
  | unfinished text open_ =>
      obtain ⟨front, back, rfl⟩ := List.append_of_mem inside
      have more : back ≠ [] := by
        rintro rfl
        exact open_ List.getLast?_concat
      exact clean (by simpa using early (front ++ ['\n']) back (by simp) more)

theorem line_piece (source : Source) (line : SourceLine) (member : .ok line ∈ source.lines) :
    ∃ piece, piece ≠ [] ∧ lineFeed ∉ piece.dropLast ∧ Decoded piece (.ok line) := by
  obtain ⟨whole, last, cut⟩ := exists_cut source.bytes
  rw [source.lines_cut whole last cut, List.mem_append] at member
  rcases member with complete | open_
  · obtain ⟨piece, inside, decoded⟩ := List.mem_map.mp complete
    obtain ⟨bytes, clean, rfl⟩ := List.mem_map.mp inside
    refine ⟨bytes ++ [lineFeed], by simp, ?_, decoded ▸ decode_decoded _⟩
    rw [List.dropLast_concat]
    exact cut.inner bytes clean
  · split at open_
    · split at open_
      · cases open_
      · rename_i filled
        refine ⟨last, filled, ?_, List.mem_singleton.mp open_ ▸ decode_decoded last⟩
        exact fun inside => cut.final ((List.dropLast_sublist last).subset inside)
    · cases List.mem_singleton.mp open_

theorem lines_unbroken (source : Source) (line : SourceLine) (member : .ok line ∈ source.lines) :
    '\n' ∉ line.text := by
  obtain ⟨piece, _, clean, decoded⟩ := source.line_piece line member
  exact decoded_unbroken piece line clean decoded

end Source

end TealForms
