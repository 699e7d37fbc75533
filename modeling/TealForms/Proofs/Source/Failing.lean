import TealForms.Proofs.Source.Reading

set_option autoImplicit false

namespace TealForms

namespace Source

-- Only the last of the chunks may lack its line feed.
theorem chunks_terminated (bytes chunk : List UInt8) (member : chunk ∈ (chunks bytes).dropLast) :
    chunk.getLast? = some lineFeed := by
  induction bytes generalizing chunk with
  | nil => cases member
  | cons byte rest ih =>
      rw [show chunks (byte :: rest) = cut byte (chunks rest) from rfl] at member
      cases later : chunks rest with
      | nil =>
          rw [later] at member
          cases member
      | cons first others =>
          rw [later] at ih member
          rw [cut] at member
          by_cases ends : byte = lineFeed
          · rw [if_pos ends, List.dropLast_cons_of_ne_nil (List.cons_ne_nil _ _)] at member
            rcases List.mem_cons.mp member with rfl | behind
            · exact congrArg some ends
            · exact ih chunk behind
          · rw [if_neg ends] at member
            cases others with
            | nil => cases member
            | cons second others =>
                rw [List.dropLast_cons_of_ne_nil (List.cons_ne_nil _ _)] at member ih
                rcases List.mem_cons.mp member with rfl | behind
                · have full := ih first (List.mem_cons_self ..)
                  rw [List.getLast?_cons, full]
                  rfl
                · exact ih chunk (List.mem_cons_of_mem _ behind)

theorem decoded_bytes (chunk : List UInt8) (text : String) (valid : String.fromUTF8? ⟨chunk.toArray⟩ = some text) :
    chunk = text.toList.flatMap String.utf8EncodeChar := by
  have given : text.toByteArray = ⟨chunk.toArray⟩ := by
    rw [String.fromUTF8?] at valid
    split at valid
    · cases valid
      rfl
    · cases valid
  rw [← String.ofList_toList (s := text), String.toByteArray_ofList, List.utf8Encode] at given
  have data := congrArg (fun bytes : ByteArray => bytes.data.toList) given
  simpa using data.symm

theorem decode_terminated (chunk : List UInt8) (line : SourceLine) (ends : chunk.getLast? = some lineFeed)
    (decoded : decode chunk = .ok line) : line.terminated = true := by
  rw [decode] at decoded
  split at decoded
  · rename_i text valid
    cases decoded
    have bytes := decoded_bytes chunk text valid
    rcases List.eq_nil_or_concat text.toList with none | ⟨front, c, whole⟩
    · rw [bytes, none] at ends
      cases ends
    · rw [List.concat_eq_append] at whole
      have feed : lineFeed ∈ String.utf8EncodeChar c := by
        rw [bytes, whole, List.flatMap_append, List.flatMap_singleton,
          List.getLast?_append_of_ne_nil _ String.utf8EncodeChar_ne_nil] at ends
        exact List.mem_of_getLast? ends
      obtain rfl : c = '\n' := not_ne_iff.mp fun other => utf8_feed c other feed
      rw [SourceLine.ofChars, whole, List.reverse_append]
      rcases front.reverse with _ | ⟨d, rest⟩
      · rfl
      · by_cases carriage : d = '\r'
        · rw [carriage]
          rfl
        · simp [carriage]
  · cases decoded

theorem lines_terminated (source : Source) (line : SourceLine) (member : .ok line ∈ source.lines.dropLast) :
    line.terminated = true := by
  rw [lines] at member
  split at member
  · rw [← List.map_dropLast] at member
    obtain ⟨chunk, inside, decoded⟩ := List.mem_map.mp member
    exact decode_terminated chunk line (chunks_terminated source.bytes chunk inside) decoded
  · rw [List.dropLast_concat] at member
    obtain ⟨chunk, inside, decoded⟩ := List.mem_map.mp member
    exact decode_terminated chunk line (of_decide_eq_true (List.mem_filter.mp inside).2) decoded

theorem place_append (origin : String) (here : Position) (chars : List Char) (rest : List (Except ReadFailure Char)) :
    place origin here (chars.map .ok ++ rest) =
      stream origin here chars ++ place origin (here.afterAll chars) rest := by
  induction chars generalizing here with
  | nil => rfl
  | cons c chars ih => exact congrArg (.ok ⟨c, .single origin here⟩ :: ·) (ih (here.after c))

section

variable (source : Source) (readable : List SourceLine) (failure : ReadFailure)
variable (later : List (Except ReadFailure SourceLine))
variable (broken : source.lines = readable.map .ok ++ .error failure :: later)

include broken

theorem failing_break :
    readable.flatMap SourceLine.chars = [] ∨ (readable.flatMap SourceLine.chars).getLast? = some '\n' := by
  rcases List.eq_nil_or_concat readable with rfl | ⟨front, line, rfl⟩
  · exact .inl rfl
  · have member : .ok line ∈ source.lines.dropLast := by
      rw [broken, List.dropLast_append_of_ne_nil (List.cons_ne_nil _ _)]
      simp
    have ends := source.lines_terminated line member
    exact .inr (by simp [SourceLine.chars, ends])

theorem failing_elements :
    ∃ rest, source.elements = stream source.name {} (readable.flatMap SourceLine.chars) ++ .error failure :: rest := by
  have split : source.lines.flatMap lineElements =
      (readable.flatMap SourceLine.chars).map .ok ++ .error failure :: later.flatMap lineElements := by
    rw [broken, List.flatMap_append, List.flatMap_map, List.map_flatMap]
    rfl
  rw [elements, split, place_append]
  exact ⟨_, rfl⟩

end

end Source

end TealForms
