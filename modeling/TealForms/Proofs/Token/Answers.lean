import TealForms.Proofs.Source.Pieces
import TealForms.Proofs.Token.Interrupted

set_option autoImplicit false

namespace TealForms

def failures {α : Type} : List (Except ReadFailure α) → List ReadFailure
  | .error failure :: rest => failure :: failures rest
  | _ => []

namespace Scanner

def answer (scanner : Scanner) : Nat → Option Scanned
  | 0 => scanner.next.1
  | call + 1 => scanner.next.2.answer call

def EndsAtError (scanner : Scanner) : Prop :=
  ∀ call failed, scanner.answer call = some (.error failed) → ∀ later, call < later → scanner.answer later = none

def sound (located : List (Located Char)) : List Element := located.map .ok

def Barred (behind : List Element) : Prop := behind = [] ∨ ∃ failure rest, behind = .error failure :: rest

-- Where characters are read up to a place that is barred, a call comes to a token of them, the end or the failure.
inductive Step (behind : List Element) : Option Scanned × Scanner → Prop where
  | token (token : Located Token) (located : List (Located Char)) (last : Location) :
      Step behind (some (.ok token), ⟨sound located ++ behind, last, false⟩)
  | ended (last : Location) (empty : behind = []) : Step behind (none, ⟨[], last, false⟩)
  | failed (failure : ReadFailure) (rest : List Element) (last : Location) (first : behind = .error failure :: rest) :
      Step behind (some (.error ⟨failure, last⟩), ⟨rest, last, true⟩)

section

variable (behind : List Element) (barred : Barred behind)

include barred

theorem drop_sound (property : Char → Bool) (located : List (Located Char)) :
    (sound located ++ behind).dropWhile (holds property) =
      sound (located.dropWhile fun located => property located.value) ++ behind := by
  induction located with
  | nil =>
      rcases barred with rfl | ⟨failure, rest, rfl⟩
      · rfl
      · rfl
  | cons first located ih =>
      cases held : property first.value with
      | false => simp [sound, holds, held]
      | true => simpa [sound, holds, held] using ih

theorem delimited_step (mark : Char) (build : List Char → Token) (first : Located Char)
    (located : List (Located Char)) :
    let given := delimited mark build first (sound located ++ behind)
    Step behind (some given.1, given.2) := by
  rw [delimited, drop_sound behind barred]
  cases located.dropWhile fun located => located.value != mark with
  | nil =>
      rcases barred with rfl | ⟨failure, rest, rfl⟩
      · exact .token _ [] _
      · exact .failed failure rest _ rfl
  | cons closing rest => exact .token _ rest _

theorem lexeme_step (first : Located Char) (located : List (Located Char)) :
    let given := lexeme first (sound located ++ behind)
    Step behind (some given.1, given.2) := by
  have ran (property : Char → Bool) (kind : List Char → TokenKind) :
      let given := run property kind first (sound located ++ behind)
      Step behind (some given.1, given.2) := by
    rw [run, drop_sound behind barred]
    exact .token _ _ _
  unfold lexeme
  split_ifs
  · exact .token _ located _
  · exact .token _ located _
  · exact delimited_step behind barred commentMark comment first located
  · exact delimited_step behind barred quoteMark byteString first located
  · exact ran _ _
  · exact ran _ _

theorem next_step (located : List (Located Char)) (last : Location) :
    Step behind (next ⟨sound located ++ behind, last, false⟩) := by
  rw [next, if_neg Bool.false_ne_true, drop_sound behind barred]
  cases located.dropWhile fun located => Text.isBlank located.value with
  | nil =>
      rcases barred with rfl | ⟨failure, rest, rfl⟩
      · exact .ended _ rfl
      · exact .failed failure rest _ rfl
  | cons first rest => exact lexeme_step behind barred first rest

end

theorem next_none (scanner after : Scanner) (taken : scanner.next = (none, after)) : after.next = (none, after) := by
  obtain ⟨rest, last, stopped⟩ := scanner
  cases stopped with
  | true =>
      rcases rest with _ | ⟨⟨failure⟩ | ⟨located⟩, rest⟩
      · cases taken
        rfl
      · cases taken
      · cases taken
        rfl
  | false =>
      rw [next, if_neg Bool.false_ne_true] at taken
      dsimp only at taken
      split at taken
      · cases taken
        rfl
      · cases taken
      · cases taken

theorem answer_none (scanner : Scanner) (taken : scanner.next = (none, scanner)) (call : Nat) :
    scanner.answer call = none := by
  induction call with
  | zero => rw [answer, taken]
  | succ call ih => rw [answer, taken, ih]

theorem answer_all (scanner : Scanner) (call : Nat) : scanner.answer call = scanner.all[call]? := by
  rcases taken : scanner.next with ⟨_ | scanned, after⟩
  · rw [all_none scanner (congrArg Prod.fst taken), List.getElem?_nil]
    cases call with
    | zero => rw [answer, taken]
    | succ call => rw [answer, taken, answer_none after (next_none scanner after taken)]
  · rw [all_some scanner after scanned taken]
    cases call with
    | zero => rw [answer, taken, List.getElem?_cons_zero]
    | succ call => rw [answer, taken, List.getElem?_cons_succ, answer_all after call]

-- A stopped scanner still gives the failures in front of it.
theorem stopped_all (elements : List Element) (last : Location) :
    all ⟨elements, last, true⟩ = (failures elements).map fun failure => .error ⟨failure, last⟩ := by
  induction elements with
  | nil => exact all_none _ rfl
  | cons element rest ih =>
      cases element with
      | ok located => exact all_none _ rfl
      | error failure => rw [all_some _ ⟨rest, last, true⟩ (.error ⟨failure, last⟩) rfl, ih, failures, List.map_cons]

-- Characters come to tokens and nothing else, by induction on how many there are; a token takes at least one of them.
theorem exists_tokens (behind : List Element) (barred : Barred behind) (located : List (Located Char))
    (start : Location) :
    ∃ (tokens : List (Located Token)) (last : Location), all ⟨sound located ++ behind, start, false⟩ =
      tokens.map .ok ++ (failures behind).map fun failure => .error ⟨failure, last⟩ := by
  have step := next_step behind barred located start
  rcases taken : next ⟨sound located ++ behind, start, false⟩ with ⟨result, after⟩
  rw [taken] at step
  cases step with
  | token token rest last =>
      have shorter : rest.length < located.length := by
        simpa [sound] using next_shorter _ _ _ taken
      obtain ⟨tokens, final, given⟩ := exists_tokens behind barred rest last
      exact ⟨token :: tokens, final, by rw [all_some _ _ _ taken, given]; rfl⟩
  | ended last empty => exact ⟨[], last, by rw [all_none _ (congrArg Prod.fst taken), empty]; rfl⟩
  | failed failure rest last first =>
      refine ⟨[], last, ?_⟩
      rw [all_some _ _ _ taken, stopped_all, first]
      rfl
termination_by located.length

theorem exists_sound (elements : List Element) :
    ∃ located, elements = sound located ++ elements.dropWhile (fun element => element.isOk) ∧
      Barred (elements.dropWhile fun element => element.isOk) := by
  induction elements with
  | nil => exact ⟨[], rfl, .inl rfl⟩
  | cons element rest ih =>
      cases element with
      | error failure => exact ⟨[], rfl, .inr ⟨failure, rest, rfl⟩⟩
      | ok first =>
          obtain ⟨located, split, barred⟩ := ih
          exact ⟨first :: located, congrArg (.ok first :: ·) split, barred⟩

section

variable (scanner : Scanner) (tokens : List (Located Token)) (failing : List ReadFailure) (last : Location)
variable (given : scanner.all = tokens.map .ok ++ failing.map fun failure => .error ⟨failure, last⟩)

include given

theorem answer_token (call : Nat) (below : call < tokens.length) : scanner.answer call = tokens[call]?.map .ok := by
  rw [scanner.answer_all, given, List.getElem?_append_left (by simpa using below), List.getElem?_map]

theorem answer_failure (call : Nat) :
    scanner.answer (tokens.length + call) = failing[call]?.map fun failure => .error ⟨failure, last⟩ := by
  rw [scanner.answer_all, given, List.getElem?_append_right (by simp)]
  simp

theorem error_behind (call : Nat) (failed : Located ReadFailure) (error : scanner.answer call = some (.error failed)) :
    tokens.length ≤ call := by
  by_contra below
  rw [answer_token scanner tokens failing last given call (Nat.lt_of_not_le below)] at error
  cases found : tokens[call]? <;> simp [found] at error

theorem token_ahead (call : Nat) (token : Located Token) (found : scanner.answer call = some (.ok token)) :
    call < tokens.length := by
  by_contra beyond
  obtain ⟨further, rfl⟩ := Nat.exists_eq_add_of_le (Nat.le_of_not_lt beyond)
  rw [answer_failure scanner tokens failing last given further] at found
  cases behind : failing[further]? <;> simp [behind] at found

theorem ends_iff : scanner.EndsAtError ↔ failing.length ≤ 1 := by
  have failed := answer_failure scanner tokens failing last given
  constructor
  · intro ends
    rcases failing with _ | ⟨first, _ | ⟨second, rest⟩⟩
    · exact Nat.zero_le 1
    · exact Nat.le_refl 1
    · have nothing := ends tokens.length ⟨first, last⟩ (failed 0) (tokens.length + 1) (Nat.lt_succ_self _)
      rw [failed 1] at nothing
      cases nothing
  · intro single call found error later after
    have begun := error_behind scanner tokens failing last given call found error
    obtain ⟨further, rfl⟩ := Nat.exists_eq_add_of_lt (Nat.lt_of_le_of_lt begun after)
    rw [Nat.add_assoc, failed, List.getElem?_eq_none (by omega)]
    rfl

end

end Scanner

namespace Source

theorem decoded_filled (piece : List UInt8) (line : SourceLine) (filled : piece ≠ [])
    (decoded : Decoded piece (.ok line)) : line.chars ≠ [] := by
  cases decoded with
  | returned text => simp [SourceLine.chars]
  | fed text plain => simp [SourceLine.chars]
  | unfinished text open_ =>
      intro empty
      rw [SourceLine.chars, if_neg Bool.false_ne_true, List.append_nil] at empty
      exact filled (congrArg (List.flatMap String.utf8EncodeChar) empty)

theorem lines_filled (source : Source) (line : SourceLine) (member : .ok line ∈ source.lines) : line.chars ≠ [] := by
  obtain ⟨piece, filled, _, decoded⟩ := source.line_piece line member
  exact decoded_filled piece line filled decoded

theorem place_failures (origin : String) (here : Position) (items : List (Except ReadFailure Char)) :
    failures (place origin here items) = failures items := by
  fun_induction place origin here items with
  | case1 => rfl
  | case2 here failure rest ih => rw [failures, failures, ih]
  | case3 => rfl

theorem place_from_failure (origin : String) (here : Position) (items : List (Except ReadFailure Char)) :
    ∃ there, (place origin here items).dropWhile (fun element => element.isOk) =
      place origin there (items.dropWhile fun item => item.isOk) := by
  fun_induction place origin here items with
  | case1 here => exact ⟨here, rfl⟩
  | case2 here failure rest ih => exact ⟨here, rfl⟩
  | case3 here c rest ih => exact ih

section

variable (lines : List (Except ReadFailure SourceLine)) (filled : ∀ line, .ok line ∈ lines → line.chars ≠ [])

include filled

theorem flat_failures : failures (lines.flatMap lineElements) = failures lines := by
  induction lines with
  | nil => rfl
  | cons line rest ih =>
      cases line with
      | error failure =>
          rw [failures, ← ih fun line member => filled line (List.mem_cons_of_mem _ member)]
          rfl
      | ok line =>
          obtain ⟨c, chars, shape⟩ := List.exists_cons_of_ne_nil (filled line (List.mem_cons_self ..))
          rw [List.flatMap_cons, lineElements, shape]
          rfl

theorem flat_drop :
    failures ((lines.flatMap lineElements).dropWhile fun item => item.isOk) =
      failures (lines.dropWhile fun line => line.isOk) := by
  induction lines with
  | nil => rfl
  | cons line rest ih =>
      cases line with
      | error failure => exact flat_failures (.error failure :: rest) filled
      | ok line =>
          have whole : ∀ item ∈ line.chars.map (@Except.ok ReadFailure Char), item.isOk = true := by
            intro item member
            obtain ⟨c, _, rfl⟩ := List.mem_map.mp member
            rfl
          rw [List.flatMap_cons, lineElements, List.dropWhile_append_of_pos whole]
          exact ih fun line member => filled line (List.mem_cons_of_mem _ member)

end

theorem elements_failures (source : Source) :
    failures (source.elements.dropWhile fun element => element.isOk) =
      failures (source.lines.dropWhile fun line => line.isOk) := by
  obtain ⟨there, dropped⟩ := place_from_failure source.name {} (source.lines.flatMap lineElements)
  rw [elements, dropped, place_failures, flat_drop _ source.lines_filled]

/-- Whatever fails in a source, the calls give tokens, the first failures in a row and then nothing. So there is nothing
behind an error if and only if the first failure does not have another one directly behind it. -/
theorem scan_answers (source : Source) :
    let failing := failures (source.lines.dropWhile fun line => line.isOk)
    (∃ (tokens : List (Located Token)) (last : Location),
        source.scan = tokens.map .ok ++ failing.map fun failure => .error ⟨failure, last⟩) ∧
      (∀ call, source.scanner.answer call = source.scan[call]?) ∧
      (source.scanner.EndsAtError ↔ failing.length ≤ 1) ∧
      ∀ call failed, source.scanner.answer call = some (.error failed) →
        ∀ later, call < later → ∀ token, source.scanner.answer later ≠ some (.ok token) := by
  intro failing
  obtain ⟨located, split, barred⟩ := Scanner.exists_sound source.elements
  obtain ⟨tokens, last, given⟩ := Scanner.exists_tokens _ barred located source.start
  rw [← split, source.elements_failures] at given
  refine ⟨⟨tokens, last, given⟩, source.scanner.answer_all, ?_, ?_⟩
  · exact Scanner.ends_iff source.scanner tokens failing last given
  · intro call failed error later after token found
    have behind := Scanner.error_behind source.scanner tokens failing last given call failed error
    have ahead := Scanner.token_ahead source.scanner tokens failing last given later token found
    exact Nat.lt_asymm after (Nat.lt_of_lt_of_le ahead behind)

theorem second_failure_answered :
    let source : Source := ⟨"<input>", [0xFF, 0x0A, 0xFF, 0x0A, 0x61], none⟩
    let failed : Scanned := .error ⟨.notUtf8, source.start⟩
    source.scanner.answer 0 = some failed ∧ source.scanner.answer 1 = some failed ∧
      ¬ source.scanner.EndsAtError := by
  intro source failed
  have first : source.scanner.answer 0 = some failed := by decide +kernel
  have second : source.scanner.answer 1 = some failed := by decide +kernel
  refine ⟨first, second, fun ends => ?_⟩
  have nothing := ends 0 _ first 1 Nat.one_pos
  rw [second] at nothing
  cases nothing

end Source

end TealForms
