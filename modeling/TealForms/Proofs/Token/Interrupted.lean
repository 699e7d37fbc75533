import TealForms.Proofs.Token.Scanning

set_option autoImplicit false

namespace TealForms

namespace Token

-- A comment or byte string that is written without its closing mark.
def isOpen (token : Token) (written : List Char) : Bool :=
  match token.kind with
  | .comment => commentMark ∉ written.tail
  | .bytes => quoteMark ∉ written.tail
  | _ => false

theorem atom_closed (token : Token) (atom : token.IsAtom) (written : List Char) : token.isOpen written = false := by
  rw [isOpen, atom.kind, classify]
  split_ifs
  · rfl
  · rfl
  · rfl
  · cases Keyword.ofText? (.ofList token.text.toList) <;> rfl

theorem open_spans (rest written : List Char) (token : Token) (spans : Spans rest token written)
    (cut : token.isOpen written = true) :
    rest = [] ∧ ∃ body, written = commentMark :: body ∧ commentMark ∉ body ∨
      written = quoteMark :: body ∧ quoteMark ∉ body := by
  cases spans with
  | openComment body absent ends => exact ⟨ends, body, .inl ⟨rfl, absent⟩⟩
  | openBytes body absent ends => exact ⟨ends, body, .inr ⟨rfl, absent⟩⟩
  | comment body absent => simp [isOpen, Scanner.comment] at cut
  | bytes body absent => simp [isOpen, Scanner.byteString] at cut
  | opening => cases cut
  | closing => cases cut
  | integer => cases cut
  | atom kind text atom =>
      rw [atom_closed _ atom] at cut
      cases cut

end Token

namespace Scanner

open Source (stream stream_append)

def interrupted (scanner : Scanner) (failure : ReadFailure) (later : List Element) : Scanner :=
  { scanner with rest := scanner.rest ++ .error failure :: later }

theorem last_append (last : Location) (first second : List Element) :
    lastOf last (first ++ second) = lastOf (lastOf last first) second := by
  fun_induction lastOf last first <;> simp_all [lastOf]

theorem run_last (last : Location) (property : Element → Bool) (elements : List Element) :
    lastOf (lastOf last (elements.takeWhile property)) (elements.dropWhile property) = lastOf last elements := by
  rw [← last_append, List.takeWhile_append_dropWhile]

theorem delimited_last (mark : Char) (build : List Char → Token) (first : Located Char) (rest : List Element) :
    lastOf (delimited mark build first rest).2.last (delimited mark build first rest).2.rest =
      lastOf first.location rest := by
  rw [← run_last first.location (holds (· != mark)) rest, delimited]
  split
  · rename_i none
    rw [none]
  · rename_i closing later shape
    rw [shape]
    rfl
  · rename_i failure later shape
    rw [shape]
    rfl

theorem lexeme_last (first : Located Char) (rest : List Element) :
    lastOf (lexeme first rest).2.last (lexeme first rest).2.rest = lastOf first.location rest := by
  unfold lexeme
  split_ifs
  · rfl
  · rfl
  · exact delimited_last commentMark comment first rest
  · exact delimited_last quoteMark byteString first rest
  · exact run_last first.location _ rest
  · exact run_last first.location _ rest

section

variable (failure : ReadFailure) (later : List Element)

theorem take_interrupted (property : Char → Bool) (elements : List Element) :
    (elements ++ .error failure :: later).takeWhile (holds property) = elements.takeWhile (holds property) := by
  induction elements with
  | nil => rfl
  | cons element rest ih => cases held : holds property element <;> simp [held, ih]

theorem drop_interrupted (property : Char → Bool) (elements : List Element) :
    (elements ++ .error failure :: later).dropWhile (holds property) =
      elements.dropWhile (holds property) ++ .error failure :: later := by
  induction elements with
  | nil => rfl
  | cons element rest ih => cases held : holds property element <;> simp [held, ih]

theorem run_interrupted (property : Char → Bool) (kind : List Char → TokenKind) (first : Located Char)
    (rest : List Element) :
    run property kind first (rest ++ .error failure :: later) =
      ((run property kind first rest).1, (run property kind first rest).2.interrupted failure later) := by
  rw [run, take_interrupted, drop_interrupted]
  rfl

theorem delimited_interrupted (mark : Char) (build : List Char → Token) (first : Located Char) (rest : List Element)
    (closed : rest.dropWhile (holds (· != mark)) ≠ []) :
    delimited mark build first (rest ++ .error failure :: later) =
      ((delimited mark build first rest).1, (delimited mark build first rest).2.interrupted failure later) := by
  rw [delimited, delimited, take_interrupted, drop_interrupted]
  cases left : rest.dropWhile (holds (· != mark)) with
  | nil => exact absurd left closed
  | cons element others => cases element <;> rfl

theorem delimited_lost (mark : Char) (build : List Char → Token) (first : Located Char) (rest : List Element)
    (open_ : rest.dropWhile (holds (· != mark)) = []) :
    delimited mark build first (rest ++ .error failure :: later) =
      (.error ⟨failure, lastOf first.location rest⟩, ⟨later, lastOf first.location rest, true⟩) := by
  have whole := run_last first.location (holds (· != mark)) rest
  rw [open_] at whole
  rw [delimited, take_interrupted, drop_interrupted, open_, ← whole]
  rfl

section

variable (origin : String) (here : Position) (c : Char) (body rest : List Char)

theorem mark_found (mark : Char) (absent : mark ∉ body) :
    (stream origin here (body ++ mark :: rest)).dropWhile (holds (· != mark)) ≠ [] := by
  rw [(stream_run (· != mark) origin here body (mark :: rest) (unmarked mark body absent) (by simp)).2]
  exact List.cons_ne_nil _ _

theorem mark_missing (mark : Char) (absent : mark ∉ body) :
    (stream origin here body).dropWhile (holds (· != mark)) = [] := by
  have left := (stream_run (· != mark) origin here body [] (unmarked mark body absent) (by simp)).2
  rwa [List.append_nil] at left

theorem lexeme_interrupted (token : Token) (spans : token.Spans rest (c :: body))
    (whole : token.isOpen (c :: body) = false) :
    let given := lexeme ⟨c, .single origin here⟩ (stream origin (here.after c) (body ++ rest))
    lexeme ⟨c, .single origin here⟩ (stream origin (here.after c) (body ++ rest) ++ .error failure :: later) =
      (given.1, given.2.interrupted failure later) := by
  cases spans with
  | opening => rfl
  | closing => rfl
  | comment body absent =>
      have found := mark_found origin (here.after commentMark) body rest commentMark absent
      rw [List.append_assoc]
      exact delimited_interrupted failure later commentMark comment _ _ found
  | bytes body absent =>
      have found := mark_found origin (here.after quoteMark) body rest quoteMark absent
      rw [List.append_assoc]
      exact delimited_interrupted failure later quoteMark byteString _ _ found
  | openComment body absent => simp [Token.isOpen, comment, absent] at whole
  | openBytes body absent => simp [Token.isOpen, byteString, absent] at whole
  | integer text filled digits maximal =>
      have digit := digits c (by simp)
      obtain ⟨_, opening, closing, commentary, quoted⟩ := (atomic_iff c).mp (digit_atomic c digit)
      simp [lexeme, opening, closing, commentary, quoted, digit, run_interrupted]
  | atom kind text atom maximal =>
      have atomic := atom.atomic
      have digit : c.isDigit = false := atom.head c (by simp)
      rw [String.toList_ofList] at atomic
      obtain ⟨_, opening, closing, commentary, quoted⟩ := (atomic_iff c).mp (atomic c (by simp))
      simp [lexeme, opening, closing, commentary, quoted, digit, run_interrupted]

theorem lexeme_lost (token : Token) (spans : token.Spans rest (c :: body)) (cut : token.isOpen (c :: body) = true) :
    let last := lastOf (.single origin here) (stream origin (here.after c) body)
    lexeme ⟨c, .single origin here⟩ (stream origin (here.after c) body ++ .error failure :: later) =
      (.error ⟨failure, last⟩, ⟨later, last, true⟩) := by
  obtain ⟨_, text, ⟨written, absent⟩ | ⟨written, absent⟩⟩ := token.open_spans rest _ spans cut
  · cases written
    exact delimited_lost failure later commentMark comment _ _ (mark_missing origin _ body commentMark absent)
  · cases written
    exact delimited_lost failure later quoteMark byteString _ _ (mark_missing origin _ body quoteMark absent)

end

end

-- A failure behind the text does not change the next token, but ends one that is open.
theorem next_interrupted (failure : ReadFailure) (later : List Element) (origin : String) (here : Position)
    (last : Location) (gap body rest : List Char) (token : Token) (blank : ∀ c ∈ gap, Text.isBlank c = true)
    (spans : token.Spans rest body) :
    let scanner : Scanner := ⟨stream origin here (gap ++ (body ++ rest)), last, false⟩
    let total := lastOf last scanner.rest
    ∃ result, scanner.next = (some result.1, result.2) ∧ Gives result origin (here.afterAll gap) token body rest ∧
      lastOf result.2.last result.2.rest = total ∧
      (scanner.interrupted failure later).next =
        if token.isOpen body then (some (.error ⟨failure, total⟩), ⟨later, total, true⟩)
        else (some result.1, result.2.interrupted failure later) := by
  obtain ⟨c, tail, rfl, visible⟩ := token.spans_visible rest body spans
  obtain ⟨taken, left⟩ := stream_run Text.isBlank origin here gap (c :: tail ++ rest) blank (by simpa using visible)
  let place := here.afterAll gap
  let first : Located Char := ⟨c, .single origin place⟩
  let others := stream origin (place.after c) (tail ++ rest)
  have total : lastOf last (stream origin here (gap ++ (c :: tail ++ rest))) = lastOf first.location others := by
    rw [← run_last last (holds Text.isBlank), left]
    rfl
  have ahead : ((stream origin here (gap ++ (c :: tail ++ rest))) ++ .error failure :: later).dropWhile
      (holds Text.isBlank) = .ok first :: (others ++ .error failure :: later) := by
    rw [drop_interrupted, left]
    rfl
  have gives := lexeme_gives origin place c tail rest token spans
  refine ⟨lexeme first others, next_lexeme _ _ last first left, gives, ?_, ?_⟩
  · rw [lexeme_last, total]
  · rw [interrupted, next_lexeme _ _ last first ahead, total]
    cases cut : token.isOpen (c :: tail) with
    | true =>
        obtain ⟨rfl, _⟩ := token.open_spans rest _ spans cut
        rw [show others = stream origin (place.after c) tail by simp [others],
          lexeme_lost failure later origin place c tail [] token spans cut]
        rfl
    | false =>
        rw [lexeme_interrupted failure later origin place c tail rest token spans cut]
        rfl

theorem next_broken (failure : ReadFailure) (later : List Element) (origin : String) (here : Position)
    (last : Location) (chars : List Char) (blank : ∀ c ∈ chars, Text.isBlank c = true) :
    let scanner : Scanner := ⟨stream origin here chars, last, false⟩
    let total := lastOf last scanner.rest
    (scanner.interrupted failure later).next = (some (.error ⟨failure, total⟩), ⟨later, total, true⟩) := by
  obtain ⟨taken, left⟩ := stream_run Text.isBlank origin here chars [] blank (by simp)
  rw [List.append_nil] at taken left
  dsimp only
  rw [interrupted, next, if_neg Bool.false_ne_true, take_interrupted, drop_interrupted, taken, left]
  rfl

end Scanner

namespace Layout

open Scanner (interrupted lastOf)

def isCut (chars : List Char) (token : Located Token) : Bool :=
  token.value.isOpen (chars.extract token.location.start.offset token.location.stop.offset)

theorem extract_between {α : Type} (front body rest : List α) (start stop : Nat) (starts : start = front.length)
    (stops : stop = start + body.length) : (front ++ (body ++ rest)).extract start stop = body := by
  rw [List.extract_eq_take_drop, starts, List.drop_left, stops, starts, Nat.add_sub_cancel_left, List.take_left]

-- Up to a failure the tokens are scanned as without it, but for one that it cuts.
theorem interrupted (failure : ReadFailure) (later : List Element) (origin : String) (here : Position) (last : Location)
    (before chars : List Char) (length : before.length = here.offset) (tokens : List (Located Token))
    (layout : Layout here.offset chars tokens) :
    let scanner : Scanner := ⟨Source.stream origin here chars, last, false⟩
    ∃ (found : List (Located Token)) (behind : List Scanned), scanner.all = found.map .ok ∧
      (scanner.interrupted failure later).all =
        (found.filter fun token => !isCut (before ++ chars) token).map .ok ++
          .error ⟨failure, lastOf last scanner.rest⟩ :: behind := by
  generalize begins : here.offset = offset at layout
  induction layout generalizing here last before with
  | blank offset chars blank =>
      have none := Scanner.all_none _ (Scanner.next_blank origin here last chars blank)
      exact ⟨[], _, none, Scanner.all_some _ _ _ (Scanner.next_broken failure later origin here last chars blank)⟩
  | token offset gap body rest token tokens blank spans starts stops _ ih =>
      obtain ⟨result, taken, ⟨location, left, given, start, stop⟩, total, cut⟩ :=
        Scanner.next_interrupted failure later origin here last gap body rest token.value blank spans
      rw [Position.after_all_offset, begins] at start stop
      rw [given] at taken total cut
      dsimp only at total cut ⊢
      have place : ((here.afterAll gap).afterAll body).offset = token.location.stop.offset := by
        rw [Position.after_all_offset, Position.after_all_offset, stops, starts, begins]
      have split : before ++ (gap ++ (body ++ rest)) = before ++ gap ++ (body ++ rest) := by simp
      have written : (before ++ (gap ++ (body ++ rest))).extract location.start.offset location.stop.offset = body := by
        rw [split]
        exact extract_between (before ++ gap) body rest _ _ (by simp [start, length, begins]) (by rw [stop, start])
      have judged : isCut (before ++ (gap ++ (body ++ rest))) ⟨token.value, location⟩ = token.value.isOpen body :=
        congrArg token.value.isOpen written
      rw [Scanner.all_some _ _ _ taken]
      cases shut : token.value.isOpen body with
      | true =>
          rw [shut, if_pos rfl] at cut
          obtain ⟨rfl, _⟩ := token.value.open_spans rest body spans shut
          have none := Scanner.all_none _
            (Scanner.next_blank origin ((here.afterAll gap).afterAll body) left [] (by simp))
          let total := lastOf last (Source.stream origin here (gap ++ (body ++ [])))
          refine ⟨[⟨token.value, location⟩], (Scanner.mk later total true).all, by rw [none]; rfl, ?_⟩
          rw [Scanner.all_some _ _ _ cut, List.filter_cons, judged, shut]
          rfl
      | false =>
          rw [shut, if_neg Bool.false_ne_true] at cut
          have length : (before ++ (gap ++ body)).length = ((here.afterAll gap).afterAll body).offset := by
            rw [Position.after_all_offset, Position.after_all_offset, ← length]
            simp [Nat.add_assoc]
          obtain ⟨found, behind, all, kept⟩ := ih ((here.afterAll gap).afterAll body) left _ length place
          refine ⟨⟨token.value, location⟩ :: found, behind, by rw [all]; rfl, ?_⟩
          rw [Scanner.all_some _ _ _ cut, kept, List.filter_cons, judged, shut, total]
          simp [List.append_assoc]

end Layout

end TealForms
