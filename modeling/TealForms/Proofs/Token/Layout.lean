import TealForms.Proofs.Token.Spelling

set_option autoImplicit false

namespace TealForms

namespace Position

def afterAll (here : Position) (chars : List Char) : Position := chars.foldl after here

theorem after_all_append (here : Position) (first second : List Char) :
    here.afterAll (first ++ second) = (here.afterAll first).afterAll second :=
  List.foldl_append

theorem after_all_offset (here : Position) (chars : List Char) :
    (here.afterAll chars).offset = here.offset + chars.length := by
  induction chars generalizing here with
  | nil => rfl
  | cons c rest ih =>
      rw [show here.afterAll (c :: rest) = (here.after c).afterAll rest from rfl, ih, after_offset, List.length_cons]
      omega

end Position

namespace Source

def stream (origin : String) (here : Position) (chars : List Char) : List Element := place origin here (chars.map .ok)

theorem stream_append (origin : String) (here : Position) (first second : List Char) :
    stream origin here (first ++ second) = stream origin here first ++ stream origin (here.afterAll first) second := by
  induction first generalizing here with
  | nil => rfl
  | cons c rest ih => exact congrArg (.ok ⟨c, .single origin here⟩ :: ·) (ih (here.after c))

end Source

namespace Scanner

open Source (stream stream_append)

theorem chars_stream (origin : String) (here : Position) (text : List Char) :
    chars (stream origin here text) = text := by
  induction text generalizing here with
  | nil => rfl
  | cons c rest ih => exact congrArg (c :: ·) (ih (here.after c))

theorem stream_holds (property : Char → Bool) (origin : String) (here : Position) (text : List Char)
    (held : ∀ c ∈ text, property c = true) : ∀ element ∈ stream origin here text, holds property element = true := by
  induction text generalizing here with
  | nil => simp [stream, Source.place]
  | cons c rest ih =>
      intro element member
      rcases List.mem_cons.mp member with same | later
      · rw [same]
        exact held c (by simp)
      · exact ih (here.after c) (fun c inside => held c (by simp [inside])) element later

-- A run of characters ends where the first one without the property stands.
theorem stream_run (property : Char → Bool) (origin : String) (here : Position) (body rest : List Char)
    (held : ∀ c ∈ body, property c = true) (ends : ∀ c ∈ rest.head?, property c = false) :
    (stream origin here (body ++ rest)).takeWhile (holds property) = stream origin here body ∧
      (stream origin here (body ++ rest)).dropWhile (holds property) = stream origin (here.afterAll body) rest := by
  have inside := stream_holds property origin here body held
  rw [stream_append, List.takeWhile_append_of_pos inside, List.dropWhile_append_of_pos inside]
  cases rest with
  | nil => simp [stream, Source.place]
  | cons c rest =>
      have stops : property c = false := ends c (by simp)
      simp [stream, Source.place, holds, stops]

theorem last_offset (origin : String) (here : Position) (last : Location) (text : List Char)
    (start : last.stop.offset = here.offset) :
    (lastOf last (stream origin here text)).stop.offset = here.offset + text.length := by
  induction text generalizing here last with
  | nil => exact start
  | cons c rest ih =>
      have later := ih (here.after c) (.single origin here) (here.after_offset c).symm
      rw [here.after_offset] at later
      rw [List.length_cons, show stream origin here (c :: rest) =
        .ok ⟨c, .single origin here⟩ :: stream origin (here.after c) rest from rfl, lastOf, later]
      omega

theorem exists_run (property : Char → Bool) (text : List Char) :
    ∃ body later, text = body ++ later ∧ (∀ c ∈ body, property c = true) ∧
      ∀ c ∈ later.head?, property c = false := by
  refine ⟨_, _, (List.takeWhile_append_dropWhile (p := property)).symm, fun c => List.mem_takeWhile_imp, ?_⟩
  intro c first
  have stops := List.head?_dropWhile_not property text
  rw [Option.mem_def.mp first] at stops
  exact stops

theorem exists_mark (mark : Char) (text : List Char) :
    (∃ body later, text = body ++ mark :: later ∧ mark ∉ body) ∨ mark ∉ text := by
  obtain ⟨body, later, rfl, others, ends⟩ := exists_run (· != mark) text
  have absent : mark ∉ body := fun member => by simpa using others mark member
  cases later with
  | nil => exact .inr (by simpa using absent)
  | cons c later =>
      have same : c = mark := by simpa using ends c
      exact .inl ⟨body, later, by rw [same], absent⟩

theorem unmarked (mark : Char) (body : List Char) (absent : mark ∉ body) : ∀ c ∈ body, (c != mark) = true :=
  fun _ member => bne_iff_ne.mpr fun same => absent (same ▸ member)

theorem atomic_iff (c : Char) :
    isAtomic c = true ↔
      Text.isBlank c = false ∧ c ≠ '(' ∧ c ≠ ')' ∧ c ≠ commentMark ∧ c ≠ quoteMark := by
  simp [isAtomic, and_assoc]

theorem digit_atomic (c : Char) (digit : c.isDigit = true) : isAtomic c = true := by
  have visible : Text.isBlank c = false := by
    simp only [Char.isDigit, Bool.and_eq_true, decide_eq_true_eq, ge_iff_le, UInt32.le_iff_toNat_le] at digit
    have lower : 48 ≤ c.toNat := digit.1
    have upper : c.toNat ≤ 57 := digit.2
    simp [Text.isBlank, Text.blankRanges]
    omega
  rw [atomic_iff]
  refine ⟨visible, ?_, ?_, ?_, ?_⟩ <;> (rintro rfl; revert digit; decide)

end Scanner

namespace Token

-- Only the end of the text leaves a comment or byte string open.
inductive Spans (rest : List Char) : Token → List Char → Prop where
  | opening : Spans rest ⟨.opening, "("⟩ ['(']
  | closing : Spans rest ⟨.closing, ")"⟩ [')']
  | comment (body : List Char) (absent : commentMark ∉ body) :
      Spans rest (Scanner.comment body) (commentMark :: (body ++ [commentMark]))
  | openComment (body : List Char) (absent : commentMark ∉ body) (ends : rest = []) :
      Spans rest (Scanner.comment body) (commentMark :: body)
  | bytes (body : List Char) (absent : quoteMark ∉ body) :
      Spans rest (Scanner.byteString body) (quoteMark :: (body ++ [quoteMark]))
  | openBytes (body : List Char) (absent : quoteMark ∉ body) (ends : rest = []) :
      Spans rest (Scanner.byteString body) (quoteMark :: body)
  | integer (text : List Char) (filled : text ≠ []) (digits : ∀ c ∈ text, c.isDigit = true)
      (maximal : ∀ c ∈ rest.head?, c.isDigit = false) : Spans rest ⟨.integer, .ofList text⟩ text
  | atom (kind : TokenKind) (text : List Char) (atom : IsAtom ⟨kind, .ofList text⟩)
      (maximal : ∀ c ∈ rest.head?, Scanner.isAtomic c = false) : Spans rest ⟨kind, .ofList text⟩ text

theorem exists_spans (c : Char) (rest : List Char) (visible : Text.isBlank c = false) :
    ∃ token body later, c :: rest = body ++ later ∧ Spans later token body := by
  by_cases opening : c = '('
  · exact ⟨_, _, rest, by rw [opening]; rfl, .opening⟩
  by_cases closing : c = ')'
  · exact ⟨_, _, rest, by rw [closing]; rfl, .closing⟩
  by_cases commentary : c = commentMark
  · subst commentary
    rcases Scanner.exists_mark commentMark rest with ⟨body, later, rfl, absent⟩ | absent
    · exact ⟨_, _, later, by simp, .comment body absent⟩
    · exact ⟨_, _, [], by simp, .openComment rest absent rfl⟩
  by_cases quoted : c = quoteMark
  · subst quoted
    rcases Scanner.exists_mark quoteMark rest with ⟨body, later, rfl, absent⟩ | absent
    · exact ⟨_, _, later, by simp, .bytes body absent⟩
    · exact ⟨_, _, [], by simp, .openBytes rest absent rfl⟩
  cases digit : c.isDigit with
  | true =>
      obtain ⟨body, later, rfl, digits, ends⟩ := Scanner.exists_run Char.isDigit rest
      refine ⟨_, _, later, (List.cons_append ..).symm, .integer (c :: body) (by simp) ?_ ends⟩
      simpa [digit] using digits
  | false =>
      have atomic := (Scanner.atomic_iff c).mpr ⟨visible, opening, closing, commentary, quoted⟩
      obtain ⟨body, later, rfl, atoms, ends⟩ := Scanner.exists_run Scanner.isAtomic rest
      refine ⟨_, _, later, (List.cons_append ..).symm, .atom (classify (c :: body)) (c :: body) ?_ ends⟩
      exact ⟨by simp, by simpa [atomic] using atoms, by simpa using digit, by simp⟩

theorem spans_visible (rest body : List Char) (token : Token) (spans : Spans rest token body) :
    ∃ c later, body = c :: later ∧ Text.isBlank c = false := by
  cases spans with
  | opening => exact ⟨'(', [], rfl, by decide⟩
  | closing => exact ⟨')', [], rfl, by decide⟩
  | comment body | openComment body => exact ⟨commentMark, _, rfl, by decide⟩
  | bytes body | openBytes body => exact ⟨quoteMark, _, rfl, by decide⟩
  | integer text filled digits =>
      obtain ⟨c, later, rfl⟩ := List.exists_cons_of_ne_nil filled
      have atomic := Scanner.digit_atomic c (digits c (by simp))
      exact ⟨c, later, rfl, ((Scanner.atomic_iff c).mp atomic).1⟩
  | atom kind text atom =>
      obtain ⟨c, later, same⟩ := List.exists_cons_of_ne_nil atom.filled
      have atomic := atom.atomic c (by simp [same])
      exact ⟨c, later, by simpa using same, ((Scanner.atomic_iff c).mp atomic).1⟩

end Token

namespace Scanner

open Source (stream stream_append)

def Gives (result : Scanned × Scanner) (origin : String) (here : Position) (token : Token) (body rest : List Char) :
    Prop :=
  ∃ location last, result = (.ok ⟨token, location⟩, ⟨stream origin (here.afterAll body) rest, last, false⟩) ∧
    location.start.offset = here.offset ∧ location.stop.offset = here.offset + body.length

section

variable (origin : String) (here : Position) (c : Char) (body rest : List Char)

theorem run_gives (property : Char → Bool) (kind : List Char → TokenKind) (held : ∀ c ∈ body, property c = true)
    (ends : ∀ c ∈ rest.head?, property c = false) :
    Gives (run property kind ⟨c, .single origin here⟩ (stream origin (here.after c) (body ++ rest))) origin here
      ⟨kind (c :: body), .ofList (c :: body)⟩ (c :: body) rest := by
  obtain ⟨taken, left⟩ := stream_run property origin (here.after c) body rest held ends
  refine ⟨_, _, by rw [run, taken, left, chars_stream]; rfl, rfl, ?_⟩
  rw [Location.span, last_offset origin (here.after c) _ body (here.after_offset c).symm, here.after_offset,
    List.length_cons]
  omega

theorem delimited_closed (mark : Char) (build : List Char → Token) (absent : mark ∉ body) :
    Gives (delimited mark build ⟨c, .single origin here⟩ (stream origin (here.after c) (body ++ mark :: rest))) origin
      here (build body) (c :: (body ++ [mark])) rest := by
  obtain ⟨taken, left⟩ := stream_run (· != mark) origin (here.after c) body (mark :: rest) (unmarked mark body absent)
    (by simp)
  have closing : stream origin ((here.after c).afterAll body) (mark :: rest) =
      .ok ⟨mark, .single origin ((here.after c).afterAll body)⟩ ::
        stream origin (here.afterAll (c :: (body ++ [mark]))) rest := by
    rw [← List.cons_append, Position.after_all_append]
    rfl
  rw [closing] at left
  refine ⟨_, _, by rw [delimited, taken, left, chars_stream], rfl, ?_⟩
  have place := (here.after c).after_all_offset body
  rw [here.after_offset] at place
  simp only [Location.span, Location.single, Position.advance, place, List.length_cons, List.length_append,
    List.length_nil]
  omega

theorem delimited_open (mark : Char) (build : List Char → Token) (absent : mark ∉ body) :
    Gives (delimited mark build ⟨c, .single origin here⟩ (stream origin (here.after c) body)) origin here
      (build body) (c :: body) [] := by
  obtain ⟨taken, left⟩ := stream_run (· != mark) origin (here.after c) body [] (unmarked mark body absent) (by simp)
  rw [List.append_nil] at taken left
  refine ⟨_, _, by rw [delimited, taken, left, chars_stream]; rfl, rfl, ?_⟩
  rw [Location.span, last_offset origin (here.after c) _ body (here.after_offset c).symm, here.after_offset,
    List.length_cons]
  omega

theorem lexeme_gives (token : Token) (spans : token.Spans rest (c :: body)) :
    Gives (lexeme ⟨c, .single origin here⟩ (stream origin (here.after c) (body ++ rest))) origin here token (c :: body)
      rest := by
  cases spans with
  | opening => exact ⟨_, _, rfl, rfl, rfl⟩
  | closing => exact ⟨_, _, rfl, rfl, rfl⟩
  | comment body absent =>
      have gives := delimited_closed origin here commentMark body rest commentMark comment absent
      simpa [lexeme, commentMark] using gives
  | openComment body absent ends =>
      subst ends
      have gives := delimited_open origin here commentMark body commentMark comment absent
      simpa [lexeme, commentMark] using gives
  | bytes body absent =>
      have gives := delimited_closed origin here quoteMark body rest quoteMark byteString absent
      simpa [lexeme, commentMark, quoteMark] using gives
  | openBytes body absent ends =>
      subst ends
      have gives := delimited_open origin here quoteMark body quoteMark byteString absent
      simpa [lexeme, commentMark, quoteMark] using gives
  | integer text filled digits maximal =>
      have digit := digits c (by simp)
      obtain ⟨_, opening, closing, commentary, quoted⟩ := (atomic_iff c).mp (digit_atomic c digit)
      have gives := run_gives origin here c body rest Char.isDigit (fun _ => .integer)
        (fun d member => digits d (by simp [member])) maximal
      simpa [lexeme, opening, closing, commentary, quoted, digit] using gives
  | atom kind text atom maximal =>
      have atomic := atom.atomic
      have digit : c.isDigit = false := atom.head c (by simp)
      have named : kind = Token.classify (c :: body) := by simpa using atom.kind
      rw [String.toList_ofList] at atomic
      obtain ⟨_, opening, closing, commentary, quoted⟩ := (atomic_iff c).mp (atomic c (by simp))
      have gives := run_gives origin here c body rest isAtomic Token.classify
        (fun d member => atomic d (by simp [member])) maximal
      simpa [lexeme, opening, closing, commentary, quoted, digit, named] using gives

end

theorem next_lexeme (rest others : List Element) (last : Location) (first : Located Char)
    (shape : rest.dropWhile (holds Text.isBlank) = .ok first :: others) :
    next ⟨rest, last, false⟩ = (some (lexeme first others).1, (lexeme first others).2) := by
  rw [next, if_neg Bool.false_ne_true]
  dsimp only
  rw [shape]

theorem next_gives (origin : String) (here : Position) (last : Location) (gap body rest : List Char) (token : Token)
    (blank : ∀ c ∈ gap, Text.isBlank c = true) (spans : token.Spans rest body) :
    ∃ result, next ⟨stream origin here (gap ++ (body ++ rest)), last, false⟩ = (some result.1, result.2) ∧
      Gives result origin (here.afterAll gap) token body rest := by
  obtain ⟨c, later, rfl, visible⟩ := token.spans_visible rest body spans
  obtain ⟨taken, left⟩ := stream_run Text.isBlank origin here gap (c :: later ++ rest) blank (by simpa using visible)
  exact ⟨_, next_lexeme _ _ last _ left, lexeme_gives origin (here.afterAll gap) c later rest token spans⟩

theorem next_blank (origin : String) (here : Position) (last : Location) (chars : List Char)
    (blank : ∀ c ∈ chars, Text.isBlank c = true) :
    (next ⟨stream origin here chars, last, false⟩).1 = none := by
  obtain ⟨_, left⟩ := stream_run Text.isBlank origin here chars [] blank (by simp)
  rw [List.append_nil] at left
  rw [next, if_neg Bool.false_ne_true]
  dsimp only
  rw [left]
  rfl

theorem all_none (scanner : Scanner) (ended : scanner.next.1 = none) : scanner.all = [] := by
  rw [all]
  split
  · rfl
  · rename_i scanned after taken
    rw [taken] at ended
    cases ended

theorem all_some (scanner after : Scanner) (scanned : Scanned) (taken : scanner.next = (some scanned, after)) :
    scanner.all = scanned :: after.all := by
  rw [all]
  split
  · rename_i ended
    rw [taken] at ended
    cases ended
  · rename_i other left same
    rw [taken] at same
    cases same
    rfl

end Scanner

inductive Layout : Nat → List Char → List (Located Token) → Prop where
  | blank (offset : Nat) (chars : List Char) (blank : ∀ c ∈ chars, Text.isBlank c = true) : Layout offset chars []
  | token (offset : Nat) (gap body rest : List Char) (token : Located Token) (tokens : List (Located Token))
      (blank : ∀ c ∈ gap, Text.isBlank c = true) (spans : token.value.Spans rest body)
      (starts : token.location.start.offset = offset + gap.length)
      (stops : token.location.stop.offset = token.location.start.offset + body.length)
      (later : Layout token.location.stop.offset rest tokens) : Layout offset (gap ++ (body ++ rest)) (token :: tokens)

namespace Layout

-- The scanner follows every layout of a text.
theorem scanned (origin : String) (here : Position) (last : Location) (chars : List Char)
    (tokens : List (Located Token)) (layout : Layout here.offset chars tokens) :
    ∃ found : List (Located Token), (Scanner.mk (Source.stream origin here chars) last false).all = found.map .ok ∧
      Layout here.offset chars found ∧ found.map Located.value = tokens.map Located.value := by
  generalize begins : here.offset = offset at layout
  induction layout generalizing here last with
  | blank offset chars blank =>
      exact ⟨[], Scanner.all_none _ (Scanner.next_blank origin here last chars blank), .blank offset chars blank, rfl⟩
  | token offset gap body rest token tokens blank spans starts stops _ ih =>
      obtain ⟨result, taken, location, left, given, start, stop⟩ :=
        Scanner.next_gives origin here last gap body rest token.value blank spans
      rw [Position.after_all_offset, begins] at start
      rw [Position.after_all_offset, begins, ← start] at stop
      have place : ((here.afterAll gap).afterAll body).offset = token.location.stop.offset := by
        rw [Position.after_all_offset, Position.after_all_offset, stops, starts, begins]
      obtain ⟨found, all, layout, same⟩ := ih ((here.afterAll gap).afterAll body) left place
      have stopped : token.location.stop.offset = location.stop.offset := by
        rw [stops, stop, starts, start]
      rw [stopped] at layout
      refine ⟨⟨token.value, location⟩ :: found, ?_, ?_, by simp [same]⟩
      · rw [Scanner.all_some _ _ _ taken, given, all]
        rfl
      · exact .token offset gap body rest ⟨token.value, location⟩ found blank spans start stop layout

theorem exists_layout (offset : Nat) (chars : List Char) : ∃ tokens, Layout offset chars tokens := by
  obtain ⟨gap, visible, whole, blank, ends⟩ := Scanner.exists_run Text.isBlank chars
  cases visible with
  | nil => exact ⟨[], .blank offset chars (by simpa [whole] using blank)⟩
  | cons c rest =>
      obtain ⟨token, body, later, split, spans⟩ := Token.exists_spans c rest (ends c (by simp))
      obtain ⟨d, tail, filled, _⟩ := token.spans_visible later body spans
      rw [split] at whole
      have shorter : later.length < chars.length := by
        rw [whole, filled]
        simp only [List.length_append, List.length_cons]
        omega
      let start : Position := { offset := offset + gap.length }
      let stop : Position := { offset := offset + gap.length + body.length }
      obtain ⟨tokens, layout⟩ := exists_layout stop.offset later
      rw [whole]
      exact ⟨⟨token, ⟨"", start, stop⟩⟩ :: tokens, .token offset gap body later _ tokens blank spans rfl rfl layout⟩
termination_by chars.length
decreasing_by exact shorter

end Layout

end TealForms
