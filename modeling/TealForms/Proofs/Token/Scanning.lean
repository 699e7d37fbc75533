import TealForms.Proofs.Token.Layout

set_option autoImplicit false

namespace TealForms

namespace Layout

section

variable {offset : Nat} {chars : List Char} {tokens : List (Located Token)}

theorem bounds (layout : Layout offset chars tokens) (token : Located Token) (member : token ∈ tokens) :
    offset ≤ token.location.start.offset ∧ token.location.start.offset < token.location.stop.offset ∧
      token.location.stop.offset ≤ offset + chars.length := by
  induction layout with
  | blank => cases member
  | token offset gap body rest first tokens _ spans starts stops _ ih =>
      obtain ⟨c, later, filled, _⟩ := first.value.spans_visible rest body spans
      have positive : 0 < body.length := by simp [filled]
      rw [List.length_append, List.length_append]
      rcases List.mem_cons.mp member with same | later
      · subst same
        omega
      · have bounds := ih later
        omega

theorem ordered (layout : Layout offset chars tokens) :
    tokens.Pairwise fun first second => first.location.stop.offset ≤ second.location.start.offset := by
  induction layout with
  | blank => exact .nil
  | token offset gap body rest first tokens _ _ _ _ later ih =>
      exact .cons (fun second member => (later.bounds second member).1) ih

theorem covered (layout : Layout offset chars tokens) (place : Nat) (c : Char) (here : chars[place]? = some c) :
    Text.isBlank c = true ∨ ∃ token ∈ tokens,
      token.location.start.offset ≤ offset + place ∧ offset + place < token.location.stop.offset := by
  induction layout generalizing place with
  | blank offset chars blank => exact .inl (blank c (List.mem_of_getElem? here))
  | token offset gap body rest first tokens blank _ starts stops _ ih =>
      rw [List.getElem?_append] at here
      split at here
      · exact .inl (blank c (List.mem_of_getElem? here))
      rename_i beyond
      rw [List.getElem?_append] at here
      split at here
      · rename_i inside
        exact .inr ⟨first, by simp, by omega, by omega⟩
      · rename_i behind
        have same : first.location.stop.offset + (place - gap.length - body.length) = offset + place := by omega
        have either := ih (place - gap.length - body.length) here
        rw [same] at either
        rcases either with white | ⟨token, member, range⟩
        · exact .inl white
        · exact .inr ⟨token, by simp [member], range⟩

theorem written (layout : Layout offset chars tokens) (before : List Char) (length : before.length = offset)
    (token : Located Token) (member : token ∈ tokens) :
    token.value.Spans ((before ++ chars).drop token.location.stop.offset)
      ((before ++ chars).extract token.location.start.offset token.location.stop.offset) := by
  induction layout generalizing before with
  | blank => cases member
  | token offset gap body rest first tokens _ spans starts stops _ ih =>
      rcases List.mem_cons.mp member with same | later
      · subst same
        have left : (before ++ (gap ++ (body ++ rest))).drop token.location.start.offset = body ++ rest := by
          rw [← List.append_assoc, List.drop_left' (by simp [starts, length])]
        have wide : token.location.stop.offset - token.location.start.offset = body.length := by omega
        have behind : (before ++ (gap ++ (body ++ rest))).drop token.location.stop.offset = rest := by
          rw [stops, ← List.drop_drop, left, List.drop_left]
        rw [List.extract_eq_take_drop, left, wide, List.take_left, behind]
        exact spans
      · have reached : (before ++ (gap ++ body)).length = first.location.stop.offset := by
          simp only [List.length_append]
          omega
        simpa [List.append_assoc] using ih (before ++ (gap ++ body)) reached later

end

end Layout

namespace Token

def rendered (token : Token) : List Char :=
  if token.kind = .comment then commentMark :: (token.text.toList ++ [commentMark]) else token.text.toList

theorem spelled_spans (token : Token) (spelled : token.Spelled) (rest : List Char)
    (ends : ∀ c ∈ rest.head?, Text.isBlank c = true) : token.Spans rest token.rendered := by
  have outside : ∀ c ∈ rest.head?, Scanner.isAtomic c = false := by
    intro c first
    simp [Scanner.isAtomic, ends c first]
  have digitless : ∀ c ∈ rest.head?, c.isDigit = false := by
    intro c first
    have other := outside c first
    cases digit : c.isDigit with
    | false => rfl
    | true => rw [← other, Scanner.digit_atomic c digit]
  obtain ⟨kind, text⟩ := token
  obtain ⟨text, rfl⟩ : ∃ chars, text = .ofList chars := ⟨text.toList, String.ofList_toList.symm⟩
  have same : rendered ⟨kind, .ofList text⟩ =
      if kind = .comment then commentMark :: (text ++ [commentMark]) else text := by
    simp [rendered]
  rw [same]
  rw [Spelled] at spelled
  cases kind with
  | opening =>
      obtain rfl : text = ['('] := by simpa using congrArg String.toList spelled
      exact .opening
  | closing =>
      obtain rfl : text = [')'] := by simpa using congrArg String.toList spelled
      exact .closing
  | bytes =>
      obtain ⟨body, quoted, absent⟩ := spelled
      obtain rfl : text = quoteMark :: (body ++ [quoteMark]) := by simpa using quoted
      exact .bytes body absent
  | comment => exact .comment text (by simpa using spelled)
  | integer =>
      obtain ⟨filled, digits⟩ : text ≠ [] ∧ ∀ c ∈ text, c.isDigit = true := by simpa using spelled
      exact .integer text filled digits digitless
  | root => exact spelled.elim
  | opcode | label | scratch | constant | keyword => exact .atom _ text spelled outside

end Token

namespace Layout

theorem rendered (items : List (Token × List Char)) (offset : Nat) (lead : List Char)
    (spelled : ∀ item ∈ items, item.1.Spelled) (blank : ∀ c ∈ lead, Text.isBlank c = true)
    (gaps : ∀ item ∈ items, ∀ c ∈ item.2, Text.isBlank c = true) (apart : ∀ item ∈ items.dropLast, item.2 ≠ []) :
    ∃ tokens, Layout offset (lead ++ items.flatMap fun item => item.1.rendered ++ item.2) tokens ∧
      tokens.map Located.value = items.map Prod.fst := by
  induction items generalizing offset lead with
  | nil => exact ⟨[], .blank offset _ (by simpa using blank), rfl⟩
  | cons item items ih =>
      obtain ⟨token, gap⟩ := item
      have white : ∀ c ∈ gap, Text.isBlank c = true := gaps (token, gap) (by simp)
      let rest := gap ++ items.flatMap fun item => item.1.rendered ++ item.2
      have ends : ∀ c ∈ rest.head?, Text.isBlank c = true := by
        intro c first
        cases gap with
        | cons d gap => exact white c (by simpa [rest] using Or.inl first.symm)
        | nil =>
            cases items with
            | nil => cases first
            | cons next items => exact absurd rfl (apart (token, []) (by simp))
      have spans := token.spelled_spans (spelled (token, gap) (by simp)) rest ends
      let start : Position := { offset := offset + lead.length }
      let stop : Position := { offset := offset + lead.length + token.rendered.length }
      have later : ∀ item ∈ items.dropLast, item.2 ≠ [] := by
        cases items with
        | nil => simp
        | cons next items => exact fun item member => apart item (List.mem_cons_of_mem _ member)
      obtain ⟨tokens, layout, same⟩ := ih stop.offset gap (fun item member => spelled item (by simp [member])) white
        (fun item member => gaps item (by simp [member])) later
      refine ⟨⟨token, ⟨"", start, stop⟩⟩ :: tokens, ?_, by simp [same]⟩
      rw [List.flatMap_cons, List.append_assoc]
      exact .token offset lead token.rendered rest _ tokens blank spans rfl rfl layout

end Layout

namespace Scanner

/-- The scanner loses nothing of a text that is read without failures. The ranges of its tokens are not empty and follow
each other, what they leave out is white space, and each holds what its token is written as, up to where a token of its
kind must end. -/
theorem scanned_ranges (origin : String) (last : Location) (chars : List Char) :
    ∃ tokens : List (Located Token), (mk (Source.stream origin {} chars) last false).all = tokens.map .ok ∧
      tokens.Pairwise (fun first second => first.location.stop.offset ≤ second.location.start.offset) ∧
      (∀ token ∈ tokens, token.location.start.offset < token.location.stop.offset ∧
        token.location.stop.offset ≤ chars.length ∧
        token.value.Spans (chars.drop token.location.stop.offset)
          (chars.extract token.location.start.offset token.location.stop.offset)) ∧
      ∀ place c, chars[place]? = some c → Text.isBlank c = true ∨ ∃ token ∈ tokens,
        token.location.start.offset ≤ place ∧ place < token.location.stop.offset := by
  obtain ⟨guess, exists_⟩ := Layout.exists_layout 0 chars
  obtain ⟨tokens, all, layout, _⟩ := Layout.scanned origin {} last chars guess exists_
  refine ⟨tokens, all, layout.ordered, ?_, ?_⟩
  · intro token member
    obtain ⟨_, filled, inside⟩ := layout.bounds token member
    exact ⟨filled, by simpa using inside, layout.written [] rfl token member⟩
  · intro place c here
    simpa using layout.covered place c here

/-- Tokens that are spelled as their kinds ask and written down with white space between them are scanned as they were,
and the scanner gives no others. -/
theorem rendering_scanned (origin : String) (here : Position) (last : Location) :
    (∀ (lead : List Char) (items : List (Token × List Char)), (∀ item ∈ items, item.1.Spelled) →
      (∀ c ∈ lead, Text.isBlank c = true) → (∀ item ∈ items, ∀ c ∈ item.2, Text.isBlank c = true) →
      (∀ item ∈ items.dropLast, item.2 ≠ []) →
      ∃ tokens : List (Located Token),
        (mk (Source.stream origin here (lead ++ items.flatMap fun item => item.1.rendered ++ item.2)) last false).all =
          tokens.map .ok ∧
        tokens.map Located.value = items.map Prod.fst) ∧
    ∀ chars, ∃ tokens : List (Located Token),
      (mk (Source.stream origin here chars) last false).all = tokens.map .ok ∧
        ∀ token ∈ tokens, token.value.Spelled := by
  refine ⟨?_, ?_⟩
  · intro lead items spelled blank gaps apart
    obtain ⟨tokens, layout, same⟩ := Layout.rendered items here.offset lead spelled blank gaps apart
    obtain ⟨found, all, _, values⟩ := Layout.scanned origin here last _ tokens layout
    exact ⟨found, all, values.trans same⟩
  · intro chars
    obtain ⟨guess, exists_⟩ := Layout.exists_layout here.offset chars
    obtain ⟨tokens, all, _, _⟩ := Layout.scanned origin here last chars guess exists_
    refine ⟨tokens, all, fun token member => all_spelled (mk (Source.stream origin here chars) last false) token ?_⟩
    rw [all]
    exact List.mem_map_of_mem member

theorem quoted_comment_scanned :
    let items : List (Token × List Char) :=
      [(⟨.opening, "("⟩, [' ']), (⟨.label, "$loop:"⟩, ['\n']), (⟨.comment, "1) \"x"⟩, ['\t', ' ']),
        (⟨.bytes, "\"(\""⟩, [' ']), (⟨.integer, "12"⟩, [' ']), (⟨.opcode, "?pop"⟩, [])]
    (∀ item ∈ items, item.1.Spelled) ∧ (∀ item ∈ items, ∀ c ∈ item.2, Text.isBlank c = true) ∧
    (∀ item ∈ items.dropLast, item.2 ≠ []) ∧
    ∃ tokens : List (Located Token),
      (mk (Source.stream "" {} "( $loop:\n\x601) \"x\x60\t \"(\" 12 ?pop".toList) default false).all =
        tokens.map .ok ∧
      tokens.map Located.value = items.map Prod.fst := by
  intro items
  have spelled : ∀ item ∈ items, item.1.Spelled := by
    simp only [items, List.forall_mem_cons]
    refine ⟨rfl, ?_, ?_, ⟨['('], by decide, by decide⟩, ⟨by decide, by simp⟩, ?_, by simp⟩
    · exact ⟨by decide, List.all_eq_true.mp (by decide), by simp, by decide⟩
    · show commentMark ∉ _
      decide
    · exact ⟨by decide, List.all_eq_true.mp (by decide), by simp, by decide⟩
  have blank : ∀ item ∈ items, ∀ c ∈ item.2, Text.isBlank c = true := by
    simp only [← List.all_eq_true]
    decide
  have apart : ∀ item ∈ items.dropLast, item.2 ≠ [] := by decide
  exact ⟨spelled, blank, apart, (rendering_scanned "" {} default).1 [] items spelled (by simp) blank apart⟩

end Scanner

end TealForms
