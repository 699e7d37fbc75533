import Mathlib.Data.List.Forall2
import TealForms.Proofs.Token.Scanning

set_option autoImplicit false

namespace TealForms

namespace Text

def insert (mark : Char) (chosen : Nat → Bool) (place : Nat) : List Char → List Char
  | [] => []
  | c :: rest => (if chosen place then [mark] else []) ++ c :: insert mark chosen (place + 1) rest

section

variable (mark : Char) (chosen : Nat → Bool) (place : Nat)

theorem insert_append (first second : List Char) :
    insert mark chosen place (first ++ second) =
      insert mark chosen place first ++ insert mark chosen (place + first.length) second := by
  induction first generalizing place with
  | nil => rfl
  | cons c rest ih =>
      simp only [List.cons_append, insert, ih, List.length_cons, List.append_assoc]
      rw [Nat.add_assoc, Nat.add_comm 1]

theorem insert_none (chars : List Char)
    (none : ∀ other, place ≤ other → other < place + chars.length → chosen other = false) :
    insert mark chosen place chars = chars := by
  induction chars generalizing place with
  | nil => rfl
  | cons c rest ih =>
      have here : chosen place = false := none place (Nat.le_refl _) (by simp)
      have later : insert mark chosen (place + 1) rest = rest := by
        refine ih (place + 1) fun other low high => none other (by omega) ?_
        rw [List.length_cons]
        omega
      simp [insert, here, later]

theorem insert_head (chars : List Char) (c : Char) (first : c ∈ (insert mark chosen place chars).head?) :
    c ∈ chars.head? ∨ chosen place = true ∧ c = mark ∧ chars ≠ [] := by
  cases chars with
  | nil => cases first
  | cons d rest =>
      cases here : chosen place with
      | false => exact .inl (by simpa [insert, here] using first)
      | true => exact .inr ⟨rfl, by simpa [insert, here, eq_comm] using first, by simp⟩

end

end Text

namespace Token

def marked (token : Token) : Token := ⟨token.kind, .ofList (exemptionMark :: token.text.toList)⟩

def IsPlainName (token : Token) : Prop := token.kind = .opcode ∧ token.isMarked = false

theorem keyword_stem (keyword : Keyword) : keyword.text.toList.head? = some '#' := by
  cases keyword <;> decide

theorem classify_marked (text : List Char) (filled : text ≠ []) (named : classify text = .opcode) :
    classify (exemptionMark :: text) = .opcode := by
  have last : (exemptionMark :: text).getLast? = text.getLast? := by
    rw [List.getLast?_cons, List.getLast?_eq_some_getLast filled]
    rfl
  have label : text.getLast? ≠ some ':' := by
    intro colon
    simp [classify, colon] at named
  have keyword : Keyword.ofText? (.ofList (exemptionMark :: text)) = none := by
    rw [Keyword.ofText?, List.find?_eq_none]
    intro keyword _ same
    have stem := keyword_stem keyword
    rw [of_decide_eq_true same, String.toList_ofList] at stem
    cases stem
  have variable_ : exemptionMark ≠ '$' := by decide
  have constant : exemptionMark ≠ '@' := by decide
  rw [classify, last, if_neg label, if_neg (by simpa using variable_), if_neg (by simpa using constant), keyword]

theorem atom_marked (text : List Char) (atom : IsAtom ⟨.opcode, .ofList text⟩) :
    IsAtom ⟨.opcode, .ofList (exemptionMark :: text)⟩ := by
  have filled : text ≠ [] := by simpa using atom.filled
  have atomic : ∀ c ∈ text, Scanner.isAtomic c = true := by simpa using atom.atomic
  have named : .opcode = classify text := by simpa using atom.kind
  constructor
  · simp
  · rw [String.toList_ofList, List.forall_mem_cons]
    exact ⟨by decide, atomic⟩
  · simp [exemptionMark]
  · rw [String.toList_ofList, classify_marked text filled named.symm]

-- What follows a token may change as long as it does not go on with it.
theorem spans_before (rest later body : List Char) (token : Token) (spans : Spans rest token body)
    (ends : rest = [] → later = []) (digits : ∀ c ∈ later.head?, c.isDigit = true → c ∈ rest.head?)
    (atoms : ∀ c ∈ later.head?, Scanner.isAtomic c = true → ∃ d ∈ rest.head?, Scanner.isAtomic d = true) :
    Spans later token body := by
  cases spans with
  | opening => exact .opening
  | closing => exact .closing
  | comment body absent => exact .comment body absent
  | openComment body absent stops => exact .openComment body absent (ends stops)
  | bytes body absent => exact .bytes body absent
  | openBytes body absent stops => exact .openBytes body absent (ends stops)
  | integer _ filled all maximal =>
      refine .integer body filled all fun c first => Bool.eq_false_iff.mpr fun digit => ?_
      rw [maximal c (digits c first digit)] at digit
      cases digit
  | atom kind _ atom maximal =>
      refine .atom kind body atom fun c first => Bool.eq_false_iff.mpr fun atomic => ?_
      obtain ⟨d, here, other⟩ := atoms c first atomic
      rw [maximal d here] at other
      cases other

theorem opcode_spans (rest body : List Char) (token : Token) (spans : Spans rest token body)
    (named : token.kind = .opcode) :
    token = ⟨.opcode, .ofList body⟩ ∧ IsAtom ⟨.opcode, .ofList body⟩ ∧
      ∀ c ∈ rest.head?, Scanner.isAtomic c = false := by
  cases spans with
  | atom kind _ atom maximal =>
      cases named
      exact ⟨rfl, atom, maximal⟩
  | _ => cases named

end Token

namespace Layout

def Marks (token other : Located Token) : Prop :=
  other.value = token.value ∨
    token.value.IsPlainName ∧ token.value.text.toList ≠ [] ∧ other.value = token.value.marked

theorem opcode_first (offset : Nat) (chars : List Char) (tokens : List (Located Token))
    (layout : Layout offset chars tokens) (token : Located Token) (member : token ∈ tokens)
    (start : token.location.start.offset = offset) (named : token.value.kind = .opcode) :
    ∃ c ∈ chars.head?, Scanner.isAtomic c = true := by
  cases layout with
  | blank => cases member
  | token _ gap body rest first tokens _ spans starts stops later =>
      rcases List.mem_cons.mp member with same | behind
      · subst same
        obtain rfl : gap = [] := List.eq_nil_of_length_eq_zero (by omega)
        obtain ⟨_, atom, _⟩ := token.value.opcode_spans rest body spans named
        obtain ⟨c, tail, filled⟩ := List.exists_cons_of_ne_nil atom.filled
        rw [String.toList_ofList] at filled
        have atomic := atom.atomic c (by simp [filled])
        exact ⟨c, by simp [filled], atomic⟩
      · have bound := (later.bounds token behind).1
        obtain ⟨c, tail, filled, _⟩ := first.value.spans_visible rest body spans
        have length : 0 < body.length := by simp [filled]
        omega

-- From an offset on, only places of names that have no mark are chosen.
def Chooses (chosen : Nat → Bool) (offset : Nat) (tokens : List (Located Token)) : Prop :=
  ∀ place, offset ≤ place → chosen place = true → ∃ token ∈ tokens,
    token.location.start.offset = place ∧ token.value.IsPlainName

section

variable {chosen : Nat → Bool} {offset : Nat} {rest : List Char} {token : Located Token}
variable {tokens : List (Located Token)} (later : Layout token.location.stop.offset rest tokens)

include later

theorem chooses_first (chooses : Chooses chosen offset (token :: tokens)) (place : Nat) (low : offset ≤ place)
    (high : place < token.location.stop.offset) (here : chosen place = true) :
    place = token.location.start.offset ∧ token.value.IsPlainName := by
  obtain ⟨found, member, begins, plain⟩ := chooses place low here
  rcases List.mem_cons.mp member with same | behind
  · exact ⟨by rw [← begins, same], same ▸ plain⟩
  · have bound := (later.bounds found behind).1
    omega

theorem chooses_later (chooses : Chooses chosen offset (token :: tokens))
    (filled : token.location.start.offset < token.location.stop.offset) (ahead : offset ≤ token.location.stop.offset) :
    Chooses chosen token.location.stop.offset tokens := by
  intro place low here
  obtain ⟨found, member, begins, plain⟩ := chooses place (Nat.le_trans ahead low) here
  rcases List.mem_cons.mp member with same | behind
  · subst same
    omega
  · exact ⟨found, behind, begins, plain⟩

-- A mark stands before a name only, so that the token before it ends where it did.
theorem inserted_spans (chooses : Chooses chosen token.location.stop.offset tokens) (body : List Char)
    (spans : token.value.Spans rest body) :
    token.value.Spans (Text.insert exemptionMark chosen token.location.stop.offset rest) body := by
  refine token.value.spans_before rest _ body spans ?_ ?_ ?_
  · rintro rfl
    rfl
  · intro c first digit
    rcases Text.insert_head _ _ _ _ c first with old | ⟨_, rfl, _⟩
    · exact old
    · cases digit
  · intro c first atomic
    rcases Text.insert_head _ _ _ _ c first with old | ⟨here, _, _⟩
    · exact ⟨c, old, atomic⟩
    · obtain ⟨found, member, begins, plain⟩ := chooses _ (Nat.le_refl _) here
      exact opcode_first _ rest tokens later found member begins plain.1

end

theorem marked (offset : Nat) (chars : List Char) (tokens : List (Located Token))
    (layout : Layout offset chars tokens) (chosen : Nat → Bool) (chooses : Chooses chosen offset tokens)
    (start : Nat) :
    ∃ others, Layout start (Text.insert exemptionMark chosen offset chars) others ∧
      List.Forall₂ Marks tokens others := by
  induction layout generalizing start with
  | blank offset chars blank =>
      have none (place : Nat) (low : offset ≤ place) : chosen place = false := by
        refine Bool.eq_false_iff.mpr fun here => ?_
        obtain ⟨token, member, _⟩ := chooses place low here
        cases member
      rw [Text.insert_none _ _ _ _ fun place low _ => none place low]
      exact ⟨[], .blank start chars blank, .nil⟩
  | token offset gap body rest token tokens blank spans starts stops later ih =>
      obtain ⟨c, tail, rfl, _⟩ := token.value.spans_visible rest body spans
      rw [List.length_cons] at stops
      have free (place : Nat) (low : offset ≤ place) (high : place < token.location.stop.offset)
          (other : place ≠ token.location.start.offset) : chosen place = false :=
        Bool.eq_false_iff.mpr fun here => other (chooses_first later chooses place low high here).1
      have behind := chooses_later later chooses (by omega) (by omega)
      have kept := inserted_spans later behind (c :: tail) spans
      have unmarked : Text.insert exemptionMark chosen offset gap = gap :=
        Text.insert_none _ _ _ _ fun place low high => free place low (by omega) (by omega)
      have inside : Text.insert exemptionMark chosen (token.location.start.offset + 1) tail = tail :=
        Text.insert_none _ _ _ _ fun place low high => free place (by omega) (by omega) (by omega)
      rw [Text.insert_append, Text.insert_append, unmarked, ← starts, List.length_cons, ← stops, Text.insert, inside]
      let begins : Position := { offset := start + gap.length }
      cases here : chosen token.location.start.offset with
      | false =>
          let ends : Position := { offset := begins.offset + (c :: tail).length }
          obtain ⟨others, layout, marks⟩ := ih behind ends.offset
          exact ⟨⟨token.value, ⟨"", begins, ends⟩⟩ :: others,
            .token start gap (c :: tail) _ _ others blank kept rfl rfl layout, .cons (.inl rfl) marks⟩
      | true =>
          let ends : Position := { offset := begins.offset + (exemptionMark :: c :: tail).length }
          obtain ⟨others, layout, marks⟩ := ih behind ends.offset
          have plain := (chooses_first later chooses _ (by omega) (by omega) here).2
          obtain ⟨same, atom, maximal⟩ := token.value.opcode_spans _ _ kept plain.1
          have named : token.value.marked = ⟨.opcode, .ofList (exemptionMark :: c :: tail)⟩ := by
            rw [same, Token.marked, String.toList_ofList]
          have spelled : token.value.marked.Spans (Text.insert exemptionMark chosen token.location.stop.offset rest)
              (exemptionMark :: c :: tail) := by
            rw [named]
            exact .atom .opcode _ (Token.atom_marked _ atom) maximal
          have filled : token.value.text.toList ≠ [] := by simp [same]
          exact ⟨⟨token.value.marked, ⟨"", begins, ends⟩⟩ :: others,
            .token start gap (exemptionMark :: c :: tail) _ _ others blank spelled rfl rfl layout,
            .cons (.inr ⟨plain, filled, rfl⟩) marks⟩

end Layout

end TealForms
