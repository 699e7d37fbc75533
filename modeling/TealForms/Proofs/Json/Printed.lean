import TealForms.Json.Read
import TealForms.Proofs.Json.Scalars

set_option autoImplicit false

namespace TealForms.Json

namespace Lexeme

-- The text is written with the lexemes, whatever follows apart from it.
def Spelled (chars : List Char) (lexemes : List Lexeme) : Prop :=
  ∀ rest, Apart rest → all (chars ++ rest) = (all rest).map (lexemes ++ ·)

theorem all_take (c : Char) (rest after : List Char) (lexeme : Lexeme) (solid : isBlank c = false)
    (taken : take? c rest = some (lexeme, after)) : all (c :: rest) = (all after).map (lexeme :: ·) := by
  rw [all, if_neg (by rw [solid]; decide)]
  split <;> simp_all

theorem apart_mark (c : Char) (rest : List Char) (lexeme : Lexeme) (mark : punctuation? c = some lexeme) :
    Apart (c :: rest) := by
  intro first head
  obtain rfl : c = first := Option.some.inj head
  simp [isAtomic, mark]

theorem apart_append (front rest : List Char) (apart : Apart front) (behind : Apart rest) : Apart (front ++ rest) := by
  cases front with
  | nil => exact behind
  | cons c front => exact apart

theorem apart_blanks (blanks rest : List Char) (blank : ∀ c ∈ blanks, isBlank c = true) (apart : Apart rest) :
    Apart (blanks ++ rest) := by
  refine apart_append blanks rest ?_ apart
  intro first head
  simp [isAtomic, blank first (List.mem_of_head? head)]

theorem spelled_nil : Spelled [] [] := by
  intro rest _
  cases spelled : all rest <;> simp [spelled]

theorem spelled_append (front back : List Char) (first last : List Lexeme) (opened : Spelled front first)
    (closed : Spelled back last) (apart : Apart back) : Spelled (front ++ back) (first ++ last) := by
  intro rest behind
  rw [List.append_assoc, opened _ (apart_append back rest apart behind), closed rest behind, Option.map_map]
  congr 1
  funext others
  exact (List.append_assoc ..).symm

theorem spelled_take (c : Char) (chars : List Char) (lexeme : Lexeme) (solid : isBlank c = false)
    (taken : ∀ rest, Apart rest → take? c (chars ++ rest) = some (lexeme, rest)) : Spelled (c :: chars) [lexeme] :=
  fun rest apart => all_take c (chars ++ rest) rest lexeme solid (taken rest apart)

theorem spelled_mark (c : Char) (chars : List Char) (lexeme : Lexeme) (lexemes : List Lexeme)
    (mark : punctuation? c = some lexeme) (spelled : Spelled chars lexemes) :
    Spelled (c :: chars) (lexeme :: lexemes) := by
  have solid : isBlank c = false := by
    unfold punctuation? at mark
    split at mark <;> first | rfl | cases mark
  intro rest apart
  have taken : take? c (chars ++ rest) = some (lexeme, chars ++ rest) := by
    rw [take?, mark]
  rw [List.cons_append, all_take c _ _ lexeme solid taken, spelled rest apart, Option.map_map]
  rfl

theorem spelled_blanks (blanks chars : List Char) (lexemes : List Lexeme) (blank : ∀ c ∈ blanks, isBlank c = true)
    (spelled : Spelled chars lexemes) : Spelled (blanks ++ chars) lexemes := by
  induction blanks with
  | nil => exact spelled
  | cons c blanks ih =>
      obtain ⟨first, others⟩ := List.forall_mem_cons.mp blank
      intro rest apart
      rw [List.cons_append, List.cons_append, all, if_pos first]
      exact ih others rest apart

theorem spelled_quoted (text : Option String) : Spelled (quoted text) [.scalar (.string text)] := by
  obtain ⟨inside, opened⟩ : ∃ inside, quoted text = '\x22' :: inside := by
    cases text <;> exact ⟨_, rfl⟩
  rw [opened]
  refine spelled_take _ _ _ rfl fun rest _ => ?_
  obtain ⟨same, shown, taken⟩ := take_quoted text rest
  obtain rfl : inside = same := List.tail_eq_of_cons_eq (opened.symm.trans shown)
  exact taken

theorem spelled_atom (spelling : List Char) (atom : Scalar) (spelled : atom? spelling = some atom)
    (atomic : ∀ c ∈ spelling, isAtomic c = true) (nonempty : spelling ≠ []) : Spelled spelling [.scalar atom] := by
  obtain ⟨first, others, rfl⟩ := List.exists_cons_of_ne_nil nonempty
  have solid : isBlank first = false := by
    have opens := atomic first (List.mem_cons_self ..)
    simp only [isAtomic, Bool.and_eq_true, Bool.not_eq_true'] at opens
    exact opens.1.1
  exact spelled_take first others _ solid fun rest apart => take_atom first others rest atom atomic spelled apart

section

variable {α : Type} (items : List α) (text : α → List Char) (parts : α → List Lexeme)
variable (spelled : ∀ item ∈ items, Spelled (text item) (parts item))

include spelled

theorem spelled_separated : Spelled ([','].intercalate (items.map text)) ([.comma].intercalate (items.map parts)) := by
  induction items with
  | nil => exact spelled_nil
  | cons item items ih =>
      obtain ⟨first, others⟩ := List.forall_mem_cons.mp spelled
      cases items with
      | nil => simpa using first
      | cons next rest =>
          simp only [List.map_cons, List.intercalate_cons_cons, List.append_assoc]
          exact spelled_append _ _ _ _ first (spelled_mark ',' _ .comma _ rfl (ih others)) (apart_mark ',' _ _ rfl)

theorem spelled_closed (opening closing : Char) (blanks : List Char) (first last : Lexeme)
    (opens : punctuation? opening = some first) (closes : punctuation? closing = some last)
    (blank : ∀ c ∈ blanks, isBlank c = true) :
    Spelled (opening :: [','].intercalate (items.map text) ++ (blanks ++ [closing]))
      (first :: [.comma].intercalate (items.map parts) ++ [last]) := by
  have ends : Spelled (blanks ++ [closing]) [last] :=
    spelled_blanks blanks _ _ blank (spelled_mark closing _ last _ closes spelled_nil)
  exact spelled_mark opening _ first _ opens (spelled_append _ _ _ _ (spelled_separated items text parts spelled) ends
    (apart_blanks blanks _ blank (apart_mark closing _ last closes)))

end

end Lexeme

namespace Scalar

def Valid : Scalar → Prop
  | .number spelling => Lexeme.isNumber spelling = true
  | _ => True

theorem written_spelled (atom : Scalar) (valid : atom.Valid) : Lexeme.Spelled atom.written [.scalar atom] := by
  cases atom with
  | null => exact Lexeme.spelled_atom _ _ (by decide) (List.all_eq_true.mp (by decide)) (by decide)
  | bool value =>
      cases value <;> exact Lexeme.spelled_atom _ _ (by decide) (List.all_eq_true.mp (by decide)) (by decide)
  | number spelling =>
      refine Lexeme.spelled_atom spelling _ (Lexeme.atom_number spelling valid) (Lexeme.number_atomic spelling valid) ?_
      rintro rfl
      cases valid
  | string text => exact Lexeme.spelled_quoted text

end Scalar

namespace Value

def lexemes : Value → List Lexeme
  | .scalar atom => [.scalar atom]
  | .array items => .openArray :: [Lexeme.comma].intercalate (items.map fun item => item.lexemes) ++ [.closeArray]
  | .object members =>
      .openObject :: [Lexeme.comma].intercalate (members.map fun member =>
        .scalar (.string member.1) :: .colon :: member.2.lexemes) ++ [.closeObject]
decreasing_by
  · decreasing_tactic
  · have within := List.sizeOf_lt_of_mem ‹_›
    cases member
    simp only [Prod.mk.sizeOf_spec] at within
    simp only [Value.object.sizeOf_spec]
    omega

inductive Valid : Value → Prop
  | scalar (atom : Scalar) (valid : atom.Valid) : Valid (.scalar atom)
  | array (items : List Value) (valid : ∀ item ∈ items, Valid item) : Valid (.array items)
  | object (members : List (Option String × Value)) (valid : ∀ member ∈ members, Valid member.2) :
      Valid (.object members)

theorem separated_eq {α : Type} (text : α → List Char) (whole : List α → List Char) (none : whole [] = [])
    (one : ∀ item, whole [item] = text item)
    (more : ∀ item next rest, whole (item :: next :: rest) = text item ++ ',' :: whole (next :: rest))
    (items : List α) : whole items = [','].intercalate (items.map text) := by
  induction items with
  | nil => exact none
  | cons item items ih =>
      cases items with
      | nil => simpa using one item
      | cons next rest =>
          rw [more, ih]
          simp [List.intercalate_cons_cons]

theorem compact_items (items : List Value) : compactItems items = [','].intercalate (items.map compact) :=
  separated_eq compact compactItems (by rw [compactItems]) (fun item => by rw [compactItems])
    (fun item next rest => by rw [compactItems]) items

theorem compact_members (members : List (Option String × Value)) :
    compactMembers members = [','].intercalate (members.map fun member => quoted member.1 ++ ':' :: compact member.2) :=
  separated_eq _ compactMembers (by rw [compactMembers]) (fun member => by rw [compactMembers])
    (fun member next rest => by rw [compactMembers]) members

theorem indented_items (depth : Nat) (items : List Value) :
    indentedItems depth items = [','].intercalate (items.map fun item => newline depth ++ indented depth item) :=
  separated_eq _ (indentedItems depth) (by rw [indentedItems]) (fun item => by rw [indentedItems])
    (fun item next rest => by rw [indentedItems]) items

theorem indented_members (depth : Nat) (members : List (Option String × Value)) :
    indentedMembers depth members = [','].intercalate (members.map fun member =>
      newline depth ++ (quoted member.1 ++ ':' :: ' ' :: indented depth member.2)) :=
  separated_eq _ (indentedMembers depth) (by rw [indentedMembers])
    (fun member => by rw [indentedMembers]; simp) (fun member next rest => by rw [indentedMembers]; simp) members

theorem newline_blank (depth : Nat) : ∀ c ∈ newline depth, Lexeme.isBlank c = true := by
  intro c member
  rcases List.mem_cons.mp member with rfl | member
  · rfl
  · rw [List.eq_of_mem_replicate member]
    rfl

theorem member_spelled (member : Option String × Value) (blanks chars : List Char)
    (blank : ∀ c ∈ blanks, Lexeme.isBlank c = true) (spelled : Lexeme.Spelled chars member.2.lexemes) :
    Lexeme.Spelled (quoted member.1 ++ ':' :: (blanks ++ chars))
      (.scalar (.string member.1) :: .colon :: member.2.lexemes) :=
  Lexeme.spelled_append _ _ _ _ (Lexeme.spelled_quoted member.1)
    (Lexeme.spelled_mark ':' _ .colon _ rfl (Lexeme.spelled_blanks blanks chars _ blank spelled))
    (Lexeme.apart_mark ':' _ _ rfl)

theorem compact_spelled (value : Value) (valid : value.Valid) : Lexeme.Spelled value.compact value.lexemes := by
  induction valid with
  | scalar atom valid =>
      rw [compact, lexemes]
      exact atom.written_spelled valid
  | array items _ ih =>
      rw [compact, lexemes, compact_items]
      exact Lexeme.spelled_closed items _ _ ih '[' ']' [] _ _ rfl rfl (by simp)
  | object members _ ih =>
      rw [compact, lexemes, compact_members]
      refine Lexeme.spelled_closed members _ _ (fun member inside => ?_) '\x7b' '\x7d' [] _ _ rfl rfl (by simp)
      exact member_spelled member [] _ (by simp) (ih member inside)

theorem indented_spelled (value : Value) (valid : value.Valid) (depth : Nat) :
    Lexeme.Spelled (value.indented depth) value.lexemes := by
  induction valid generalizing depth with
  | scalar atom valid =>
      rw [indented, lexemes]
      exact atom.written_spelled valid
  | array items _ ih =>
      cases items with
      | nil =>
          rw [indented, lexemes]
          exact Lexeme.spelled_closed [] compact lexemes (by simp) '[' ']' [] _ _ rfl rfl (by simp)
      | cons item items =>
          rw [indented, lexemes, indented_items, List.append_assoc]
          · refine Lexeme.spelled_closed (item :: items) _ _ (fun inner inside => ?_) '[' ']' (newline depth) _ _
              rfl rfl (newline_blank depth)
            exact Lexeme.spelled_blanks _ _ _ (newline_blank _) (ih inner inside (depth + 1))
          · exact fun empty => List.cons_ne_nil _ _ empty
  | object members _ ih =>
      cases members with
      | nil =>
          rw [indented, lexemes]
          exact Lexeme.spelled_closed [] compact lexemes (by simp) '\x7b' '\x7d' [] _ _ rfl rfl (by simp)
      | cons member members =>
          rw [indented, lexemes, indented_members, List.append_assoc]
          · refine Lexeme.spelled_closed (member :: members) _ _ (fun inner inside => ?_) '\x7b' '\x7d' (newline depth)
              _ _ rfl rfl (newline_blank depth)
            exact Lexeme.spelled_blanks _ _ _ (newline_blank _)
              (member_spelled inner [' '] _ (by simp [Lexeme.isBlank]) (ih inner inside (depth + 1)))
          · exact fun empty => List.cons_ne_nil _ _ empty

end Value

namespace Stage

section

variable (frames : List Frame) (rest : List Lexeme)

-- Where an item or the end of the array may come, the lexemes of a value are those of an item.
theorem run_first_item (value : Value) :
    run .firstItem frames (value.lexemes ++ rest) = run .value (.array [] :: frames) (value.lexemes ++ rest) := by
  cases value <;> simp [Value.lexemes, run, step]

theorem run_items (earlier : List Value) (item : Value) (items : List Value)
    (reads : ∀ inner ∈ item :: items, ∀ frames rest,
      run .value frames (inner.lexemes ++ rest) = run (.after inner) frames rest) :
    run .value (.array earlier :: frames)
        ([.comma].intercalate ((item :: items).map Value.lexemes) ++ .closeArray :: rest) =
      run (.after (.array (earlier.reverse ++ item :: items))) frames rest := by
  induction items generalizing earlier item with
  | nil =>
      rw [List.map_singleton, List.intercalate_singleton, reads item (List.mem_cons_self ..)]
      simp [run, step]
  | cons next items ih =>
      obtain ⟨first, others⟩ := List.forall_mem_cons.mp reads
      have later := ih (item :: earlier) next others
      rw [List.reverse_cons, List.append_assoc] at later
      simp only [List.map_cons, List.intercalate_cons_cons, List.append_assoc] at later ⊢
      rw [first]
      exact later

theorem run_key (earlier : List (Option String × Value)) (key : Option String) (lexemes : List Lexeme) :
    run (.key earlier) frames (.scalar (.string key) :: .colon :: lexemes) =
      run .value (.object earlier key :: frames) lexemes := rfl

theorem run_members (earlier : List (Option String × Value)) (member : Option String × Value)
    (members : List (Option String × Value))
    (reads : ∀ inner ∈ member :: members, ∀ frames rest,
      run .value frames (inner.2.lexemes ++ rest) = run (.after inner.2) frames rest) :
    run (.key earlier) frames ([.comma].intercalate ((member :: members).map fun member =>
        .scalar (.string member.1) :: .colon :: member.2.lexemes) ++ .closeObject :: rest) =
      run (.after (.object (earlier.reverse ++ member :: members))) frames rest := by
  induction members generalizing earlier member with
  | nil =>
      rw [List.map_singleton, List.intercalate_singleton, List.cons_append, List.cons_append, run_key,
        reads member (List.mem_cons_self ..)]
      simp [run, step]
  | cons next members ih =>
      obtain ⟨first, others⟩ := List.forall_mem_cons.mp reads
      have later := ih (member :: earlier) next others
      rw [List.reverse_cons, List.append_assoc] at later
      simp only [List.map_cons, List.intercalate_cons_cons, List.append_assoc] at later ⊢
      rw [List.cons_append, List.cons_append, run_key, first]
      exact later

end

theorem separated_head (first : List Lexeme) (others : List (List Lexeme)) :
    ∃ later, [.comma].intercalate (first :: others) = first ++ later := by
  cases others with
  | nil => exact ⟨[], by simp⟩
  | cons next others => exact ⟨_, List.intercalate_cons_cons.trans (List.append_assoc ..)⟩

theorem run_value (value : Value) (frames : List Frame) (rest : List Lexeme) :
    run .value frames (value.lexemes ++ rest) = run (.after value) frames rest := by
  induction value using Value.lexemes.induct generalizing frames rest with
  | case1 atom =>
      rw [Value.lexemes]
      rfl
  | case2 items ih =>
      rw [Value.lexemes, List.append_assoc]
      cases items with
      | nil => rfl
      | cons item items =>
          have whole := run_items frames rest [] item items ih
          obtain ⟨later, opened⟩ := separated_head item.lexemes (items.map Value.lexemes)
          rw [List.map_cons, opened, List.append_assoc, ← run_first_item] at whole
          rw [List.map_cons, opened, List.cons_append, List.append_assoc]
          exact whole
  | case3 members ih =>
      rw [Value.lexemes, List.append_assoc]
      cases members with
      | nil => rfl
      | cons member members =>
          have whole := run_members frames rest [] member members ih
          obtain ⟨later, opened⟩ := separated_head (.scalar (.string member.1) :: .colon :: member.2.lexemes)
            (members.map fun member => .scalar (.string member.1) :: .colon :: member.2.lexemes)
          rw [List.map_cons, opened, List.append_assoc] at whole
          rw [List.map_cons, opened, List.cons_append, List.append_assoc]
          exact whole

end Stage

namespace Value

theorem of_lexemes_lexemes (value : Value) : ofLexemes? value.lexemes = some value := by
  have whole := Stage.run_value value [] []
  rw [List.append_nil] at whole
  rw [ofLexemes?, whole]
  rfl

theorem of_text_spelled (chars : List Char) (value : Value) (spelled : Lexeme.Spelled chars value.lexemes) :
    ofText? chars = some value := by
  have read := spelled [] (by intro c head; cases head)
  rw [List.append_nil] at read
  rw [ofText?, read, Lexeme.all, Option.map_some, List.append_nil]
  exact value.of_lexemes_lexemes

theorem of_text_compact (value : Value) (valid : value.Valid) : ofText? value.compact = some value :=
  of_text_spelled _ value (value.compact_spelled valid)

theorem of_text_indented (value : Value) (valid : value.Valid) (depth : Nat) :
    ofText? (value.indented depth) = some value :=
  of_text_spelled _ value (value.indented_spelled valid depth)

end Value

end TealForms.Json
