import TealForms.Proofs.Source.Positions

set_option autoImplicit false

namespace TealForms

namespace Position

theorem after_all_line (here : Position) (chars : List Char) :
    (here.afterAll chars).line = here.line + chars.count '\n' := by
  induction chars generalizing here with
  | nil => rfl
  | cons c rest ih =>
      show ((here.after c).afterAll rest).line = _
      rw [ih]
      by_cases feeds : c = '\n'
      · simp [after, newline, feeds]
        omega
      · simp [after, advance, feeds]

theorem after_all_level (here : Position) (chars : List Char) (level : (here.afterAll chars).line = here.line) :
    '\n' ∉ chars ∧ (here.afterAll chars).column = here.column + chars.length := by
  have none : chars.count '\n' = 0 := by
    rw [after_all_line] at level
    omega
  have unbroken := List.count_eq_zero.mp none
  exact ⟨unbroken, by rw [here.after_all_unbroken chars unbroken]⟩

end Position

def Text.firstLine : List Char → List Char
  | [] => []
  | c :: rest => if c = '\n' then [c] else c :: firstLine rest

theorem Text.first_line_whole (front : List Char) (last : Char) (unbroken : '\n' ∉ front) :
    firstLine (front ++ [last]) = front ++ [last] := by
  induction front with
  | nil => by_cases feeds : last = '\n' <;> simp [firstLine, feeds]
  | cons c rest ih =>
      obtain ⟨other, unbroken⟩ := List.ne_and_not_mem_of_not_mem_cons unbroken
      rw [List.cons_append, firstLine, if_neg (Ne.symm other), ih unbroken]

namespace Source

open Scanner (chars)

def onLine (line : Nat) : Element → Bool
  | .ok located => located.location.start.line = line
  | .error _ => false

section

variable (origin : String) (here : Position) (items : List (Except ReadFailure Char))

theorem place_drop (count : Nat) :
    (place origin here items).drop count =
      place origin (here.afterAll (chars ((place origin here items).take count))) (items.drop count) := by
  induction items generalizing here count with
  | nil => simp [place]
  | cons item items ih =>
      cases count with
      | zero => rfl
      | succ count =>
          cases item with
          | error failure => exact ih here count
          | ok c => exact ih (here.after c) count

theorem place_below (located : Located Char) (member : .ok located ∈ place origin here items) :
    here.line ≤ located.location.start.line := by
  obtain ⟨count, found⟩ := List.getElem?_of_mem member
  rw [(place_get origin here items count located found).2]
  show here.line ≤ (here.afterAll _).line
  rw [here.after_all_line]
  omega

theorem place_count :
    (place origin here items).countP (onLine here.line) =
      (Text.firstLine (chars (place origin here items))).length := by
  induction items generalizing here with
  | nil => rfl
  | cons item items ih =>
      cases item with
      | error failure => exact ih here
      | ok c =>
          let rest := place origin (here.after c) items
          show (.ok ⟨c, .single origin here⟩ :: rest).countP (onLine here.line) =
            (Text.firstLine (c :: chars rest)).length
          have first : onLine here.line (.ok ⟨c, .single origin here⟩) = true := decide_eq_true rfl
          rw [List.countP_cons_of_pos first, Text.firstLine]
          by_cases feeds : c = '\n'
          · have later : rest.countP (onLine here.line) = 0 := by
              rw [List.countP_eq_zero]
              intro element member
              cases element with
              | error failure => simp [onLine]
              | ok located =>
                  have below := place_below origin (here.after c) items located member
                  rw [Position.after, if_pos feeds] at below
                  simp only [onLine, decide_eq_true_eq]
                  exact Nat.ne_of_gt below
            rw [later, if_pos feeds]
            rfl
          · have counted := ih (here.after c)
            have level : (here.after c).line = here.line := by
              rw [Position.after, if_neg feeds]
              rfl
            rw [level] at counted
            rw [counted, if_neg feeds]
            rfl

theorem place_break (breaks : '\n' ∈ chars (place origin here items)) :
    ∃ (count : Nat) (located : Located Char), (place origin here items)[count]? = some (.ok located) ∧
      located.value = '\n' ∧ located.location.start.line = here.line ∧
      located.location.start.column + 1 =
        here.column + (Text.firstLine (chars (place origin here items))).length := by
  induction items generalizing here with
  | nil => cases breaks
  | cons item items ih =>
      cases item with
      | error failure =>
          obtain ⟨count, located, found, facts⟩ := ih here breaks
          exact ⟨count + 1, located, found, facts⟩
      | ok c =>
          let rest := place origin (here.after c) items
          change '\n' ∈ c :: chars rest at breaks
          show ∃ (count : Nat) (located : Located Char),
            (.ok ⟨c, .single origin here⟩ :: rest)[count]? = some (.ok located) ∧ located.value = '\n' ∧
            located.location.start.line = here.line ∧
            located.location.start.column + 1 = here.column + (Text.firstLine (c :: chars rest)).length
          rw [Text.firstLine]
          by_cases feeds : c = '\n'
          · exact ⟨0, ⟨c, .single origin here⟩, rfl, feeds, rfl, by rw [if_pos feeds]; rfl⟩
          · obtain ⟨count, located, found, value, line, column⟩ :=
              ih (here.after c) ((List.mem_cons.mp breaks).resolve_left (Ne.symm feeds))
            have next : (here.after c).line = here.line ∧ (here.after c).column = here.column + 1 := by
              rw [Position.after, if_neg feeds]
              exact ⟨rfl, rfl⟩
            refine ⟨count + 1, located, found, value, line.trans next.1, ?_⟩
            rw [column, next.2, if_neg feeds, List.length_cons]
            exact Nat.add_right_comm ..

end

theorem chars_append (front back : List Element) : chars (front ++ back) = chars front ++ chars back :=
  List.filterMap_append

def between (source : Source) (i j : Nat) : List Char := chars ((source.elements.take j).drop i)

-- How many characters of a line there are from one element to another, both counted.
def spanned (source : Source) (i j line : Nat) : Nat := ((source.elements.take (j + 1)).drop i).countP (onLine line)

section

variable (source : Source) (i j : Nat) (first last : Located Char)
variable (opening : source.elements[i]? = some (.ok first)) (closing : source.elements[j]? = some (.ok last))

include opening

theorem element_place : first.location = .single source.name first.location.start ∧
    first.location.start = ({} : Position).afterAll (chars (source.elements.take i)) ∧
    1 ≤ first.location.start.line ∧ 1 ≤ first.location.start.column := by
  have location := (place_get source.name {} _ i first opening).2
  have start : first.location.start = ({} : Position).afterAll (chars (source.elements.take i)) := by
    rw [location]
    rfl
  refine ⟨?_, start, ?_⟩
  · rw [location]
    rfl
  · rw [start, Position.after_all_behind]
    exact ⟨Nat.le_add_right .., Nat.le_add_right ..⟩

theorem element_stop : first.location.stop = first.location.start.advance := by
  rw [(source.element_place i first opening).1]
  rfl

theorem element_kept (count : Nat) (taken : i < count) : Kept (source.recorded count) 1 first :=
  (record_kept source.name {} source.lines i count first rfl source.lines_unbroken source.lines_terminated opening
    taken).2

theorem element_shown (count : Nat) (taken : i < count) (text : List Char)
    (kept : (source.recorded count)[first.location.start.line - 1]? = some text) :
    if first.value = '\n' then first.location.start.column = text.length + 1
    else text[first.location.start.column - 1]? = some first.value := by
  obtain ⟨found, here, shows⟩ := source.element_kept i first opening count taken
  obtain rfl : found = text := Option.some.inj (here.symm.trans kept)
  exact shows

theorem column_within (count : Nat) (taken : i < count) (text : List Char)
    (kept : (source.recorded count)[first.location.start.line - 1]? = some text) :
    first.location.start.column ≤ text.length + 1 := by
  have shows := source.element_shown i first opening count taken text kept
  split at shows
  · exact Nat.le_of_eq shows
  · obtain ⟨inside, _⟩ := List.getElem?_eq_some_iff.mp shows
    omega

include closing

theorem later_start (order : i ≤ j) :
    last.location.start = first.location.start.afterAll (source.between i j) := by
  have split := List.take_append_drop i (source.elements.take j)
  rw [List.take_take, Nat.min_eq_left order] at split
  rw [(source.element_place j last closing).2.1, (source.element_place i first opening).2.1,
    ← Position.after_all_append, between, ← chars_append, split]

theorem between_head (order : i < j) : ∃ others, source.between i j = first.value :: others := by
  obtain ⟨inside, here⟩ := List.getElem?_eq_some_iff.mp opening
  have within : i < (source.elements.take j).length := by
    obtain ⟨inside, _⟩ := List.getElem?_eq_some_iff.mp closing
    rw [List.length_take]
    omega
  rw [between, List.drop_eq_getElem_cons within, List.getElem_take, here]
  exact ⟨_, rfl⟩

theorem line_le (order : i ≤ j) : first.location.start.line ≤ last.location.start.line := by
  rw [source.later_start i j first last opening closing order, Position.after_all_line]
  exact Nat.le_add_right ..

theorem column_lt (order : i < j) (level : last.location.start.line = first.location.start.line) :
    first.location.start.column < last.location.start.column := by
  obtain ⟨others, filled⟩ := source.between_head i j first last opening closing order
  have later := source.later_start i j first last opening closing (Nat.le_of_lt order)
  rw [later] at level ⊢
  rw [(Position.after_all_level _ _ level).2, filled, List.length_cons]
  omega

theorem span_placed (order : i ≤ j) : ∃ items,
    (source.elements.take (j + 1)).drop i = place source.name first.location.start items ∧
    chars ((source.elements.take (j + 1)).drop i) = source.between i j ++ [last.value] := by
  have inside : j < source.elements.length := (List.getElem?_eq_some_iff.mp closing).1
  refine ⟨((source.lines.flatMap lineElements).take (j + 1)).drop i, ?_, ?_⟩
  · rw [(source.element_place i first opening).2.1, elements, place_take, place_drop, ← place_take, List.take_take,
      Nat.min_eq_left (Nat.le_succ_of_le order), ← elements]
  · rw [List.take_add_one, closing, List.drop_append_of_le_length, chars_append]
    · rfl
    · rw [List.length_take]
      omega

theorem spanned_length (order : i ≤ j) :
    source.spanned i j first.location.start.line = (Text.firstLine (source.between i j ++ [last.value])).length := by
  obtain ⟨items, placed, read⟩ := source.span_placed i j first last opening closing order
  rw [spanned, placed, place_count, ← placed, read]

theorem column_le_iff (level : last.location.start.line = first.location.start.line) :
    first.location.start.column ≤ last.location.start.column ↔ i ≤ j := by
  rcases Nat.lt_trichotomy i j with before | rfl | behind
  · have less := source.column_lt i j first last opening closing before level
    exact ⟨fun _ => Nat.le_of_lt before, fun _ => Nat.le_of_lt less⟩
  · obtain rfl : first = last := Except.ok.inj (Option.some.inj (opening.symm.trans closing))
    exact ⟨fun _ => Nat.le_refl _, fun _ => Nat.le_refl _⟩
  · have less := source.column_lt j i last first closing opening behind level.symm
    omega

-- A span with a line break reaches the end of its first line.
theorem span_break (order : i ≤ j) (breaks : '\n' ∈ source.between i j) :
    ∃ (place : Nat) (feed : Located Char), place ≤ j ∧ source.elements[place]? = some (.ok feed) ∧
      feed.value = '\n' ∧ feed.location.start.line = first.location.start.line ∧
      feed.location.start.column + 1 =
        first.location.start.column + (Text.firstLine (source.between i j ++ [last.value])).length := by
  obtain ⟨items, placed, read⟩ := source.span_placed i j first last opening closing order
  have within : '\n' ∈ chars (place source.name first.location.start items) := by
    rw [← placed, read]
    exact List.mem_append_left _ breaks
  obtain ⟨distance, feed, found, value, line, column⟩ :=
    place_break source.name first.location.start items within
  rw [← placed, List.getElem?_drop] at found
  have inside : i + distance < j + 1 := by
    obtain ⟨bound, _⟩ := List.getElem?_eq_some_iff.mp found
    rw [List.length_take] at bound
    omega
  rw [List.getElem?_take_of_lt inside] at found
  refine ⟨i + distance, feed, Nat.lt_succ_iff.mp inside, found, value, line, ?_⟩
  rw [column, ← placed, read]

end

end Source

end TealForms
