import TealForms.Proofs.Source.Spans
import TealForms.Report

set_option autoImplicit false

namespace TealForms

namespace Source

section

variable (source : Source) (i j : Nat) (first last : Located Char)
variable (opening : source.elements[i]? = some (.ok first)) (closing : source.elements[j]? = some (.ok last))

include opening closing

theorem last_column (order : i ≤ j) (text : List Char) :
    Report.lastColumn (.span first.location last.location) text =
      if last.location.start.line = first.location.start.line then last.location.start.column
      else text.length + 1 := by
  have stop : (Location.span first.location last.location).stop = last.location.start.advance :=
    source.element_stop j last closing
  rw [Report.lastColumn, stop]
  by_cases level : last.location.start.line = first.location.start.line
  · have reached := (source.column_le_iff i j first last opening closing level).mpr order
    exact (if_pos level).trans ((Nat.max_eq_left reached).trans (if_pos level).symm)
  · exact (if_neg level).trans (if_neg level).symm

theorem carets_spanned (order : i ≤ j) (count : Nat) (taken : j < count) (text : List Char)
    (kept : (source.recorded count)[first.location.start.line - 1]? = some text) :
    Report.lastColumn (.span first.location last.location) text - first.location.start.column + 1 =
      source.spanned i j first.location.start.line := by
  have later := source.later_start i j first last opening closing order
  have within := source.column_within i first opening count (Nat.lt_of_le_of_lt order taken) text kept
  rw [source.last_column i j first last opening closing order,
    source.spanned_length i j first last opening closing order]
  by_cases breaks : '\n' ∈ source.between i j
  · obtain ⟨place, feed, inside, found, value, line, column⟩ :=
      source.span_break i j first last opening closing order breaks
    have below : last.location.start.line ≠ first.location.start.line := by
      have some : 0 < (source.between i j).count '\n' := List.count_pos_iff.mpr breaks
      rw [later, Position.after_all_line]
      omega
    have shows := source.element_shown place feed found count (by omega) text (line ▸ kept)
    rw [if_pos value] at shows
    rw [if_neg below]
    omega
  · rw [later, first.location.start.after_all_unbroken _ breaks, if_pos rfl, Text.first_line_whole _ _ breaks,
      List.length_append, List.length_singleton, Nat.add_sub_cancel_left]

theorem underlined_iff (order : i ≤ j) (k count : Nat) (other : Located Char) (taken : k < count)
    (reading : source.elements[k]? = some (.ok other))
    (level : other.location.start.line = first.location.start.line) (text : List Char)
    (kept : (source.recorded count)[first.location.start.line - 1]? = some text) :
    first.location.start.column ≤ other.location.start.column ∧
      other.location.start.column ≤ Report.lastColumn (.span first.location last.location) text ↔ i ≤ k ∧ k ≤ j := by
  refine and_congr (source.column_le_iff i k first other opening reading level) ?_
  rw [source.last_column i j first last opening closing order]
  by_cases same : last.location.start.line = first.location.start.line
  · rw [if_pos same]
    exact source.column_le_iff k j other last reading closing (same.trans level.symm)
  · rw [if_neg same]
    have within := source.column_within k other reading count taken text (level ▸ kept)
    refine ⟨fun _ => Nat.le_of_not_lt fun behind => ?_, fun _ => within⟩
    have above := source.line_le i j first last opening closing order
    have below := source.line_le j k last other closing reading (Nat.le_of_lt behind)
    omega

theorem pointer_text (order : i ≤ j) :
    (Location.span first.location last.location).text = source.name ++ ":" ++
      if i = j then first.location.start.text
      else "[" ++ first.location.start.text ++ "-" ++ last.location.start.text ++ "]" := by
  obtain ⟨opened, -, -, -⟩ := source.element_place i first opening
  obtain ⟨-, -, -, positive⟩ := source.element_place j last closing
  have origin : (Location.span first.location last.location).origin = source.name := by
    rw [opened]
    rfl
  have stop : (Location.span first.location last.location).stop = last.location.start.advance :=
    source.element_stop j last closing
  have one : (last.location.start.advance.line = first.location.start.line ∧
      last.location.start.advance.column ≤ first.location.start.column + 1) ↔ i = j := by
    constructor
    · intro ⟨level, reached⟩
      have back := (source.column_le_iff j i last first closing opening level.symm).mp (Nat.le_of_succ_le_succ reached)
      exact Nat.le_antisymm order back
    · rintro rfl
      obtain rfl : first = last := Except.ok.inj (Option.some.inj (opening.symm.trans closing))
      exact ⟨rfl, Nat.le_refl _⟩
  rw [Location.text, origin, stop, Position.back_advance _ positive]
  exact congrArg (source.name ++ ":" ++ ·) (if_congr one rfl rfl)

end

end Source

namespace Report

def margin (line : Nat) : List Char := List.replicate (toString line).toList.length ' '

def shown (line : Nat) (text : List Char) : List Char := (toString line).toList ++ " | ".toList ++ text

def drawn (line skipped carets : Nat) : List Char :=
  margin line ++ " | ".toList ++ (List.replicate skipped ' ' ++ List.replicate carets '^')

theorem shown_column (line : Nat) (text : List Char) (column : Nat) (positive : 1 ≤ column) :
    (shown line text)[(margin line).length + 2 + column]? = text[column - 1]? := by
  have before : ((toString line).toList ++ " | ".toList).length = (margin line).length + 3 := by
    rw [List.length_append, margin, List.length_replicate]
    rfl
  rw [shown, List.getElem?_append_right (by omega), before,
    show (margin line).length + 2 + column - ((margin line).length + 3) = column - 1 by omega]

theorem drawn_column (line skipped carets column : Nat) (positive : 1 ≤ column) :
    (drawn line skipped carets)[(margin line).length + 2 + column]? = some '^' ↔
      skipped + 1 ≤ column ∧ column < skipped + 1 + carets := by
  have before : (margin line ++ " | ".toList).length = (margin line).length + 3 := by
    rw [List.length_append]
    rfl
  rw [drawn, List.getElem?_append_right (by omega), before,
    show (margin line).length + 2 + column - ((margin line).length + 3) = column - 1 by omega]
  rcases Nat.lt_or_ge (column - 1) skipped with left | right
  · rw [List.getElem?_append_left (by rwa [List.length_replicate]), List.getElem?_replicate, if_pos left]
    refine ⟨fun caret => absurd caret (by decide), fun inside => ?_⟩
    omega
  · rw [List.getElem?_append_right (by rwa [List.length_replicate]), List.length_replicate, List.getElem?_replicate]
    constructor
    · intro caret
      split at caret
      · omega
      · cases caret
    · intro inside
      rw [if_pos (by omega)]

theorem lines_recorded (word : String) (fault : Located Fault) (recorded : List (List Char)) (text : List Char)
    (kept : recorded[fault.location.start.line - 1]? = some text) :
    lines word fault recorded =
      [s!"{word}: {fault.value.message}".toList, s!" --> {fault.location.text}".toList,
        margin fault.location.start.line ++ " |".toList, shown fault.location.start.line text,
        drawn fault.location.start.line (fault.location.start.column - 1)
          (lastColumn fault.location text - fault.location.start.column + 1)] := by
  rw [lines, kept]
  rfl

-- The first underlined column is at or before the last one wherever the text ends.
theorem column_le_last (location : Location) (text : List Char) (within : location.start.column ≤ text.length + 1) :
    location.start.column ≤ lastColumn location text := by
  unfold lastColumn
  split
  · exact Nat.le_max_right ..
  · exact within

end Report

namespace Source

-- A location that a fault can start at: a character that has been read, or the start of a text that has some.
def Startable (source : Source) (count : Nat) (location : Location) : Prop :=
  ∃ place located, place < count ∧ source.elements[place]? = some (.ok located) ∧
    (location = located.location ∨ location = source.start)

theorem startable_recorded (source : Source) (count : Nat) (location : Location)
    (startable : source.Startable count location) :
    ∃ text, (source.recorded count)[location.start.line - 1]? = some text ∧
      1 ≤ location.start.column ∧ location.start.column ≤ text.length + 1 := by
  obtain ⟨place, located, taken, found, rfl | rfl⟩ := startable
  · obtain ⟨text, kept, -⟩ := source.element_kept place located found count taken
    exact ⟨text, kept, (source.element_place place located found).2.2.2,
      source.column_within place located found count taken text kept⟩
  · obtain ⟨text, kept, -⟩ := source.element_kept place located found count taken
    obtain ⟨inside, _⟩ := List.getElem?_eq_some_iff.mp kept
    have some : 0 < (source.recorded count).length := Nat.zero_lt_of_lt inside
    exact ⟨(source.recorded count)[0], List.getElem?_eq_getElem some, Nat.le_refl _, Nat.le_add_left ..⟩

/-- The report of a fault over a span points at the span's first and last characters and shows the line of the first
one. The row below has carets under those characters of that line that belong to the span and under no others. Wherever
else the location ends, before its start included, its start is no later than the last underlined column. -/
theorem report_underlines (source : Source) (word : String) (fault : Fault) (count : Nat) :
    (∀ i j first last, source.elements[i]? = some (.ok first) → source.elements[j]? = some (.ok last) → i ≤ j →
      j < count → ∃ text, (source.recorded count)[first.location.start.line - 1]? = some text ∧
        let line := first.location.start.line
        let pointer := if i = j then first.location.start.text
          else "[" ++ first.location.start.text ++ "-" ++ last.location.start.text ++ "]"
        let drawn := Report.drawn line (first.location.start.column - 1) (source.spanned i j line)
        Report.lines word ⟨fault, .span first.location last.location⟩ (source.recorded count) =
          [s!"{word}: {fault.message}".toList, (" --> " ++ (source.name ++ ":" ++ pointer)).toList,
            Report.margin line ++ " |".toList, Report.shown line text, drawn] ∧
        ∀ k other, k < count → source.elements[k]? = some (.ok other) → other.location.start.line = line →
          let place := (toString line).length + 2 + other.location.start.column
          (Report.shown line text)[place]? = (if other.value = '\n' then none else some other.value) ∧
            (drawn[place]? = some '^' ↔ i ≤ k ∧ k ≤ j)) ∧
    ∀ first last, source.Startable count first →
      ∃ text, (source.recorded count)[first.start.line - 1]? = some text ∧
        1 ≤ first.start.column ∧ first.start.column ≤ Report.lastColumn (.span first last) text ∧
        (Report.lines word ⟨fault, .span first last⟩ (source.recorded count)).getLast? =
          some (Report.drawn first.start.line (first.start.column - 1)
            (Report.lastColumn (.span first last) text - first.start.column + 1)) := by
  refine ⟨?_, ?_⟩
  · intro i j first last opening closing order taken
    obtain ⟨text, kept, -⟩ := source.element_kept i first opening count (Nat.lt_of_le_of_lt order taken)
    have carets := source.carets_spanned i j first last opening closing order count taken text kept
    refine ⟨text, kept, ?_, ?_⟩
    · rw [Report.lines_recorded word _ _ text kept, ← carets,
        ← source.pointer_text i j first last opening closing order]
      rfl
    · intro k other read reading level
      obtain ⟨-, -, -, positive⟩ := source.element_place k other reading
      have width : (toString first.location.start.line).length = (Report.margin first.location.start.line).length :=
        List.length_replicate.symm
      dsimp only
      rw [width]
      refine ⟨?_, ?_⟩
      · have shows := source.element_shown k other reading count read text (level ▸ kept)
        rw [Report.shown_column _ _ _ positive]
        by_cases feeds : other.value = '\n'
        · rw [if_pos feeds] at shows ⊢
          rw [shows, Nat.add_sub_cancel]
          exact List.getElem?_eq_none (Nat.le_refl _)
        · rw [if_neg feeds] at shows ⊢
          exact shows
      · rw [Report.drawn_column _ _ _ _ positive, ← carets,
          ← source.underlined_iff i j first last opening closing order k count other read reading level text kept]
        obtain ⟨-, -, -, opened⟩ := source.element_place i first opening
        have reached := Report.column_le_last (.span first.location last.location) text
          (source.column_within i first opening count (Nat.lt_of_le_of_lt order taken) text kept)
        change first.location.start.column ≤ _ at reached
        omega
  · intro first last startable
    obtain ⟨text, kept, positive, within⟩ := source.startable_recorded count first startable
    refine ⟨text, kept, positive, Report.column_le_last (.span first last) text within, ?_⟩
    rw [Report.lines_recorded word ⟨fault, .span first last⟩ _ text kept]
    rfl

theorem two_line_text_underlined :
    let source : Source := .ofString "x\n(pop\noops)" "in"
    let first : Location := .single "in" ⟨2, 1, 2⟩
    let last : Location := .single "in" ⟨3, 4, 10⟩
    Report.lines "error" ⟨.invalidOpcode "oops", .span first last⟩ (source.recorded 12) =
        ["error: Invalid opcode `oops`", " --> in:[2:1-3:4]", "  |", "2 | (pop", "  | ^^^^^"].map String.toList ∧
      (Report.lines "error" ⟨.invalidOpcode "oops", .span last first⟩ (source.recorded 12)).getLast? =
        some "  |    ^^^".toList := by
  intro source first last
  obtain ⟨ordered, anywhere⟩ := report_underlines source "error" (.invalidOpcode "oops") 12
  have opening : source.elements[2]? = some (.ok ⟨'(', first⟩) := by decide +kernel
  have closing : source.elements[10]? = some (.ok ⟨'s', last⟩) := by decide +kernel
  obtain ⟨text, kept, rows, -⟩ := ordered 2 10 _ _ opening closing (by decide) (by decide)
  obtain ⟨other, below, -, -, row⟩ := anywhere last first ⟨10, _, by decide, closing, .inl rfl⟩
  have second : (source.recorded 12)[1]? = some "(pop".toList := by decide +kernel
  have third : (source.recorded 12)[2]? = some "oops)".toList := by decide +kernel
  obtain rfl := Option.some.inj (kept.symm.trans second)
  obtain rfl := Option.some.inj (below.symm.trans third)
  refine ⟨rows.trans ?_, row.trans ?_⟩
  · decide +kernel
  · decide +kernel

end Source

end TealForms
