set_option autoImplicit false

namespace TealForms

-- Lines and columns count from one, characters from zero.
structure Position where
  line : Nat := 1
  column : Nat := 1
  offset : Nat := 0
deriving DecidableEq, Repr, Inhabited

namespace Position

def advance (here : Position) : Position := ⟨here.line, here.column + 1, here.offset + 1⟩

def back (here : Position) : Position := ⟨here.line, max (here.column - 1) 1, here.offset - 1⟩

def newline (here : Position) : Position := ⟨here.line + 1, 1, here.offset + 1⟩

def after (here : Position) (c : Char) : Position := if c = '\n' then here.newline else here.advance

def text (here : Position) : String := s!"{here.line}:{here.column}"

theorem back_advance (here : Position) (positive : 1 ≤ here.column) : here.advance.back = here := by
  cases here
  simp_all [advance, back]

theorem after_offset (here : Position) (c : Char) : (here.after c).offset = here.offset + 1 := by
  unfold after newline advance
  split <;> rfl

end Position

-- The end is exclusive.
structure Location where
  origin : String
  start : Position
  stop : Position
deriving DecidableEq, Repr, Inhabited

namespace Location

def single (origin : String) (here : Position) : Location := ⟨origin, here, here.advance⟩

def span (first last : Location) : Location := ⟨first.origin, first.start, last.stop⟩

def text (location : Location) : String :=
  location.origin ++ ":" ++
    if location.stop.line = location.start.line ∧ location.stop.column ≤ location.start.column + 1 then
      location.start.text
    else
      "[" ++ location.start.text ++ "-" ++ location.stop.back.text ++ "]"

theorem single_text (origin : String) (here : Position) : (single origin here).text = origin ++ ":" ++ here.text := by
  simp [single, text, Position.advance]

end Location

structure Located (α : Type) where
  value : α
  location : Location
deriving DecidableEq, Repr

def Located.map {α β : Type} (f : α → β) (located : Located α) : Located β := ⟨f located.value, located.location⟩

end TealForms
