set_option autoImplicit false

namespace TealForms.Text

-- There is always a first part, so it stands apart from the others.
def divide (separator : Char) : List Char → List Char × List (List Char)
  | [] => ([], [])
  | c :: rest =>
      let parts := divide separator rest
      if c = separator then ([], parts.1 :: parts.2) else (c :: parts.1, parts.2)

def rejoin (separator : Char) (parts : List Char × List (List Char)) : List Char :=
  parts.1 ++ parts.2.flatMap (separator :: ·)

theorem rejoin_divide (separator : Char) (chars : List Char) : rejoin separator (divide separator chars) = chars := by
  induction chars with
  | nil => rfl
  | cons c rest ih =>
      by_cases same : c = separator <;> simp_all [divide, rejoin]

theorem divide_first (separator : Char) (chars : List Char) : separator ∉ (divide separator chars).1 := by
  induction chars with
  | nil => simp [divide]
  | cons c rest ih => by_cases same : c = separator <;> simp_all [divide, eq_comm]

theorem divide_others (separator : Char) (chars : List Char) :
    ∀ part ∈ (divide separator chars).2, separator ∉ part := by
  induction chars with
  | nil => simp [divide]
  | cons c rest ih =>
      by_cases same : c = separator
      · simpa [divide, same] using And.intro (divide_first separator rest) ih
      · simpa [divide, same] using ih

end TealForms.Text
