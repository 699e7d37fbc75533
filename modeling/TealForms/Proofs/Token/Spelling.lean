import Mathlib.Data.List.TakeWhile
import TealForms.Token.Scanner

set_option autoImplicit false

namespace TealForms

namespace Text

theorem mem_rejoin (separator c : Char) (parts : List Char × List (List Char)) :
    c ∈ rejoin separator parts ↔ c ∈ parts.1 ∨ ∃ part ∈ parts.2, c = separator ∨ c ∈ part := by
  simp [rejoin]

theorem rejoin_first (separator : Char) (word : List Char) (others : List (List Char)) (absent : separator ∉ word) :
    (rejoin separator (word, others)).takeWhile (· != separator) = word := by
  have kept : ∀ c ∈ word, (c != separator) = true := by
    intro c member
    exact bne_iff_ne.mpr fun same => absent (same ▸ member)
  rw [rejoin, List.takeWhile_append_of_pos kept]
  cases others with
  | nil => simp
  | cons other rest => simp

end Text

namespace Token

-- An atom is not empty, has no delimiter in it, does not start like an integer and is of the kind that it looks like.
structure IsAtom (token : Token) : Prop where
  filled : token.text.toList ≠ []
  atomic : ∀ c ∈ token.text.toList, Scanner.isAtomic c = true
  head : ∀ c ∈ token.text.toList.head?, c.isDigit = false
  kind : token.kind = classify token.text.toList

def Spelled (token : Token) : Prop :=
  match token.kind with
  | .opening => token.text = "("
  | .closing => token.text = ")"
  | .integer => token.text.toList ≠ [] ∧ ∀ c ∈ token.text.toList, c.isDigit = true
  | .bytes => ∃ body, token.text.toList = quoteMark :: body ++ [quoteMark] ∧ quoteMark ∉ body
  | .comment => commentMark ∉ token.text.toList
  | .root => False
  | .opcode | .label | .scratch | .constant | .keyword _ => token.IsAtom

theorem atom_spelled (token : Token) (atom : token.IsAtom) : token.Spelled := by
  have kind := atom.kind
  rw [classify] at kind
  rw [Spelled]
  split at kind
  · rw [kind]
    exact atom
  · split at kind
    · rw [kind]
      exact atom
    · split at kind
      · rw [kind]
        exact atom
      · split at kind <;> (rw [kind]; exact atom)

theorem atom_head (token : Token) (atom : token.IsAtom) (c : Char) (member : c ∈ token.head.toList) :
    Scanner.isAtomic c = true := by
  apply atom.atomic c
  rw [← token.head_args_rejoin, Text.mem_rejoin]
  exact .inl member

theorem atom_args (token : Token) (atom : token.IsAtom) (arg : String) (listed : arg ∈ token.args) (c : Char)
    (member : c ∈ arg.toList) : Scanner.isAtomic c = true := by
  apply atom.atomic c
  rw [← token.head_args_rejoin, Text.mem_rejoin]
  exact .inr ⟨arg.toList, List.mem_map_of_mem listed, .inr member⟩

theorem atom_label (token : Token) (atom : token.IsAtom) (c : Char) (member : c ∈ token.labelName.toList) :
    Scanner.isAtomic c = true := by
  apply atom.atomic c
  rw [labelName] at member
  split at member
  · rw [String.toList_ofList] at member
    exact List.dropLast_subset _ member
  · exact member

end Token

namespace Scanner

theorem chars_hold (property : Char → Bool) (elements : List Element) (c : Char)
    (member : c ∈ chars (elements.takeWhile (holds property))) : property c = true := by
  obtain ⟨element, taken, here⟩ := List.mem_filterMap.mp member
  have held := List.mem_takeWhile_imp taken
  cases element with
  | error failure => cases here
  | ok located =>
      cases here
      exact held

theorem run_spelled (property : Char → Bool) (kind : List Char → TokenKind) (first : Located Char)
    (rest : List Element) (token : Located Token) (begins : property first.value = true)
    (scanned : (run property kind first rest).1 = .ok token) :
    token.value.text.toList ≠ [] ∧ (∀ c ∈ token.value.text.toList, property c = true) ∧
      token.value.text.toList.head? = some first.value ∧ token.value.kind = kind token.value.text.toList := by
  cases scanned
  refine ⟨by simp, ?_, by simp, by simp⟩
  intro c member
  rcases List.mem_cons.mp (by simpa using member) with same | later
  · rw [same]
    exact begins
  · exact chars_hold property rest c later

theorem delimited_body (mark : Char) (build : List Char → Token) (first : Located Char) (rest : List Element)
    (token : Located Token) (scanned : (delimited mark build first rest).1 = .ok token) :
    ∃ body, token.value = build body ∧ mark ∉ body := by
  refine ⟨chars (rest.takeWhile (holds (· != mark))), ?_, ?_⟩
  · unfold delimited at scanned
    split at scanned <;> cases scanned <;> rfl
  · intro member
    simpa using chars_hold (· != mark) rest mark member

theorem lexeme_spelled (first : Located Char) (rest : List Element) (token : Located Token)
    (visible : Text.isBlank first.value = false) (scanned : (lexeme first rest).1 = .ok token) :
    token.value.Spelled := by
  rw [lexeme] at scanned
  split at scanned
  · cases scanned
    rfl
  rename_i opening
  split at scanned
  · cases scanned
    rfl
  rename_i closing
  split at scanned
  · obtain ⟨body, same, absent⟩ := delimited_body commentMark comment first rest token scanned
    simpa [same, Token.Spelled, comment] using absent
  rename_i commentary
  split at scanned
  · obtain ⟨body, same, absent⟩ := delimited_body quoteMark byteString first rest token scanned
    rw [same]
    exact ⟨body, by simp [byteString], absent⟩
  rename_i quoted
  split at scanned
  · rename_i digit
    obtain ⟨filled, digits, _, kind⟩ := run_spelled Char.isDigit _ first rest token digit scanned
    simpa only [Token.Spelled, kind] using And.intro filled digits
  · rename_i digit
    have begins : isAtomic first.value = true := by simp [isAtomic, visible, opening, closing, commentary, quoted]
    obtain ⟨filled, atomic, head, kind⟩ := run_spelled isAtomic _ first rest token begins scanned
    exact token.value.atom_spelled ⟨filled, atomic, by simpa [head] using digit, kind⟩

theorem next_spelled (scanner after : Scanner) (token : Located Token)
    (taken : scanner.next = (some (.ok token), after)) : token.value.Spelled := by
  rw [next] at taken
  split at taken
  · split at taken <;> cases taken
  · dsimp only at taken
    split at taken
    · cases taken
    · cases taken
    · rename_i first rest following
      have visible : Text.isBlank first.value = false := by
        have stops := List.head?_dropWhile_not (holds Text.isBlank) scanner.rest
        simpa [following, holds] using stops
      exact lexeme_spelled first rest token visible (Option.some.inj (Prod.mk.inj taken).1)

theorem all_spelled (scanner : Scanner) (token : Located Token) (member : .ok token ∈ scanner.all) :
    token.value.Spelled := by
  rw [all] at member
  split at member
  · cases member
  · rename_i scanned after taken
    have shorter := next_shorter scanner after scanned taken
    rcases List.mem_cons.mp member with same | later
    · subst same
      exact next_spelled scanner after token taken
    · exact all_spelled after token later
termination_by scanner.rest.length

end Scanner

end TealForms
