import TealForms.Source
import TealForms.Text.Blank
import TealForms.Token

set_option autoImplicit false

namespace TealForms

abbrev Scanned := Except (Located ReadFailure) (Located Token)

structure Scanner where
  rest : List Element
  last : Location
  stopped : Bool

namespace Scanner

def isAtomic (c : Char) : Bool := !Text.isBlank c && c != '(' && c != ')' && c != commentMark && c != quoteMark

def holds (property : Char → Bool) : Element → Bool
  | .ok located => property located.value
  | .error _ => false

def chars (elements : List Element) : List Char :=
  elements.filterMap fun
    | .ok located => some located.value
    | .error _ => none

def lastOf (last : Location) : List Element → Location
  | [] => last
  | .ok located :: rest => lastOf located.location rest
  | .error _ :: rest => lastOf last rest

def run (property : Char → Bool) (kind : List Char → TokenKind) (first : Located Char) (rest : List Element) :
    Scanned × Scanner :=
  let body := rest.takeWhile (holds property)
  let text := first.value :: chars body
  let last := lastOf first.location body
  (.ok ⟨⟨kind text, .ofList text⟩, .span first.location last⟩, ⟨rest.dropWhile (holds property), last, false⟩)

-- A comment or byte string that is still open is lost to a read failure, which stands at the last character taken.
def delimited (mark : Char) (token : List Char → Token) (first : Located Char) (rest : List Element) :
    Scanned × Scanner :=
  let body := rest.takeWhile (holds (· != mark))
  let last := lastOf first.location body
  match rest.dropWhile (holds (· != mark)) with
  | [] => (.ok ⟨token (chars body), .span first.location last⟩, ⟨[], last, false⟩)
  | .ok closing :: rest =>
      (.ok ⟨token (chars body), .span first.location closing.location⟩, ⟨rest, closing.location, false⟩)
  | .error failure :: rest => (.error ⟨failure, last⟩, ⟨rest, last, true⟩)

def comment (text : List Char) : Token := ⟨.comment, .ofList text⟩

def byteString (text : List Char) : Token := ⟨.bytes, .ofList (quoteMark :: text ++ [quoteMark])⟩

def lexeme (first : Located Char) (rest : List Element) : Scanned × Scanner :=
  if first.value = '(' then (.ok ⟨⟨.opening, "("⟩, first.location⟩, ⟨rest, first.location, false⟩)
  else if first.value = ')' then (.ok ⟨⟨.closing, ")"⟩, first.location⟩, ⟨rest, first.location, false⟩)
  else if first.value = commentMark then delimited commentMark comment first rest
  else if first.value = quoteMark then delimited quoteMark byteString first rest
  else if first.value.isDigit then run Char.isDigit (fun _ => .integer) first rest
  else run isAtomic Token.classify first rest

-- A stopped scanner gives nothing but the failures that directly follow.
def next (scanner : Scanner) : Option Scanned × Scanner :=
  if scanner.stopped then
    match scanner.rest with
    | .error failure :: rest => (some (.error ⟨failure, scanner.last⟩), ⟨rest, scanner.last, true⟩)
    | _ => (none, scanner)
  else
    let last := lastOf scanner.last (scanner.rest.takeWhile (holds Text.isBlank))
    match scanner.rest.dropWhile (holds Text.isBlank) with
    | [] => (none, ⟨[], last, false⟩)
    | .error failure :: rest => (some (.error ⟨failure, last⟩), ⟨rest, last, true⟩)
    | .ok first :: rest => ((lexeme first rest).1, (lexeme first rest).2)

theorem dropWhile_length (property : Element → Bool) (elements : List Element) :
    (elements.dropWhile property).length ≤ elements.length :=
  (List.dropWhile_sublist property).length_le

theorem run_shorter (property : Char → Bool) (kind : List Char → TokenKind) (first : Located Char)
    (rest : List Element) : (run property kind first rest).2.rest.length ≤ rest.length :=
  dropWhile_length _ _

theorem delimited_shorter (mark : Char) (token : List Char → Token) (first : Located Char) (rest : List Element) :
    (delimited mark token first rest).2.rest.length ≤ rest.length := by
  have bound := dropWhile_length (holds (· != mark)) rest
  unfold delimited
  split <;> simp_all <;> omega

theorem lexeme_shorter (first : Located Char) (rest : List Element) :
    (lexeme first rest).2.rest.length ≤ rest.length := by
  unfold lexeme
  split
  · exact Nat.le_refl _
  split
  · exact Nat.le_refl _
  split
  · exact delimited_shorter _ _ _ _
  split
  · exact delimited_shorter _ _ _ _
  split <;> exact run_shorter _ _ _ _

theorem next_shorter (scanner after : Scanner) (scanned : Scanned) (taken : scanner.next = (some scanned, after)) :
    after.rest.length < scanner.rest.length := by
  have bound := dropWhile_length (holds Text.isBlank) scanner.rest
  unfold next at taken
  split at taken
  · split at taken
    · rename_i rest following
      rw [following, ← (Prod.mk.inj taken).2]
      exact Nat.lt_succ_self _
    · exact nomatch (Prod.mk.inj taken).1
  · dsimp only at taken
    split at taken
    · exact nomatch (Prod.mk.inj taken).1
    · rename_i rest following
      rw [following] at bound
      rw [← (Prod.mk.inj taken).2]
      exact bound
    · rename_i first rest following
      rw [following] at bound
      rw [← (Prod.mk.inj taken).2]
      exact Nat.lt_of_le_of_lt (lexeme_shorter first rest) bound

def all (scanner : Scanner) : List Scanned :=
  match _taken : scanner.next with
  | (none, _) => []
  | (some scanned, after) => scanned :: after.all
termination_by scanner.rest.length
decreasing_by exact next_shorter _ _ _ _taken

end Scanner

namespace Source

def scanner (source : Source) : Scanner := ⟨source.elements, source.start, false⟩

def scan (source : Source) : List Scanned := source.scanner.all

end Source

end TealForms
