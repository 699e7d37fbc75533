import TealForms.Proofs.Build.Ledger
import TealForms.Proofs.Build.Leniency
import TealForms.Proofs.Source.Reading
import TealForms.Proofs.Token.Marks

set_option autoImplicit false

namespace TealForms

namespace Token

section

variable (token : Token) (plain : token.IsPlainName) (filled : token.text.toList ≠ [])

include plain

theorem marked_parts : token.marked.parts = (exemptionMark :: token.parts.1, token.parts.2) := by
  have other : exemptionMark ≠ '.' := by decide
  simp [parts, marked, plain.1, isVerbatim, Text.divide, other]

include filled in
theorem marked_marked : token.marked.isMarked = true := by
  obtain ⟨c, rest, text⟩ := List.exists_cons_of_ne_nil filled
  simp [isMarked, marked, plain.1, text]

end

end Token

namespace Dialect

section

variable (dialect : Dialect) (exempting : dialect.options.marker = true)

include exempting

theorem marked_reads (token : Token) (plain : token.IsPlainName) (filled : token.text.toList ≠ []) :
    dialect.Reads dialect token token.marked where
  kind := rfl
  text := fun other => absurd plain.1 other
  name := by
    intro _
    have exempt : dialect.isExempt token.marked = true := by
      rw [isExempt, exempting, token.marked_marked plain filled]
      rfl
    have checked : dialect.isExempt token = false := by simp [isExempt, plain.2]
    rw [opcodeName, opcodeName, exempt, checked, Token.head, token.marked_parts plain]
    simp [Token.head]
  args := by
    intro _
    rw [Token.args, Token.args, token.marked_parts plain]
  exempt := by
    intro _ _
    simp [isExempt, plain.2]

def marking : Comparison dialect dialect where
  token := Layout.Marks
  node := Node.Agrees Eq
  allocations := Allocations.Agree Eq True
  fault _ _ := True
  excused _ := True
  kinds := by
    rintro token other (same | ⟨_, _, same⟩) <;> rw [same]
    rfl
  invalid := fun _ _ _ _ => .inl trivial
  unclosed := fun _ _ _ => .inl trivial
  builds := by
    intro before left token other children others kept marks below
    have reads : dialect.Reads dialect token.value other.value := by
      rcases marks with same | ⟨plain, filled, same⟩
      · rw [same]
        exact dialect.reads_self token.value
      · rw [same]
        exact dialect.marked_reads exempting token.value plain filled
    have lets : Lets Eq True := ⟨fun _ _ => rfl, fun _ => rfl, fun _ _ _ => rfl, fun _ _ => rfl⟩
    generalize built : dialect.build before token children = outcome
    obtain ⟨fault | node, after⟩ := outcome
    · exact .inl trivial
    · exact build_agree dialect.eases_self below lets before left after token other node built reads kept fun _ _ =>
        trivial

theorem marked_tokens (source marked : Source) (chars : List Char) (chosen : Nat → Bool) (reads : source.Reads chars)
    (chooses : ∀ place, chosen place = true → ∃ token, .ok token ∈ source.scan ∧
      token.location.start.offset = place ∧ token.value.IsPlainName)
    (inserted : marked.Reads (Text.insert exemptionMark chosen 0 chars)) :
    List.Forall₂ (dialect.marking exempting).Scans source.scan marked.scan := by
  have first : source.scanner = ⟨Source.stream source.name {} chars, source.start, false⟩ := by
    rw [Source.scanner, reads]
  have second : marked.scanner =
      ⟨Source.stream marked.name {} (Text.insert exemptionMark chosen 0 chars), marked.start, false⟩ := by
    rw [Source.scanner, inserted]
  obtain ⟨guess, exists_⟩ := Layout.exists_layout 0 chars
  obtain ⟨tokens, all, layout, _⟩ := Layout.scanned source.name {} source.start chars guess exists_
  rw [Source.scan, first, all] at chooses ⊢
  have names : Layout.Chooses chosen 0 tokens := by
    intro place _ here
    obtain ⟨token, member, found⟩ := chooses place here
    exact ⟨token, by simpa using member, found⟩
  obtain ⟨others, renewed, marks⟩ := layout.marked 0 chars tokens chosen names 0
  obtain ⟨found, given, _, same⟩ := Layout.scanned marked.name {} marked.start _ others renewed
  rw [Source.scan, second, given, List.forall₂_map_left_iff, List.forall₂_map_right_iff]
  -- Only the values of tokens decide whether one marks the other.
  have values (items : List (Located Token)) :
      List.Forall₂ (fun token value => Layout.Marks token ⟨value, source.start⟩) tokens (items.map Located.value) ↔
        List.Forall₂ Layout.Marks tokens items :=
    List.forall₂_map_right_iff
  exact (values found).mp (same ▸ (values others).mpr marks)

end

/-- A program that compiles is compiled to the same tree without the checks of arguments. With any of its unmarked
instruction names marked it is compiled to the same lines. A failure that is no failed check is the same fault at the
same place without the checks. -/
theorem checks_filter (dialect : Dialect) (source : Source) :
    (∀ root after, dialect.compile source = (.ok root, after) →
      dialect.lenient.compile source = (.ok root, after) ∧
      (∃ chars, source.Reads chars) ∧
      ∀ chars, source.Reads chars → dialect.options.marker = true → ∀ chosen : Nat → Bool,
        (∀ place, chosen place = true → ∃ token, .ok token ∈ source.scan ∧
          token.location.start.offset = place ∧ token.value.IsPlainName) →
        (∃ marked : Source, marked.Reads (Text.insert exemptionMark chosen 0 chars)) ∧
        ∀ marked : Source, marked.Reads (Text.insert exemptionMark chosen 0 chars) →
          ∃ tree left, dialect.compile marked = (.ok tree, left) ∧ tree.lines = root.lines) ∧
    ∀ fault after, dialect.compile source = (.error fault, after) → fault.value.isCheck = false →
      ∃ left, dialect.lenient.compile source = (.error fault, left) := by
  have follows := dialect.compile_lenient source
  refine ⟨?_, ?_⟩
  · intro root after compiled
    rw [compiled] at follows
    obtain ⟨_, _, lenient, rfl, rfl⟩ := follows
    refine ⟨lenient, dialect.compile_reads source root after compiled, ?_⟩
    intro chars reads exempting chosen chooses
    refine ⟨⟨_, Source.written_reads source.name _⟩, ?_⟩
    intro marked inserted
    have scans := dialect.marked_tokens exempting source marked chars chosen reads chooses inserted
    have marks := (dialect.marking exempting).parse_follows source.scan marked.scan {} {} source.start marked.start
      scans (Allocations.empty_agree Eq True) (.inl rfl)
    change (dialect.marking exempting).Follows (Node.Agrees Eq) (dialect.compile source) _ at marks
    rw [compiled] at marks
    obtain ⟨tree, left, parsed, agrees, _⟩ := marks
    have same : root.commands = tree.commands := List.forall₂_eq_eq_eq ▸ agrees.commands
    exact ⟨tree, left, parsed, by rw [Node.lines, Node.lines, same]⟩
  · intro fault after failed other
    rw [failed] at follows
    rcases follows with check | ⟨_, left, lenient, rfl⟩
    · rw [show fault.value.isCheck = true from check] at other
      cases other
    · exact ⟨left, lenient⟩

theorem exempt_sum_compiled :
    (∃ root after tree left, standard.compile (.ofString "(pop (+ 1 2))" "sum") = (.ok root, after) ∧
      standard.lenient.compile (.ofString "(pop (+ 1 2))" "sum") = (.ok root, after) ∧
      standard.compile (.ofString "(?pop (?+ 1 2))" "exempt") = (.ok tree, left) ∧ tree.lines = root.lines) ∧
    ∃ fault after left, standard.compile (.ofString "(pop $x)" "load") = (.error fault, after) ∧
      fault.value = .scratchNotFound "$x" ∧
      standard.lenient.compile (.ofString "(pop $x)" "load") = (.error fault, left) := by
  refine ⟨?_, ?_⟩
  · let source : Source := .ofString "(pop (+ 1 2))" "sum"
    obtain ⟨root, after, compiled, _⟩ := standard.compile_checked source (fun _ => true) (by decide +kernel)
    obtain ⟨lenient, _, marks⟩ := (checks_filter standard source).1 root after compiled
    have reads : source.Reads "(pop (+ 1 2))".toList := by
      unfold Source.Reads
      decide +kernel
    have inserted : Source.Reads (.ofString "(?pop (?+ 1 2))" "exempt")
        (Text.insert exemptionMark (fun place => place = 1 ∨ place = 6) 0 "(pop (+ 1 2))".toList) := by
      unfold Source.Reads
      decide +kernel
    have chooses : ∀ place, decide (place = 1 ∨ place = 6) = true → ∃ token, .ok token ∈ source.scan ∧
        token.location.start.offset = place ∧ token.value.IsPlainName := by
      intro place chosen
      rcases of_decide_eq_true chosen with rfl | rfl
      · exact ⟨⟨⟨.opcode, "pop"⟩, ⟨"sum", ⟨1, 2, 1⟩, ⟨1, 5, 4⟩⟩⟩, by decide +kernel, rfl, rfl, by decide⟩
      · exact ⟨⟨⟨.opcode, "+"⟩, ⟨"sum", ⟨1, 7, 6⟩, ⟨1, 8, 7⟩⟩⟩, by decide +kernel, rfl, rfl, by decide⟩
    obtain ⟨tree, left, exempt, same⟩ := (marks _ reads rfl _ chooses).2 _ inserted
    exact ⟨root, after, tree, left, compiled, lenient, exempt, same⟩
  · obtain ⟨fault, after, failed, checked⟩ := standard.compile_refused (.ofString "(pop $x)" "load")
      (fun fault => fault.value = .scratchNotFound "$x") (by decide +kernel)
    have found : fault.value = .scratchNotFound "$x" := of_decide_eq_true checked
    obtain ⟨left, lenient⟩ := (checks_filter standard _).2 fault after failed (by rw [found]; rfl)
    exact ⟨fault, after, left, failed, found, lenient⟩

end Dialect

end TealForms
