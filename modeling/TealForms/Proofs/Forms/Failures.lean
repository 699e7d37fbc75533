import TealForms.Proofs.Build.Failed
import TealForms.Proofs.Build.Ledger
import TealForms.Proofs.Forms.Acceptance
import TealForms.Proofs.Source.Failing
import TealForms.Proofs.Token.Interrupted

set_option autoImplicit false

namespace TealForms

namespace Dialect

section

variable (dialect : Dialect) (nesting : Nesting) (before after : Allocations) (fault : Located Fault)

-- While tokens are read, nothing is said of what is open.
theorem step_fault (token : Located Token) (failed : dialect.step nesting before token = (.error fault, after)) :
    fault.value ≠ .unclosedExpression := by
  intro same
  rw [step_shift] at failed
  generalize nesting.shift token = shifted at failed
  rcases shifted with _ | ⟨next, _ | call⟩
  · cases failed
    cases same
  · cases failed
  · dsimp only at failed
    rw [finish] at failed
    split at failed
    · cases failed
    · rename_i found left built
      cases failed
      have either := dialect.build_fault before _ call.token call.children _ built
      rw [same] at either
      rcases either with own | rule
      · cases own
      · cases rule

theorem feed_fault (tokens : List (Located Token))
    (failed : dialect.feed nesting before (tokens.map .ok) = (.error fault, after)) :
    fault.value ≠ .unclosedExpression := by
  induction tokens generalizing nesting before with
  | nil => cases failed
  | cons token rest ih =>
      rw [List.map_cons, feed] at failed
      split at failed
      · exact ih _ _ failed
      · rename_i found left stepped
        cases failed
        exact dialect.step_fault nesting before _ _ token stepped

end

theorem parse_interrupted (dialect : Dialect) (before : Allocations) (start : Location) (tokens : List (Located Token))
    (failure : Located ReadFailure) (behind : List Scanned) :
    let alone := dialect.parse before start (tokens.map .ok)
    let whole := dialect.parse before start (tokens.map .ok ++ .error failure :: behind)
    (∃ fault after, alone = (.error fault, after) ∧ fault.value ≠ .unclosedExpression ∧ whole = (.error fault, after)) ∨
      (∀ fault after, alone = (.error fault, after) → fault.value = .unclosedExpression) ∧
        ∃ after, whole = (.error (failure.map .input), after) := by
  intro alone whole
  have fed := dialect.feed_append {} before (tokens.map .ok) (.error failure :: behind)
  have read : whole = andThen (dialect.feed {} before (tokens.map .ok)) fun _ after =>
      (.error (failure.map .input), after) := by
    rw [show whole = _ from dialect.parse_then before start _, fed, then_assoc]
    rfl
  have given : alone = _ := dialect.parse_then before start (tokens.map .ok)
  cases reached : dialect.feed {} before (tokens.map .ok) with
  | mk result after =>
      rw [reached] at read given
      cases result with
      | error fault => exact .inl ⟨fault, after, given, dialect.feed_fault {} before after fault tokens reached, read⟩
      | ok nesting =>
          refine .inr ⟨?_, after, read⟩
          intro fault left failed
          rw [given, andThen] at failed
          cases waiting : nesting.innermost with
          | some parenthesis =>
              rw [waiting] at failed
              cases failed
              rfl
          | none =>
              rw [waiting] at failed
              cases failed

/-- A failure to read is never hidden. The tokens before it are scanned, less a comment or byte string that is still
open, and compiling fails with what they are refused for, unless that is a parenthesis left open, or else with the
failure. -/
theorem failure_reported (dialect : Dialect) (source : Source) (readable : List SourceLine) (failure : ReadFailure)
    (later : List (Except ReadFailure SourceLine))
    (broken : source.lines = readable.map .ok ++ .error failure :: later) :
    let text := readable.flatMap SourceLine.chars
    let stream := Source.stream source.name {} text
    let last := Scanner.lastOf source.start stream
    (text = [] ∨ text.getLast? = some '\n') ∧ ∃ (tokens : List (Located Token)) (behind : List Scanned),
      (Scanner.mk stream source.start false).all = tokens.map .ok ∧
      let kept := tokens.filter fun token => !Layout.isCut text token
      let alone := dialect.parse {} source.start (kept.map .ok)
      source.scan = kept.map .ok ++ .error ⟨failure, last⟩ :: behind ∧
      ((∃ fault after, alone = (.error fault, after) ∧ fault.value ≠ .unclosedExpression ∧
          dialect.compile source = (.error fault, after)) ∨
        (∀ fault after, alone = (.error fault, after) → fault.value = .unclosedExpression) ∧
          ∃ after, dialect.compile source = (.error ⟨.input failure, last⟩, after)) := by
  intro text stream last
  obtain ⟨rest, elements⟩ := source.failing_elements readable failure later broken
  obtain ⟨guess, layout⟩ := Layout.exists_layout 0 text
  obtain ⟨tokens, behind, all, kept⟩ :=
    Layout.interrupted failure rest source.name {} source.start [] text rfl guess layout
  have scan : source.scan = (tokens.filter fun token => !Layout.isCut text token).map .ok ++
      .error ⟨failure, last⟩ :: behind := by
    rw [Source.scan, Source.scanner, elements]
    exact kept
  refine ⟨source.failing_break readable failure later broken, tokens, behind, all, scan, ?_⟩
  rw [compile, scan]
  exact dialect.parse_interrupted {} source.start _ ⟨failure, last⟩ behind

theorem open_comment_unread :
    let source : Source := ⟨"form", "(pop 1\n\x60k\n".toUTF8.toList ++ [0xFF], none⟩
    let readable : List SourceLine := [⟨"(pop 1".toList, true⟩, ⟨"\x60k".toList, true⟩]
    let last : Location := ⟨"form", ⟨2, 3, 9⟩, ⟨2, 4, 10⟩⟩
    source.lines = readable.map .ok ++ .error .notUtf8 :: [] ∧
      ∃ after, standard.compile source = (.error ⟨.input .notUtf8, last⟩, after) := by
  intro source readable last
  let place (start stop : Position) : Location := ⟨"form", start, stop⟩
  let tokens : List (Located Token) :=
    [⟨⟨.opening, "("⟩, place ⟨1, 1, 0⟩ ⟨1, 2, 1⟩⟩, ⟨⟨.opcode, "pop"⟩, place ⟨1, 2, 1⟩ ⟨1, 5, 4⟩⟩,
      ⟨⟨.integer, "1"⟩, place ⟨1, 6, 5⟩ ⟨1, 7, 6⟩⟩, ⟨⟨.comment, "k\n"⟩, place ⟨2, 1, 7⟩ ⟨2, 4, 10⟩⟩]
  have scanned : (Scanner.mk (Source.stream "form" {} (readable.flatMap SourceLine.chars)) source.start false).all =
      tokens.map .ok := by decide +kernel
  have broken : source.lines = readable.map .ok ++ .error .notUtf8 :: [] := by decide +kernel
  obtain ⟨_, found, behind, all, _, either⟩ := failure_reported standard source readable .notUtf8 [] broken
  refine ⟨broken, ?_⟩
  rcases either with ⟨fault, after, alone, other, _⟩ | ⟨_, after, compiled⟩
  · obtain rfl : tokens = found :=
      List.map_injective_iff.mpr (fun _ _ => Except.ok.inj) (scanned.symm.trans all)
    obtain ⟨refused, left, failed, unclosed⟩ := standard.parse_refused {} source.start
      ((tokens.filter fun token => !Layout.isCut (readable.flatMap SourceLine.chars) token).map .ok)
      (fun fault => fault.value = .unclosedExpression) (by decide +kernel)
    obtain ⟨same, _⟩ := Prod.mk.inj (failed.symm.trans alone)
    cases same
    exact absurd (of_decide_eq_true unclosed) other
  · exact ⟨after, compiled⟩

end Dialect

end TealForms
