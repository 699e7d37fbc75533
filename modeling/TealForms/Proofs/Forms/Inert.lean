import TealForms.Compile
import TealForms.Proofs.Build.Ledger
import TealForms.Proofs.Forms.View

set_option autoImplicit false

namespace TealForms

-- No comment comes directly after an opening parenthesis; `opened` says that one stands before the lists.
inductive Commented : Bool → List Scanned → List Scanned → Prop where
  | nil (opened : Bool) : Commented opened [] []
  | insert (token : Located Token) (tokens others : List Scanned) (comment : token.value.kind = .comment)
      (later : Commented false tokens others) : Commented false tokens (.ok token :: others)
  | token (opened : Bool) (token : Located Token) (tokens others : List Scanned)
      (later : Commented (token.value.kind = .opening) tokens others) :
      Commented opened (.ok token :: tokens) (.ok token :: others)
  | failure (opened : Bool) (failure : Located ReadFailure) (tokens others : List Scanned)
      (later : Commented false tokens others) : Commented opened (.error failure :: tokens) (.error failure :: others)

namespace View

theorem commented_reads (opened : Bool) (tokens others : List Scanned) (commented : Commented opened tokens others) :
    uncommented.Reads opened tokens others := by
  induction commented with
  | nil opened => exact .nil opened
  | insert token tokens others comment _ ih => exact .skip token tokens others rfl comment ih
  | token opened token tokens others _ ih => exact .token opened token token tokens others rfl ih
  | failure opened failure tokens others => exact .failure opened failure failure tokens others rfl

theorem unplaced_reads (opened : Bool) (tokens others : List (Located Token))
    (same : tokens.map Located.value = others.map Located.value) :
    unplaced.Reads opened (tokens.map .ok) (others.map .ok) := by
  induction tokens generalizing opened others with
  | nil =>
      rw [List.map_eq_nil_iff.mp same.symm]
      exact .nil opened
  | cons token tokens ih =>
      cases others with
      | nil => cases same
      | cons other others =>
          obtain ⟨value, later⟩ := List.cons.inj same
          exact .token opened token other _ _ ((unplaced.located_iff token other).mpr ⟨value, rfl⟩) (ih _ others later)

end View

namespace Dialect

/-- Layout does not matter. Two sources that are scanned to tokens of the same kinds and texts are compiled to trees
that are equal but for locations, and to the same lines, or they are refused for the same fault; the log is the same. -/
theorem layout_inert (dialect : Dialect) (source other : Source) (tokens others : List (Located Token))
    (scanned : source.scan = tokens.map .ok) (twin : other.scan = others.map .ok)
    (same : tokens.map Located.value = others.map Located.value) :
    (dialect.compile other).2.events = (dialect.compile source).2.events ∧
    ((∃ root after tree left, dialect.compile source = (.ok root, after) ∧ dialect.compile other = (.ok tree, left) ∧
        root.seen .unplaced = tree.seen .unplaced ∧ tree.lines = root.lines) ∨
      ∃ fault after given left, dialect.compile source = (.error fault, after) ∧
        dialect.compile other = (.error given, left) ∧ given.value = fault.value) := by
  have seen := dialect.parse_seen .unplaced _ _ (View.unplaced_reads false tokens others same) {} {} rfl source.start
    other.start rfl
  rw [← scanned, ← twin] at seen
  rw [compile, compile]
  rcases View.outcome_cases _ _ _ _ seen with ⟨root, tree, after, left, parsed, read, trees, kept⟩ |
    ⟨fault, given, after, left, parsed, read, faults, kept⟩
  · rw [parsed, read]
    have events : left.events = after.events := (congrArg Allocations.events kept).symm
    refine ⟨events, .inl ⟨root, after, tree, left, rfl, rfl, trees, ?_⟩⟩
    rw [← tree.seen_lines .unplaced, ← trees, root.seen_lines]
  · rw [parsed, read]
    have events : left.events = after.events := (congrArg Allocations.events kept).symm
    exact ⟨events, .inr ⟨fault, after, given, left, rfl, rfl, ((View.located_iff _ fault given).mp faults).1.symm⟩⟩

theorem spaced_sum_compiled :
    let source : Source := .ofString "(pop (+ 1 2))" "sum"
    let other : Source := .ofString "( pop\n\t(+ 1\n 2 ) )\n" "spaced"
    let tokens (source : Source) := source.scan.filterMap Except.toOption
    source.scan = (tokens source).map .ok ∧ other.scan = (tokens other).map .ok ∧
      (tokens source).map Located.value = (tokens other).map Located.value ∧
      ∃ root after tree left, standard.compile source = (.ok root, after) ∧ standard.compile other = (.ok tree, left) ∧
        root.seen .unplaced = tree.seen .unplaced ∧ tree.lines = root.lines := by
  intro source other tokens
  have scanned : source.scan = (tokens source).map .ok := by decide +kernel
  have twin : other.scan = (tokens other).map .ok := by decide +kernel
  have same : (tokens source).map Located.value = (tokens other).map Located.value := by decide +kernel
  obtain ⟨root, after, compiled, _⟩ := standard.compile_checked source (fun _ => true) (by decide +kernel)
  refine ⟨scanned, twin, same, ?_⟩
  rcases (layout_inert standard source other _ _ scanned twin same).2 with done | ⟨fault, left, _, _, failed, _⟩
  · exact done
  · rw [compiled] at failed
    cases failed

/-- Comments do not matter, wherever they stand but in place of a head. With them a program is compiled to the same
lines or refused for the same fault at the same place; the log is the same, and so are the allocations, in which only
the trees of bound literals keep their comments. -/
theorem comments_inert (dialect : Dialect) (before : Allocations) (start : Location) (tokens others : List Scanned)
    (commented : Commented false tokens others) :
    let bare := dialect.parse before start tokens
    let full := dialect.parse before start others
    full.2.events = bare.2.events ∧ full.2.seen .uncommented = bare.2.seen .uncommented ∧
    ((∃ root after tree left, bare = (.ok root, after) ∧ full = (.ok tree, left) ∧
        root.seen .uncommented = tree.seen .uncommented ∧ tree.lines = root.lines) ∨
      ∃ fault after left, bare = (.error fault, after) ∧ full = (.error fault, left)) := by
  intro bare full
  have seen := dialect.parse_seen .uncommented tokens others (View.commented_reads false tokens others commented) before
    before rfl start start rfl
  rcases View.outcome_cases _ _ _ _ seen with ⟨root, tree, after, left, parsed, read, trees, kept⟩ |
    ⟨fault, given, after, left, parsed, read, faults, kept⟩
  · rw [show bare = _ from parsed, show full = _ from read]
    have events : left.events = after.events := (congrArg Allocations.events kept).symm
    refine ⟨events, kept.symm, .inl ⟨root, after, tree, left, rfl, rfl, trees, ?_⟩⟩
    rw [← tree.seen_lines .uncommented, ← trees, root.seen_lines]
  · rw [show bare = _ from parsed, show full = _ from read]
    have events : left.events = after.events := (congrArg Allocations.events kept).symm
    obtain rfl : fault = given := faults
    exact ⟨events, kept.symm, .inr ⟨fault, after, left, rfl, rfl⟩⟩

theorem commented_constant_compiled :
    let token (kind : TokenKind) (text : String) : Scanned := .ok ⟨⟨kind, text⟩, default⟩
    let note := token .comment "n"
    let tokens := [token .opening "(", token .constant "@c", token .opening "(", token .integer "1", token .closing ")",
      token .closing ")", token .opening "(", token .opcode "pop", token .constant "@c", token .closing ")"]
    let others := [note, token .opening "(", token .constant "@c", note, token .opening "(", token .integer "1", note,
      token .closing ")", note, note, token .closing ")", token .opening "(", token .opcode "pop", note,
      token .constant "@c", token .closing ")", note]
    Commented false tokens others ∧
      ∃ root after tree left, standard.parse {} default tokens = (.ok root, after) ∧
        standard.parse {} default others = (.ok tree, left) ∧ root.seen .uncommented = tree.seen .uncommented ∧
        tree.lines = root.lines := by
  intro token note tokens others
  have commented : Commented false tokens others := by
    refine .insert _ _ _ rfl (.token _ _ _ _ (.token _ _ _ _ (.insert _ _ _ rfl ?_)))
    refine .token _ _ _ _ (.token _ _ _ _ (.insert _ _ _ rfl (.token _ _ _ _ ?_)))
    refine .insert _ _ _ rfl (.insert _ _ _ rfl (.token _ _ _ _ (.token _ _ _ _ ?_)))
    exact .token _ _ _ _ (.insert _ _ _ rfl (.token _ _ _ _ (.token _ _ _ _ (.insert _ _ _ rfl (.nil _)))))
  obtain ⟨root, after, parsed, _⟩ := standard.parse_checked {} default tokens (fun _ => true) (by decide +kernel)
  refine ⟨commented, ?_⟩
  rcases (comments_inert standard {} default tokens others commented).2.2 with done | ⟨fault, left, _, failed, _⟩
  · exact done
  · rw [parsed] at failed
    cases failed

end Dialect

end TealForms
