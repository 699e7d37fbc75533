import TealForms.Proofs.Forms.Failures

set_option autoImplicit false

namespace TealForms

namespace Node

def prepend (nodes : List Node) : Node → Node
  | .mk token kind children => .mk token kind (nodes ++ children)

theorem commands_all_lines (nodes : List Node) : (commandsAll nodes).map Command.line = nodes.flatMap lines := by
  induction nodes with
  | nil => rfl
  | cons node rest ih => rw [commandsAll, List.map_append, ih, List.flatMap_cons, lines]

theorem root_lines (token : Located Token) (version : Nat) (children : List Node) :
    lines (.mk token (.root version) children) = .pragma version :: children.flatMap lines := by
  rw [lines, commands, List.map_cons, commands_all_lines]
  rfl

end Node

namespace Nesting

def behind (done : List Node) (nesting : Nesting) : Nesting := { nesting with finished := nesting.finished ++ done }

theorem innermost_behind (done : List Node) (nesting : Nesting) :
    (nesting.behind done).innermost = nesting.innermost := rfl

theorem add_behind (done : List Node) (nesting : Nesting) (node : Node) :
    (nesting.behind done).add node = (nesting.add node).behind done := by
  obtain ⟨pending, forms, finished⟩ := nesting
  cases forms <;> rfl

theorem shift_behind (done : List Node) (nesting : Nesting) (token : Located Token) :
    (nesting.behind done).shift token = (nesting.shift token).map fun found => (found.1.behind done, found.2) := by
  obtain ⟨pending, forms, finished⟩ := nesting
  obtain ⟨⟨kind, text⟩, location⟩ := token
  cases pending <;> cases kind <;> cases forms <;> rfl

theorem closed_empty (nesting : Nesting) (closed : nesting.innermost = none) :
    nesting = behind nesting.finished {} := by
  obtain ⟨pending, forms, finished⟩ := nesting
  cases pending with
  | some parenthesis => cases closed
  | none =>
      cases forms with
      | cons form outer => cases closed
      | nil => rfl

end Nesting

namespace Dialect

def conclude (dialect : Dialect) (start : Location) (nesting : Nesting) (before : Allocations) : Outcome Node :=
  match nesting.innermost with
  | some parenthesis => (.error ⟨.unclosedExpression, parenthesis⟩, before)
  | none => dialect.build before ⟨.root, start⟩ nesting.finished.reverse

section

variable (dialect : Dialect) (done : List Node)

-- Finished nodes have no part in what is read after them.
theorem step_behind (nesting : Nesting) (before : Allocations) (token : Located Token) :
    dialect.step (nesting.behind done) before token =
      andThen (dialect.step nesting before token) fun next after => (.ok (next.behind done), after) := by
  rw [step_shift, step_shift, Nesting.shift_behind]
  rcases nesting.shift token with _ | ⟨next, _ | call⟩
  · rfl
  · rfl
  · dsimp only [Option.map_some]
    rw [finish_then, finish_then, then_assoc]
    refine congrArg _ (funext fun node => funext fun after => ?_)
    rw [Nesting.add_behind]
    rfl

theorem feed_behind (tokens : List Scanned) (nesting : Nesting) (before : Allocations) :
    dialect.feed (nesting.behind done) before tokens =
      andThen (dialect.feed nesting before tokens) fun next after => (.ok (next.behind done), after) := by
  induction tokens generalizing nesting before with
  | nil => rfl
  | cons scanned rest ih =>
      cases scanned with
      | error failure => rfl
      | ok token =>
          rw [feed_then, feed_then, step_behind, then_assoc, then_assoc]
          exact congrArg _ (funext fun next => funext fun after => ih next after)

theorem root_built (before : Allocations) (start : Location) (children : List Node) :
    dialect.build before ⟨.root, start⟩ children =
      (.ok (.mk ⟨.root, start⟩ (.root dialect.options.version) children), before) := rfl

theorem parse_concludes (before : Allocations) (start : Location) (tokens : List Scanned) :
    dialect.parse before start tokens = andThen (dialect.feed {} before tokens) (dialect.conclude start) :=
  dialect.parse_then before start tokens

theorem parse_fed (before : Allocations) (start : Location) (tokens : List Scanned) :
    match dialect.parse before start tokens with
    | (.ok root, after) => dialect.feed {} before tokens = (.ok (.behind root.children.reverse {}), after) ∧
        root = .mk ⟨.root, start⟩ (.root dialect.options.version) root.children
    | (.error fault, after) => fault.value = .unclosedExpression ∨
        dialect.feed {} before tokens = (.error fault, after) := by
  rw [parse_concludes]
  rcases dialect.feed {} before tokens with ⟨fault | nesting, after⟩
  · exact .inr rfl
  · dsimp only [andThen]
    rw [conclude]
    cases open_ : nesting.innermost with
    | some parenthesis => exact .inl rfl
    | none =>
        dsimp only [root_built, Node.children]
        rw [List.reverse_reverse, ← nesting.closed_empty open_]
        exact ⟨rfl, rfl⟩

theorem parse_behind (before : Allocations) (start : Location) (tokens : List Scanned) :
    andThen (dialect.feed (.behind done {}) before tokens) (dialect.conclude start) =
      andThen (dialect.parse before start tokens) fun tree after => (.ok (tree.prepend done.reverse), after) := by
  rw [feed_behind, parse_concludes, then_assoc, then_assoc]
  refine congrArg _ (funext fun nesting => funext fun after => ?_)
  dsimp only [andThen]
  rw [conclude, conclude, Nesting.innermost_behind]
  cases nesting.innermost with
  | some parenthesis => rfl
  | none => simp [root_built, Nesting.behind, Node.prepend]

end

/-- A program that is read after another one is read as if alone, from the allocations that the first one leaves, with
the nodes and lines of the first one in front. If the first one fails, and not because it leaves a parenthesis open,
nothing that comes after it is looked at. -/
theorem parse_concatenation (dialect : Dialect) (before : Allocations) (origin start : Location)
    (first second : List Scanned) :
    (∀ root middle, dialect.parse before origin first = (.ok root, middle) →
      let alone := dialect.parse middle start second
      let whole := dialect.parse before start (first ++ second)
      (∀ fault after, alone = (.error fault, after) → whole = (.error fault, after)) ∧
      ∀ tree after, alone = (.ok tree, after) →
        whole = (.ok (tree.prepend root.children), after) ∧
        (tree.prepend root.children).children = root.children ++ tree.children ∧
        ∃ front behind, root.lines = .pragma dialect.options.version :: front ∧
          tree.lines = .pragma dialect.options.version :: behind ∧
          (tree.prepend root.children).lines = .pragma dialect.options.version :: (front ++ behind)) ∧
    ∀ fault after, dialect.parse before origin first = (.error fault, after) →
      fault.value ≠ .unclosedExpression → dialect.parse before start (first ++ second) = (.error fault, after) := by
  have fed := dialect.parse_fed before origin first
  have joined := dialect.feed_append {} before first second
  refine ⟨?_, ?_⟩
  · intro root middle parsed alone whole
    rw [parsed] at fed
    rw [fed.1] at joined
    have both : whole = andThen alone fun tree after => (.ok (tree.prepend root.children), after) := by
      have behind := dialect.parse_behind root.children.reverse middle start second
      rw [List.reverse_reverse] at behind
      rw [← behind, show whole = _ from dialect.parse_concludes before start _, joined]
      rfl
    refine ⟨fun fault after failed => by rw [both, failed]; rfl, ?_⟩
    intro tree after read
    have shape := dialect.parse_fed middle start second
    rw [show dialect.parse middle start second = _ from read] at shape
    refine ⟨by rw [both, read]; rfl, ?_, root.children.flatMap Node.lines, tree.children.flatMap Node.lines, ?_, ?_, ?_⟩
    · rw [shape.2]
      rfl
    · rw [fed.2, Node.root_lines]
      rfl
    · rw [shape.2, Node.root_lines]
      rfl
    · rw [shape.2, Node.prepend, Node.root_lines, List.flatMap_append]
      rfl
  · intro fault after failed other
    rw [failed] at fed
    rw [parse_concludes, joined, fed.resolve_left other]
    rfl

theorem variable_read_behind :
    let first : Source := .ofString "($x 1) done:" "first"
    let second : Source := .ofString "(pop $x)" "second"
    let broken : Source := .ofString "($x 1) (+ $x) )" "broken"
    (∃ root middle tree after, standard.parse {} first.start first.scan = (.ok root, middle) ∧
      standard.parse middle second.start second.scan = (.ok tree, after) ∧
      standard.parse {} second.start (first.scan ++ second.scan) = (.ok (tree.prepend root.children), after) ∧
      (tree.prepend root.children).assembly =
        "#pragma version 8\nint 1\nstore 0 // $x\ndone:\nload 0 // $x\npop\n") ∧
    ∃ fault after, fault.value = .stackArgs 2 1 ∧ fault.value ≠ .unclosedExpression ∧
      standard.parse {} broken.start broken.scan = (.error fault, after) ∧
      standard.parse {} broken.start (broken.scan ++ second.scan) = (.error fault, after) := by
  intro first second broken
  refine ⟨?_, ?_⟩
  · obtain ⟨root, middle, parsed, _⟩ :=
      standard.parse_checked {} first.start first.scan (fun _ => true) (by decide +kernel)
    have later : (standard.parse (standard.parse {} first.start first.scan).2 second.start second.scan).1.toOption.any
        (fun _ => true) = true := by decide +kernel
    rw [parsed] at later
    obtain ⟨tree, after, read, _⟩ := standard.parse_checked middle second.start second.scan _ later
    obtain ⟨whole, _⟩ := ((standard.parse_concatenation {} first.start second.start first.scan second.scan).1
      root middle parsed).2 tree after read
    have text : (standard.parse {} second.start (first.scan ++ second.scan)).1.toOption.map Node.assembly =
        some "#pragma version 8\nint 1\nstore 0 // $x\ndone:\nload 0 // $x\npop\n" := by decide +kernel
    rw [whole] at text
    exact ⟨root, middle, tree, after, parsed, read, whole, Option.some.inj text⟩
  · obtain ⟨fault, after, failed, checked⟩ := standard.parse_refused {} broken.start broken.scan
      (fun fault => fault.value = .stackArgs 2 1) (by decide +kernel)
    have found : fault.value = .stackArgs 2 1 := of_decide_eq_true checked
    have other : fault.value ≠ .unclosedExpression := by simp [found]
    exact ⟨fault, after, found, other, failed,
      (standard.parse_concatenation {} broken.start broken.start broken.scan second.scan).2 fault after failed other⟩

end Dialect

end TealForms
