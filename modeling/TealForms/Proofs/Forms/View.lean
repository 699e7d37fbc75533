import TealForms.Proofs.Build.View
import TealForms.Proofs.Forms.Grammar
import TealForms.Proofs.Session.Calls

set_option autoImplicit false

namespace TealForms

def OpenForm.seen (view : View) (form : OpenForm) : OpenForm :=
  ⟨view.place form.parenthesis, view.located form.head, Node.seenAll view form.children⟩

def Call.seen (view : View) (call : Call) : Call := ⟨view.located call.token, Node.seenAll view call.children⟩

namespace Nesting

def seen (view : View) (nesting : Nesting) : Nesting :=
  ⟨nesting.pending.map view.place, nesting.forms.map (OpenForm.seen view), Node.seenAll view nesting.finished⟩

theorem seen_add (view : View) (nesting : Nesting) (node : Node) :
    (nesting.add node).seen view =
      if view.skips node then nesting.seen view else (nesting.seen view).add (node.seen view) := by
  obtain ⟨pending, forms, finished⟩ := nesting
  cases forms <;> cases skipped : view.skips node <;> simp [add, seen, OpenForm.seen, Node.seenAll, skipped]

theorem seen_shift (view : View) (nesting : Nesting) (token : Located Token) :
    (nesting.seen view).shift (view.located token) =
      (nesting.shift token).map fun shifted => (shifted.1.seen view, shifted.2.map (Call.seen view)) := by
  obtain ⟨pending, forms, finished⟩ := nesting
  obtain ⟨⟨kind, text⟩, location⟩ := token
  cases pending with
  | some parenthesis => cases kind <;> rfl
  | none =>
      cases kind with
      | closing =>
          cases forms with
          | nil => rfl
          | cons form outer => simp [shift, seen, OpenForm.seen, Call.seen, View.located, Node.seen_all_reverse]
      | _ => rfl

theorem shift_pending (nesting next : Nesting) (call : Option Call) (token : Located Token)
    (other : token.value.kind ≠ .opening) (shifted : nesting.shift token = some (next, call)) : next.pending = none := by
  obtain ⟨pending, forms, finished⟩ := nesting
  obtain ⟨⟨kind, text⟩, location⟩ := token
  cases pending <;> cases kind <;> cases forms <;> cases shifted <;> first | rfl | contradiction

theorem seen_innermost (view : View) (nesting : Nesting) :
    (nesting.seen view).innermost = nesting.innermost.map view.place := by
  obtain ⟨pending, forms, finished⟩ := nesting
  cases pending <;> cases forms <;> rfl

end Nesting

namespace View

theorem located_iff {α : Type} (view : View) (item other : Located α) :
    view.located item = view.located other ↔
      item.value = other.value ∧ view.place item.location = view.place other.location := by
  simp [located]

theorem ok_seen {α : Type} (view : View) (value : α → α) (found given : α) (after left : Allocations)
    (same : value found = value given) (kept : after.seen view = left.seen view) :
    view.outcome value (.ok found, after) = view.outcome value (.ok given, left) :=
  Prod.ext (congrArg Except.ok same) kept

theorem error_seen {α : Type} (view : View) (value : α → α) (found given : Located Fault) (after left : Allocations)
    (same : view.located found = view.located given) (kept : after.seen view = left.seen view) :
    view.outcome value (.error found, after) = view.outcome value (.error given, left) :=
  Prod.ext (congrArg Except.error same) kept

theorem outcome_cases {α : Type} (view : View) (value : α → α) (first second : Dialect.Outcome α)
    (same : view.outcome value first = view.outcome value second) :
    (∃ found given after left, first = (.ok found, after) ∧ second = (.ok given, left) ∧ value found = value given ∧
      after.seen view = left.seen view) ∨
    ∃ found given after left, first = (.error found, after) ∧ second = (.error given, left) ∧
      view.located found = view.located given ∧ after.seen view = left.seen view := by
  obtain ⟨found | found, after⟩ := first <;> obtain ⟨given | given, left⟩ := second <;>
    obtain ⟨values, kept⟩ := Prod.mk.inj same
  · exact .inr ⟨found, given, after, left, rfl, rfl, Except.error.inj values, kept⟩
  · cases values
  · cases values
  · exact .inl ⟨found, given, after, left, rfl, rfl, Except.ok.inj values, kept⟩

-- Hidden comments may be added, but not directly after an opening parenthesis; `opened` says that one stands before
-- the lists.
inductive Reads (view : View) : Bool → List Scanned → List Scanned → Prop where
  | nil (opened : Bool) : Reads view opened [] []
  | skip (token : Located Token) (tokens others : List Scanned) (hides : view.hides = true)
      (comment : token.value.kind = .comment) (later : Reads view false tokens others) :
      Reads view false tokens (.ok token :: others)
  | token (opened : Bool) (token other : Located Token) (tokens others : List Scanned)
      (same : view.located token = view.located other)
      (later : Reads view (token.value.kind = .opening) tokens others) :
      Reads view opened (.ok token :: tokens) (.ok other :: others)
  | failure (opened : Bool) (failure other : Located ReadFailure) (tokens others : List Scanned)
      (same : view.located failure = view.located other) :
      Reads view opened (.error failure :: tokens) (.error other :: others)

end View

namespace Dialect

section

variable (dialect : Dialect) (view : View)

theorem then_seen {α β : Type} (value : α → α) (result : β → β) (first second : Outcome α)
    (next other : α → Allocations → Outcome β) (same : view.outcome value first = view.outcome value second)
    (later : ∀ found given after left, first = (.ok found, after) → second = (.ok given, left) →
      value found = value given → after.seen view = left.seen view →
      view.outcome result (next found after) = view.outcome result (other given left)) :
    view.outcome result (andThen first next) = view.outcome result (andThen second other) := by
  rcases view.outcome_cases value first second same with ⟨found, given, after, left, rfl, rfl, alike, kept⟩ |
    ⟨found, given, after, left, rfl, rfl, alike, kept⟩
  · exact later found given after left rfl rfl alike kept
  · exact view.error_seen result found given after left alike kept

theorem finish_seen (nesting twin : Nesting) (before left : Allocations) (call other : Call)
    (nested : nesting.seen view = twin.seen view) (kept : before.seen view = left.seen view)
    (same : call.seen view = other.seen view) :
    view.outcome (Nesting.seen view) (dialect.finish nesting before call.token call.children) =
      view.outcome (Nesting.seen view) (dialect.finish twin left other.token other.children) := by
  obtain ⟨token, children⟩ := Call.mk.inj same
  rw [finish_then, finish_then]
  refine then_seen view (Node.seen view) _ _ _ _ _ ?_ ?_
  · rw [← build_seen, ← build_seen, kept, token, children]
  · intro node made after later _ _ nodes kept
    have skipped : view.skips node = view.skips made := by
      rw [View.skips, ← Node.seen_comment view node, nodes, Node.seen_comment, View.skips]
    refine view.ok_seen (Nesting.seen view) _ _ after later ?_ kept
    rw [Nesting.seen_add, Nesting.seen_add, nested, skipped, nodes]

theorem step_seen (nesting twin : Nesting) (before left : Allocations) (token other : Located Token)
    (nested : nesting.seen view = twin.seen view) (kept : before.seen view = left.seen view)
    (same : view.located token = view.located other) :
    view.outcome (Nesting.seen view) (dialect.step nesting before token) =
      view.outcome (Nesting.seen view) (dialect.step twin left other) := by
  have shifted := nesting.seen_shift view token
  rw [nested, same, twin.seen_shift view other] at shifted
  rw [step_shift, step_shift]
  generalize twin.shift other = behind at shifted ⊢
  generalize nesting.shift token = ahead at shifted ⊢
  rcases behind with _ | ⟨following, _ | second⟩ <;> rcases ahead with _ | ⟨next, _ | first⟩
  · obtain ⟨value, place⟩ := (view.located_iff token other).mp same
    refine view.error_seen (Nesting.seen view) _ _ before left ?_ kept
    exact (view.located_iff _ _).mpr ⟨congrArg (fun word : Token => Fault.invalidToken word.text) value, place⟩
  · cases shifted
  · cases shifted
  · cases shifted
  · obtain ⟨after, _⟩ := Prod.mk.inj (Option.some.inj shifted)
    exact view.ok_seen (Nesting.seen view) next following before left after.symm kept
  · cases (Prod.mk.inj (Option.some.inj shifted)).2
  · cases shifted
  · cases (Prod.mk.inj (Option.some.inj shifted)).2
  · obtain ⟨after, calls⟩ := Prod.mk.inj (Option.some.inj shifted)
    exact dialect.finish_seen view next following before left first second after.symm kept (Option.some.inj calls).symm

theorem finish_pending (nesting next : Nesting) (before after : Allocations) (token : Located Token)
    (children : List Node) (finished : dialect.finish nesting before token children = (.ok next, after)) :
    next.pending = nesting.pending := by
  rw [finish_then] at finished
  obtain ⟨node, _, _, added⟩ := then_ok _ _ _ _ finished
  cases added
  exact (nesting.add_forms node).1

theorem step_pending (nesting next : Nesting) (before after : Allocations) (token : Located Token)
    (other : token.value.kind ≠ .opening) (stepped : dialect.step nesting before token = (.ok next, after)) :
    next.pending = none := by
  rw [step_shift] at stepped
  rcases shifted : nesting.shift token with _ | ⟨following, _ | call⟩
  · rw [shifted] at stepped
    cases stepped
  · rw [shifted] at stepped
    cases stepped
    exact nesting.shift_pending next none token other shifted
  · rw [shifted] at stepped
    rw [dialect.finish_pending following next before after call.token call.children stepped]
    exact nesting.shift_pending following _ token other shifted

theorem step_comment (nesting : Nesting) (before : Allocations) (token : Located Token)
    (comment : token.value.kind = .comment) (free : nesting.pending = none) :
    dialect.step nesting before token = (.ok (nesting.add (.mk token .comment [])), before) := by
  obtain ⟨pending, forms, finished⟩ := nesting
  cases free
  simp [step, comment, finish, build, resolve]

-- By induction on how the tokens look the same. A hidden comment is no head, as nothing waits for one before it.
theorem feed_seen (opened : Bool) (tokens others : List Scanned) (reads : view.Reads opened tokens others)
    (nesting twin : Nesting) (before left : Allocations) (nested : nesting.seen view = twin.seen view)
    (kept : before.seen view = left.seen view) (free : opened = false → twin.pending = none) :
    view.outcome (Nesting.seen view) (dialect.feed nesting before tokens) =
      view.outcome (Nesting.seen view) (dialect.feed twin left others) := by
  induction reads generalizing nesting twin before left with
  | nil opened => exact view.ok_seen (Nesting.seen view) nesting twin before left nested kept
  | skip token tokens others hides comment _ ih =>
      rw [feed_then, dialect.step_comment twin left token comment (free rfl)]
      have skipped : view.skips (.mk token .comment []) = true := by rw [View.skips, hides]; rfl
      refine ih nesting _ before left ?_ kept fun _ => ?_
      · rw [Nesting.seen_add, if_pos skipped, nested]
      · rw [(twin.add_forms _).1, free rfl]
  | token opened token other tokens others same _ ih =>
      rw [feed_then, feed_then]
      have stepped := dialect.step_seen view nesting twin before left token other nested kept same
      refine then_seen view (Nesting.seen view) _ _ _ _ _ stepped ?_
      intro next following after later _ given nested kept
      refine ih next following after later nested kept fun closed => ?_
      have kind := of_decide_eq_false closed
      rw [((view.located_iff token other).mp same).1] at kind
      exact dialect.step_pending twin following left later other kind given
  | failure opened failure other tokens others same =>
      obtain ⟨value, place⟩ := (view.located_iff failure other).mp same
      refine view.error_seen (Nesting.seen view) _ _ before left ?_ kept
      exact (view.located_iff _ _).mpr ⟨congrArg Fault.input value, place⟩

theorem parse_seen (tokens others : List Scanned) (reads : view.Reads false tokens others) (before left : Allocations)
    (kept : before.seen view = left.seen view) (start origin : Location) (same : view.place start = view.place origin) :
    view.outcome (Node.seen view) (dialect.parse before start tokens) =
      view.outcome (Node.seen view) (dialect.parse left origin others) := by
  have fed := dialect.feed_seen view false tokens others reads {} {} before left rfl kept fun _ => rfl
  rw [parse_then, parse_then]
  refine then_seen view (Nesting.seen view) _ _ _ _ _ fed ?_
  intro nesting twin after later _ _ nested kept
  have innermost : nesting.innermost.map view.place = twin.innermost.map view.place := by
    rw [← Nesting.seen_innermost, nested, Nesting.seen_innermost]
  have below := congrArg Nesting.finished nested
  generalize nesting.innermost = first at innermost
  generalize twin.innermost = second at innermost
  -- Either both are left open, or both roots are built.
  rcases first with _ | parenthesis <;> rcases second with _ | opening
  · have root : view.located ⟨Token.root, start⟩ = view.located ⟨Token.root, origin⟩ :=
      (view.located_iff _ _).mpr ⟨rfl, same⟩
    dsimp only [Nesting.seen] at below ⊢
    rw [← build_seen, ← build_seen, kept, root, Node.seen_all_reverse, below, Node.seen_all_reverse]
  · cases innermost
  · cases innermost
  · refine view.error_seen (Node.seen view) _ _ after later ?_ kept
    exact (view.located_iff _ _).mpr ⟨rfl, Option.some.inj innermost⟩

end

end Dialect

end TealForms
