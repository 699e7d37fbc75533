import Mathlib.Data.List.Forall2
import TealForms.Forms

set_option autoImplicit false

namespace TealForms

namespace Dialect

abbrev Outcome (α : Type) := Except (Located Fault) α × Allocations

def andThen {α β : Type} (outcome : Outcome α) (next : α → Allocations → Outcome β) : Outcome β :=
  match outcome with
  | (.ok value, after) => next value after
  | (.error fault, after) => (.error fault, after)

theorem finish_then (dialect : Dialect) (nesting : Nesting) (before : Allocations) (token : Located Token)
    (children : List Node) :
    dialect.finish nesting before token children =
      andThen (dialect.build before token children) fun node after => (.ok (nesting.add node), after) := by
  rw [finish]
  rcases dialect.build before token children with ⟨fault | node, after⟩ <;> rfl

theorem feed_then (dialect : Dialect) (nesting : Nesting) (before : Allocations) (token : Located Token)
    (rest : List Scanned) :
    dialect.feed nesting before (.ok token :: rest) =
      andThen (dialect.step nesting before token) fun next after => dialect.feed next after rest := by
  rw [feed]
  rcases dialect.step nesting before token with ⟨fault | next, after⟩ <;> rfl

theorem parse_then (dialect : Dialect) (before : Allocations) (start : Location) (tokens : List Scanned) :
    dialect.parse before start tokens =
      andThen (dialect.feed {} before tokens) fun nesting after =>
        match nesting.innermost with
        | some parenthesis => (.error ⟨.unclosedExpression, parenthesis⟩, after)
        | none => dialect.build after ⟨.root, start⟩ nesting.finished.reverse := by
  rw [parse]
  rcases dialect.feed {} before tokens with ⟨fault | nesting, after⟩ <;> rfl

end Dialect

open Dialect (Outcome andThen)

-- A fault of the first side that is excused asks nothing of the second.
structure Likeness where
  token : Located Token → Located Token → Prop
  node : Node → Node → Prop
  allocations : Allocations → Allocations → Prop
  fault : Located Fault → Located Fault → Prop
  excused : Located Fault → Prop

namespace Likeness

def Fails (like : Likeness) (found given : Located Fault) : Prop := like.excused found ∨ like.fault found given

def Follows (like : Likeness) {α : Type} (value : α → α → Prop) :
    Outcome α → Outcome α → Prop
  | (.ok first, after), outcome => ∃ second left, outcome = (.ok second, left) ∧ value first second ∧
      like.allocations after left
  | (.error found, _), outcome => like.excused found ∨ ∃ given left, outcome = (.error given, left) ∧
      like.fault found given

def Scans (like : Likeness) : Scanned → Scanned → Prop
  | .ok token, .ok other => like.token token other
  | .error failure, .error other => like.Fails (failure.map .input) (other.map .input)
  | _, _ => False

def Unclosed (like : Likeness) (parenthesis other : Location) : Prop :=
  like.Fails ⟨.unclosedExpression, parenthesis⟩ ⟨.unclosedExpression, other⟩

structure Forms (like : Likeness) (form other : OpenForm) : Prop where
  parenthesis : like.Unclosed form.parenthesis other.parenthesis
  head : like.token form.head other.head
  children : List.Forall₂ like.node form.children other.children

structure Nestings (like : Likeness) (nesting other : Nesting) : Prop where
  pending : Option.Rel like.Unclosed nesting.pending other.pending
  forms : List.Forall₂ like.Forms nesting.forms other.forms
  finished : List.Forall₂ like.node nesting.finished other.finished

theorem fails_follows (like : Likeness) {α : Type} (value : α → α → Prop) (found given : Located Fault)
    (after left : Allocations) (fails : like.Fails found given) :
    like.Follows value (.error found, after) (.error given, left) :=
  fails.imp id fun alike => ⟨given, left, rfl, alike⟩

theorem then_follows (like : Likeness) {α β : Type} (value : α → α → Prop) (result : β → β → Prop)
    (first second : Outcome α) (next other : α → Allocations → Outcome β) (follows : like.Follows value first second)
    (later : ∀ found given after left, value found given → like.allocations after left →
      like.Follows result (next found after) (other given left)) :
    like.Follows result (andThen first next) (andThen second other) := by
  obtain ⟨found | found, after⟩ := first
  · rcases follows with excused | ⟨given, left, rfl, alike⟩
    · exact .inl excused
    · exact .inr ⟨given, left, rfl, alike⟩
  · obtain ⟨given, left, rfl, alike, kept⟩ := follows
    exact later found given after left alike kept

theorem add_nested (like : Likeness) (nesting other : Nesting) (node twin : Node) (nested : like.Nestings nesting other)
    (alike : like.node node twin) : like.Nestings (nesting.add node) (other.add twin) := by
  obtain ⟨pending, forms, finished⟩ := nesting
  obtain ⟨waiting, outer, done⟩ := other
  obtain ⟨first, second, third⟩ := nested
  cases second with
  | nil => exact ⟨first, .nil, .cons alike third⟩
  | cons form later => exact ⟨first, .cons ⟨form.parenthesis, form.head, .cons alike form.children⟩ later, third⟩

end Likeness

-- Only parentheses and the token of a whole program are ever refused as they stand.
structure Comparison (first second : Dialect) extends Likeness where
  kinds : ∀ token other, toLikeness.token token other → other.value.kind = token.value.kind
  invalid : ∀ token other, toLikeness.token token other →
    token.value.kind = .opening ∨ token.value.kind = .closing ∨ token.value.kind = .root →
    toLikeness.Fails (Dialect.invalid token) (Dialect.invalid other)
  unclosed : ∀ token other, toLikeness.token token other → toLikeness.Unclosed token.location other.location
  builds : ∀ before left token other children others, toLikeness.allocations before left →
    toLikeness.token token other → List.Forall₂ toLikeness.node children others →
    toLikeness.Follows toLikeness.node (first.build before token children) (second.build left other others)

namespace Comparison

section

variable {first second : Dialect} (comparison : Comparison first second)

theorem finish_follows (nesting twin : Nesting) (before left : Allocations) (token other : Located Token)
    (children others : List Node) (nested : comparison.Nestings nesting twin)
    (kept : comparison.allocations before left) (alike : comparison.token token other)
    (below : List.Forall₂ comparison.node children others) :
    comparison.Follows comparison.Nestings (first.finish nesting before token children)
      (second.finish twin left other others) := by
  have follows := comparison.builds before left token other children others kept alike below
  rw [Dialect.finish_then, Dialect.finish_then]
  refine comparison.then_follows _ _ _ _ _ _ follows ?_
  intro node made after later alike kept
  exact ⟨_, _, rfl, comparison.add_nested nesting twin node made nested alike, kept⟩

theorem step_follows (nesting twin : Nesting) (before left : Allocations) (token other : Located Token)
    (nested : comparison.Nestings nesting twin) (kept : comparison.allocations before left)
    (alike : comparison.token token other) :
    comparison.Follows comparison.Nestings (first.step nesting before token) (second.step twin left other) := by
  have same := comparison.kinds token other alike
  have invalid (refused : token.value.kind = .opening ∨ token.value.kind = .closing ∨ token.value.kind = .root) :=
    comparison.fails_follows comparison.Nestings _ _ before left (comparison.invalid token other alike refused)
  have finished := comparison.finish_follows nesting twin before left token other [] [] nested kept alike .nil
  have opens := comparison.unclosed token other alike
  obtain ⟨⟨kind, text⟩, location⟩ := token
  obtain ⟨⟨_, word⟩, place⟩ := other
  cases same
  obtain ⟨pending, forms, done⟩ := nesting
  obtain ⟨waiting, outer, complete⟩ := twin
  obtain ⟨pendings, inside, nodes⟩ := nested
  dsimp only at pendings inside nodes
  cases pendings with
  | none =>
      cases kind with
      | opening => exact ⟨_, _, rfl, ⟨.some opens, inside, nodes⟩, kept⟩
      | root => exact invalid (.inr (.inr rfl))
      | closing =>
          cases inside with
          | nil => exact invalid (.inr (.inl rfl))
          | cons form later =>
              exact comparison.finish_follows _ _ before left _ _ _ _ ⟨.none, later, nodes⟩ kept form.head
                (List.rel_reverse form.children)
      | _ => exact finished
  | some parenthesis =>
      cases kind with
      | opening => exact invalid (.inl rfl)
      | closing => exact invalid (.inr (.inl rfl))
      | root => exact invalid (.inr (.inr rfl))
      | _ => exact ⟨_, _, rfl, ⟨.none, .cons ⟨parenthesis, alike, .nil⟩ inside, nodes⟩, kept⟩

theorem feed_follows (tokens others : List Scanned) (nesting twin : Nesting) (before left : Allocations)
    (read : List.Forall₂ comparison.Scans tokens others) (nested : comparison.Nestings nesting twin)
    (kept : comparison.allocations before left) :
    comparison.Follows comparison.Nestings (first.feed nesting before tokens) (second.feed twin left others) := by
  induction read generalizing nesting twin before left with
  | nil => exact ⟨_, _, rfl, nested, kept⟩
  | @cons scanned other tokens others alike _ ih =>
      cases scanned with
      | error failure =>
          cases other with
          | ok token => exact alike.elim
          | error given => exact comparison.fails_follows _ _ _ _ _ alike
      | ok token =>
          cases other with
          | error given => exact alike.elim
          | ok word =>
              have follows := comparison.step_follows nesting twin before left token word nested kept alike
              rw [Dialect.feed_then, Dialect.feed_then]
              refine comparison.then_follows _ _ _ _ _ _ follows ?_
              intro next following after later nested kept
              exact ih next following after later nested kept

theorem innermost_alike (nesting twin : Nesting) (nested : comparison.Nestings nesting twin) :
    Option.Rel comparison.Unclosed nesting.innermost twin.innermost := by
  obtain ⟨pending, forms, done⟩ := nesting
  obtain ⟨waiting, outer, complete⟩ := twin
  obtain ⟨pendings, inside, _⟩ := nested
  dsimp only at pendings inside
  cases pendings with
  | some parenthesis => exact .some parenthesis
  | none =>
      cases inside with
      | nil => exact .none
      | cons form _ => exact .some form.parenthesis

theorem parse_follows (tokens others : List Scanned) (before left : Allocations) (start origin : Location)
    (read : List.Forall₂ comparison.Scans tokens others) (kept : comparison.allocations before left)
    (root : comparison.token ⟨.root, start⟩ ⟨.root, origin⟩) :
    comparison.Follows comparison.node (first.parse before start tokens) (second.parse left origin others) := by
  have follows := comparison.feed_follows tokens others {} {} before left read ⟨.none, .nil, .nil⟩ kept
  rw [Dialect.parse_then, Dialect.parse_then]
  refine comparison.then_follows _ _ _ _ _ _ follows ?_
  intro nesting twin after later nested kept
  have unclosed := comparison.innermost_alike nesting twin nested
  generalize nesting.innermost = open_ at unclosed
  generalize twin.innermost = waiting at unclosed
  cases unclosed with
  | some fails => exact comparison.fails_follows _ _ _ _ _ fails
  | none => exact comparison.builds after later _ _ _ _ kept root (List.rel_reverse nested.finished)

end

end Comparison

end TealForms
