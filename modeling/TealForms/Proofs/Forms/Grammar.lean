import TealForms.Proofs.Forms.Comparison

set_option autoImplicit false

namespace TealForms

-- A parenthesis may not be a head, nor may the token of a whole program.
def Token.IsHead (token : Token) : Prop := token.kind ≠ .opening ∧ token.kind ≠ .closing ∧ token.kind ≠ .root

inductive Form where
  | leaf (token : Located Token)
  | group (opening head : Located Token) (body : List Form) (closing : Located Token)

namespace Form

def head : Form → Located Token
  | leaf token => token
  | group _ head _ _ => head

mutual
def tokens : Form → List (Located Token)
  | leaf token => [token]
  | group opening head body closing => opening :: head :: (tokensAll body ++ [closing])
def tokensAll : List Form → List (Located Token)
  | [] => []
  | form :: rest => tokens form ++ tokensAll rest
end

mutual
def Proper : Form → Prop
  | leaf token => token.value.IsHead
  | group opening head body closing =>
      opening.value.kind = .opening ∧ head.value.IsHead ∧ ProperAll body ∧ closing.value.kind = .closing
def ProperAll : List Form → Prop
  | [] => True
  | form :: rest => Proper form ∧ ProperAll rest
end

def Closes : Nat → List (Located Token) → Prop
  | 0, tokens => ∃ forms, ProperAll forms ∧ tokens = tokensAll forms
  | depth + 1, tokens => ∃ forms closing rest, ProperAll forms ∧ closing.value.kind = .closing ∧ Closes depth rest ∧
      tokens = tokensAll forms ++ closing :: rest

theorem closes_form (depth : Nat) (form : Form) (rest : List (Located Token)) (proper : form.Proper)
    (closes : Closes depth rest) : Closes depth (form.tokens ++ rest) := by
  cases depth with
  | zero =>
      obtain ⟨forms, later, rfl⟩ := closes
      exact ⟨form :: forms, ⟨proper, later⟩, rfl⟩
  | succ depth =>
      obtain ⟨forms, closing, rest, later, closed, outer, rfl⟩ := closes
      exact ⟨form :: forms, closing, rest, ⟨proper, later⟩, closed, outer, by simp [tokensAll]⟩

theorem closes_group (depth : Nat) (opening head : Located Token) (rest : List (Located Token))
    (opened : opening.value.kind = .opening) (named : head.value.IsHead) (closes : Closes (depth + 1) rest) :
    Closes depth (opening :: head :: rest) := by
  obtain ⟨forms, closing, rest, inside, closed, outer, rfl⟩ := closes
  have group := closes_form depth (.group opening head forms closing) rest ⟨opened, named, inside, closed⟩ outer
  simpa [tokens] using group

end Form

namespace Nesting

def Awaits (nesting : Nesting) (tokens : List (Located Token)) : Prop :=
  match nesting.pending with
  | none => Form.Closes nesting.forms.length tokens
  | some _ => ∃ head rest, tokens = head :: rest ∧ head.value.IsHead ∧ Form.Closes (nesting.forms.length + 1) rest

theorem add_forms (nesting : Nesting) (node : Node) :
    (nesting.add node).pending = nesting.pending ∧ (nesting.add node).forms.length = nesting.forms.length := by
  obtain ⟨pending, forms, finished⟩ := nesting
  cases forms <;> exact ⟨rfl, rfl⟩

theorem add_all_finished (nodes finished : List Node) :
    nodes.foldl add { finished } = { finished := nodes.reverse ++ finished } := by
  induction nodes generalizing finished with
  | nil => rfl
  | cons node rest ih =>
      rw [List.foldl_cons, show add { finished } node = { finished := node :: finished } from rfl, ih]
      simp

theorem add_all_inside (nodes : List Node) (pending : Option Location) (form : OpenForm) (outer : List OpenForm)
    (finished : List Node) :
    nodes.foldl add ⟨pending, form :: outer, finished⟩ =
      ⟨pending, { form with children := nodes.reverse ++ form.children } :: outer, finished⟩ := by
  induction nodes generalizing form with
  | nil => rfl
  | cons node rest ih =>
      rw [List.foldl_cons, show add ⟨pending, form :: outer, finished⟩ node =
        ⟨pending, { form with children := node :: form.children } :: outer, finished⟩ from rfl, ih]
      simp

end Nesting

namespace Dialect

theorem then_assoc {α β γ : Type} (outcome : Outcome α) (next : α → Allocations → Outcome β)
    (last : β → Allocations → Outcome γ) :
    andThen (andThen outcome next) last = andThen outcome fun value after => andThen (next value after) last := by
  obtain ⟨fault | value, after⟩ := outcome <;> rfl

theorem then_ok {α β : Type} (outcome : Outcome α) (next : α → Allocations → Outcome β) (result : β)
    (after : Allocations) (ran : andThen outcome next = (.ok result, after)) :
    ∃ value middle, outcome = (.ok value, middle) ∧ next value middle = (.ok result, after) := by
  obtain ⟨fault | value, middle⟩ := outcome
  · cases ran
  · exact ⟨value, middle, rfl, ran⟩

section

variable (dialect : Dialect)

theorem finish_awaits (nesting next : Nesting) (before after : Allocations) (token : Located Token)
    (children : List Node) (rest : List (Located Token)) (closed : nesting.pending = none)
    (finished : dialect.finish nesting before token children = (.ok next, after)) (awaits : next.Awaits rest) :
    Form.Closes nesting.forms.length rest := by
  rw [finish_then] at finished
  obtain ⟨node, _, _, added⟩ := then_ok _ _ _ _ finished
  obtain rfl : nesting.add node = next := by simpa using congrArg Prod.fst added
  obtain ⟨pending, forms⟩ := nesting.add_forms node
  rwa [Nesting.Awaits, pending, closed, forms] at awaits

theorem step_awaits (nesting next : Nesting) (before after : Allocations) (token : Located Token)
    (rest : List (Located Token)) (stepped : dialect.step nesting before token = (.ok next, after))
    (awaits : next.Awaits rest) : nesting.Awaits (token :: rest) := by
  obtain ⟨pending, forms, done⟩ := nesting
  cases pending with
  | some parenthesis =>
      have named : token.value.IsHead ∧
          next = { pending := none, forms := ⟨parenthesis, token, []⟩ :: forms, finished := done } := by
        rw [step] at stepped
        rw [Token.IsHead]
        cases kind : token.value.kind <;> simp_all
      obtain ⟨named, rfl⟩ := named
      exact ⟨token, rest, rfl, named, awaits⟩
  | none =>
      cases kind : token.value.kind with
      | opening =>
          simp only [step, kind] at stepped
          cases stepped
          obtain ⟨head, rest, rfl, named, closes⟩ := awaits
          exact Form.closes_group _ token head rest kind named closes
      | closing =>
          simp only [step, kind] at stepped
          cases forms with
          | nil => cases stepped
          | cons form outer =>
              have closes := dialect.finish_awaits _ next before after _ _ rest rfl stepped awaits
              exact ⟨[], token, rest, trivial, kind, closes, rfl⟩
      | root =>
          simp only [step, kind] at stepped
          cases stepped
      | _ =>
          simp only [step, kind] at stepped
          have closes := dialect.finish_awaits _ next before after _ _ rest rfl stepped awaits
          exact Form.closes_form _ (.leaf token) rest (by simp [Form.Proper, Token.IsHead, kind]) closes

-- What is read until nothing is open closes the groups that are open at its start.
theorem feed_awaits (tokens : List (Located Token)) (nesting last : Nesting) (before after : Allocations)
    (fed : dialect.feed nesting before (tokens.map .ok) = (.ok last, after)) (closed : last.innermost = none) :
    nesting.Awaits tokens := by
  induction tokens generalizing nesting before with
  | nil =>
      obtain rfl : nesting = last := by simpa [feed] using congrArg Prod.fst fed
      obtain ⟨pending, forms, done⟩ := nesting
      cases pending with
      | some parenthesis => cases closed
      | none =>
          cases forms with
          | cons form outer => cases closed
          | nil => exact ⟨[], trivial, rfl⟩
  | cons token rest ih =>
      rw [List.map_cons, feed_then] at fed
      obtain ⟨next, middle, stepped, later⟩ := then_ok _ _ _ _ fed
      exact dialect.step_awaits nesting next before middle token rest stepped (ih next middle later)

theorem parse_forms (before after : Allocations) (start : Location) (tokens : List (Located Token)) (root : Node)
    (parsed : dialect.parse before start (tokens.map .ok) = (.ok root, after)) :
    ∃ forms, Form.ProperAll forms ∧ tokens = Form.tokensAll forms := by
  rw [parse_then] at parsed
  obtain ⟨last, middle, fed, ended⟩ := then_ok _ _ _ _ parsed
  have closed : last.innermost = none := by
    cases open_ : last.innermost with
    | none => rfl
    | some parenthesis => simp [open_] at ended
  exact dialect.feed_awaits tokens {} last before middle fed closed

mutual
def construct (before : Allocations) : Form → Outcome Node
  | .leaf token => dialect.build before token []
  | .group _ head body _ =>
      andThen (constructAll before body) fun nodes after => dialect.build after head nodes
def constructAll (before : Allocations) : List Form → Outcome (List Node)
  | [] => (.ok [], before)
  | form :: rest =>
      andThen (construct before form) fun node after =>
        andThen (constructAll after rest) fun nodes later => (.ok (node :: nodes), later)
end

section

variable (forms : List OpenForm) (done : List Node) (before : Allocations) (token : Located Token)

theorem step_leaf (named : token.value.IsHead) :
    dialect.step ⟨none, forms, done⟩ before token = dialect.finish ⟨none, forms, done⟩ before token [] := by
  obtain ⟨notOpening, notClosing, notRoot⟩ := named
  rw [step]
  cases kind : token.value.kind <;> simp_all

theorem step_head (parenthesis : Location) (named : token.value.IsHead) :
    dialect.step ⟨some parenthesis, forms, done⟩ before token =
      (.ok ⟨none, ⟨parenthesis, token, []⟩ :: forms, done⟩, before) := by
  obtain ⟨notOpening, notClosing, notRoot⟩ := named
  rw [step]
  cases kind : token.value.kind <;> simp_all

theorem step_opening (opened : token.value.kind = .opening) :
    dialect.step ⟨none, forms, done⟩ before token = (.ok ⟨some token.location, forms, done⟩, before) := by
  simp [step, opened]

theorem step_closing (form : OpenForm) (shut : token.value.kind = .closing) :
    dialect.step ⟨none, form :: forms, done⟩ before token =
      dialect.finish ⟨none, forms, done⟩ before form.head form.children.reverse := by
  simp [step, shut]

end

mutual
theorem feed_form (form : Form) (proper : form.Proper) (nesting : Nesting) (closed : nesting.pending = none)
    (before : Allocations) (rest : List Scanned) :
    dialect.feed nesting before (form.tokens.map .ok ++ rest) =
      andThen (dialect.construct before form) fun node after => dialect.feed (nesting.add node) after rest := by
  obtain ⟨pending, forms, done⟩ := nesting
  cases closed
  cases form with
  | leaf token =>
      rw [Form.tokens, List.map_singleton, List.singleton_append, feed_then,
        dialect.step_leaf forms done before token proper, finish_then, then_assoc, construct]
      rfl
  | group opening head body closing =>
      obtain ⟨opened, named, inside, shut⟩ := proper
      rw [Form.tokens, List.map_cons, List.map_cons, List.map_append, List.map_singleton, List.cons_append,
        List.cons_append, List.append_assoc, feed_then, dialect.step_opening forms done before opening opened]
      show dialect.feed _ before _ = _
      rw [feed_then, dialect.step_head forms done before head opening.location named]
      show dialect.feed _ before _ = _
      rw [feed_forms body inside _ rfl, construct, then_assoc]
      refine congrArg _ (funext fun nodes => funext fun after => ?_)
      rw [Nesting.add_all_inside, List.append_nil, List.singleton_append, feed_then,
        dialect.step_closing forms done after closing _ shut, List.reverse_reverse, finish_then, then_assoc]
      rfl
theorem feed_forms (forms : List Form) (proper : Form.ProperAll forms) (nesting : Nesting)
    (closed : nesting.pending = none) (before : Allocations) (rest : List Scanned) :
    dialect.feed nesting before ((Form.tokensAll forms).map .ok ++ rest) =
      andThen (dialect.constructAll before forms) fun nodes after =>
        dialect.feed (nodes.foldl Nesting.add nesting) after rest := by
  cases forms with
  | nil => rfl
  | cons form others =>
      rw [Form.tokensAll, List.map_append, List.append_assoc, feed_form form proper.1 nesting closed, constructAll,
        then_assoc]
      refine congrArg _ (funext fun node => funext fun after => ?_)
      have still : (nesting.add node).pending = none := (nesting.add_forms node).1.trans closed
      rw [feed_forms others proper.2 (nesting.add node) still, then_assoc]
      rfl
end

theorem parse_construct (forms : List Form) (proper : Form.ProperAll forms) (before : Allocations) (start : Location) :
    dialect.parse before start ((Form.tokensAll forms).map .ok) =
      andThen (dialect.constructAll before forms) fun nodes after => dialect.build after ⟨.root, start⟩ nodes := by
  have fed := dialect.feed_forms forms proper {} rfl before []
  rw [List.append_nil] at fed
  rw [parse_then, fed, then_assoc]
  refine congrArg _ (funext fun nodes => funext fun after => ?_)
  rw [Nesting.add_all_finished, List.append_nil, feed]
  exact congrArg (dialect.build after ⟨.root, start⟩) (List.reverse_reverse nodes)

end

end Dialect

end TealForms
