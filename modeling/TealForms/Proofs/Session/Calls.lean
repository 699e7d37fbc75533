import TealForms.Forms

set_option autoImplicit false

namespace TealForms

structure Call where
  token : Located Token
  children : List Node

inductive Step where
  | parse (start : Location) (tokens : List Scanned)
  | build (token : Located Token) (children : List Node)

def Nesting.call? (nesting : Nesting) (token : Located Token) : Option Call :=
  match nesting.pending, token.value.kind with
  | some _, _ | none, .opening | none, .root => none
  | none, .closing => nesting.forms.head?.map fun form => ⟨form.head, form.children.reverse⟩
  | none, _ => some ⟨token, []⟩

-- What a token leaves of the nesting, with the call that it makes then; nothing if it is refused.
def Nesting.shift (nesting : Nesting) (token : Located Token) : Option (Nesting × Option Call) :=
  match nesting.pending, token.value.kind with
  | some _, .opening | some _, .closing | _, .root => none
  | some parenthesis, _ =>
      some ({ nesting with pending := none, forms := ⟨parenthesis, token, []⟩ :: nesting.forms }, none)
  | none, .opening => some ({ nesting with pending := some token.location }, none)
  | none, .closing =>
      match nesting.forms with
      | [] => none
      | form :: outer => some ({ nesting with forms := outer }, some ⟨form.head, form.children.reverse⟩)
  | none, _ => some (nesting, some ⟨token, []⟩)

theorem Nesting.call_shift (nesting : Nesting) (token : Located Token) :
    nesting.call? token = (nesting.shift token).bind Prod.snd := by
  obtain ⟨pending, forms, finished⟩ := nesting
  obtain ⟨⟨kind, text⟩, location⟩ := token
  cases pending <;> cases kind <;> cases forms <;> rfl

namespace Dialect

def callResult (dialect : Dialect) (allocations : Allocations) (call : Call) :
    Except (Located Fault) Node × Allocations :=
  dialect.build allocations call.token call.children

def feedCalls (dialect : Dialect) (nesting : Nesting) (allocations : Allocations) : List Scanned → List Call
  | [] => []
  | .error _ :: _ => []
  | .ok token :: rest =>
      (nesting.call? token).toList ++
        match dialect.step nesting allocations token with
        | (.ok nesting, allocations) => dialect.feedCalls nesting allocations rest
        | (.error _, _) => []

def parseCalls (dialect : Dialect) (allocations : Allocations) (start : Location) (tokens : List Scanned) :
    List Call :=
  dialect.feedCalls {} allocations tokens ++
    match (dialect.feed {} allocations tokens).1 with
    | .error _ => []
    | .ok nesting =>
        match nesting.innermost with
        | some _ => []
        | none => [⟨⟨.root, start⟩, nesting.finished.reverse⟩]

def stepResult (dialect : Dialect) (allocations : Allocations) : Step → Except (Located Fault) Node × Allocations
  | .parse start tokens => dialect.parse allocations start tokens
  | .build token children => dialect.build allocations token children

def stepCalls (dialect : Dialect) (allocations : Allocations) : Step → List Call
  | .parse start tokens => dialect.parseCalls allocations start tokens
  | .build token children => [⟨token, children⟩]

def session (dialect : Dialect) (allocations : Allocations) : List Step → Allocations
  | [] => allocations
  | step :: rest => dialect.session (dialect.stepResult allocations step).2 rest

-- Whatever a step does to the allocations, it does by calls of `build`.
def calls (dialect : Dialect) (allocations : Allocations) : List Step → List Call
  | [] => []
  | step :: rest =>
      dialect.stepCalls allocations step ++ dialect.calls (dialect.stepResult allocations step).2 rest

def replay (dialect : Dialect) (allocations : Allocations) : List Call → Allocations
  | [] => allocations
  | call :: rest => dialect.replay (dialect.callResult allocations call).2 rest

def built (dialect : Dialect) (allocations : Allocations) : List Call → List Node
  | [] => []
  | call :: rest =>
      (dialect.callResult allocations call).1.toOption.toList ++
        dialect.built (dialect.callResult allocations call).2 rest

theorem replay_append (dialect : Dialect) (allocations : Allocations) (first second : List Call) :
    dialect.replay allocations (first ++ second) = dialect.replay (dialect.replay allocations first) second := by
  induction first generalizing allocations with
  | nil => rfl
  | cons call rest ih => exact ih (dialect.callResult allocations call).2

theorem built_append (dialect : Dialect) (allocations : Allocations) (first second : List Call) :
    dialect.built allocations (first ++ second) =
      dialect.built allocations first ++ dialect.built (dialect.replay allocations first) second := by
  induction first generalizing allocations with
  | nil => rfl
  | cons call rest ih => simp [built, replay, ih]

theorem finish_replay (dialect : Dialect) (nesting : Nesting) (allocations : Allocations) (token : Located Token)
    (children : List Node) :
    (dialect.finish nesting allocations token children).2 = dialect.replay allocations [⟨token, children⟩] := by
  rw [finish, replay, replay, callResult]
  split <;> simp_all

theorem step_shift (dialect : Dialect) (nesting : Nesting) (allocations : Allocations) (token : Located Token) :
    dialect.step nesting allocations token =
      match nesting.shift token with
      | none => (.error (invalid token), allocations)
      | some (next, none) => (.ok next, allocations)
      | some (next, some call) => dialect.finish next allocations call.token call.children := by
  obtain ⟨pending, forms, finished⟩ := nesting
  obtain ⟨⟨kind, text⟩, location⟩ := token
  cases pending <;> cases kind <;> cases forms <;> rfl

theorem step_replay (dialect : Dialect) (nesting : Nesting) (allocations : Allocations) (token : Located Token) :
    (dialect.step nesting allocations token).2 = dialect.replay allocations (nesting.call? token).toList := by
  rw [step_shift, nesting.call_shift]
  rcases nesting.shift token with _ | ⟨next, _ | call⟩
  · rfl
  · rfl
  · exact dialect.finish_replay next allocations call.token call.children

theorem feed_replay (dialect : Dialect) (nesting : Nesting) (allocations : Allocations) (tokens : List Scanned) :
    (dialect.feed nesting allocations tokens).2 =
      dialect.replay allocations (dialect.feedCalls nesting allocations tokens) := by
  induction tokens generalizing nesting allocations with
  | nil => rfl
  | cons scanned rest ih =>
      cases scanned with
      | error failure => rfl
      | ok token =>
          have here := dialect.step_replay nesting allocations token
          rw [feed, feedCalls, replay_append, ← here]
          split
          · rename_i next after stepped
            rw [stepped]
            exact ih next after
          · rename_i fault after stepped
            rw [stepped]
            rfl

theorem parse_replay (dialect : Dialect) (allocations : Allocations) (start : Location) (tokens : List Scanned) :
    (dialect.parse allocations start tokens).2 =
      dialect.replay allocations (dialect.parseCalls allocations start tokens) := by
  have fed := dialect.feed_replay {} allocations tokens
  rw [parse, parseCalls, replay_append, ← fed]
  split
  · rename_i fault after failed
    rw [failed]
    rfl
  · rename_i nesting after done
    rw [done]
    cases waiting : nesting.innermost <;> simp [waiting, replay, callResult]

theorem step_calls_replay (dialect : Dialect) (allocations : Allocations) (step : Step) :
    dialect.replay allocations (dialect.stepCalls allocations step) = (dialect.stepResult allocations step).2 := by
  cases step with
  | parse start tokens => exact (dialect.parse_replay allocations start tokens).symm
  | build token children => rfl

theorem session_replay (dialect : Dialect) (allocations : Allocations) (steps : List Step) :
    dialect.replay allocations (dialect.calls allocations steps) = dialect.session allocations steps := by
  induction steps generalizing allocations with
  | nil => rfl
  | cons step rest ih => rw [calls, replay_append, step_calls_replay, ih, session]

end Dialect

end TealForms
