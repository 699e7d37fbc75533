import Mathlib.Data.List.Induction
import TealForms.Proofs.Allocations.Log
import TealForms.Proofs.Build.Failed
import TealForms.Proofs.Build.Ledger
import TealForms.Proofs.Session.Calls

set_option autoImplicit false

namespace TealForms

namespace Node

def declared? : Node → Option String
  | .mk token .label _ => some token.value.labelName
  | _ => none

def generated? : Node → Option String
  | .mk _ (.case label) _ | .mk _ (.choice label) _ | .mk _ (.loop label) _ => some label
  | _ => none

end Node

namespace Allocations

def Adds (condition : String → Prop) (before after : Allocations) : Prop :=
  ∃ added, after.events = before.events ++ added ∧ ∀ label, .labelSkipped label ∈ added → condition label

section

variable (condition : String → Prop) (allocations : Allocations)

theorem adds_nothing : Adds condition allocations allocations := ⟨[], by simp⟩

theorem slot_adds (reuse : Bool) (name : String) :
    Adds condition allocations (allocations.allocateSlot reuse name).2 := by
  rw [allocateSlot]
  split
  · exact adds_nothing condition allocations
  · dsimp only
    split
    · exact ⟨_, rfl, by simp⟩
    · exact adds_nothing condition allocations

end

theorem label_adds {declared generated : List String} {allocations : Allocations}
    (logged : Logged declared generated allocations) (family : Family) :
    Adds (Blocked declared) allocations (allocations.allocateLabel family).2 := by
  refine ⟨_, List.append_assoc _ _ _, ?_⟩
  intro label member
  obtain ⟨number, passed, rfl⟩ : ∃ number ∈ allocations.passed family, family.label number = label := by
    simpa using member
  exact passed_blocked logged family number passed

end Allocations

namespace Dialect

open Allocations (Adds Blocked Logged)

section

variable {declared generated : List String} {before : Allocations} (logged : Logged declared generated before)

include logged

theorem settled_logged (dialect : Dialect) (after : Allocations) (token : Located Token) (children : List Node)
    (kind : Kind Node) (settled : dialect.Settled before token.value children kind after) :
    Logged (declared ++ [Node.mk token kind children].filterMap Node.declared?)
        (generated ++ [Node.mk token kind children].filterMap Node.generated?) after ∧
      Adds (Blocked declared) before after := by
  cases settled with
  | store record slot after _ _ allocated =>
      have result := Allocations.logged_slot logged dialect.options.reuse token.value.text
      have added := before.slot_adds (Blocked declared) dialect.options.reuse token.value.text
      rw [allocated] at result added
      simp only [Node.declared?, Node.generated?, List.filterMap_cons, List.filterMap_nil, List.append_nil]
      exact ⟨result, added⟩
  | definition value literal =>
      simp only [Node.declared?, Node.generated?, List.filterMap_cons, List.filterMap_nil, List.append_nil]
      exact ⟨Allocations.logged_bind logged token.value.text literal, _, rfl, by simp⟩
  | label =>
      simp only [Node.declared?, Node.generated?, List.filterMap_cons, List.filterMap_nil, List.append_nil]
      exact ⟨Allocations.logged_declare logged token.value.labelName, [], by simp [Allocations.declare]⟩
  | case | loop | choice =>
      simp only [Node.declared?, Node.generated?, List.filterMap_cons, List.filterMap_nil, List.append_nil]
      exact ⟨Allocations.logged_generate logged _, Allocations.label_adds logged _⟩
  | _ =>
      simp only [Node.declared?, Node.generated?, List.filterMap_cons, List.filterMap_nil, List.append_nil]
      exact ⟨logged, before.adds_nothing _⟩

theorem call_logged (dialect : Dialect) (call : Call) :
    let outcome := dialect.callResult before call
    Logged (declared ++ outcome.1.toOption.toList.filterMap Node.declared?)
        (generated ++ outcome.1.toOption.toList.filterMap Node.generated?) outcome.2 ∧
      Adds (Blocked declared) before outcome.2 := by
  intro outcome
  obtain ⟨⟨result, after⟩, built⟩ : ∃ pair, dialect.build before call.token call.children = pair := ⟨_, rfl⟩
  rw [show outcome = (result, after) from built]
  cases result with
  | ok node =>
      obtain ⟨kind, rfl, settled⟩ := dialect.build_settled before after call.token call.children node built
      exact dialect.settled_logged logged after call.token call.children kind settled
  | error fault =>
      simp only [Except.toOption, Option.toList_none, List.filterMap_nil, List.append_nil]
      rcases dialect.build_failed before after call.token call.children fault built with rfl | rfl
      · exact ⟨logged, after.adds_nothing _⟩
      · exact ⟨Allocations.logged_slot logged _ _, before.slot_adds _ _ _⟩

end

theorem build_single (dialect : Dialect) (before : Allocations) (token : Located Token) (children : List Node)
    (single : (before.constants.map Prod.fst).Nodup) :
    ((dialect.build before token children).2.constants.map Prod.fst).Nodup := by
  obtain ⟨⟨result, after⟩, built⟩ : ∃ outcome, dialect.build before token children = outcome := ⟨_, rfl⟩
  rw [built]
  cases result with
  | ok node =>
      obtain ⟨kind, rfl, settled⟩ := dialect.build_settled before after token children node built
      exact dialect.settled_single before after token.value children kind settled single
  | error fault => rwa [(dialect.build_failed_others before after token children fault built).2]

theorem replay_single (dialect : Dialect) (before : Allocations) (calls : List Call)
    (single : (before.constants.map Prod.fst).Nodup) :
    ((dialect.replay before calls).constants.map Prod.fst).Nodup := by
  induction calls generalizing before with
  | nil => exact single
  | cons call rest ih => exact ih _ (dialect.build_single before call.token call.children single)

theorem replay_last (dialect : Dialect) (before : Allocations) (calls : List Call) (call : Call) :
    dialect.replay before (calls ++ [call]) = (dialect.callResult (dialect.replay before calls) call).2 := by
  rw [replay_append]
  rfl

theorem built_last (dialect : Dialect) (before : Allocations) (calls : List Call) (call : Call) :
    dialect.built before (calls ++ [call]) =
      dialect.built before calls ++ (dialect.callResult (dialect.replay before calls) call).1.toOption.toList := by
  simp [built_append, built]

theorem replay_logged (dialect : Dialect) (calls : List Call) :
    Logged ((dialect.built {} calls).filterMap Node.declared?) ((dialect.built {} calls).filterMap Node.generated?)
      (dialect.replay {} calls) := by
  induction calls using List.reverseRecOn with
  | nil => exact Allocations.logged_empty
  | append_singleton calls call ih =>
      rw [built_last, replay_last, List.filterMap_append, List.filterMap_append]
      exact (dialect.call_logged ih call).1

-- A record stands among the events of the call that wrote it.
theorem replay_skipped (dialect : Dialect) (calls : List Call) (front rest : List Event) (label : String)
    (here : (dialect.replay {} calls).events = front ++ .labelSkipped label :: rest) :
    ∃ earlier call later, calls = earlier ++ call :: later ∧
      (dialect.replay {} earlier).events <+: front ∧
      front ++ [.labelSkipped label] <+: (dialect.callResult (dialect.replay {} earlier) call).2.events ∧
      Blocked ((dialect.built {} earlier).filterMap Node.declared?) label := by
  induction calls using List.reverseRecOn generalizing rest with
  | nil => simp [replay] at here
  | append_singleton calls call ih =>
      obtain ⟨_, added, events, blocked⟩ := dialect.call_logged (dialect.replay_logged calls) call
      rw [replay_last, events] at here
      have own (between : List Event) (follows : front = (dialect.replay {} calls).events ++ between)
          (written : added = between ++ .labelSkipped label :: rest) :
          ∃ earlier other later, calls ++ [call] = earlier ++ other :: later ∧
            (dialect.replay {} earlier).events <+: front ∧
            front ++ [.labelSkipped label] <+: (dialect.callResult (dialect.replay {} earlier) other).2.events ∧
            Blocked ((dialect.built {} earlier).filterMap Node.declared?) label := by
        refine ⟨calls, call, [], rfl, ⟨between, follows.symm⟩, ⟨rest, ?_⟩, blocked label (by simp [written])⟩
        rw [events, here, List.append_assoc]
        rfl
      rcases List.append_eq_append_iff.mp here with ⟨between, follows, written⟩ | ⟨between, old, rest'⟩
      · exact own between follows written
      · cases between with
        | nil => exact own [] (by simpa using old.symm) (by simpa using rest'.symm)
        | cons event between =>
            obtain ⟨rfl, rfl⟩ := List.cons_eq_cons.mp rest'
            obtain ⟨earlier, other, later, rfl, split⟩ := ih between old
            exact ⟨earlier, other, later ++ [call], by simp, split⟩

/-- Whatever runs and fails, the records of slots are the table of slots with its numbers, those of constants are the
bindings with the texts of their literals, each name once, and those of labels are the labels of the macros built, each
once. A label passed over is none of these, and a program had declared it by then, or the name that ends its loop. -/
theorem session_log (dialect : Dialect) (steps : List Step) :
    let after := dialect.session {} steps
    let generated := (dialect.built {} (dialect.calls {} steps)).filterMap Node.generated?
    after.events.filterMap Event.slot? = after.scratch.zipIdx ∧
    after.events.filterMap Event.bound? = after.constants.map (fun entry => (entry.1, entry.2.token.value.text)) ∧
    (after.constants.map Prod.fst).Nodup ∧
    after.events.filterMap Event.allocated? = generated ∧ generated.Nodup ∧
    ∀ front label rest, after.events = front ++ .labelSkipped label :: rest →
      label ∉ generated ∧
      ∃ earlier call later, dialect.calls {} steps = earlier ++ call :: later ∧
        (dialect.replay {} earlier).events <+: front ∧
        front ++ [.labelSkipped label] <+: (dialect.callResult (dialect.replay {} earlier) call).2.events ∧
        Blocked ((dialect.built {} earlier).filterMap Node.declared?) label := by
  intro after generated
  have logged := dialect.replay_logged (dialect.calls {} steps)
  have single := dialect.replay_single {} (dialect.calls {} steps) List.nodup_nil
  rw [dialect.session_replay] at logged single
  refine ⟨logged.slots, logged.constants, single, logged.labels, logged.distinct, ?_⟩
  intro front label rest here
  have member : label ∈ after.events.filterMap Event.skipped? := by simp [here, Event.skipped?]
  rw [show after = _ from (dialect.session_replay {} steps).symm] at here
  exact ⟨logged.apart label member, dialect.replay_skipped _ front rest label here⟩

end Dialect

end TealForms
