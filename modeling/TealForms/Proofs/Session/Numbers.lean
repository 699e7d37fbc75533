import TealForms.Proofs.Allocations.Search
import TealForms.Proofs.Build.Effect
import TealForms.Proofs.Session.Labels
import TealForms.Proofs.Session.Log

set_option autoImplicit false

namespace TealForms

def Node.labelOf? (family : Family) : Node → Option String
  | .mk _ (.choice label) _ => if family = .choice then some label else none
  | .mk _ (.case label) _ => if family = .case then some label else none
  | .mk _ (.loop label) _ => if family = .loop then some label else none
  | _ => none

theorem Node.label_kind (family other : Family) (token : Located Token) (label : String) (children : List Node) :
    Node.labelOf? family (.mk token (other.kind label) children) = if family = other then some label else none := by
  cases other <;> rfl

namespace Allocations

theorem slot_counters (allocations : Allocations) (reuse : Bool) (name : String) :
    (allocations.allocateSlot reuse name).2.counters = allocations.counters := by
  rcases allocations.allocate_slot_appends reuse name with same | ⟨_, same⟩ <;> rw [same]
  rfl

inductive Advance (declared : List String) (family : Family) (before after : Allocations) (nodes : List Node) :
    Prop where
  | kept (unlabelled : nodes.filterMap (Node.labelOf? family) = [])
      (same : after.counters.get family = before.counters.get family)
  | given (number : Nat) (labelled : nodes.filterMap (Node.labelOf? family) = [family.label number])
      (above : before.counters.get family ≤ number) (goes : after.counters.get family = number + 1)
      (blocked : ∀ passed, before.counters.get family ≤ passed → passed < number →
        Blocked declared (family.label passed))

theorem label_advances {declared generated : List String} {allocations : Allocations}
    (logged : Logged declared generated allocations) (family other : Family) (token : Located Token)
    (children : List Node) :
    Advance declared family allocations (allocations.allocateLabel other).2
      [.mk token (other.kind (allocations.allocateLabel other).1) children] := by
  by_cases own : family = other
  · subst own
    refine .given (allocations.fresh family) ?_ (Nat.le_add_right _ _) ?_ ?_
    · rw [List.filterMap_cons, Node.label_kind, if_pos rfl]
      rfl
    · rw [allocateLabel, Counters.get_set, if_pos rfl]
      rfl
    · intro number above below
      exact passed_blocked logged family number ((allocations.passed_iff family number).mpr ⟨above, below⟩)
  · refine .kept ?_ ?_
    · rw [List.filterMap_cons, Node.label_kind, if_neg own, List.filterMap_nil]
    · rw [allocateLabel, Counters.get_set, if_neg own]

end Allocations

namespace Dialect

open Allocations (Advance Blocked Logged Search)

theorem call_advances (dialect : Dialect) (family : Family) {declared generated : List String} {before : Allocations}
    (logged : Logged declared generated before) (call : Call) :
    Advance declared family before (dialect.callResult before call).2
      (dialect.callResult before call).1.toOption.toList := by
  rw [callResult]
  rcases built : dialect.build before call.token call.children with ⟨fault | node, after⟩
  · refine .kept rfl ?_
    rcases dialect.build_failed before after call.token call.children fault built with rfl | rfl
    · rfl
    · rw [before.slot_counters]
  · obtain ⟨kind, rfl, settled⟩ := dialect.build_settled before after call.token call.children node built
    cases settled with
    | case => exact Allocations.label_advances logged family .case call.token call.children
    | loop => exact Allocations.label_advances logged family .loop call.token call.children
    | choice => exact Allocations.label_advances logged family .choice call.token call.children
    | store record slot after _ _ allocated =>
        refine .kept rfl ?_
        have counters := before.slot_counters dialect.options.reuse call.token.value.text
        rw [allocated] at counters
        rw [counters]
    | _ => exact .kept rfl rfl

structure PassedBy (dialect : Dialect) (family : Family) (number : Nat) (earlier : List Call) (call : Call) : Prop where
  above : (dialect.replay {} earlier).counters.get family ≤ number
  below : number < (dialect.callResult (dialect.replay {} earlier) call).2.counters.get family
  blocked : Blocked ((dialect.built {} earlier).filterMap Node.declared?) (family.label number)

-- No number below the counter is free but those that were given.
structure Numbered (dialect : Dialect) (family : Family) (calls : List Call) (numbers : List Nat) : Prop where
  labels : (dialect.built {} calls).filterMap (Node.labelOf? family) = numbers.map family.label
  rising : numbers.Pairwise (· < ·)
  below : ∀ number ∈ numbers, number < (dialect.replay {} calls).counters.get family
  others : ∀ number < (dialect.replay {} calls).counters.get family, number ∉ numbers →
    ∃ earlier call later, calls = earlier ++ call :: later ∧ dialect.PassedBy family number earlier call

theorem numbered_snoc (dialect : Dialect) (family : Family) (calls : List Call) (call : Call) (numbers : List Nat)
    (numbered : dialect.Numbered family calls numbers) : ∃ after, dialect.Numbered family (calls ++ [call]) after := by
  have logged := dialect.replay_logged calls
  have before (number : Nat) (below : number < (dialect.replay {} calls).counters.get family)
      (absent : number ∉ numbers) :
      ∃ earlier other later, calls ++ [call] = earlier ++ other :: later ∧
        dialect.PassedBy family number earlier other := by
    obtain ⟨earlier, other, later, rfl, passed⟩ := numbered.others number below absent
    exact ⟨earlier, other, later ++ [call], by simp, passed⟩
  cases dialect.call_advances family logged call with
  | kept unlabelled same =>
      refine ⟨numbers, ?_, numbered.rising, ?_, ?_⟩
      · rw [built_last, List.filterMap_append, numbered.labels, unlabelled, List.append_nil]
      · rw [replay_last, same]
        exact numbered.below
      · rw [replay_last, same]
        exact before
  | given number labelled above goes blocked =>
      refine ⟨numbers ++ [number], ?_, ?_, ?_, ?_⟩
      · rw [built_last, List.filterMap_append, numbered.labels, labelled, List.map_append]
        rfl
      · refine List.pairwise_append.mpr ⟨numbered.rising, List.pairwise_singleton _ _, ?_⟩
        intro old member new here
        rw [List.mem_singleton.mp here]
        exact (numbered.below old member).trans_le above
      · rw [replay_last, goes]
        intro given member
        rcases List.mem_append.mp member with old | new
        · exact Nat.lt_succ_of_le ((numbered.below given old).le.trans above)
        · rw [List.mem_singleton.mp new]
          exact Nat.lt_succ_self number
      · rw [replay_last, goes]
        intro passed below absent
        rw [List.mem_append, List.mem_singleton, not_or] at absent
        have early : passed < number := lt_of_le_of_ne (Nat.le_of_lt_succ below) absent.2
        rcases Nat.lt_or_ge passed ((dialect.replay {} calls).counters.get family) with old | new
        · exact before passed old absent.1
        · refine ⟨calls, call, [], rfl, new, ?_, blocked passed new early⟩
          rw [goes]
          exact below

theorem replay_numbered (dialect : Dialect) (family : Family) (calls : List Call) :
    ∃ numbers, dialect.Numbered family calls numbers := by
  induction calls using List.reverseRecOn with
  | nil => exact ⟨[], rfl, .nil, by simp, by cases family <;> simp [replay, Counters.get]⟩
  | append_singleton calls call ih =>
      obtain ⟨numbers, numbered⟩ := ih
      exact dialect.numbered_snoc family calls call numbers numbered

/-- At any time in a session the search for a label ends with the least number whose names are free, if the counter has
room for it, after at most one round more than there are reserved names. So the numbers of a family rise in the order
of its nodes, and every other number below the counter was passed over for a name that the program had declared. -/
theorem session_numbers (dialect : Dialect) (steps : List Step) (family : Family) :
    (∀ earlier later, dialect.calls {} steps = earlier ++ later →
      let before := dialect.replay {} earlier
      let result := before.allocateLabel family
      let counter := before.counters.get family
      result.2.counters.get family < UInt32.size →
      before.labels.Nodup ∧
      ∃ number, IsLeast {number | counter ≤ number ∧ ∀ name ∈ family.names number, name ∉ before.labels} number ∧
        result.1 = family.label number ∧ result.2.counters.get family = number + 1 ∧
        number + 1 - counter ≤ before.labels.length + 1 ∧
        ∀ rounds other, Search family before rounds other ↔ rounds = number + 1 - counter ∧ other = result) ∧
    ∃ numbers, dialect.Numbered family (dialect.calls {} steps) numbers := by
  refine ⟨?_, dialect.replay_numbered family _⟩
  intro earlier later _ before result counter fits
  have search := before.allocate_search family fits
  have bound := before.passed_bound family
  have rounds : before.fresh family + 1 - counter = (before.passed family).length + 1 := by
    rw [Allocations.fresh]
    omega
  have distinct := dialect.replay_distinct {} earlier List.nodup_nil
  refine ⟨distinct, before.fresh family, before.fresh_least family, rfl, ?_, ?_, ?_⟩
  · simp only [result, Allocations.allocateLabel, Counters.get_set, if_true]
    rfl
  · omega
  · intro count other
    rw [rounds]
    refine ⟨Allocations.search_unique family before _ count result other search, ?_⟩
    rintro ⟨rfl, rfl⟩
    exact search

theorem imitated_numbers_passed :
    let source : Source := .ofString "while_0_end: while_1:" "labels"
    let steps : List Step := [.parse source.start source.scan]
    let before := standard.session {} steps
    before.labels = ["while_0_end", "while_1"] ∧ (before.allocateLabel .loop).1 = "while_2" ∧
      Search .loop before 3 (before.allocateLabel .loop) := by
  intro source steps before
  obtain ⟨searches, _⟩ := standard.session_numbers steps .loop
  have searched := searches (standard.calls {} steps) [] (List.append_nil _).symm
  rw [standard.session_replay] at searched
  have start : before.counters.get .loop = 0 := by decide +kernel
  have stop : (before.allocateLabel .loop).2.counters.get .loop = 3 := by decide +kernel
  obtain ⟨_, number, _, label, goes, _, search⟩ := searched (stop ▸ by decide)
  obtain rfl : number = 2 := Nat.succ.inj (goes.symm.trans stop)
  refine ⟨by decide +kernel, label.trans (by decide), (search 3 _).mpr ⟨?_, rfl⟩⟩
  rw [start]

end Dialect

end TealForms
