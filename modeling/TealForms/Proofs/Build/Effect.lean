import TealForms.Proofs.Build.Failed
import TealForms.Proofs.Build.Ledger

set_option autoImplicit false

namespace TealForms

namespace Family

def keyword : Family → Keyword
  | .choice => .choice
  | .case => .case
  | .loop => .loop

def kind (label : String) : Family → Kind Node
  | .choice => .choice label
  | .case => .case label
  | .loop => .loop label

end Family

def Node.registers : Node → Bool
  | .mk _ .definition _ | .mk _ .label _ | .mk _ (.case _) _ | .mk _ (.choice _) _ | .mk _ (.loop _) _ => true
  | _ => false

namespace Allocations

def appended (allocations : Allocations) (name : String) : Allocations :=
  { allocations with
    scratch := allocations.scratch ++ [name]
    events := allocations.events ++ [.slotAllocated allocations.scratch.length name] }

structure Extends (before after : Allocations) : Prop where
  scratch : before.scratch <+: after.scratch
  constants : before.constants <+: after.constants
  labels : before.labels <+: after.labels
  counters : ∀ family, before.counters.get family ≤ after.counters.get family
  events : before.events <+: after.events

def SameScratch (before after : Allocations) : Prop := after.scratch = before.scratch

def SameConstants (before after : Allocations) : Prop := after.constants = before.constants

-- The counters are part of the table of labels.
def SameLabels (before after : Allocations) : Prop := after.labels = before.labels ∧ after.counters = before.counters

def DiffersOnce (before after : Allocations) : Prop :=
  before.SameConstants after ∧ before.SameLabels after ∨ before.SameScratch after ∧ before.SameLabels after ∨
    before.SameScratch after ∧ before.SameConstants after

theorem extends_self (allocations : Allocations) : allocations.Extends allocations :=
  ⟨List.prefix_rfl, List.prefix_rfl, List.prefix_rfl, fun _ => Nat.le_refl _, List.prefix_rfl⟩

theorem extends_trans (before middle after : Allocations) (first : before.Extends middle)
    (second : middle.Extends after) : before.Extends after :=
  ⟨first.scratch.trans second.scratch, first.constants.trans second.constants, first.labels.trans second.labels,
    fun family => (first.counters family).trans (second.counters family), first.events.trans second.events⟩

theorem extends_slot (before after : Allocations) (grown : before.Extends after) (name : String) (slot : Nat)
    (known : before.slot? name = some slot) : after.slot? name = some slot := by
  obtain ⟨added, same⟩ := grown.scratch
  rw [slot?] at known ⊢
  rw [← same, List.findIdx?_append, known, Option.some_or]

theorem extends_constant (before after : Allocations) (grown : before.Extends after) (name : String)
    (literal : Literal Node) (known : before.constant? name = some literal) : after.constant? name = some literal := by
  obtain ⟨added, same⟩ := grown.constants
  obtain ⟨entry, found, bound⟩ := Option.map_eq_some_iff.mp known
  rw [constant?, ← same, List.find?_append, found, Option.some_or, Option.map_some, bound]

theorem allocate_slot_appends (allocations : Allocations) (reuse : Bool) (name : String) :
    (allocations.allocateSlot reuse name).2 = allocations ∨
      allocations.scratch.length < scratchCapacity ∧
        (allocations.allocateSlot reuse name).2 = allocations.appended name := by
  rw [allocateSlot]
  split
  · exact .inl rfl
  · dsimp only
    split
    · rename_i room
      exact .inr ⟨room, rfl⟩
    · exact .inl rfl

end Allocations

namespace Dialect

-- A node that registers adds its own entry, one that does not leaves everything as it is. Only a definition of a
-- variable may add a slot, whether it succeeds or fails.
inductive Effect (before : Allocations) (token : Located Token) (children : List Node) :
    Except (Located Fault) Node → Allocations → Prop where
  | unchanged (node : Node) (other : node.registers = false) : Effect before token children (.ok node) before
  | refused (fault : Located Fault) : Effect before token children (.error fault) before
  | stored (instruction : Instruction) (named : token.value.kind = .scratch) (filled : Node.significant children ≠ [])
      (room : before.scratch.length < scratchCapacity) :
      Effect before token children (.ok (.mk token (.scratch instruction) children))
        (before.appended token.value.text)
  | abandoned (fault : Located Fault) (named : token.value.kind = .scratch) (filled : Node.significant children ≠ [])
      (room : before.scratch.length < scratchCapacity) :
      Effect before token children (.error fault) (before.appended token.value.text)
  | bound (literal : Literal Node) (named : token.value.kind = .constant)
      (single : Node.significant children = [literal.node])
      (fresh : token.value.text ∉ before.constants.map Prod.fst) :
      Effect before token children (.ok (.mk token .definition children)) { before with
        constants := before.constants ++ [(token.value.text, literal)]
        events := before.events ++ [.constantBound token.value.text literal.token.value.text] }
  | declared (named : token.value.kind = .label) (fresh : token.value.labelName ∉ before.labels) :
      Effect before token children (.ok (.mk token .label children)) { before with
        labels := before.labels ++ [token.value.labelName] }
  | generated (family : Family) (number : Nat) (passed : List Nat)
      (named : token.value.kind = .keyword family.keyword) (least : before.counters.get family ≤ number)
      (distinct : (family.names number).Nodup) (fresh : ∀ name ∈ family.names number, name ∉ before.labels) :
      Effect before token children (.ok (.mk token (family.kind (family.label number)) children)) { before with
        labels := before.labels ++ family.names number
        counters := before.counters.set family (number + 1)
        events := before.events ++ passed.map (fun number => .labelSkipped (family.label number)) ++
          [.labelAllocated (family.label number)] }

theorem generated_effect (before : Allocations) (token : Located Token) (children : List Node) (family : Family)
    (named : token.value.kind = .keyword family.keyword) :
    Effect before token children
      (.ok (.mk token (family.kind (before.allocateLabel family).1) children)) (before.allocateLabel family).2 := by
  refine .generated family (before.fresh family) (before.passed family) named (Nat.le_add_right _ _)
    (family.names_distinct _) ?_
  intro name taken reserved
  have free := before.fresh_free family
  rw [Allocations.isTaken, List.any_eq_false] at free
  exact free name taken (by simpa using reserved)

theorem settled_effect (dialect : Dialect) (before after : Allocations) (token : Located Token) (children : List Node)
    (kind : Kind Node) (settled : dialect.Settled before token.value children kind after) :
    Effect before token children (.ok (.mk token kind children)) after := by
  cases settled with
  | store record slot after named filled allocated =>
      have either := before.allocate_slot_appends dialect.options.reuse token.value.text
      rw [allocated] at either
      rcases either with rfl | ⟨room, rfl⟩
      · exact .unchanged _ rfl
      · exact .stored _ named filled room
  | definition value literal named single read fresh =>
      have bound : Node.binding? (.mk token .definition children) = some (token.value.text, literal) := by
        simp [Node.binding?, single, read]
      exact .bound literal named (Node.binding_some _ _ literal bound).2.2 (before.constant_none token.value.text fresh)
  | label named fresh => exact .declared named fresh
  | case named => exact generated_effect before token children .case named
  | loop named => exact generated_effect before token children .loop named
  | choice named => exact generated_effect before token children .choice named
  | _ => exact .unchanged _ rfl

theorem refused_effect (dialect : Dialect) (before after : Allocations) (token : Located Token) (children : List Node)
    (fault : Located Fault) (failed : dialect.build before token children = (.error fault, after)) :
    Effect before token children (.error fault) after := by
  have resolved := dialect.build_refused before after token children fault failed
  by_cases named : token.value.kind = .scratch
  · by_cases bare : Node.significant children = []
    · rw [dialect.resolve_reading before token.value children named bare] at resolved
      obtain rfl : after = before := by
        split at resolved <;> exact (congrArg Prod.snd resolved).symm
      exact .refused fault
    · rw [dialect.resolve_definition before token.value children named bare] at resolved
      obtain rfl : after = (before.allocateSlot dialect.options.reuse token.value.text).2 := by
        split at resolved <;> rename_i allocated <;> rw [allocated] <;> exact (congrArg Prod.snd resolved).symm
      rcases before.allocate_slot_appends dialect.options.reuse token.value.text with same | ⟨room, same⟩
      · rw [same]
        exact .refused fault
      · rw [same]
        exact .abandoned fault named bare room
  · rw [(dialect.resolve_failed before after token.value children fault.value named resolved).1]
    exact .refused fault

theorem build_effect (dialect : Dialect) (before : Allocations) (token : Located Token) (children : List Node) :
    Effect before token children (dialect.build before token children).1 (dialect.build before token children).2 := by
  rcases built : dialect.build before token children with ⟨fault | node, after⟩
  · exact dialect.refused_effect before after token children fault built
  · obtain ⟨kind, rfl, settled⟩ := dialect.build_settled before after token children node built
    exact dialect.settled_effect before after token children kind settled

section

variable (before after : Allocations) (token : Located Token) (children : List Node)
variable (result : Except (Located Fault) Node) (effect : Effect before token children result after)

include effect

theorem effect_extends : before.Extends after := by
  have same := before.extends_self
  cases effect with
  | unchanged => exact same
  | refused => exact same
  | stored => exact { same with scratch := List.prefix_append _ _, events := List.prefix_append _ _ }
  | abandoned => exact { same with scratch := List.prefix_append _ _, events := List.prefix_append _ _ }
  | bound => exact { same with constants := List.prefix_append _ _, events := List.prefix_append _ _ }
  | declared => exact { same with labels := List.prefix_append _ _ }
  | generated family number passed named least =>
      refine { same with
        labels := List.prefix_append _ _
        counters := fun other => ?_
        events := (List.prefix_append _ _).trans (List.prefix_append _ _) }
      rw [Counters.get_set]
      split
      · rename_i own
        rw [own]
        exact Nat.le_succ_of_le least
      · exact Nat.le_refl _

theorem effect_once : before.DiffersOnce after := by
  cases effect with
  | bound => exact .inr (.inl ⟨rfl, rfl, rfl⟩)
  | declared => exact .inr (.inr ⟨rfl, rfl⟩)
  | generated => exact .inr (.inr ⟨rfl, rfl⟩)
  | _ => exact .inl ⟨rfl, rfl, rfl⟩

end

end Dialect

end TealForms
