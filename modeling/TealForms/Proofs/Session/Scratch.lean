import Mathlib.Data.List.Induction
import TealForms.Compile
import TealForms.Proofs.Allocations.Slots
import TealForms.Proofs.Build.Failed
import TealForms.Proofs.Session.Extension

set_option autoImplicit false

namespace TealForms

namespace Call

def defines? (call : Call) : Option String :=
  if call.token.value.kind = .scratch ∧ (Node.significant call.children).isEmpty = false then
    some call.token.value.text
  else none

def reads? (call : Call) : Option String :=
  if call.token.value.kind = .scratch ∧ (Node.significant call.children).isEmpty = true then
    some call.token.value.text
  else none

theorem defines_some (call : Call) (name : String) :
    call.defines? = some name ↔
      call.token.value.kind = .scratch ∧ Node.significant call.children ≠ [] ∧ call.token.value.text = name := by
  simp [defines?, and_assoc]

theorem reads_some (call : Call) (name : String) :
    call.reads? = some name ↔
      call.token.value.kind = .scratch ∧ Node.significant call.children = [] ∧ call.token.value.text = name := by
  simp [reads?, and_assoc]

end Call

namespace Dialect

theorem resolve_other_table (dialect : Dialect) (before after : Allocations) (token : Token) (children : List Node)
    (result : Except Fault (Kind Node)) (other : token.kind ≠ .scratch)
    (resolved : dialect.resolve before token children = (result, after)) : after.scratch = before.scratch := by
  cases result with
  | error fault => rw [(dialect.resolve_failed before after token children fault other resolved).1]
  | ok kind =>
      cases dialect.resolve_settled before after token children kind resolved with
      | load _ _ named => exact absurd named other
      | store _ _ _ named => exact absurd named other
      | _ => rfl

theorem call_table (dialect : Dialect) (before : Allocations) (call : Call) :
    (dialect.callResult before call).2.scratch =
      match call.defines? with
      | some name => Allocations.withSlot dialect.options.reuse before.scratch name
      | none => before.scratch := by
  rw [callResult, build_resolve]
  by_cases named : call.token.value.kind = .scratch
  · by_cases bare : Node.significant call.children = []
    · have none : call.defines? = none := by simp [Call.defines?, bare]
      rw [none, dialect.resolve_reading before call.token.value call.children named bare]
      cases before.slot? call.token.value.text <;> rfl
    · have some := (call.defines_some call.token.value.text).mpr ⟨named, bare, rfl⟩
      rw [some, dialect.resolve_definition before call.token.value call.children named bare]
      have table := before.allocate_slot_table dialect.options.reuse call.token.value.text
      split <;> simp_all
  · have none : call.defines? = none := by simp [Call.defines?, named]
    rw [none]
    exact dialect.resolve_other_table before _ call.token.value call.children _ named rfl

theorem replay_table (dialect : Dialect) (calls : List Call) :
    (dialect.replay {} calls).scratch =
      Allocations.slotTable dialect.options.reuse (calls.filterMap Call.defines?) := by
  induction calls using List.reverseRecOn with
  | nil => simp [replay, Allocations.slotTable]
  | append_singleton earlier call ih =>
      rw [replay_append, replay, replay, call_table, ih, List.filterMap_append]
      cases defined : call.defines? with
      | none => simp [defined]
      | some name => simp [defined, Allocations.slot_table_snoc]

theorem slot_kept (dialect : Dialect) (allocations : Allocations) (calls : List Call) (name : String) (slot : Nat)
    (known : allocations.slot? name = some slot) : (dialect.replay allocations calls).slot? name = some slot :=
  allocations.extends_slot _ (dialect.replay_extends allocations calls) name slot known

theorem reading_resolves (dialect : Dialect) (before : Allocations) (call : Call) (name : String) (slot : Nat)
    (reads : call.reads? = some name) (known : before.slot? name = some slot) :
    dialect.resolve before call.token.value call.children =
      (dialect.resolveAccess "load" slot call.children, before) := by
  obtain ⟨named, bare, rfl⟩ := (call.reads_some name).mp reads
  rw [dialect.resolve_reading before call.token.value call.children named bare, known]

theorem definition_resolves (dialect : Dialect) (before : Allocations) (call : Call) (name : String) (slot : Nat)
    (defines : call.defines? = some name)
    (allocated : (before.allocateSlot dialect.options.reuse name).1 = some slot) :
    dialect.resolve before call.token.value call.children =
      (dialect.resolveAccess "store" slot call.children, (before.allocateSlot dialect.options.reuse name).2) := by
  obtain ⟨named, filled, rfl⟩ := (call.defines_some name).mp defines
  rw [dialect.resolve_definition before call.token.value call.children named filled]
  split
  · rename_i found after same
    rw [same] at allocated ⊢
    cases allocated
    rfl
  · rename_i after same
    rw [same] at allocated
    cases allocated

-- The two faults of slots come from lookup and allocation only.
theorem scratch_fault_iff (dialect : Dialect) (before : Allocations) (call : Call) (fault : Fault)
    (own : fault.isScratch = true) :
    (dialect.resolve before call.token.value call.children).1 = .error fault ↔
      (∃ name, call.reads? = some name ∧ before.slot? name = none ∧ fault = .scratchNotFound name) ∨
      (∃ name, call.defines? = some name ∧ (before.allocateSlot dialect.options.reuse name).1 = none ∧
        fault = .scratchOverflow name) := by
  have access (name : String) (slot : Nat) : dialect.resolveAccess name slot call.children ≠ .error fault := by
    intro failed
    have nameless := dialect.access_fault name slot call.children fault failed
    rw [fault.rule_scratch (fault.nameless_rule nameless)] at own
    cases own
  constructor
  · intro failed
    by_cases named : call.token.value.kind = .scratch
    · by_cases bare : Node.significant call.children = []
      · refine .inl ⟨_, (call.reads_some _).mpr ⟨named, bare, rfl⟩, ?_⟩
        rw [dialect.resolve_reading before call.token.value call.children named bare] at failed
        cases known : before.slot? call.token.value.text with
        | none =>
            rw [known] at failed
            exact ⟨rfl, (Except.error.inj failed).symm⟩
        | some slot =>
            rw [known] at failed
            exact absurd failed (access "load" slot)
      · refine .inr ⟨_, (call.defines_some _).mpr ⟨named, bare, rfl⟩, ?_⟩
        cases allocated : (before.allocateSlot dialect.options.reuse call.token.value.text).1 with
        | none =>
            rw [dialect.resolve_definition before call.token.value call.children named bare] at failed
            split at failed
            · rename_i slot after same
              rw [same] at allocated
              cases allocated
            · exact ⟨rfl, (Except.error.inj failed).symm⟩
        | some slot =>
            have defines := (call.defines_some _).mpr ⟨named, bare, rfl⟩
            rw [dialect.definition_resolves before call _ slot defines allocated] at failed
            exact absurd failed (access "store" slot)
    · have foreign := (dialect.resolve_failed before _ call.token.value call.children fault named
        (Prod.ext failed rfl)).2
      rw [fault.rule_scratch foreign] at own
      cases own
  · rintro (⟨name, reads, unknown, rfl⟩ | ⟨name, defines, full, rfl⟩)
    · obtain ⟨named, bare, rfl⟩ := (call.reads_some name).mp reads
      rw [dialect.resolve_reading before call.token.value call.children named bare, unknown]
    · obtain ⟨named, filled, rfl⟩ := (call.defines_some name).mp defines
      rw [dialect.resolve_definition before call.token.value call.children named filled]
      split
      · rename_i slot after same
        rw [same] at full
        cases full
      · rfl

theorem missing_iff (dialect : Dialect) (before : Allocations) (call : Call) (name : String) (location : Location) :
    (dialect.callResult before call).1 = .error ⟨.scratchNotFound name, location⟩ ↔
      call.reads? = some name ∧ location = call.token.location ∧ before.slot? name = none := by
  rw [callResult, build_error, dialect.scratch_fault_iff before call _ rfl]
  constructor
  · rintro ⟨⟨found, reads, unknown, same⟩ | ⟨found, _, _, same⟩, here⟩
    · cases same
      exact ⟨reads, here, unknown⟩
    · cases same
  · rintro ⟨reads, here, unknown⟩
    exact ⟨.inl ⟨name, reads, unknown, rfl⟩, here⟩

theorem overflow_iff (dialect : Dialect) (before : Allocations) (call : Call) (name : String) (location : Location) :
    (dialect.callResult before call).1 = .error ⟨.scratchOverflow name, location⟩ ↔
      call.defines? = some name ∧ location = call.token.location ∧ scratchCapacity ≤ before.scratch.length ∧
        (dialect.options.reuse = true → before.slot? name = none) := by
  rw [callResult, build_error, dialect.scratch_fault_iff before call _ rfl, ← Allocations.allocate_slot_none]
  constructor
  · rintro ⟨⟨found, _, _, same⟩ | ⟨found, defines, full, same⟩, here⟩
    · cases same
    · cases same
      exact ⟨defines, here, full⟩
  · rintro ⟨defines, here, full⟩
    exact ⟨.inr ⟨name, defines, full, rfl⟩, here⟩

section

variable (dialect : Dialect) (before : Allocations) (call : Call)

theorem built_variable (node : Node) (named : call.token.value.kind = .scratch)
    (built : (dialect.callResult before call).1 = .ok node) :
    ∃ record slot, node = .mk call.token (.scratch ⟨record, [toString slot]⟩) call.children ∧
      (Node.significant call.children = [] ∧ dialect.table.record? "load" = some record ∧
          before.slot? call.token.value.text = some slot ∨
        Node.significant call.children ≠ [] ∧ dialect.table.record? "store" = some record ∧
          (before.allocateSlot dialect.options.reuse call.token.value.text).1 = some slot) := by
  obtain ⟨after, built⟩ : ∃ after, dialect.callResult before call = (.ok node, after) := ⟨_, Prod.ext built rfl⟩
  obtain ⟨kind, rfl, settled⟩ := dialect.build_settled before after call.token call.children node built
  cases settled with
  | load record slot _ bare known found _ => exact ⟨record, slot, rfl, .inl ⟨bare, found, known⟩⟩
  | store record slot _ _ filled allocated found _ =>
      exact ⟨record, slot, rfl, .inr ⟨filled, found, congrArg Prod.fst allocated⟩⟩
  | _ => simp_all [IsLiteral]

theorem loaded_node (name : String) (node : Node) (built : (dialect.callResult before call).1 = .ok node)
    (reads : call.reads? = some name) : ∃ record slot, dialect.table.record? "load" = some record ∧
      before.slot? name = some slot ∧ node = .mk call.token (.scratch ⟨record, [toString slot]⟩) call.children := by
  obtain ⟨named, bare, rfl⟩ := (call.reads_some name).mp reads
  obtain ⟨record, slot, made, ⟨_, found, known⟩ | ⟨filled, _, _⟩⟩ := dialect.built_variable before call node named built
  · exact ⟨record, slot, found, known, made⟩
  · exact absurd bare filled

-- The slot of a definition is the one that may be used again, or else the next one.
theorem stored_node (name : String) (node : Node) (built : (dialect.callResult before call).1 = .ok node)
    (defines : call.defines? = some name) : ∃ record, dialect.table.record? "store" = some record ∧
      let slot := (if dialect.options.reuse then before.slot? name else none).getD before.scratch.length
      node = .mk call.token (.scratch ⟨record, [toString slot]⟩) call.children := by
  obtain ⟨named, filled, rfl⟩ := (call.defines_some name).mp defines
  obtain ⟨record, slot, made, ⟨bare, _, _⟩ | ⟨_, found, allocated⟩⟩ :=
    dialect.built_variable before call node named built
  · exact absurd bare filled
  · rw [before.allocate_slot_some dialect.options.reuse _ slot allocated] at made
    exact ⟨record, found, made⟩

theorem definition_stores (name : String) (defines : call.defines? = some name) :
    let slot := (if dialect.options.reuse then before.slot? name else none).getD before.scratch.length
    slot < scratchCapacity → ∃ after, dialect.resolve before call.token.value call.children =
      (dialect.resolveAccess "store" slot call.children, after) ∧ after.scratch[slot]? = some name := by
  intro slot below
  cases allocated : (before.allocateSlot dialect.options.reuse name).1 with
  | some found =>
      have same : found = slot := before.allocate_slot_some dialect.options.reuse name found allocated
      rw [same] at allocated
      exact ⟨_, dialect.definition_resolves before call name slot defines allocated,
        before.allocate_slot_place dialect.options.reuse name slot allocated⟩
  | none =>
      obtain ⟨full, unused⟩ := (before.allocate_slot_none dialect.options.reuse name).mp allocated
      have last : slot = before.scratch.length := by
        cases again : dialect.options.reuse with
        | false => simp [slot, again]
        | true => simp [slot, again, unused again]
      exact absurd (last ▸ below) (Nat.not_lt_of_le full)

end

/-- At every moment of a session the table of slots is that of the definitions tried so far, and a slot is the first
place of a variable in it, kept for good and shared with no other. The next variable fails for want of a slot, or else
the node that is built has the slot as its one immediate argument. -/
theorem session_scratch (dialect : Dialect) (steps : List Step) (earlier later : List Call)
    (made : dialect.calls {} steps = earlier ++ later) :
    let before := dialect.replay {} earlier
    let defined := earlier.filterMap Call.defines?
    let reuse := dialect.options.reuse
    dialect.replay before later = dialect.session {} steps ∧
    before.scratch = (if reuse then defined.eraseDups else defined).take 256 ∧
    (∀ name, before.slot? name = before.scratch.idxOf? name) ∧
    (∀ name slot, before.slot? name = some slot → slot < 256 ∧
      (∀ other, before.slot? other = some slot → other = name) ∧
      ∀ middle rest, later = middle ++ rest → (dialect.replay before middle).slot? name = some slot) ∧
    ∀ call rest, later = call :: rest →
      (∀ name location, (dialect.callResult before call).1 = .error ⟨.scratchNotFound name, location⟩ ↔
        call.reads? = some name ∧ location = call.token.location ∧ before.slot? name = none) ∧
      (∀ name slot, call.reads? = some name → before.slot? name = some slot →
        dialect.resolve before call.token.value call.children =
          (dialect.resolveAccess "load" slot call.children, before)) ∧
      (∀ name location, (dialect.callResult before call).1 = .error ⟨.scratchOverflow name, location⟩ ↔
        call.defines? = some name ∧ location = call.token.location ∧ before.scratch.length = 256 ∧
          (reuse = true → before.slot? name = none)) ∧
      (∀ name, call.defines? = some name →
        let slot := (if reuse then before.slot? name else none).getD before.scratch.length
        slot < 256 → ∃ after, dialect.resolve before call.token.value call.children =
          (dialect.resolveAccess "store" slot call.children, after) ∧ after.scratch[slot]? = some name) ∧
      ∀ name node, (dialect.callResult before call).1 = .ok node →
        (call.reads? = some name → ∃ record slot, dialect.table.record? "load" = some record ∧
          before.slot? name = some slot ∧
          node = .mk call.token (.scratch ⟨record, [toString slot]⟩) call.children) ∧
        (call.defines? = some name → ∃ record, dialect.table.record? "store" = some record ∧
          let slot := (if reuse then before.slot? name else none).getD before.scratch.length
          node = .mk call.token (.scratch ⟨record, [toString slot]⟩) call.children) := by
  intro before defined reuse
  have table : before.scratch = Allocations.slotTable reuse defined := dialect.replay_table earlier
  have bound : before.scratch.length ≤ 256 := by
    rw [table, Allocations.slotTable]
    exact List.length_take_le _ _
  refine ⟨?_, table, before.slot_index, ?_, ?_⟩
  · rw [← dialect.replay_append, ← made, dialect.session_replay]
  · intro name slot known
    have place := before.slot_place name slot known
    obtain ⟨inside, _⟩ := List.getElem?_eq_some_iff.mp place
    refine ⟨Nat.lt_of_lt_of_le inside bound, ?_, ?_⟩
    · intro other shared
      have same := before.slot_place other slot shared
      rw [place] at same
      exact (Option.some.inj same).symm
    · intro middle rest _
      exact dialect.slot_kept before middle name slot known
  · intro call rest _
    refine ⟨dialect.missing_iff before call, dialect.reading_resolves before call, ?_, ?_, ?_⟩
    · intro name location
      have full : scratchCapacity ≤ before.scratch.length ↔ before.scratch.length = 256 :=
        ⟨fun least => Nat.le_antisymm bound least, fun same => Nat.le_of_eq same.symm⟩
      rw [dialect.overflow_iff before call name location, full]
    · intro name defines slot below
      exact dialect.definition_stores before call name defines below
    · intro name node built
      exact ⟨dialect.loaded_node before call name node built, dialect.stored_node before call name node built⟩

theorem failed_definition_keeps_slot :
    let first : Source := .ofString "($x 1) ($y 2 3)" "first"
    let read : Call := ⟨⟨⟨.scratch, "$y"⟩, first.start⟩, []⟩
    let program : Step := .parse first.start first.scan
    let before := standard.session {} [program]
    (standard.parse {} first.start first.scan).1.toOption.isNone = true ∧
    before.scratch = ["$x", "$y"] ∧ before.slot? "$y" = some 1 ∧
    standard.resolve before read.token.value read.children = (standard.resolveAccess "load" 1 [], before) := by
  intro first read program before
  have failed : (standard.parse {} first.start first.scan).1.toOption.isNone = true := by decide +kernel
  have tried : (standard.calls {} [program]).filterMap Call.defines? = ["$x", "$y"] := by decide +kernel
  have made : standard.calls {} [program, .build read.token read.children] = standard.calls {} [program] ++ [read] := by
    simp [program, calls, stepCalls]
  obtain ⟨_, table, index, _, next⟩ := standard.session_scratch _ _ _ made
  rw [standard.session_replay] at table index next
  have slots : before.scratch = ["$x", "$y"] := by
    rw [table, tried]
    decide
  have place : before.slot? "$y" = some 1 := by
    rw [index, slots]
    decide
  exact ⟨failed, slots, place, (next read [] rfl).2.1 "$y" 1 rfl place⟩

end Dialect

end TealForms
