import TealForms.Proofs.Build.Ledger
import TealForms.Proofs.Build.Twins
import TealForms.Proofs.Command.Accesses
import TealForms.Proofs.Forms.Defined

set_option autoImplicit false

namespace TealForms

inductive Line.SlotApart : Line → Line → Prop where
  | same (line : Line) : SlotApart line line
  | load (slot place : Nat) (name : String) : SlotApart (.load slot name) (.load place name)
  | store (slot place : Nat) (name : String) : SlotApart (.store slot name) (.store place name)

def Table.UngroupedSlots (table : Table) : Prop :=
  ∀ word record, word = "store" ∨ word = "load" → table.record? word = some record →
    ∀ descriptor ∈ record.immediates, descriptor.reference = none

theorem Instruction.args_unreferenced (table : Table) (record : Record) (args : List String)
    (free : ∀ descriptor ∈ record.immediates, descriptor.reference = none) :
    Instruction.argsFault? table ⟨record, args⟩ = none := by
  rw [argsFault?, List.findSome?_eq_none_iff]
  rintro ⟨arg, descriptor⟩ member
  dsimp only
  rw [argFault?, free descriptor (List.of_mem_zip member).2]

theorem Instruction.fault_unreferenced (table : Table) (record : Record) (arg other : String) (children : List Node)
    (free : ∀ descriptor ∈ record.immediates, descriptor.reference = none) :
    Instruction.fault? table ⟨record, [other]⟩ children = Instruction.fault? table ⟨record, [arg]⟩ children := by
  rw [fault?, fault?, args_unreferenced table record [other] free, args_unreferenced table record [arg] free]
  rfl

namespace Renaming

theorem identity_token (token : Located Token) : token.map identity.token = token := by
  obtain ⟨⟨kind, text⟩, location⟩ := token
  cases kind <;> rfl

theorem identity_fault (fault : Located Fault) : fault.map identity.fault = fault := by
  obtain ⟨fault, location⟩ := fault
  cases fault <;> rfl

theorem identity_scanned (tokens : List Scanned) : tokens.map identity.scanned = tokens := by
  refine List.map_id'' (fun scanned => ?_) tokens
  cases scanned with
  | error failure => rfl
  | ok token => exact congrArg Except.ok (identity_token token)

end Renaming

namespace Dialect

def reusing (dialect : Dialect) (reuse : Bool) : Dialect := { dialect with options := { dialect.options with reuse } }

section

variable (dialect : Dialect)

-- The same variables have slots, and no more slots are taken where slots are used again.
def sharing : Twinning (dialect.reusing false) (dialect.reusing true) where
  names := .identity
  stored := Set.univ
  bound := Set.univ
  same command other := command.line.SlotApart other.line
  slots table other := (∀ name, name ∈ other ↔ name ∈ table) ∧ other.length ≤ table.length
  table := rfl
  version := rfl
  strict := rfl
  marker := rfl
  distinct := Function.injective_id.injOn
  steady command _ := .same command.line
  bare _ := .same _
  pushes _ _ _ := .same _
  fresh := ⟨by simp, le_rfl⟩

section

variable {before left : Allocations} (tables : dialect.sharing.Tables before left)

include tables

theorem shared_reused (name : String) (known : name ∈ left.scratch) :
    dialect.sharing.Tables { before with
      scratch := before.scratch ++ [name]
      events := before.events ++ [.slotAllocated before.scratch.length name] } left := by
  obtain ⟨same, fewer⟩ := tables.scratch
  refine { tables with scratch := ⟨fun other => ?_, fewer.trans (by simp)⟩ }
  rw [same, List.mem_append, List.mem_singleton]
  exact ⟨.inl, fun either => either.elim id fun renewed => renewed ▸ (same name).mp known⟩

theorem shared_renewed (name : String) (events others : List Event) :
    dialect.sharing.Tables { before with scratch := before.scratch ++ [name], events }
      { left with scratch := left.scratch ++ [name], events := others } := by
  obtain ⟨same, fewer⟩ := tables.scratch
  refine { tables with scratch := ⟨fun other => ?_, by simpa using fewer⟩ }
  rw [List.mem_append, List.mem_append, same]

end

section

variable (free : dialect.table.UngroupedSlots)

include free

theorem accessed_shared (word name : String) (either : word = "store" ∨ word = "load") (slot place : Nat) :
    dialect.sharing.Accessed word name slot place := by
  intro record found
  have statement (slot : Nat) := dialect.access_statement record word slot found
  refine ⟨fun children => ?_, ?_⟩
  · exact Instruction.fault_unreferenced dialect.table record _ _ children (free word record either found)
  · show Line.SlotApart (.instruction _ _) (.instruction _ _)
    rw [statement, statement]
    rcases either with rfl | rfl
    · exact .store slot place name
    · exact .load slot place name

-- Only where no slot is used again they may run out.
theorem accesses_shared : dialect.sharing.Accesses fun fault => ∃ name, fault = .scratchOverflow name where
  reads before left name tables _ := by
    have known : before.slot? name = none ↔ left.slot? name = none := by
      rw [before.slot_none, left.slot_none, tables.scratch.1]
    show Option.Rel _ _ (left.slot? name)
    cases looked : before.slot? name with
    | none =>
        rw [known.mp looked]
        exact .none
    | some slot =>
        cases placed : left.slot? name with
        | none =>
            rw [known.mpr placed] at looked
            cases looked
        | some place => exact .some (dialect.accessed_shared free "load" name (.inr rfl) slot place)
  stores before left name tables _ := by
    have accessed := dialect.accessed_shared free "store" name (.inl rfl)
    have fewer := tables.scratch.2
    show Twinning.Allocated _ _ _ (before.allocateSlot false name) (left.allocateSlot true name)
    rw [Allocations.allocateSlot, Allocations.allocateSlot, if_neg Bool.false_ne_true, if_pos rfl]
    dsimp only
    by_cases room : before.scratch.length < scratchCapacity
    · rw [if_pos room]
      cases reused : left.slot? name with
      | some place =>
          have known : name ∈ left.scratch := List.mem_of_getElem? (left.slot_place name place reused)
          exact .taken _ place _ left (accessed _ place) (dialect.shared_reused tables name known)
      | none =>
          dsimp only
          rw [if_pos (Nat.lt_of_le_of_lt fewer room)]
          exact .taken _ _ _ _ (accessed _ _) (dialect.shared_renewed tables name _ _)
    · rw [if_neg room]
      exact .excused before _ ⟨name, rfl⟩

end

theorem build_reusing (before : Allocations) (call : Call) (unused : ∀ name ∈ call.defines?, name ∉ before.scratch) :
    (dialect.reusing true).build before call.token call.children =
      (dialect.reusing false).build before call.token call.children := by
  have resolved : (dialect.reusing true).resolve before call.token.value call.children =
      (dialect.reusing false).resolve before call.token.value call.children := by
    by_cases named : call.token.value.kind = .scratch
    · by_cases bare : Node.significant call.children = []
      · rw [resolve_reading _ before call.token.value call.children named bare,
          resolve_reading _ before call.token.value call.children named bare]
        rfl
      · have absent := (before.slot_none _).mpr
          (unused call.token.value.text ((call.defines_some _).mpr ⟨named, bare, rfl⟩))
        have allocated : before.allocateSlot true call.token.value.text =
            before.allocateSlot false call.token.value.text := by
          rw [Allocations.allocateSlot, Allocations.allocateSlot, if_pos rfl, absent, if_neg Bool.false_ne_true]
        rw [resolve_definition _ before call.token.value call.children named bare,
          resolve_definition _ before call.token.value call.children named bare,
          show (dialect.reusing true).options.reuse = true from rfl, allocated]
        rfl
    · rw [resolve, resolve]
      cases kind : call.token.value.kind with
      | scratch => exact absurd kind named
      | _ => rfl
  rw [build, build, resolved]

theorem feed_reusing (tokens : List Scanned) (nesting : Nesting) (before : Allocations)
    (distinct : (before.scratch ++ nesting.definitions tokens).Nodup) :
    (dialect.reusing true).feed nesting before tokens = (dialect.reusing false).feed nesting before tokens := by
  induction tokens generalizing nesting before with
  | nil => rfl
  | cons scanned rest ih =>
      cases scanned with
      | error failure => rfl
      | ok token =>
          have stepped : (dialect.reusing true).step nesting before token =
              (dialect.reusing false).step nesting before token := by
            rw [step_shift, step_shift]
            rcases shifted : nesting.shift token with _ | ⟨next, _ | call⟩
            · rfl
            · rfl
            · have unused : ∀ name ∈ call.defines?, name ∉ before.scratch := by
                intro name defines
                obtain ⟨node, made⟩ := Nesting.exists_made call
                rw [nesting.definitions_call next token rest call node shifted made, defines] at distinct
                exact fun known => (List.nodup_append.mp distinct).2.2 name known name (by simp) rfl
              dsimp only
              rw [finish_then, finish_then, dialect.build_reusing before call unused]
          rw [feed_then, feed_then, stepped]
          rcases result : (dialect.reusing false).step nesting before token with ⟨fault | next, after⟩
          · rfl
          · obtain ⟨defined, split, table⟩ :=
              (dialect.reusing false).step_definitions nesting before after token rest next result
            rw [split, ← List.append_assoc] at distinct
            exact ih next after (distinct.sublist (table.sublist.append_right _))

theorem parse_reusing_same (start : Location) (tokens : List Scanned)
    (distinct : (Scanned.definitions tokens).Nodup) :
    (dialect.reusing true).parse {} start tokens = (dialect.reusing false).parse {} start tokens := by
  rw [parse_then, parse_then, dialect.feed_reusing tokens {} {} distinct]
  rfl

/-- Whether slots are used again or not, a program that defines no more variables than there are slots is read with
success or fails with the same fault at the same token, as long as no group restricts the slots. What it is emitted as
differs in slots of variables at most. If no variable is defined twice, all is the same. -/
theorem parse_reusing (start : Location) (tokens : List Scanned) (free : dialect.table.UngroupedSlots)
    (few : (Scanned.definitions tokens).length ≤ 256) :
    let renewed := (dialect.reusing false).parse {} start tokens
    let reused := (dialect.reusing true).parse {} start tokens
    ((∃ root after tree left, renewed = (.ok root, after) ∧ reused = (.ok tree, left) ∧
        List.Forall₂ Line.SlotApart root.lines tree.lines) ∨
      ∃ fault after left, renewed = (.error fault, after) ∧ reused = (.error fault, left)) ∧
    ((Scanned.definitions tokens).Nodup → reused = renewed) := by
  intro renewed reused
  have follows := dialect.sharing.parse_twins (dialect.accesses_shared free) start tokens fun token _ =>
    ⟨fun _ => trivial, fun _ => trivial⟩
  rw [show dialect.sharing.names = .identity from rfl, Renaming.identity_scanned] at follows
  refine ⟨?_, dialect.parse_reusing_same start tokens⟩
  rcases parsed : renewed with ⟨fault | root, after⟩
  · rw [show (dialect.reusing false).parse {} start tokens = _ from parsed] at follows
    rcases follows with ⟨name, overflow⟩ | ⟨_, left, given, rfl⟩
    · exact absurd overflow ((dialect.reusing false).parse_room start tokens after fault parsed few name)
    · have same : fault.map dialect.sharing.names.fault = fault := Renaming.identity_fault fault
      exact .inr ⟨fault, after, left, rfl, by rw [same] at given; exact given⟩
  · rw [show (dialect.reusing false).parse {} start tokens = _ from parsed] at follows
    obtain ⟨tree, left, given, nodes, _⟩ := follows
    refine .inl ⟨root, after, tree, left, rfl, given, ?_⟩
    rw [Node.lines, Node.lines, List.forall₂_map_left_iff, List.forall₂_map_right_iff]
    exact nodes.commands

end

theorem second_store_shares :
    let source : Source := .ofString "($x 1) ($x 2) ($y $x)" "shared"
    let renewed := [Line.pragma 8, .instruction "int 1" none, .store 0 "$x", .instruction "int 2" none, .store 1 "$x",
      .load 0 "$x", .store 2 "$y"]
    let reused := [Line.pragma 8, .instruction "int 1" none, .store 0 "$x", .instruction "int 2" none, .store 0 "$x",
      .load 0 "$x", .store 1 "$y"]
    standard.table.UngroupedSlots ∧ Scanned.definitions source.scan = ["$x", "$x", "$y"] ∧
    ∃ root after tree left, (standard.reusing false).parse {} source.start source.scan = (.ok root, after) ∧
      (standard.reusing true).parse {} source.start source.scan = (.ok tree, left) ∧
      root.lines = renewed ∧ tree.lines = reused ∧ List.Forall₂ Line.SlotApart root.lines tree.lines := by
  intro source renewed reused
  have plain (word : String) (either : word = "store" ∨ word = "load") :
      (standard.table.record? word).all (fun record => record.immediates.all fun descriptor =>
        descriptor.reference.isNone) = true := by
    rcases either with rfl | rfl <;> decide +kernel
  have free : standard.table.UngroupedSlots := by
    intro word record either found descriptor member
    have checked := plain word either
    rw [found, Option.all_some, List.all_eq_true] at checked
    simpa using checked descriptor member
  have defined : Scanned.definitions source.scan = ["$x", "$x", "$y"] := by decide +kernel
  refine ⟨free, defined, ?_⟩
  obtain ⟨root, after, first, lines⟩ := (standard.reusing false).parse_checked {} source.start source.scan
    (fun root => root.lines = renewed) (by decide +kernel)
  obtain ⟨tree, left, second, shared⟩ := (standard.reusing true).parse_checked {} source.start source.scan
    (fun root => root.lines = reused) (by decide +kernel)
  rcases (standard.parse_reusing source.start source.scan free (by rw [defined]; decide)).1 with
    ⟨_, _, _, _, same, other, alike⟩ | ⟨_, _, _, same, _⟩
  · rw [first] at same
    rw [second] at other
    cases same
    cases other
    exact ⟨root, after, tree, left, first, second, of_decide_eq_true lines, of_decide_eq_true shared, alike⟩
  · rw [first] at same
    cases same

end Dialect

end TealForms
