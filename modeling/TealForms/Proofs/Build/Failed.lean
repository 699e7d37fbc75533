import TealForms.Proofs.Allocations.Slots
import TealForms.Proofs.Build.Settled

set_option autoImplicit false

namespace TealForms

namespace Fault

def isScratch : Fault → Bool
  | .scratchOverflow _ | .scratchNotFound _ => true
  | _ => false

def isCheck : Fault → Bool
  | .stackArgs _ _ | .immediateArgs _ _ | .invalidArg _ _ => true
  | _ => false

def isRule : Fault → Bool
  | .input _ | .unclosedExpression | .scratchOverflow _ | .scratchNotFound _ => false
  | _ => true

def isNameless : Fault → Bool
  | .invalidToken _ | .invalidOpcode _ | .stackArgs _ _ | .immediateArgs _ _ | .invalidArg _ _ => true
  | .labelRedefined _ | .macroArity _ | .choiceNotCase | .transactionField => true
  | _ => false

theorem rule_scratch (fault : Fault) (rule : fault.isRule = true) : fault.isScratch = false := by
  cases fault <;> simp_all [isRule, isScratch]

theorem check_nameless (fault : Fault) (check : fault.isCheck = true) : fault.isNameless = true := by
  cases fault <;> simp_all [isNameless, isCheck]

theorem nameless_rule (fault : Fault) (nameless : fault.isNameless = true) : fault.isRule = true := by
  cases fault <;> simp_all [isNameless, isRule]

end Fault

namespace Instruction

theorem fault_check (table : Table) (instruction : Instruction) (children : List Node) (fault : Fault)
    (broken : instruction.fault? table children = some fault) : fault.isCheck = true := by
  rw [fault?, Option.or_eq_some_iff, Option.or_eq_some_iff] at broken
  rcases broken with stack | ⟨_, count | ⟨_, args⟩⟩
  · obtain ⟨_, same⟩ := Option.ite_none_left_eq_some.mp stack
    cases same
    rfl
  · obtain ⟨_, same⟩ := Option.ite_none_left_eq_some.mp count
    cases same
    rfl
  · obtain ⟨⟨arg, descriptor⟩, _, found⟩ := List.exists_of_findSome?_eq_some args
    dsimp only at found
    rw [argFault?] at found
    split at found
    · cases found
    · obtain ⟨_, same⟩ := Option.ite_none_left_eq_some.mp found
      cases same
      rfl

end Instruction

namespace Dialect

theorem resolve_reading (dialect : Dialect) (before : Allocations) (token : Token) (children : List Node)
    (named : token.kind = .scratch) (bare : Node.significant children = []) :
    dialect.resolve before token children =
      match before.slot? token.text with
      | some slot => (dialect.resolveAccess "load" slot children, before)
      | none => (.error (.scratchNotFound token.text), before) := by
  cases known : before.slot? token.text <;> simp [resolve, named, resolveScratch, bare, known]

theorem resolve_definition (dialect : Dialect) (before : Allocations) (token : Token) (children : List Node)
    (named : token.kind = .scratch) (filled : Node.significant children ≠ []) :
    dialect.resolve before token children =
      match before.allocateSlot dialect.options.reuse token.text with
      | (some slot, after) => (dialect.resolveAccess "store" slot children, after)
      | (none, after) => (.error (.scratchOverflow token.text), after) := by
  rw [resolve, named]
  dsimp only
  rw [resolveScratch]
  cases values : Node.significant children with
  | nil => exact absurd values filled
  | cons value rest => rfl

theorem bind_error {α β : Type} (first : Except Fault α) (next : α → Except Fault β) (fault : Fault)
    (ran : (first >>= next) = .error fault) :
    first = .error fault ∨ ∃ value, first = .ok value ∧ next value = .error fault := by
  cases first with
  | error found => exact .inl (by cases ran; rfl)
  | ok value => exact .inr ⟨value, rfl, ran⟩

theorem record_fault (dialect : Dialect) (name : String) (fault : Fault)
    (failed : dialect.record name = .error fault) : fault.isNameless = true := by
  rw [Dialect.record] at failed
  split at failed <;> cases failed
  rfl

theorem check_fault (dialect : Dialect) (instruction : Instruction) (children : List Node) (fault : Fault)
    (failed : dialect.check instruction children = .error fault) : fault.isNameless = true := by
  rw [check] at failed
  split at failed
  · split at failed
    · rename_i found broken
      cases failed
      exact fault.check_nameless (instruction.fault_check dialect.table children fault broken)
    · cases failed
  · cases failed

theorem opcode_fault (dialect : Dialect) (token : Token) (children : List Node) (fault : Fault)
    (failed : dialect.resolveOpcode token children = .error fault) : fault.isNameless = true := by
  rcases bind_error _ _ fault failed with unknown | ⟨record, _, rest⟩
  · exact dialect.record_fault _ fault unknown
  · cases exempt : dialect.isExempt token with
    | true =>
        rw [exempt] at rest
        cases rest
    | false =>
        rw [exempt] at rest
        rcases bind_error _ _ fault rest with broken | ⟨instruction, _, done⟩
        · exact dialect.check_fault _ children fault broken
        · cases done

theorem literal_fault (dialect : Dialect) (name : String) (token : Token) (children : List Node) (fault : Fault)
    (failed : dialect.resolveLiteral name token children = .error fault) : fault.isNameless = true := by
  rcases bind_error _ _ fault failed with unknown | ⟨record, _, rest⟩
  · exact dialect.record_fault name fault unknown
  · rcases bind_error _ _ fault rest with broken | ⟨instruction, _, done⟩
    · exact dialect.check_fault _ children fault broken
    · cases done

theorem access_fault (dialect : Dialect) (name : String) (slot : Nat) (children : List Node) (fault : Fault)
    (failed : dialect.resolveAccess name slot children = .error fault) : fault.isNameless = true := by
  rcases bind_error _ _ fault failed with unknown | ⟨record, _, rest⟩
  · exact dialect.record_fault name fault unknown
  · rcases bind_error _ _ fault rest with broken | ⟨instruction, _, done⟩
    · exact dialect.check_fault _ children fault broken
    · cases done

end Dialect

namespace Allocations

theorem constant_failed (before after : Allocations) (token : Token) (children : List Node) (fault : Fault)
    (failed : before.resolveConstant token children = (.error fault, after)) :
    after = before ∧ fault.isRule = true := by
  rw [resolveConstant] at failed
  split at failed
  · split at failed <;> cases failed
    exact ⟨rfl, rfl⟩
  · split at failed <;> cases failed <;> exact ⟨rfl, rfl⟩
  · cases failed
    exact ⟨rfl, rfl⟩

theorem label_failed (before after : Allocations) (token : Token) (fault : Fault)
    (failed : before.resolveLabel token = (.error fault, after)) : after = before ∧ fault.isNameless = true := by
  rw [resolveLabel] at failed
  split at failed <;> cases failed
  exact ⟨rfl, rfl⟩

theorem macro_failed (before after : Allocations) (keyword : Keyword) (children : List Node) (fault : Fault)
    (failed : before.resolveMacro keyword children = (.error fault, after)) :
    after = before ∧ fault.isNameless = true := by
  unfold resolveMacro at failed
  dsimp only at failed
  split at failed
  · cases failed
    exact ⟨rfl, rfl⟩
  · cases keyword with
    | choice | transaction =>
        dsimp only at failed
        split at failed <;> cases failed
        exact ⟨rfl, rfl⟩
    | _ => cases failed

end Allocations

namespace Dialect

theorem resolve_nameless (dialect : Dialect) (before after : Allocations) (token : Token) (children : List Node)
    (fault : Fault) (other : token.kind ≠ .scratch) (unbound : token.kind ≠ .constant)
    (failed : dialect.resolve before token children = (.error fault, after)) :
    after = before ∧ fault.isNameless = true := by
  rw [resolve] at failed
  split at failed
  · obtain ⟨found, rfl⟩ := Prod.mk.inj failed
    exact ⟨rfl, dialect.opcode_fault token children fault found⟩
  · obtain ⟨found, rfl⟩ := Prod.mk.inj failed
    exact ⟨rfl, dialect.literal_fault "byte" token children fault found⟩
  · obtain ⟨found, rfl⟩ := Prod.mk.inj failed
    exact ⟨rfl, dialect.literal_fault "int" token children fault found⟩
  · rename_i named
    exact absurd named other
  · rename_i named
    exact absurd named unbound
  · exact before.label_failed after token fault failed
  · cases failed
  · cases failed
  · rename_i keyword named
    exact before.macro_failed after keyword children fault failed
  · cases failed
    exact ⟨rfl, rfl⟩
  · cases failed
    exact ⟨rfl, rfl⟩

theorem resolve_failed (dialect : Dialect) (before after : Allocations) (token : Token) (children : List Node)
    (fault : Fault) (other : token.kind ≠ .scratch)
    (failed : dialect.resolve before token children = (.error fault, after)) :
    after = before ∧ fault.isRule = true := by
  by_cases bound : token.kind = .constant
  · rw [resolve, bound] at failed
    exact before.constant_failed after token children fault failed
  · obtain ⟨same, nameless⟩ := dialect.resolve_nameless before after token children fault other bound failed
    exact ⟨same, fault.nameless_rule nameless⟩

-- Nothing is taken back, and only a definition may have taken something. A slot is wanting or a rule is broken.
theorem resolve_refused (dialect : Dialect) (before after : Allocations) (token : Token) (children : List Node)
    (fault : Fault) (refused : dialect.resolve before token children = (.error fault, after)) :
    (after = before ∨ after = (before.allocateSlot dialect.options.reuse token.text).2) ∧
      (fault.isScratch = true ∨ fault.isRule = true) := by
  by_cases named : token.kind = .scratch
  · by_cases bare : Node.significant children = []
    · rw [dialect.resolve_reading before token children named bare] at refused
      split at refused
      · obtain ⟨failed, same⟩ := Prod.mk.inj refused
        exact ⟨.inl same.symm, .inr (fault.nameless_rule (dialect.access_fault "load" _ children fault failed))⟩
      · cases refused
        exact ⟨.inl rfl, .inl rfl⟩
    · rw [dialect.resolve_definition before token children named bare] at refused
      split at refused
      · rename_i slot middle allocated
        obtain ⟨failed, same⟩ := Prod.mk.inj refused
        have nameless := dialect.access_fault "store" slot children fault failed
        exact ⟨.inr (by rw [allocated, same]), .inr (fault.nameless_rule nameless)⟩
      · rename_i middle allocated
        cases refused
        exact ⟨.inr (by rw [allocated]), .inl rfl⟩
  · obtain ⟨same, rule⟩ := dialect.resolve_failed before after token children fault named refused
    exact ⟨.inl same, .inr rule⟩

theorem build_refused (dialect : Dialect) (before after : Allocations) (token : Located Token) (children : List Node)
    (fault : Located Fault) (failed : dialect.build before token children = (.error fault, after)) :
    dialect.resolve before token.value children = (.error fault.value, after) := by
  rw [build] at failed
  split at failed
  · cases failed
  · rename_i found left resolved
    cases failed
    exact resolved

theorem build_failed (dialect : Dialect) (before after : Allocations) (token : Located Token) (children : List Node)
    (fault : Located Fault) (failed : dialect.build before token children = (.error fault, after)) :
    after = before ∨ after = (before.allocateSlot dialect.options.reuse token.value.text).2 :=
  (dialect.resolve_refused before after token.value children fault.value
    (dialect.build_refused before after token children fault failed)).1

theorem build_fault (dialect : Dialect) (before after : Allocations) (token : Located Token) (children : List Node)
    (fault : Located Fault) (failed : dialect.build before token children = (.error fault, after)) :
    fault.value.isScratch = true ∨ fault.value.isRule = true :=
  (dialect.resolve_refused before after token.value children fault.value
    (dialect.build_refused before after token children fault failed)).2

theorem build_failed_others (dialect : Dialect) (before after : Allocations) (token : Located Token)
    (children : List Node) (fault : Located Fault)
    (failed : dialect.build before token children = (.error fault, after)) :
    after.labels = before.labels ∧ after.constants = before.constants := by
  rcases dialect.build_failed before after token children fault failed with same | allocated
  · rw [same]
    exact ⟨rfl, rfl⟩
  · rw [allocated]
    exact before.allocate_slot_others _ _ _ _ rfl

theorem build_resolve (dialect : Dialect) (before : Allocations) (token : Located Token) (children : List Node) :
    (dialect.build before token children).2 = (dialect.resolve before token.value children).2 := by
  rw [build]
  split <;> simp_all

theorem build_error (dialect : Dialect) (before : Allocations) (token : Located Token) (children : List Node)
    (fault : Located Fault) :
    (dialect.build before token children).1 = .error fault ↔
      (dialect.resolve before token.value children).1 = .error fault.value ∧ fault.location = token.location := by
  obtain ⟨value, location⟩ := fault
  rw [build]
  split
  · rename_i resolved
    simp [resolved]
  · rename_i resolved
    simp [resolved, eq_comm]

end Dialect

end TealForms
