import TealForms.Build

set_option autoImplicit false

namespace TealForms

namespace Dialect

def Accepts (dialect : Dialect) (instruction : Instruction) (children : List Node) : Prop :=
  dialect.options.strict = true → instruction.fault? dialect.table children = none

def IsLiteral (kind : TokenKind) (name : String) : Prop :=
  kind = .bytes ∧ name = "byte" ∨ kind = .integer ∧ name = "int"

inductive Settled (dialect : Dialect) (before : Allocations) (token : Token) (children : List Node) :
    Kind Node → Allocations → Prop where
  | opcode (record : Record) (named : token.kind = .opcode)
      (found : dialect.table.record? (dialect.opcodeName token) = some record)
      (accepted : dialect.isExempt token = false → dialect.Accepts ⟨record, token.args⟩ children) :
      Settled dialect before token children (.opcode ⟨record, token.args⟩) before
  | literal (name : String) (record : Record) (named : IsLiteral token.kind name)
      (found : dialect.table.record? name = some record) (accepted : dialect.Accepts ⟨record, [token.text]⟩ children) :
      Settled dialect before token children (.literal ⟨record, [token.text]⟩) before
  | load (record : Record) (slot : Nat) (named : token.kind = .scratch) (bare : Node.significant children = [])
      (known : before.slot? token.text = some slot) (found : dialect.table.record? "load" = some record)
      (accepted : dialect.Accepts ⟨record, [toString slot]⟩ children) :
      Settled dialect before token children (.scratch ⟨record, [toString slot]⟩) before
  | store (record : Record) (slot : Nat) (after : Allocations) (named : token.kind = .scratch)
      (filled : Node.significant children ≠ [])
      (allocated : before.allocateSlot dialect.options.reuse token.text = (some slot, after))
      (found : dialect.table.record? "store" = some record)
      (accepted : dialect.Accepts ⟨record, [toString slot]⟩ children) :
      Settled dialect before token children (.scratch ⟨record, [toString slot]⟩) after
  | reference (literal : Literal Node) (named : token.kind = .constant) (bare : Node.significant children = [])
      (known : before.constant? token.text = some literal) :
      Settled dialect before token children (.reference literal) before
  | definition (value : Node) (literal : Literal Node) (named : token.kind = .constant)
      (single : Node.significant children = [value]) (read : value.literal? = some literal)
      (fresh : before.constant? token.text = none) :
      Settled dialect before token children .definition (before.bind token.text literal)
  | label (named : token.kind = .label) (fresh : token.labelName ∉ before.labels) :
      Settled dialect before token children .label (before.declare token.labelName)
  | comment (named : token.kind = .comment) : Settled dialect before token children .comment before
  | root (named : token.kind = .root) : Settled dialect before token children (.root dialect.options.version) before
  | case (named : token.kind = .keyword .case) (filled : 2 ≤ (Node.significant children).length) :
      Settled dialect before token children (.case (before.allocateLabel .case).1) (before.allocateLabel .case).2
  | loop (named : token.kind = .keyword .loop) (filled : 2 ≤ (Node.significant children).length) :
      Settled dialect before token children (.loop (before.allocateLabel .loop).1) (before.allocateLabel .loop).2
  | choice (named : token.kind = .keyword .choice) (filled : 2 ≤ (Node.significant children).length)
      (cases : ∀ child ∈ Node.significant children, child.isCase = true) :
      Settled dialect before token children (.choice (before.allocateLabel .choice).1) (before.allocateLabel .choice).2
  | group (named : token.kind = .keyword .group) : Settled dialect before token children .group before
  | transaction (named : token.kind = .keyword .transaction) (filled : 1 ≤ (Node.significant children).length)
      (fields : ∀ child ∈ Node.significant children, child.isField = true) :
      Settled dialect before token children .transaction before

theorem check_accepts (dialect : Dialect) (instruction checked : Instruction) (children : List Node)
    (passed : dialect.check instruction children = .ok checked) :
    checked = instruction ∧ dialect.Accepts instruction children := by
  refine ⟨dialect.check_ok instruction checked children passed, ?_⟩
  intro strict
  cases fault : instruction.fault? dialect.table children with
  | none => rfl
  | some found => simp [check, strict, fault] at passed

theorem bind_ok {α β : Type} (first : Except Fault α) (next : α → Except Fault β) (result : β)
    (ran : (first >>= next) = .ok result) : ∃ value, first = .ok value ∧ next value = .ok result := by
  cases first with
  | error fault => cases ran
  | ok value => exact ⟨value, rfl, ran⟩

theorem opcode_settled (dialect : Dialect) (before : Allocations) (token : Token) (children : List Node)
    (kind : Kind Node) (named : token.kind = .opcode) (resolved : dialect.resolveOpcode token children = .ok kind) :
    dialect.Settled before token children kind before := by
  obtain ⟨record, looked, rest⟩ := bind_ok _ _ kind resolved
  have found := dialect.record_ok _ record looked
  cases exempt : dialect.isExempt token with
  | true =>
      rw [exempt] at rest
      cases rest
      exact .opcode record named found (fun checked => by simp [exempt] at checked)
  | false =>
      rw [exempt] at rest
      obtain ⟨instruction, passed, same⟩ := bind_ok _ _ kind rest
      obtain ⟨rfl, accepted⟩ := dialect.check_accepts _ instruction children passed
      cases same
      exact .opcode record named found (fun _ => accepted)

theorem literal_settled (dialect : Dialect) (before : Allocations) (name : String) (token : Token)
    (children : List Node) (kind : Kind Node) (named : IsLiteral token.kind name)
    (resolved : dialect.resolveLiteral name token children = .ok kind) :
    dialect.Settled before token children kind before := by
  obtain ⟨record, looked, rest⟩ := bind_ok _ _ kind resolved
  obtain ⟨instruction, passed, same⟩ := bind_ok _ _ kind rest
  obtain ⟨rfl, accepted⟩ := dialect.check_accepts _ instruction children passed
  cases same
  exact .literal name record named (dialect.record_ok _ record looked) accepted

theorem access_ok (dialect : Dialect) (name : String) (slot : Nat) (children : List Node) (kind : Kind Node)
    (resolved : dialect.resolveAccess name slot children = .ok kind) :
    ∃ record, dialect.table.record? name = some record ∧ dialect.Accepts ⟨record, [toString slot]⟩ children ∧
      kind = .scratch ⟨record, [toString slot]⟩ := by
  obtain ⟨record, looked, rest⟩ := bind_ok _ _ kind resolved
  obtain ⟨instruction, passed, same⟩ := bind_ok _ _ kind rest
  obtain ⟨rfl, accepted⟩ := dialect.check_accepts _ instruction children passed
  cases same
  exact ⟨record, dialect.record_ok _ record looked, accepted, rfl⟩

theorem scratch_settled (dialect : Dialect) (before after : Allocations) (token : Token) (children : List Node)
    (kind : Kind Node) (named : token.kind = .scratch)
    (resolved : dialect.resolveScratch before token children = (.ok kind, after)) :
    dialect.Settled before token children kind after := by
  rw [resolveScratch] at resolved
  cases values : Node.significant children with
  | nil =>
      cases known : before.slot? token.text with
      | none => simp [values, known] at resolved
      | some slot =>
          simp only [values, known, Prod.mk.injEq] at resolved
          obtain ⟨accessed, rfl⟩ := resolved
          obtain ⟨record, found, accepted, rfl⟩ := dialect.access_ok "load" slot children kind accessed
          exact .load record slot named values known found accepted
  | cons value rest =>
      obtain ⟨allocated, later⟩ : ∃ slot, before.allocateSlot dialect.options.reuse token.text = slot := ⟨_, rfl⟩
      obtain ⟨slot, left⟩ := allocated
      cases slot with
      | none => simp [values, later] at resolved
      | some slot =>
          simp only [values, later, Prod.mk.injEq] at resolved
          obtain ⟨accessed, rfl⟩ := resolved
          obtain ⟨record, found, accepted, rfl⟩ := dialect.access_ok "store" slot children kind accessed
          exact .store record slot left named (by simp [values]) later found accepted

theorem constant_settled (dialect : Dialect) (before after : Allocations) (token : Token) (children : List Node)
    (kind : Kind Node) (named : token.kind = .constant)
    (resolved : before.resolveConstant token children = (.ok kind, after)) :
    dialect.Settled before token children kind after := by
  rw [Allocations.resolveConstant] at resolved
  cases values : Node.significant children with
  | nil =>
      cases known : before.constant? token.text with
      | none => simp [values, known] at resolved
      | some literal =>
          simp only [values, known, Prod.mk.injEq, Except.ok.injEq] at resolved
          obtain ⟨rfl, rfl⟩ := resolved
          exact .reference literal named values known
  | cons value rest =>
      cases rest with
      | cons second rest => simp [values] at resolved
      | nil =>
          cases read : value.literal? with
          | none => simp [values, read] at resolved
          | some literal =>
              cases fresh : before.constant? token.text with
              | some bound => simp [values, read, fresh] at resolved
              | none =>
                  simp only [values, read, fresh, Prod.mk.injEq, Except.ok.injEq] at resolved
                  obtain ⟨rfl, rfl⟩ := resolved
                  exact .definition value literal named values read fresh

theorem label_settled (dialect : Dialect) (before after : Allocations) (token : Token) (children : List Node)
    (kind : Kind Node) (named : token.kind = .label) (resolved : before.resolveLabel token = (.ok kind, after)) :
    dialect.Settled before token children kind after := by
  rw [Allocations.resolveLabel] at resolved
  by_cases taken : token.labelName ∈ before.labels
  · simp [taken] at resolved
  · simp only [if_neg taken, Prod.mk.injEq, Except.ok.injEq] at resolved
    obtain ⟨rfl, rfl⟩ := resolved
    exact .label named taken

theorem macro_settled (dialect : Dialect) (before after : Allocations) (keyword : Keyword) (token : Token)
    (children : List Node) (kind : Kind Node) (named : token.kind = .keyword keyword)
    (resolved : before.resolveMacro keyword children = (.ok kind, after)) :
    dialect.Settled before token children kind after := by
  unfold Allocations.resolveMacro at resolved
  by_cases few : (Node.significant children).length < keyword.leastChildren
  · simp [few] at resolved
  · have filled : keyword.leastChildren ≤ (Node.significant children).length := Nat.le_of_not_lt few
    rw [if_neg few] at resolved
    cases keyword with
    | group =>
        cases resolved
        exact .group named
    | case =>
        cases resolved
        exact .case named filled
    | loop =>
        cases resolved
        exact .loop named filled
    | choice =>
        cases uniform : (Node.significant children).all Node.isCase with
        | false => simp [uniform] at resolved
        | true =>
            rw [uniform] at resolved
            cases resolved
            exact .choice named filled (List.all_eq_true.mp uniform)
    | transaction =>
        cases uniform : (Node.significant children).all Node.isField with
        | false => simp [uniform] at resolved
        | true =>
            rw [uniform] at resolved
            cases resolved
            exact .transaction named filled (List.all_eq_true.mp uniform)

theorem resolve_settled (dialect : Dialect) (before after : Allocations) (token : Token) (children : List Node)
    (kind : Kind Node) (resolved : dialect.resolve before token children = (.ok kind, after)) :
    dialect.Settled before token children kind after := by
  rw [resolve] at resolved
  split at resolved
  · rename_i named
    obtain ⟨done, rfl⟩ := Prod.mk.inj resolved
    exact dialect.opcode_settled before token children kind named done
  · rename_i named
    obtain ⟨done, rfl⟩ := Prod.mk.inj resolved
    exact dialect.literal_settled before "byte" token children kind (.inl ⟨named, rfl⟩) done
  · rename_i named
    obtain ⟨done, rfl⟩ := Prod.mk.inj resolved
    exact dialect.literal_settled before "int" token children kind (.inr ⟨named, rfl⟩) done
  · rename_i named
    exact dialect.scratch_settled before after token children kind named resolved
  · rename_i named
    exact dialect.constant_settled before after token children kind named resolved
  · rename_i named
    exact dialect.label_settled before after token children kind named resolved
  · rename_i named
    cases resolved
    exact .comment named
  · rename_i named
    cases resolved
    exact .root named
  · rename_i keyword named
    exact dialect.macro_settled before after keyword token children kind named resolved
  · cases resolved
  · cases resolved

theorem build_settled (dialect : Dialect) (before after : Allocations) (token : Located Token) (children : List Node)
    (node : Node) (built : dialect.build before token children = (.ok node, after)) :
    ∃ kind, node = .mk token kind children ∧ dialect.Settled before token.value children kind after := by
  rw [build] at built
  split at built
  · rename_i kind left resolved
    cases built
    exact ⟨kind, rfl, dialect.resolve_settled before _ token.value children kind resolved⟩
  · cases built

theorem accepts_check (dialect : Dialect) (instruction : Instruction) (children : List Node)
    (accepted : dialect.Accepts instruction children) : dialect.check instruction children = .ok instruction := by
  rw [check]
  cases strict : dialect.options.strict with
  | false => rfl
  | true => rw [if_pos rfl, accepted strict]

theorem record_found (dialect : Dialect) (name : String) (record : Record)
    (found : dialect.table.record? name = some record) : dialect.record name = .ok record := by
  rw [Dialect.record, found]

theorem opcode_resolves (dialect : Dialect) (token : Token) (children : List Node) (record : Record)
    (found : dialect.table.record? (dialect.opcodeName token) = some record)
    (accepted : dialect.isExempt token = false → dialect.Accepts ⟨record, token.args⟩ children) :
    dialect.resolveOpcode token children = .ok (.opcode ⟨record, token.args⟩) := by
  rw [resolveOpcode, dialect.record_found _ record found]
  cases exempt : dialect.isExempt token with
  | true => rfl
  | false =>
      have passed := dialect.accepts_check _ children (accepted exempt)
      change (dialect.check _ children >>= fun checked => pure (Kind.opcode checked)) = _
      rw [passed]
      rfl

theorem literal_resolves (dialect : Dialect) (name : String) (token : Token) (children : List Node) (record : Record)
    (found : dialect.table.record? name = some record) (accepted : dialect.Accepts ⟨record, [token.text]⟩ children) :
    dialect.resolveLiteral name token children = .ok (.literal ⟨record, [token.text]⟩) := by
  rw [resolveLiteral, dialect.record_found name record found]
  change (dialect.check _ children >>= fun checked => pure (Kind.literal checked)) = _
  rw [dialect.accepts_check _ children accepted]
  rfl

theorem access_resolves (dialect : Dialect) (name : String) (slot : Nat) (children : List Node) (record : Record)
    (found : dialect.table.record? name = some record) (accepted : dialect.Accepts ⟨record, [toString slot]⟩ children) :
    dialect.resolveAccess name slot children = .ok (.scratch ⟨record, [toString slot]⟩) := by
  rw [resolveAccess, dialect.record_found name record found]
  change (dialect.check _ children >>= fun checked => pure (Kind.scratch checked)) = _
  rw [dialect.accepts_check _ children accepted]
  rfl

-- The rules leave nothing out: what they settle is what building resolves.
theorem settled_resolves (dialect : Dialect) (before after : Allocations) (token : Token) (children : List Node)
    (kind : Kind Node) (settled : dialect.Settled before token children kind after) :
    dialect.resolve before token children = (.ok kind, after) := by
  rw [resolve]
  cases settled with
  | opcode record named found accepted =>
      rw [named]
      exact congrArg (·, before) (dialect.opcode_resolves token children record found accepted)
  | literal name record named found accepted =>
      have resolved := dialect.literal_resolves name token children record found accepted
      rcases named with ⟨named, rfl⟩ | ⟨named, rfl⟩ <;> (rw [named]; exact congrArg (·, before) resolved)
  | load record slot named bare known found accepted =>
      have resolved := dialect.access_resolves "load" slot children record found accepted
      simp only [named, resolveScratch, bare, known, resolved]
  | store record slot after named filled allocated found accepted =>
      have resolved := dialect.access_resolves "store" slot children record found accepted
      obtain ⟨value, rest, values⟩ := List.exists_cons_of_ne_nil filled
      simp only [named, resolveScratch, values, allocated, resolved]
  | reference literal named bare known => simp only [named, Allocations.resolveConstant, bare, known]
  | definition value literal named single read fresh =>
      simp only [named, Allocations.resolveConstant, single, read, fresh]
  | label named fresh => simp only [named, Allocations.resolveLabel, if_neg fresh]
  | comment named => rw [named]
  | root named => rw [named]
  | case named filled =>
      simp [named, Allocations.resolveMacro, Keyword.leastChildren, Nat.not_lt.mpr filled, Allocations.labelled]
  | loop named filled =>
      simp [named, Allocations.resolveMacro, Keyword.leastChildren, Nat.not_lt.mpr filled, Allocations.labelled]
  | choice named filled cases =>
      have uniform := List.all_eq_true.mpr cases
      simp [named, Allocations.resolveMacro, Keyword.leastChildren, Nat.not_lt.mpr filled, uniform,
        Allocations.labelled]
  | group named => simp [named, Allocations.resolveMacro, Keyword.leastChildren]
  | transaction named filled fields =>
      have uniform := List.all_eq_true.mpr fields
      simp [named, Allocations.resolveMacro, Keyword.leastChildren, Nat.not_lt.mpr filled, uniform]

theorem settled_build (dialect : Dialect) (before after : Allocations) (token : Located Token) (children : List Node)
    (kind : Kind Node) (settled : dialect.Settled before token.value children kind after) :
    dialect.build before token children = (.ok (.mk token kind children), after) := by
  rw [build, dialect.settled_resolves before after token.value children kind settled]

end Dialect

end TealForms
