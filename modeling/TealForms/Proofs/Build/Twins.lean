import Mathlib.Data.Set.Function
import TealForms.Proofs.Allocations.Fresh
import TealForms.Proofs.Build.Failed
import TealForms.Proofs.Forms.Comparison
import TealForms.Proofs.Node.Agreement

set_option autoImplicit false

namespace TealForms

structure Renaming where
  scratch : String → String
  constant : String → String

namespace Renaming

def identity : Renaming := ⟨id, id⟩

def token (names : Renaming) (token : Token) : Token :=
  match token.kind with
  | .scratch => ⟨.scratch, names.scratch token.text⟩
  | .constant => ⟨.constant, names.constant token.text⟩
  | _ => token

def scanned (names : Renaming) : Scanned → Scanned
  | .ok token => .ok (token.map names.token)
  | .error failure => .error failure

def fault (names : Renaming) : Fault → Fault
  | .scratchOverflow name => .scratchOverflow (names.scratch name)
  | .scratchNotFound name => .scratchNotFound (names.scratch name)
  | .constantNotDefined name => .constantNotDefined (names.constant name)
  | .constantRedefined name => .constantRedefined (names.constant name)
  | fault => fault

section

variable (names : Renaming)

theorem token_kind (token : Token) : (names.token token).kind = token.kind := by
  rw [Renaming.token]
  split <;> simp_all

theorem token_scratch (token : Token) (named : token.kind = .scratch) :
    names.token token = ⟨.scratch, names.scratch token.text⟩ := by
  simp [Renaming.token, named]

theorem token_constant (token : Token) (named : token.kind = .constant) :
    names.token token = ⟨.constant, names.constant token.text⟩ := by
  simp [Renaming.token, named]

theorem token_other (token : Token) (unstored : token.kind ≠ .scratch) (unbound : token.kind ≠ .constant) :
    names.token token = token := by
  rw [Renaming.token]
  split <;> simp_all

theorem fault_nameless (fault : Fault) (nameless : fault.isNameless = true) : names.fault fault = fault := by
  cases fault <;> simp_all [Fault.isNameless, Renaming.fault]

end

end Renaming

def Instruction.IsValue (instruction : Instruction) : Prop :=
  ∃ record text, instruction = ⟨record, [text]⟩ ∧ (record.name = "byte" ∨ record.name = "int")

-- Names may differ, as long as those of the constants at hand stay apart, and so may what accesses to variables are
-- emitted as and the tables of slots.
structure Twinning (first second : Dialect) where
  names : Renaming
  stored : Set String
  bound : Set String
  same : Command → Command → Prop
  slots : List String → List String → Prop
  table : second.table = first.table
  version : second.options.version = first.options.version
  strict : second.options.strict = first.options.strict
  marker : second.options.marker = first.options.marker
  distinct : Set.InjOn names.constant bound
  steady : Node.Steady same
  bare : ∀ instruction, same (.plain instruction none) (.plain instruction none)
  pushes : ∀ instruction name, instruction.IsValue →
    same (.plain instruction (some name)) (.plain instruction (some (names.constant name)))
  fresh : slots [] []

namespace Twinning

section

variable {first second : Dialect} (twinning : Twinning first second)

def Bound (bound other : Literal Node) : Prop := bound.instruction.IsValue ∧ bound.Agrees twinning.same other

structure Nodes (node twin : Node) : Prop extends Node.Agrees twinning.same node twin where
  literals : Option.Rel twinning.Bound node.literal? twin.literal?

structure Tables (before left : Allocations) : Prop where
  scratch : twinning.slots before.scratch left.scratch
  labels : left.labels = before.labels
  counters : left.counters = before.counters
  constants : List.Forall₂ (fun entry twin => entry.1 ∈ twinning.bound ∧
    twin.1 = twinning.names.constant entry.1 ∧ twinning.Bound entry.2 twin.2) before.constants left.constants

def Covers (token : Token) : Prop :=
  (token.kind = .scratch → token.text ∈ twinning.stored) ∧ (token.kind = .constant → token.text ∈ twinning.bound)

def like (excused : Fault → Prop) : Likeness where
  token token other := twinning.Covers token.value ∧ other = token.map twinning.names.token
  node := twinning.Nodes
  allocations := twinning.Tables
  fault found given := given = found.map twinning.names.fault
  excused fault := excused fault.value

def Accessed (word name : String) (slot place : Nat) : Prop :=
  ∀ record, first.table.record? word = some record →
    (∀ children, Instruction.fault? first.table ⟨record, [toString place]⟩ children =
      Instruction.fault? first.table ⟨record, [toString slot]⟩ children) ∧
    twinning.same (.plain ⟨record, [toString slot]⟩ (some name))
      (.plain ⟨record, [toString place]⟩ (some (twinning.names.scratch name)))

inductive Allocated (excused : Fault → Prop) (name : String) :
    Option Nat × Allocations → Option Nat × Allocations → Prop where
  | taken (slot place : Nat) (after later : Allocations) (accessed : twinning.Accessed "store" name slot place)
      (tables : twinning.Tables after later) : Allocated excused name (some slot, after) (some place, later)
  | full (after later : Allocations) : Allocated excused name (none, after) (none, later)
  | excused (after : Allocations) (allocated : Option Nat × Allocations) (known : excused (.scratchOverflow name)) :
      Allocated excused name (none, after) allocated

include twinning in
theorem record_twins (name : String) : second.record name = first.record name := by
  rw [Dialect.record, Dialect.record, twinning.table]

theorem token_other (token : Located Token) (unstored : token.value.kind ≠ .scratch)
    (unbound : token.value.kind ≠ .constant) : token.map twinning.names.token = token :=
  congrArg (Located.mk · token.location) (twinning.names.token_other token.value unstored unbound)

theorem tables_empty : twinning.Tables {} {} := ⟨twinning.fresh, rfl, rfl, .nil⟩

theorem tables_constant (before left : Allocations) (tables : twinning.Tables before left) (name : String)
    (known : name ∈ twinning.bound) :
    Option.Rel twinning.Bound (before.constant? name) (left.constant? (twinning.names.constant name)) := by
  obtain ⟨_, _, _, related⟩ := tables
  rw [Allocations.constant?, Allocations.constant?]
  generalize before.constants = constants at related
  generalize left.constants = others at related
  induction related with
  | nil => exact .none
  | @cons entry twin rest others here _ ih =>
      obtain ⟨bound, renamed, alike⟩ := here
      have matching : twin.1 = twinning.names.constant name ↔ entry.1 = name := by
        rw [renamed, twinning.distinct.eq_iff bound known]
      by_cases named : entry.1 = name
      · rw [List.find?_cons_of_pos (by simpa using named), List.find?_cons_of_pos (by simpa using matching.mpr named)]
        exact .some alike
      · rw [List.find?_cons_of_neg (by simpa using named), List.find?_cons_of_neg (by simpa [matching] using named)]
        exact ih

theorem tables_bind (before left : Allocations) (tables : twinning.Tables before left) (name : String)
    (known : name ∈ twinning.bound) (bound other : Literal Node) (alike : twinning.Bound bound other) :
    twinning.Tables (before.bind name bound) (left.bind (twinning.names.constant name) other) :=
  { tables with constants := List.rel_append tables.constants (.cons ⟨known, rfl, alike⟩ .nil) }

theorem tables_label (before left : Allocations) (tables : twinning.Tables before left) (family : Family) :
    (left.allocateLabel family).1 = (before.allocateLabel family).1 ∧
      twinning.Tables (before.allocateLabel family).2 (left.allocateLabel family).2 := by
  obtain ⟨label, labels, counters⟩ := before.allocate_label_same left family tables.labels tables.counters
  exact ⟨label, { tables with labels, counters }⟩

end

section

variable {first second : Dialect} (twinning : Twinning first second) {children others : List Node}
variable (below : List.Forall₂ twinning.Nodes children others)

include below

theorem nodes_agree : List.Forall₂ (Node.Agrees twinning.same) children others :=
  below.imp fun _ _ => Nodes.toAgrees

theorem check_twins (instruction : Instruction) :
    second.check instruction others = first.check instruction children := by
  rw [Dialect.check, Dialect.check, Instruction.fault?, Instruction.fault?, Instruction.stackFault?,
    Instruction.stackFault?, Node.returns_agree (twinning.nodes_agree below), twinning.table, twinning.strict]

theorem opcode_twins (token : Token) : second.resolveOpcode token others = first.resolveOpcode token children := by
  have exempt : second.isExempt token = first.isExempt token := by
    rw [Dialect.isExempt, Dialect.isExempt, twinning.marker]
  have name : second.opcodeName token = first.opcodeName token := by
    rw [Dialect.opcodeName, Dialect.opcodeName, exempt]
  simp only [Dialect.resolveOpcode, twinning.record_twins, twinning.check_twins below, name, exempt]

theorem literal_twins (name : String) (token : Token) :
    second.resolveLiteral name token others = first.resolveLiteral name token children := by
  simp only [Dialect.resolveLiteral, twinning.record_twins, twinning.check_twins below]

theorem significant_twins : List.Forall₂ twinning.Nodes (Node.significant children) (Node.significant others) :=
  Node.significant_related _ (fun _ _ twins => twins.comment) below

theorem macro_twins (before left : Allocations) (tables : twinning.Tables before left) (keyword : Keyword) :
    (left.resolveMacro keyword others).1 = (before.resolveMacro keyword children).1 ∧
      twinning.Tables (before.resolveMacro keyword children).2 (left.resolveMacro keyword others).2 := by
  have significant := Node.significant_agree (twinning.nodes_agree below)
  have cases : (Node.significant others).all Node.isCase = (Node.significant children).all Node.isCase :=
    Node.all_same significant Node.isCase fun _ _ agrees => agrees.case
  have fields : (Node.significant others).all Node.isField = (Node.significant children).all Node.isField :=
    Node.all_same significant Node.isField fun _ _ agrees => agrees.field
  unfold Allocations.resolveMacro
  dsimp only
  rw [← significant.length_eq, cases, fields]
  have label (family : Family) (kind : String → Kind Node) :
      (left.labelled family kind).1 = (before.labelled family kind).1 ∧
        twinning.Tables (before.labelled family kind).2 (left.labelled family kind).2 := by
    obtain ⟨label, kept⟩ := twinning.tables_label before left tables family
    exact ⟨congrArg (fun label => Except.ok (kind label)) label, kept⟩
  split
  · exact ⟨rfl, tables⟩
  · cases keyword with
    | group => exact ⟨rfl, tables⟩
    | case => exact label .case .case
    | loop => exact label .loop .loop
    | choice =>
        dsimp only
        split
        · exact label .choice .choice
        · exact ⟨rfl, tables⟩
    | transaction =>
        dsimp only
        split <;> exact ⟨rfl, tables⟩

theorem resolve_twins (before left : Allocations) (tables : twinning.Tables before left) (token : Token)
    (unstored : token.kind ≠ .scratch) (unbound : token.kind ≠ .constant) :
    (second.resolve left token others).1 = (first.resolve before token children).1 ∧
      twinning.Tables (first.resolve before token children).2 (second.resolve left token others).2 := by
  rw [Dialect.resolve, Dialect.resolve]
  cases named : token.kind with
  | opcode => exact ⟨twinning.opcode_twins below token, tables⟩
  | bytes => exact ⟨twinning.literal_twins below "byte" token, tables⟩
  | integer => exact ⟨twinning.literal_twins below "int" token, tables⟩
  | scratch => exact absurd named unstored
  | constant => exact absurd named unbound
  | label =>
      dsimp only
      rw [Allocations.resolveLabel, Allocations.resolveLabel, tables.labels]
      split
      · exact ⟨rfl, tables⟩
      · exact ⟨rfl, { tables with labels := congrArg (· ++ _) tables.labels }⟩
  | root => exact ⟨by rw [twinning.version], tables⟩
  | keyword keyword => exact twinning.macro_twins below before left tables keyword
  | comment | opening | closing => exact ⟨rfl, tables⟩

-- A kind that is neither a variable's nor a constant's stands for the same on both sides.
theorem other_nodes (before after : Allocations) (token : Located Token) (kind : Kind Node)
    (unstored : token.value.kind ≠ .scratch) (unbound : token.value.kind ≠ .constant)
    (settled : first.Settled before token.value children kind after) :
    twinning.Nodes (.mk token kind children) (.mk token kind others) := by
  have agree := twinning.nodes_agree below
  have matching : Node.Matches twinning.same token.value token.value kind kind := by
    cases settled with
    | load _ _ named => exact absurd named unstored
    | store _ _ _ named => exact absurd named unstored
    | reference _ named => exact absurd named unbound
    | definition _ _ named => exact absurd named unbound
    | opcode => exact .opcode _ (twinning.bare _)
    | literal => exact .literal _ (twinning.bare _)
    | label => exact .label rfl
    | comment => exact .comment
    | root => exact .root _
    | case => exact .case _
    | loop => exact .loop _
    | choice => exact .choice _
    | group => exact .group
    | transaction => exact .transaction
  refine ⟨Node.matches_agree _ token token kind kind children others twinning.steady matching agree, ?_⟩
  cases settled with
  | literal name record named found =>
      have word : record.name = "byte" ∨ record.name = "int" := by
        rw [first.table.record_name name record found]
        exact named.imp And.right And.right
      exact .some ⟨⟨record, _, rfl, word⟩, rfl, Node.commands_agree agree⟩
  | _ => exact .none

theorem other_builds (excused : Fault → Prop) (before left : Allocations)
    (tables : twinning.Tables before left) (token : Located Token) (unstored : token.value.kind ≠ .scratch)
    (unbound : token.value.kind ≠ .constant) :
    (twinning.like excused).Follows twinning.Nodes (first.build before token children)
      (second.build left token others) := by
  obtain ⟨same, kept⟩ := twinning.resolve_twins below before left tables token.value unstored unbound
  rw [Dialect.build, Dialect.build]
  generalize resolved : first.resolve before token.value children = found at same kept
  generalize second.resolve left token.value others = given at same kept
  obtain ⟨fault | kind, after⟩ := found <;> obtain ⟨_, later⟩ := given <;> cases same
  · have nameless := (first.resolve_nameless before after token.value children fault unstored unbound resolved).2
    refine .inr ⟨_, later, rfl, ?_⟩
    exact congrArg (Located.mk · token.location) (twinning.names.fault_nameless fault nameless).symm
  · have settled := first.resolve_settled before after token.value children kind resolved
    exact ⟨_, later, rfl, twinning.other_nodes below before after token kind unstored unbound settled, kept⟩

theorem constant_builds (excused : Fault → Prop) (before left : Allocations)
    (tables : twinning.Tables before left) (token : Located Token) (named : token.value.kind = .constant)
    (known : token.value.text ∈ twinning.bound) :
    (twinning.like excused).Follows twinning.Nodes (first.build before token children)
      (second.build left (token.map twinning.names.token) others) := by
  have agree := twinning.nodes_agree below
  have looked := twinning.tables_constant before left tables token.value.text known
  have significant := twinning.significant_twins below
  have renamed : (token.map twinning.names.token).value = ⟨.constant, twinning.names.constant token.value.text⟩ :=
    twinning.names.token_constant token.value named
  rw [Dialect.build, Dialect.build, Dialect.resolve, Dialect.resolve, renamed, named]
  dsimp only
  rw [Allocations.resolveConstant, Allocations.resolveConstant]
  dsimp only
  generalize before.constant? token.value.text = constant at looked
  generalize left.constant? (twinning.names.constant token.value.text) = twin at looked
  generalize Node.significant children = values at significant
  generalize Node.significant others = twins at significant
  cases significant with
  | nil =>
      cases looked with
      | none => exact .inr ⟨_, left, rfl, rfl⟩
      | @some bound other alike =>
          have own := twinning.pushes bound.instruction token.value.text alike.1
          have matching : Node.Matches twinning.same token.value (token.map twinning.names.token).value
              (.reference bound) (.reference other) := .reference bound other alike.2 (by rwa [renamed])
          have nodes := Node.matches_agree _ token _ _ _ children others twinning.steady matching agree
          exact ⟨_, left, rfl, ⟨nodes, .none⟩, tables⟩
  | @cons value other values rest here later =>
      cases later with
      | cons => exact .inr ⟨_, left, rfl, rfl⟩
      | nil =>
          have literals := here.literals
          dsimp only
          generalize value.literal? = literal at literals
          generalize other.literal? = given at literals
          cases literals with
          | none => exact .inr ⟨_, left, rfl, rfl⟩
          | @some bound other alike =>
              cases looked with
              | some => exact .inr ⟨_, left, rfl, rfl⟩
              | none =>
                  have nodes := Node.matches_agree twinning.same token (token.map twinning.names.token) .definition
                    .definition children others twinning.steady .definition agree
                  exact ⟨_, _, rfl, ⟨nodes, .none⟩, twinning.tables_bind before left tables _ known bound other alike⟩

omit below in
theorem refused_builds (excused : Fault → Prop) (before left after later : Allocations) (token : Located Token)
    (fault : Fault) (refused : first.resolve before token.value children = (.error fault, after))
    (given : second.resolve left (twinning.names.token token.value) others =
      (.error (twinning.names.fault fault), later)) :
    (twinning.like excused).Follows twinning.Nodes (first.build before token children)
      (second.build left (token.map twinning.names.token) others) := by
  have given' : second.resolve left (token.map twinning.names.token).value others = _ := given
  rw [Dialect.build, Dialect.build, refused, given']
  exact .inr ⟨_, later, rfl, rfl⟩

theorem access_nodes (token twin : Located Token) (record : Record) (args arguments : List String)
    (own : twinning.same (.plain ⟨record, args⟩ (some token.value.text))
      (.plain ⟨record, arguments⟩ (some twin.value.text))) :
    twinning.Nodes (.mk token (.scratch ⟨record, args⟩) children) (.mk twin (.scratch ⟨record, arguments⟩) others) where
  comment := rfl
  case := rfl
  field := rfl
  returns := rfl
  commands := List.rel_append (Node.commands_agree (twinning.nodes_agree below)) (.cons own .nil)
  cases _ := .nil
  literal _ read := by cases read
  literals := .none

theorem access_builds (excused : Fault → Prop) (before left after later : Allocations) (token : Located Token)
    (word : String) (slot place : Nat) (named : token.value.kind = .scratch)
    (resolved : first.resolve before token.value children = (first.resolveAccess word slot children, after))
    (given : second.resolve left (twinning.names.token token.value) others =
      (second.resolveAccess word place others, later)) (tables : twinning.Tables after later)
    (accessed : twinning.Accessed word token.value.text slot place) :
    (twinning.like excused).Follows twinning.Nodes (first.build before token children)
      (second.build left (token.map twinning.names.token) others) := by
  have renamed : (token.map twinning.names.token).value = ⟨.scratch, twinning.names.scratch token.value.text⟩ :=
    twinning.names.token_scratch token.value named
  have given' : second.resolve left (token.map twinning.names.token).value others = _ := given
  rw [Dialect.build, Dialect.build, resolved, given', Dialect.resolveAccess, Dialect.resolveAccess,
    twinning.record_twins]
  cases found : first.table.record? word with
  | none =>
      rw [show first.record word = .error (.invalidOpcode word) by rw [Dialect.record, found]]
      exact .inr ⟨_, later, rfl, rfl⟩
  | some record =>
      obtain ⟨unseen, own⟩ := accessed record found
      rw [first.record_found word record found]
      dsimp only [bind, Except.bind]
      rw [twinning.check_twins below, Dialect.check, Dialect.check, unseen children]
      have nodes := twinning.access_nodes below token (token.map twinning.names.token) record _ _
        (by rwa [renamed])
      cases first.options.strict with
      | false => exact ⟨_, later, rfl, nodes, tables⟩
      | true =>
          cases broken : Instruction.fault? first.table ⟨record, [toString slot]⟩ children with
          | none => exact ⟨_, later, rfl, nodes, tables⟩
          | some fault =>
              have nameless := fault.check_nameless (Instruction.fault_check _ _ _ fault broken)
              refine .inr ⟨_, later, rfl, ?_⟩
              exact congrArg (Located.mk · token.location) (twinning.names.fault_nameless fault nameless).symm

theorem scratch_builds (excused : Fault → Prop) (before left : Allocations) (tables : twinning.Tables before left)
    (token : Located Token) (named : token.value.kind = .scratch)
    (reads : Option.Rel (twinning.Accessed "load" token.value.text) (before.slot? token.value.text)
      (left.slot? (twinning.names.scratch token.value.text)))
    (stores : twinning.Allocated excused token.value.text
      (before.allocateSlot first.options.reuse token.value.text)
      (left.allocateSlot second.options.reuse (twinning.names.scratch token.value.text))) :
    (twinning.like excused).Follows twinning.Nodes (first.build before token children)
      (second.build left (token.map twinning.names.token) others) := by
  have renamed := twinning.names.token_scratch token.value named
  have named' : (twinning.names.token token.value).kind = .scratch := by rw [renamed]
  have text : (twinning.names.token token.value).text = twinning.names.scratch token.value.text := by rw [renamed]
  have significant := twinning.significant_twins below
  by_cases bare : Node.significant children = []
  · rw [bare, List.forall₂_nil_left_iff] at significant
    have found := first.resolve_reading before token.value children named bare
    have given := second.resolve_reading left (twinning.names.token token.value) others named' significant
    rw [text] at given
    generalize before.slot? token.value.text = slot at reads found
    generalize left.slot? (twinning.names.scratch token.value.text) = place at reads given
    cases reads with
    | none => exact twinning.refused_builds excused before left before left token _ found given
    | some accessed =>
        exact twinning.access_builds below _ before left before left token _ _ _ named found given tables accessed
  · have filled : Node.significant others ≠ [] := by
      intro none
      rw [none, List.forall₂_nil_right_iff] at significant
      exact bare significant
    have found := first.resolve_definition before token.value children named bare
    have given := second.resolve_definition left (twinning.names.token token.value) others named' filled
    rw [text] at given
    generalize before.allocateSlot first.options.reuse token.value.text = allocated at stores found
    generalize left.allocateSlot second.options.reuse (twinning.names.scratch token.value.text) = renewed
      at stores given
    cases stores with
    | taken slot place after later accessed kept =>
        exact twinning.access_builds below _ before left after later token _ _ _ named found given kept accessed
    | full after later => exact twinning.refused_builds excused before left after later token _ found given
    | excused after _ known =>
        rw [Dialect.build, found]
        exact .inl known

end

section

variable {first second : Dialect} (twinning : Twinning first second) (excused : Fault → Prop)

-- Variables that are read have slots on both sides or on none, and so have variables that are stored, unless the first
-- side is excused.
structure Accesses : Prop where
  reads : ∀ before left name, twinning.Tables before left → name ∈ twinning.stored →
    Option.Rel (twinning.Accessed "load" name) (before.slot? name) (left.slot? (twinning.names.scratch name))
  stores : ∀ before left name, twinning.Tables before left → name ∈ twinning.stored →
    twinning.Allocated excused name (before.allocateSlot first.options.reuse name)
      (left.allocateSlot second.options.reuse (twinning.names.scratch name))

variable {excused} (accesses : twinning.Accesses excused)

def comparison : Comparison first second where
  toLikeness := twinning.like excused
  kinds := by
    rintro token _ ⟨_, rfl⟩
    exact twinning.names.token_kind token.value
  invalid := by
    rintro token _ ⟨_, rfl⟩ refused
    have unstored : token.value.kind ≠ .scratch := by rcases refused with named | named | named <;> simp [named]
    have unbound : token.value.kind ≠ .constant := by rcases refused with named | named | named <;> simp [named]
    rw [twinning.token_other token unstored unbound]
    exact .inr rfl
  unclosed := by
    rintro token _ ⟨_, rfl⟩
    exact .inr rfl
  builds := by
    rintro before left token _ children others tables ⟨covers, rfl⟩ below
    by_cases stored : token.value.kind = .scratch
    · exact twinning.scratch_builds below excused before left tables token stored
        (accesses.reads before left _ tables (covers.1 stored)) (accesses.stores before left _ tables (covers.1 stored))
    · by_cases bound : token.value.kind = .constant
      · exact twinning.constant_builds below excused before left tables token bound (covers.2 bound)
      · rw [twinning.token_other token stored bound]
        exact twinning.other_builds below excused before left tables token stored bound

include accesses in
theorem parse_twins (start : Location) (tokens : List Scanned)
    (covered : ∀ token, .ok token ∈ tokens → twinning.Covers token.value) :
    (twinning.like excused).Follows twinning.Nodes (first.parse {} start tokens)
      (second.parse {} start (tokens.map twinning.names.scanned)) := by
  have scans : List.Forall₂ (twinning.comparison accesses).Scans tokens (tokens.map twinning.names.scanned) := by
    rw [List.forall₂_map_right_iff, List.forall₂_same]
    rintro (failure | token) member
    · exact .inr rfl
    · exact ⟨covered token member, rfl⟩
  have root : (twinning.like excused).token ⟨.root, start⟩ ⟨.root, start⟩ := ⟨by simp [Covers, Token.root], rfl⟩
  exact (twinning.comparison accesses).parse_follows tokens _ {} {} start start scans twinning.tables_empty root

end

end Twinning

end TealForms
