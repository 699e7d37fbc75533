import TealForms.Proofs.Allocations.Slots
import TealForms.Proofs.Command.Compiled
import TealForms.Proofs.Command.Order

set_option autoImplicit false

namespace TealForms

namespace Line

def load (slot : Nat) (name : String) : Line := .instruction ("load " ++ toString slot) (some name)

def store (slot : Nat) (name : String) : Line := .instruction ("store " ++ toString slot) (some name)

def isAccess : Line → Bool
  | .instruction statement (some _) =>
      "load ".toList.isPrefixOf statement.toList || "store ".toList.isPrefixOf statement.toList
  | _ => false

theorem load_access (slot : Nat) (name : String) : (load slot name).isAccess = true := by
  simp [load, isAccess]

theorem store_access (slot : Nat) (name : String) : (store slot name).isAccess = true := by
  simp [store, isAccess]

theorem load_injective (slot place : Nat) (name other : String) (same : load slot name = load place other) :
    slot = place ∧ name = other := by
  obtain ⟨statement, comment⟩ := Line.instruction.inj same
  exact ⟨Family.digits_injective slot place ((String.append_right_inj _).mp statement), Option.some.inj comment⟩

theorem load_not_store (slot place : Nat) (name other : String) : load slot name ≠ store place other := by
  intro same
  have letters := congrArg String.toList (Line.instruction.inj same).1
  simp at letters

def Ordered (lines : List Line) : Prop :=
  ∀ earlier later slot name, lines = earlier ++ .load slot name :: later → .store slot name ∈ earlier

theorem ordered_member (lines : List Line) (slot : Nat) (name : String) (ordered : Ordered lines)
    (member : .load slot name ∈ lines) : .store slot name ∈ lines := by
  obtain ⟨earlier, later, rfl⟩ := List.append_of_mem member
  exact List.mem_append_left _ (ordered earlier later slot name rfl)

theorem ordered_append (lines added : List Line) (ordered : Ordered lines)
    (known : ∀ slot name, .load slot name ∈ added → .store slot name ∈ lines) : Ordered (lines ++ added) := by
  intro earlier later slot name split
  rcases List.append_eq_append_iff.mp split with ⟨between, rfl, rest⟩ | ⟨between, rfl, rest⟩
  · exact List.mem_append_left _ (known slot name (by simp [rest]))
  · cases between with
    | nil =>
        have first : added = .load slot name :: later := rest.symm
        simpa using known slot name (by simp [first])
    | cons line between =>
        cases rest
        exact ordered earlier between slot name rfl

end Line

theorem Instruction.statement_single (record : Record) (arg : String) :
    (Instruction.mk record [arg]).statement = record.name ++ " " ++ arg := by
  rw [statement, ← String.toList_inj]
  simp [Text.rejoin]

theorem Instruction.value_no_access (record : Record) (text comment : String)
    (word : record.name = "byte" ∨ record.name = "int") :
    (Line.instruction (Instruction.mk record [text]).statement (some comment)).isAccess = false := by
  rw [statement_single]
  rcases word with name | name <;> simp [Line.isAccess, name, List.isPrefixOf]

structure Access where
  line : Line
  emitted : Bool
deriving DecidableEq, Repr

namespace Access

def hide (access : Access) : Access := { access with emitted := false }

def visible (accesses : List Access) : List Line := (accesses.filter Access.emitted).map Access.line

theorem visible_append (first second : List Access) : visible (first ++ second) = visible first ++ visible second := by
  simp [visible]

@[simp] theorem hide_line (access : Access) : access.hide.line = access.line := rfl

@[simp] theorem hide_emitted (access : Access) : access.hide.emitted = false := rfl

theorem visible_hide (accesses : List Access) : visible (accesses.map hide) = [] := by
  simp [visible]

theorem mem_visible (accesses : List Access) (line : Line) : line ∈ visible accesses ↔ ⟨line, true⟩ ∈ accesses := by
  rw [visible, List.mem_map]
  constructor
  · rintro ⟨⟨_, flag⟩, kept, rfl⟩
    obtain ⟨member, rfl⟩ := List.mem_filter.mp kept
    exact member
  · intro member
    exact ⟨_, List.mem_filter.mpr ⟨member, rfl⟩, rfl⟩

theorem emitted_place (accesses : List Access) (line : Line) (before after : List Line)
    (split : visible accesses = before ++ line :: after) :
    ∃ earlier later, accesses = earlier ++ ⟨line, true⟩ :: later ∧ visible earlier = before := by
  obtain ⟨first, rest, kept, rfl, restLines⟩ := List.map_eq_append_iff.mp split
  obtain ⟨access, last, rfl, rfl, _⟩ := List.map_eq_cons_iff.mp restLines
  obtain ⟨start, stop, rfl, rfl, found⟩ := List.filter_eq_append_iff.mp kept
  obtain ⟨hidden, later, rfl, silent, emitted, _⟩ := List.filter_eq_cons_iff.mp found
  refine ⟨start ++ hidden, later, ?_, ?_⟩
  · obtain ⟨line, flag⟩ := access
    cases emitted
    rw [List.append_assoc]
  · rw [visible_append, visible, visible, List.filter_eq_nil_iff.mpr silent]
    exact List.append_nil _

end Access

namespace Node

-- The lines of variables in the order in which a tree is built. Nothing below a comment or a definition is emitted in
-- its place; a reference to a constant emits what stands below the literal.
mutual
def accesses : Node → List Access
  | .mk token (.scratch instruction) children =>
      accessesAll children ++ [⟨.instruction instruction.statement (some token.value.text), true⟩]
  | .mk _ .definition children | .mk _ .comment children => (accessesAll children).map Access.hide
  | .mk _ (.reference ⟨_, _, below⟩) children => (accessesAll children).map Access.hide ++ accessesAll below
  | .mk _ _ children => accessesAll children
def accessesAll : List Node → List Access
  | [] => []
  | node :: rest => accesses node ++ accessesAll rest
end

def accessLines (forest : List Node) : List Line := (accessesAll forest).map Access.line

def addedLines : Node → List Line
  | .mk token (.scratch instruction) _ => [.instruction instruction.statement (some token.value.text)]
  | .mk _ (.reference bound) _ => accessLines bound.children
  | _ => []

theorem accesses_all_append (first second : List Node) :
    accessesAll (first ++ second) = accessesAll first ++ accessesAll second := by
  induction first with
  | nil => rfl
  | cons node rest ih => simp [accessesAll, ih]

theorem access_lines_append (first second : List Node) :
    accessLines (first ++ second) = accessLines first ++ accessLines second := by
  simp [accessLines, accesses_all_append]

theorem access_lines_own (token : Located Token) (kind : Kind Node) (children : List Node) :
    (accesses (.mk token kind children)).map Access.line =
      accessLines children ++ addedLines (.mk token kind children) := by
  cases kind <;> simp [accesses, accessLines, addedLines]

theorem access_lines_build (rest children : List Node) (token : Located Token) (kind : Kind Node) :
    accessLines (rest ++ [.mk token kind children]) =
      accessLines (rest ++ children) ++ addedLines (.mk token kind children) := by
  rw [access_lines_append, access_lines_append, List.append_assoc, ← access_lines_own]
  simp [accessLines, accessesAll]

theorem access_lines_member (node : Node) (forest : List Node) (member : node ∈ forest) :
    accessLines node.children ⊆ accessLines forest := by
  obtain ⟨token, kind, children⟩ := node
  obtain ⟨before, after, rfl⟩ := List.append_of_mem member
  intro line inside
  have here : line ∈ (accesses (.mk token kind children)).map Access.line := by
    rw [access_lines_own]
    exact List.mem_append_left _ inside
  rw [access_lines_append, accessLines, accessLines, accessesAll, List.map_append]
  exact List.mem_append_right _ (List.mem_append_left _ here)

def accessed (commands : List Command) : List Line := (commands.map Command.line).filter Line.isAccess

theorem accessed_append (first second : List Command) :
    accessed (first ++ second) = accessed first ++ accessed second := by
  simp [accessed]

theorem accessed_instructions (commands : List Command) :
    accessed (Command.instructions commands) = accessed commands := by
  rw [accessed, accessed, Command.instructions, List.filter_map, List.filter_map, List.filter_filter]
  congr 1
  refine List.filter_congr fun command _ => ?_
  cases command <;> simp [Command.isPlain, Command.line, Line.isAccess]

theorem accessed_all (nodes : List Node)
    (each : ∀ node ∈ nodes, accessed (commands node) = Access.visible (accesses node)) :
    accessed (commandsAll nodes) = Access.visible (accessesAll nodes) := by
  induction nodes with
  | nil => rfl
  | cons node rest ih =>
      rw [commandsAll, accessesAll, accessed_append, Access.visible_append, each node (by simp),
        ih fun other member => each other (by simp [member])]

theorem accessed_own (token : Located Token) (kind : Kind Node) (children : List Node)
    (sound : Regular (.mk token kind children)) (emitted : kind ≠ .definition) (visible : kind ≠ .comment)
    (direct : ∀ bound, kind ≠ .reference bound) :
    accessed (commands (.mk token kind children)) =
      accessed (commandsAll children) ++ accessed (own (.mk token kind children)) := by
  rw [← accessed_instructions, instructions_own token kind children sound emitted visible direct, accessed_append,
    accessed_instructions, accessed_instructions]

end Node

namespace Dialect

structure Stored (forest : List Node) (allocations : Allocations) : Prop where
  places : ∀ slot name, allocations.scratch[slot]? = some name → .store slot name ∈ Node.accessLines forest
  constants : ∀ name literal, (name, literal) ∈ allocations.constants →
    Node.accessLines literal.children ⊆ Node.accessLines forest
  ordered : Line.Ordered (Node.accessLines forest)

theorem stored_empty : Stored [] {} := by
  constructor <;> simp [Node.accessLines, Node.accessesAll, Line.Ordered]

theorem access_statement (dialect : Dialect) (record : Record) (word : String) (slot : Nat)
    (found : dialect.table.record? word = some record) :
    (Instruction.mk record [toString slot]).statement = word ++ " " ++ toString slot := by
  rw [Instruction.statement_single, dialect.table.record_name word record found]

theorem settled_places (dialect : Dialect) (before after : Allocations) (token : Located Token) (children : List Node)
    (kind : Kind Node) (settled : dialect.Settled before token.value children kind after) (slot : Nat) (name : String)
    (placed : after.scratch[slot]? = some name) :
    before.scratch[slot]? = some name ∨ .store slot name ∈ Node.addedLines (.mk token kind children) := by
  cases settled with
  | store record allocated after _ _ given found =>
      have old := before.allocate_slot_old dialect.options.reuse token.value.text name allocated slot (by rw [given])
      rw [given] at old
      rcases old placed with known | ⟨rfl, rfl⟩
      · exact .inl known
      · right
        rw [Node.addedLines, dialect.access_statement record "store" slot found]
        exact List.mem_singleton_self _
  | _ => exact .inl placed

theorem settled_bound (dialect : Dialect) (before after : Allocations) (token : Located Token) (children : List Node)
    (kind : Kind Node) (settled : dialect.Settled before token.value children kind after) (name : String)
    (literal : Literal Node) (known : (name, literal) ∈ after.constants) :
    (name, literal) ∈ before.constants ∨ literal.node ∈ children := by
  rw [dialect.settled_constants before after token children kind settled, List.mem_append, Option.mem_toList] at known
  refine known.imp_right fun bound => ?_
  have single := (Node.binding_some (.mk token kind children) name literal bound).2.2
  exact Node.mem_significant literal.node children (single ▸ List.mem_singleton_self _)

theorem settled_loads (dialect : Dialect) (before after : Allocations) (token : Located Token)
    (forest children : List Node) (kind : Kind Node)
    (settled : dialect.Settled before token.value children kind after) (stored : Stored forest before) (slot : Nat)
    (name : String) (loaded : .load slot name ∈ Node.addedLines (.mk token kind children)) :
    .store slot name ∈ Node.accessLines forest := by
  cases settled with
  | load record place _ _ known found =>
      rw [Node.addedLines, dialect.access_statement record "load" place found, List.mem_singleton] at loaded
      obtain ⟨rfl, rfl⟩ := Line.load_injective slot place name token.value.text loaded
      exact stored.places slot token.value.text (before.slot_place token.value.text slot known)
  | store record place after _ _ _ found =>
      rw [Node.addedLines, dialect.access_statement record "store" place found, List.mem_singleton] at loaded
      exact absurd loaded (Line.load_not_store slot place name token.value.text)
  | reference literal _ _ known =>
      have inside := stored.constants token.value.text literal (before.constant_some token.value.text literal known)
      exact Line.ordered_member _ slot name stored.ordered (inside loaded)
  | _ => cases loaded

theorem stored_step (dialect : Dialect) : dialect.Preserves (fun _ => True) Stored := by
  intro rest children before token node after _ stored built
  obtain ⟨kind, rfl, settled⟩ := dialect.build_settled before after token children node built
  have grown := Node.access_lines_build rest children token kind
  constructor
  · intro slot name placed
    rw [grown, List.mem_append]
    exact (dialect.settled_places before after token children kind settled slot name placed).imp_left
      (stored.places slot name)
  · intro name literal known
    rw [grown]
    refine List.subset_append_of_subset_left _ ?_
    rcases dialect.settled_bound before after token children kind settled name literal known with old | new
    · exact stored.constants name literal old
    · exact Node.access_lines_member literal.node _ (List.mem_append_right rest new)
  · rw [grown]
    exact Line.ordered_append _ _ stored.ordered
      (dialect.settled_loads before after token (rest ++ children) children kind settled stored)

theorem compile_stored (dialect : Dialect) (source : Source) (root : Node) (allocations : Allocations)
    (compiled : dialect.compile source = (.ok root, allocations)) : Stored [root] allocations :=
  parse_preserves dialect.stored_step source.start source.scan (fun _ _ => trivial) trivial {} allocations
    stored_empty root compiled

theorem built_access (dialect : Dialect) (token : Located Token) (instruction : Instruction) (children : List Node)
    (built : dialect.Built (.mk token (.scratch instruction) children)) :
    (Line.instruction instruction.statement (some token.value.text)).isAccess = true := by
  obtain ⟨before, after, settled⟩ := dialect.built_parts token _ children built
  cases settled with
  | load record slot _ _ _ found =>
      rw [dialect.access_statement record "load" slot found]
      exact Line.load_access slot token.value.text
  | store record slot _ _ _ _ found =>
      rw [dialect.access_statement record "store" slot found]
      exact Line.store_access slot token.value.text

theorem built_no_access (dialect : Dialect) (token : Located Token) (instruction : Instruction) (children : List Node)
    (built : dialect.Built (.mk token (.literal instruction) children)) (comment : String) :
    (Line.instruction instruction.statement (some comment)).isAccess = false := by
  obtain ⟨named, immediates⟩ := dialect.built_literal token instruction children built
  obtain ⟨record, args⟩ := instruction
  cases immediates
  exact Instruction.value_no_access record token.value.text comment (named.imp And.right And.right)

-- Lines are emitted in the order in which they are built.
theorem accesses_emitted (dialect : Dialect) (node : Node)
    (built : ∀ other, node.Involves other → dialect.Built other) :
    Node.accessed node.commands = Access.visible node.accesses := by
  induction node using Node.induction with
  | step token kind children ih ihLiteral =>
      have regular := dialect.built_regular _ (built _ .self)
      have below : Node.accessed (Node.commandsAll children) = Access.visible (Node.accessesAll children) := by
        refine Node.accessed_all children fun child member => ih child member fun other reached => ?_
        exact built other (Node.involves_child (.mk token kind children) child other member reached)
      cases kind with
      | definition => exact (Access.visible_hide _).symm
      | comment => exact (Access.visible_hide _).symm
      | reference bound =>
          have literal := built bound.node (.literal _ bound .self rfl)
          have held : Node.accessed (Node.commandsAll bound.children) =
              Access.visible (Node.accessesAll bound.children) := by
            refine Node.accessed_all bound.children fun child member => ihLiteral bound rfl child member ?_
            intro other reached
            exact built other (Node.involves_literal _ child other bound rfl member reached)
          have silent := dialect.built_no_access bound.token bound.instruction bound.children literal token.value.text
          rw [Node.commands, Node.accesses, Node.accessed_append, Access.visible_append, Access.visible_hide, held]
          simp [Node.accessed, Command.line, silent]
      | scratch instruction =>
          have access := dialect.built_access token instruction children (built _ .self)
          rw [Node.commands, Node.accesses, Node.accessed_append, Access.visible_append, below]
          simp [Node.accessed, Access.visible, Command.line, access]
      | _ =>
          rw [Node.accessed_own token _ children regular (by simp) (by simp) (by simp), below]
          exact List.append_nil _

/-- Where the store is missing, the variable was defined only below comments and definitions of constants. -/
theorem compiled_loads_stored (dialect : Dialect) (source : Source) (root : Node) (allocations : Allocations)
    (compiled : dialect.compile source = (.ok root, allocations)) (before after : List Line) (slot : Nat)
    (name : String) (split : root.lines = before ++ .load slot name :: after) :
    .store slot name ∈ before ∨
      ∃ earlier later, root.accesses = earlier ++ ⟨.load slot name, true⟩ :: later ∧
        Access.visible earlier = before.filter Line.isAccess ∧
        ⟨.store slot name, false⟩ ∈ earlier ∧ ⟨.store slot name, true⟩ ∉ earlier := by
  have ledger := dialect.compile_ledger source root allocations compiled
  have order := dialect.accesses_emitted root fun other reached =>
    (ledger_built ledger root other root.mem_postorder_self reached).1
  have places : Access.visible root.accesses =
      before.filter Line.isAccess ++ .load slot name :: after.filter Line.isAccess := by
    rw [← order, Node.accessed, ← Node.lines, split, List.filter_append,
      List.filter_cons_of_pos (Line.load_access slot name)]
  obtain ⟨earlier, later, built, shown⟩ := Access.emitted_place root.accesses _ _ _ places
  by_cases stored : .store slot name ∈ before
  · exact .inl stored
  · refine .inr ⟨earlier, later, built, shown, ?_⟩
    have hidden : ⟨.store slot name, true⟩ ∉ earlier := by
      rw [← Access.mem_visible, shown]
      exact fun kept => stored (List.mem_filter.mp kept).1
    have lines : Node.accessLines [root] =
        earlier.map Access.line ++ .load slot name :: later.map Access.line := by
      simp [Node.accessLines, Node.accessesAll, built]
    have known := (dialect.compile_stored source root allocations compiled).ordered _ _ slot name lines
    obtain ⟨⟨line, emitted⟩, member, rfl⟩ := List.mem_map.mp known
    cases emitted with
    | false => exact ⟨member, hidden⟩
    | true => exact absurd member hidden

theorem constant_definition_withholds_store : ∃ root allocations,
    standard.compile (.ofString "(@c (1 ($x 2))) $x" "withheld") = (.ok root, allocations) ∧
    root.lines = [.pragma 8] ++ .load 0 "$x" :: [] ∧
    ∃ earlier later, root.accesses = earlier ++ ⟨.load 0 "$x", true⟩ :: later ∧
      Access.visible earlier = [] ∧ ⟨.store 0 "$x", false⟩ ∈ earlier ∧ ⟨.store 0 "$x", true⟩ ∉ earlier := by
  let source : Source := .ofString "(@c (1 ($x 2))) $x" "withheld"
  obtain ⟨root, allocations, compiled, checked⟩ :=
    standard.compile_checked source (fun root => root.lines = [.pragma 8] ++ .load 0 "$x" :: []) (by decide +kernel)
  have lines : root.lines = [.pragma 8] ++ .load 0 "$x" :: [] := of_decide_eq_true checked
  have missing : Line.store 0 "$x" ∉ [Line.pragma 8] := by decide
  have placed := compiled_loads_stored standard source root allocations compiled [.pragma 8] [] 0 "$x" lines
  exact ⟨root, allocations, compiled, lines, placed.resolve_left missing⟩

theorem commented_definition_not_stored : ∃ root allocations before after,
    standard.compile (.ofString "(`c` ($x 1)) $x" "commented") = (.ok root, allocations) ∧
    root.lines = before ++ .load 0 "$x" :: after ∧ .store 0 "$x" ∉ before := by
  obtain ⟨root, allocations, compiled, checked⟩ :=
    standard.compile_checked (.ofString "(`c` ($x 1)) $x" "commented")
      (fun root => root.lines = [.pragma 8] ++ .load 0 "$x" :: []) (by decide +kernel)
  exact ⟨root, allocations, [.pragma 8], [], compiled, of_decide_eq_true checked, by decide⟩

end Dialect

end TealForms
