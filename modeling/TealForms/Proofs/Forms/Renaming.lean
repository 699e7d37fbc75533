import TealForms.Compile
import TealForms.Proofs.Build.Ledger
import TealForms.Proofs.Build.Twins
import TealForms.Proofs.Command.Accesses

set_option autoImplicit false

namespace TealForms

def Scanned.texts (kind : TokenKind) (tokens : List Scanned) : Set String :=
  {text | ∃ token, .ok token ∈ tokens ∧ token.value = ⟨kind, text⟩}

namespace Renaming

structure Apart (names : Renaming) (tokens : List Scanned) : Prop where
  scratch : Set.InjOn names.scratch (Scanned.texts .scratch tokens)
  constant : Set.InjOn names.constant (Scanned.texts .constant tokens)

-- The comment of a line that accesses a variable is its name, any other comment is the name of a constant.
def line (names : Renaming) : Line → Line
  | .instruction statement (some comment) =>
      let accesses := (Line.instruction statement (some comment)).isAccess
      .instruction statement (some (if accesses then names.scratch comment else names.constant comment))
  | line => line

section

variable (names : Renaming)

theorem line_access (statement name : String) (access : (Line.instruction statement (some name)).isAccess = true) :
    names.line (.instruction statement (some name)) = .instruction statement (some (names.scratch name)) := by
  rw [line]
  simp only [access, if_true]

theorem line_value (instruction : Instruction) (name : String) (value : instruction.IsValue) :
    names.line (.instruction instruction.statement (some name)) =
      .instruction instruction.statement (some (names.constant name)) := by
  obtain ⟨record, text, rfl, word⟩ := value
  rw [line]
  simp only [Instruction.value_no_access record text name word, Bool.false_eq_true, if_false]

end

section

variable (names : Renaming) (dialect : Dialect) (tokens : List Scanned) (apart : names.Apart tokens)

def twinning : Twinning dialect dialect where
  names := names
  stored := Scanned.texts .scratch tokens
  bound := Scanned.texts .constant tokens
  same command other := other.line = names.line command.line
  slots table other := other = table.map names.scratch ∧ ∀ name ∈ table, name ∈ Scanned.texts .scratch tokens
  table := rfl
  version := rfl
  strict := rfl
  marker := rfl
  distinct := apart.constant
  steady := by
    intro command other
    cases command with
    | plain => cases other
    | _ => rfl
  bare _ := rfl
  pushes instruction name value := (names.line_value instruction name value).symm
  fresh := ⟨rfl, by simp⟩

section

variable {before left : Allocations} (tables : (names.twinning dialect tokens apart).Tables before left)

include tables

theorem slot_renamed (name : String) (known : name ∈ Scanned.texts .scratch tokens) :
    left.slot? (names.scratch name) = before.slot? name := by
  obtain ⟨⟨table, inside⟩, _⟩ := tables
  rw [Allocations.slot?, Allocations.slot?, table]
  generalize before.scratch = allocated at inside
  induction allocated with
  | nil => rfl
  | cons other rest ih =>
      rw [List.forall_mem_cons] at inside
      have matching : names.scratch other = names.scratch name ↔ other = name := apart.scratch.eq_iff inside.1 known
      rw [List.map_cons, List.findIdx?_cons, List.findIdx?_cons, ih inside.2]
      simp only [matching]

theorem allocation_renamed (reuse : Bool) (name : String) (known : name ∈ Scanned.texts .scratch tokens) :
    (left.allocateSlot reuse (names.scratch name)).1 = (before.allocateSlot reuse name).1 ∧
      (names.twinning dialect tokens apart).Tables (before.allocateSlot reuse name).2
        (left.allocateSlot reuse (names.scratch name)).2 := by
  obtain ⟨table, inside⟩ := tables.scratch
  have full : left.scratch.length = before.scratch.length := by rw [table, List.length_map]
  rw [Allocations.allocateSlot, Allocations.allocateSlot, names.slot_renamed dialect tokens apart tables name known]
  split
  · exact ⟨rfl, tables⟩
  · dsimp only
    rw [full]
    split
    · refine ⟨rfl, { tables with scratch := ⟨?_, ?_⟩ }⟩
      · simp [table]
      · rw [List.forall_mem_append]
        exact ⟨inside, by simpa using known⟩
    · exact ⟨rfl, tables⟩

end

theorem accessed_renamed (word name : String) (either : word = "load" ∨ word = "store") (slot : Nat) :
    (names.twinning dialect tokens apart).Accessed word name slot slot := by
  intro record found
  refine ⟨fun _ => rfl, (names.line_access _ _ ?_).symm⟩
  rw [dialect.access_statement record word slot found]
  rcases either with rfl | rfl
  · exact Line.load_access slot name
  · exact Line.store_access slot name

theorem accesses_renamed : (names.twinning dialect tokens apart).Accesses fun _ => False where
  reads before left name tables known := by
    have slot : left.slot? (names.scratch name) = before.slot? name :=
      names.slot_renamed dialect tokens apart tables name known
    show Option.Rel _ _ (left.slot? (names.scratch name))
    rw [slot]
    cases before.slot? name with
    | none => exact .none
    | some slot => exact .some (names.accessed_renamed dialect tokens apart "load" name (.inl rfl) slot)
  stores before left name tables known := by
    obtain ⟨slots, kept⟩ := names.allocation_renamed dialect tokens apart tables dialect.options.reuse name known
    show Twinning.Allocated _ _ _ _ (left.allocateSlot dialect.options.reuse (names.scratch name))
    generalize before.allocateSlot dialect.options.reuse name = allocated at slots kept
    generalize left.allocateSlot dialect.options.reuse (names.scratch name) = renewed at slots kept
    obtain ⟨slot, after⟩ := allocated
    obtain ⟨_, later⟩ := renewed
    cases slots
    cases slot with
    | none => exact .full after later
    | some slot =>
        exact .taken slot slot after later
          (names.accessed_renamed dialect tokens apart "store" name (.inr rfl) slot) kept

end

end Renaming

namespace Dialect

/-- A program with other names for its variables and constants, each for one, is read as before. It is emitted as the
same lines with the names in their comments changed, or it fails with the same fault at the same token, and the name in
the fault is changed. -/
theorem parse_renamed (dialect : Dialect) (names : Renaming) (start : Location) (tokens : List Scanned)
    (apart : names.Apart tokens) :
    (∃ root after tree left, dialect.parse {} start tokens = (.ok root, after) ∧
      dialect.parse {} start (tokens.map names.scanned) = (.ok tree, left) ∧
      tree.lines = root.lines.map names.line) ∨
    ∃ fault after left, dialect.parse {} start tokens = (.error fault, after) ∧
      dialect.parse {} start (tokens.map names.scanned) = (.error (fault.map names.fault), left) := by
  let twinning := names.twinning dialect tokens apart
  have follows := twinning.parse_twins (names.accesses_renamed dialect tokens apart) start tokens fun token member =>
    ⟨fun named => ⟨token, member, by rw [← named]⟩, fun named => ⟨token, member, by rw [← named]⟩⟩
  rcases parsed : dialect.parse {} start tokens with ⟨found | root, after⟩
  · rw [parsed] at follows
    obtain ⟨_, left, given, rfl⟩ := follows.resolve_left id
    exact .inr ⟨found, after, left, rfl, given⟩
  · rw [parsed] at follows
    obtain ⟨tree, left, given, nodes, _⟩ := follows
    have lines : List.Forall₂ Eq (root.lines.map names.line) tree.lines := by
      rw [Node.lines, Node.lines, List.forall₂_map_left_iff, List.forall₂_map_left_iff, List.forall₂_map_right_iff]
      exact nodes.commands.imp fun _ _ same => same.symm
    exact .inl ⟨root, after, tree, left, rfl, given, (List.forall₂_eq_eq_eq ▸ lines).symm⟩

theorem longer_names_compiled :
    let source : Source := .ofString "(@c 1) ($x @c) (pop $x)" "renamed"
    let names : Renaming := ⟨(· ++ "y"), (· ++ "d")⟩
    names.Apart source.scan ∧
    ∃ tree left, standard.parse {} source.start (source.scan.map names.scanned) = (.ok tree, left) ∧
      tree.lines = [.pragma 8, .instruction "int 1" (some "@cd"), .store 0 "$xy", .load 0 "$xy",
        .instruction "pop" none] := by
  intro source names
  have apart : names.Apart source.scan :=
    ⟨fun _ _ _ _ same => (String.append_left_inj _).mp same, fun _ _ _ _ same => (String.append_left_inj _).mp same⟩
  obtain ⟨root, after, compiled, checked⟩ := standard.compile_checked source
    (fun root => root.lines = [.pragma 8, .instruction "int 1" (some "@c"), .store 0 "$x", .load 0 "$x",
      .instruction "pop" none]) (by decide +kernel)
  have parsed : standard.parse {} source.start source.scan = (.ok root, after) := compiled
  refine ⟨apart, ?_⟩
  rcases standard.parse_renamed names source.start source.scan apart with
    ⟨_, _, tree, left, same, renamed, lines⟩ | ⟨_, _, _, same, _⟩
  · rw [parsed] at same
    cases same
    rw [of_decide_eq_true checked] at lines
    exact ⟨tree, left, renamed, by rw [lines]; decide⟩
  · rw [parsed] at same
    cases same

end Dialect

end TealForms
