import TealForms.Proofs.Build.Immediates
import TealForms.Proofs.Command.Accesses
import TealForms.Proofs.Table.Printed

set_option autoImplicit false

namespace TealForms

namespace Text

def exchange (old new : Char) (chars : List Char) : List Char := chars.map fun c => if c = old then new else c

theorem rejoin_exchange (old new : Char) (chars : List Char) :
    rejoin new (divide old chars) = exchange old new chars := by
  induction chars with
  | nil => rfl
  | cons c rest ih => by_cases same : c = old <;> simp_all [divide, rejoin, exchange]

theorem divide_front (separator : Char) (chars : List Char) :
    (divide separator chars).1 = chars.takeWhile (· != separator) := by
  induction chars with
  | nil => rfl
  | cons c rest ih => by_cases same : c = separator <;> simp_all [divide]

end Text

namespace Table

def IsLatest (records : List Record) (name : String) (record : Record) : Prop :=
  record.name = name ∧ ∃ earlier later, records = earlier ++ record :: later ∧ ∀ other ∈ later, other.name ≠ name

theorem record_latest (table : Table) (name : String) (record : Record) :
    table.record? name = some record ↔ IsLatest table.records name record := by
  constructor
  · intro found
    refine ⟨table.record_name name record found, ?_⟩
    rw [record?, List.findRev?_eq_find?_reverse, List.find?_eq_some_iff_append] at found
    obtain ⟨_, later, earlier, listed, others⟩ := found
    refine ⟨earlier.reverse, later.reverse, by rw [List.reverse_eq_iff.mp listed]; simp, ?_⟩
    intro other member
    simpa using others other (List.mem_reverse.mp member)
  · rintro ⟨named, earlier, later, listed, others⟩
    rw [record?, listed]
    exact find_last _ earlier record later (decide_eq_true named) fun other member =>
      decide_eq_false (others other member)

def listings? (text : String) : Option (List Record × List Record) := do
  let [_, records, pseudo, _] ← (← Json.Value.ofText? text.toList).slots? keys | none
  return (← Json.Value.required (Json.Value.list? Record.ofValue?) records,
    ← Json.Value.defaulted [] (Json.Value.list? Record.ofValue?) pseudo)

theorem listings_loaded (text : String) (table : Table) (loaded : ofText? text = some table) :
    ∃ instructions pseudo, listings? text = some (instructions, pseudo) ∧ table.records = instructions ++ pseudo := by
  obtain ⟨value, read, made⟩ := Option.bind_eq_some_iff.mp loaded
  obtain ⟨slots, taken, made⟩ := Option.bind_eq_some_iff.mp made
  split at made
  · rename_i version records pseudo groups
    obtain ⟨_, _, made⟩ := Option.bind_eq_some_iff.mp made
    obtain ⟨first, given, made⟩ := Option.bind_eq_some_iff.mp made
    obtain ⟨second, added, made⟩ := Option.bind_eq_some_iff.mp made
    obtain ⟨_, _, made⟩ := Option.bind_eq_some_iff.mp made
    cases made
    refine ⟨first, second, ?_, rfl⟩
    simp [listings?, read, taken, given, added]
  · cases made

end Table

namespace Dialect

open Table (IsLatest)

-- What an instruction name says, without the mark where it is honoured and something follows it.
def spelling (dialect : Dialect) (token : Token) : List Char :=
  if dialect.options.marker ∧ token.text.toList.head? = some exemptionMark ∧ 1 < token.text.toList.length then
    token.text.toList.tail
  else token.text.toList

theorem exempt_iff (dialect : Dialect) (token : Token) (named : token.kind = .opcode) :
    dialect.isExempt token = true ↔ dialect.options.marker = true ∧
      token.text.toList.head? = some exemptionMark ∧ 1 < token.text.toList.length := by
  rw [isExempt, Token.isMarked, named]
  rcases token.text.toList with _ | ⟨c, _ | ⟨d, rest⟩⟩ <;> simp

-- The mark is no separator, so that cutting leaves it in front of the name.
theorem opcode_parts (dialect : Dialect) (token : Token) (named : token.kind = .opcode) :
    ((dialect.opcodeName token).toList, token.args.map String.toList) = Text.divide '.' (dialect.spelling token) := by
  have parts : token.parts = Text.divide '.' token.text.toList := by
    rw [Token.parts, named]
    rfl
  have args : token.args.map String.toList = (Text.divide '.' token.text.toList).2 := by
    simp [Token.args, parts, Function.comp_def]
  have head : token.head.toList = (Text.divide '.' token.text.toList).1 := by
    rw [Token.head, parts, String.toList_ofList]
  have honoured := dialect.exempt_iff token named
  rw [args, opcodeName, spelling]
  by_cases exempt : dialect.isExempt token = true
  · obtain ⟨rest, spelled⟩ := List.head?_eq_some_iff.mp (honoured.mp exempt).2.1
    rw [if_pos exempt, if_pos (honoured.mp exempt), head, String.toList_ofList, spelled]
    simp [Text.divide, exemptionMark]
  · rw [if_neg exempt, if_neg (mt honoured.mpr exempt), head]

theorem opcode_states (dialect : Dialect) (token : Token) (instruction : Instruction) (named : token.kind = .opcode)
    (stands : dialect.standsFor? token = some instruction) :
    instruction.statement.toList = Text.exchange '.' ' ' (dialect.spelling token) ∧
      IsLatest dialect.table.records (.ofList ((dialect.spelling token).takeWhile (· != '.'))) instruction.record := by
  simp only [standsFor?, named] at stands
  obtain ⟨record, found, rfl⟩ := Option.map_eq_some_iff.mp stands
  have parts := dialect.opcode_parts token named
  refine ⟨?_, ?_⟩
  · rw [Instruction.statement, String.toList_ofList, dialect.table.record_name _ record found, parts,
      Text.rejoin_exchange]
  · rw [← Text.divide_front, ← parts, String.ofList_toList]
    exact (dialect.table.record_latest _ record).mp found

theorem literal_states (dialect : Dialect) (token : Token) (instruction : Instruction) (word : String)
    (literal : IsLiteral token.kind word) (stands : dialect.standsFor? token = some instruction) :
    instruction.statement = word ++ " " ++ token.text ∧ IsLatest dialect.table.records word instruction.record := by
  have known : (dialect.table.record? word).map (⟨·, [token.text]⟩) = some instruction := by
    rcases literal with ⟨kind, rfl⟩ | ⟨kind, rfl⟩ <;> simpa only [standsFor?, kind] using stands
  obtain ⟨record, found, rfl⟩ := Option.map_eq_some_iff.mp known
  rw [Instruction.statement_single, dialect.table.record_name word record found]
  exact ⟨rfl, (dialect.table.record_latest word record).mp found⟩

theorem settled_stands (dialect : Dialect) (before after : Allocations) (token : Located Token) (children : List Node)
    (kind : Kind Node) (settled : dialect.Settled before token.value children kind after)
    (spoken : token.value.kind = .opcode ∨ ∃ word, IsLiteral token.value.kind word) :
    ∃ instruction, dialect.standsFor? token.value = some instruction ∧
      (Node.mk token kind children).instruction? = some instruction ∧
      (Node.mk token kind children).commands = Node.commandsAll children ++ [.plain instruction none] := by
  cases settled with
  | opcode record named found =>
      exact ⟨⟨record, token.value.args⟩, by simp [standsFor?, named, found], rfl, by rw [Node.commands]⟩
  | literal name record named found =>
      refine ⟨⟨record, [token.value.text]⟩, ?_, rfl, by rw [Node.commands]⟩
      rcases named with ⟨named, rfl⟩ | ⟨named, rfl⟩ <;> simp [standsFor?, named, found]
  | _ => simp_all [IsLiteral]

/-- An instruction name is stated as it is spelled, with a blank for each point, and a literal as its word and its text;
so its line reads. The record behind it is the last one of its name among the instructions and then the
pseudo-instructions that the text of the table lists. -/
theorem built_statements (dialect : Dialect) (text : String) (loaded : Table.ofText? text = some dialect.table)
    (before after : Allocations) (token : Located Token) (children : List Node) (node : Node)
    (built : dialect.build before token children = (.ok node, after)) :
    ∃ instructions pseudo, Table.listings? text = some (instructions, pseudo) ∧
      (token.value.kind = .opcode → ∃ instruction, node.instruction? = some instruction ∧
        node.lines.getLast? = some (.instruction instruction.statement none) ∧
        instruction.statement.toList = Text.exchange '.' ' ' (dialect.spelling token.value) ∧
        IsLatest (instructions ++ pseudo) (.ofList ((dialect.spelling token.value).takeWhile (· != '.')))
          instruction.record) ∧
      ∀ word, IsLiteral token.value.kind word → ∃ instruction, node.instruction? = some instruction ∧
        node.lines.getLast? = some (.instruction instruction.statement none) ∧
        instruction.statement = word ++ " " ++ token.value.text ∧
        IsLatest (instructions ++ pseudo) word instruction.record := by
  obtain ⟨instructions, pseudo, listed, records⟩ := Table.listings_loaded text dialect.table loaded
  obtain ⟨kind, rfl, settled⟩ := dialect.build_settled before after token children node built
  have stated := dialect.settled_stands before after token children kind settled
  refine ⟨instructions, pseudo, listed, ?_, ?_⟩
  · intro named
    obtain ⟨instruction, stands, holds, commands⟩ := stated (.inl named)
    have states := dialect.opcode_states token.value instruction named stands
    rw [records] at states
    exact ⟨instruction, holds, by simp [Node.lines, commands, Command.line], states⟩
  · intro word literal
    obtain ⟨instruction, stands, holds, commands⟩ := stated (.inr ⟨word, literal⟩)
    have states := dialect.literal_states token.value instruction word literal stands
    rw [records] at states
    exact ⟨instruction, holds, by simp [Node.lines, commands, Command.line], states⟩

theorem overridden_name_stated :
    let instructions : List Record := [{ name := "pay" }, { name := "pay", cost := 1 }]
    let pseudo : List Record := [{ name := "pay", cost := 2, args := [.any] }]
    let text := Table.document 1 instructions pseudo []
    let dialect : Dialect := ⟨⟨1, instructions ++ pseudo, []⟩, {}⟩
    let token : Located Token := ⟨⟨.opcode, "?pay..x"⟩, default⟩
    Table.ofText? text = some dialect.table ∧
    ∃ node instruction, dialect.build {} token [] = (.ok node, {}) ∧ node.instruction? = some instruction ∧
      instruction.statement = "pay  x" ∧ instruction.record.cost = 2 := by
  intro instructions pseudo text dialect token
  have loaded : Table.ofText? text = some dialect.table := Table.of_text_document 1 instructions pseudo []
  have built := dialect.settled_build {} {} token [] _ (.opcode pseudo[0] rfl (by decide) fun checked =>
    absurd checked (by decide))
  obtain ⟨_, _, _, stated, _⟩ := built_statements dialect text loaded {} {} token [] _ built
  obtain ⟨instruction, holds, _, statement, _⟩ := stated rfl
  refine ⟨loaded, _, instruction, built, holds, ?_, ?_⟩
  · rw [← String.toList_inj, statement]
    decide
  · cases holds
    rfl

end Dialect

end TealForms
