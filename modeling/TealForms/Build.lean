import TealForms.Allocations
import TealForms.Fault
import TealForms.Options

set_option autoImplicit false

namespace TealForms

structure Dialect where
  table : Table
  options : Options

abbrev Resolution := Except Fault (Kind Node) × Allocations

namespace Instruction

def stackFault? (instruction : Instruction) (children : List Node) : Option Fault :=
  let expected := instruction.record.args.length
  let found := Node.returnsAll children
  if found = expected then none else some (.stackArgs expected found)

-- A record without descriptors takes any immediate arguments; a list at the end may be empty.
def countFault? (instruction : Instruction) : Option Fault :=
  let expected := instruction.record.immediates.length
  let found := instruction.immediates.length
  let accepted := if instruction.record.isVariadic then expected ≤ found + 1 else found = expected
  if expected = 0 ∨ accepted then none else some (.immediateArgs expected found)

def argFault? (table : Table) (opcode arg : String) (descriptor : Descriptor) : Option Fault :=
  match descriptor.reference with
  | none => none
  | some reference =>
      let valid := table.fieldNames opcode reference
      if arg ∈ valid then none else some (.invalidArg arg valid)

def argsFault? (table : Table) (instruction : Instruction) : Option Fault :=
  (instruction.immediates.zip instruction.record.immediates).findSome? fun (arg, descriptor) =>
    argFault? table instruction.record.name arg descriptor

def fault? (table : Table) (instruction : Instruction) (children : List Node) : Option Fault :=
  (instruction.stackFault? children).or (instruction.countFault?.or (instruction.argsFault? table))

end Instruction

namespace Dialect

def check (dialect : Dialect) (instruction : Instruction) (children : List Node) : Except Fault Instruction :=
  if dialect.options.strict then
    match instruction.fault? dialect.table children with
    | some fault => .error fault
    | none => .ok instruction
  else .ok instruction

def record (dialect : Dialect) (name : String) : Except Fault Record :=
  match dialect.table.record? name with
  | some record => .ok record
  | none => .error (.invalidOpcode name)

def isExempt (dialect : Dialect) (token : Token) : Bool := dialect.options.marker && token.isMarked

def opcodeName (dialect : Dialect) (token : Token) : String :=
  if dialect.isExempt token then .ofList (token.head.toList.drop 1) else token.head

def resolveOpcode (dialect : Dialect) (token : Token) (children : List Node) : Except Fault (Kind Node) := do
  let instruction : Instruction := ⟨← dialect.record (dialect.opcodeName token), token.args⟩
  if dialect.isExempt token then return .opcode instruction else return .opcode (← dialect.check instruction children)

def resolveLiteral (dialect : Dialect) (name : String) (token : Token) (children : List Node) :
    Except Fault (Kind Node) := do
  let instruction : Instruction := ⟨← dialect.record name, [token.text]⟩
  return .literal (← dialect.check instruction children)

def resolveAccess (dialect : Dialect) (name : String) (slot : Nat) (children : List Node) :
    Except Fault (Kind Node) := do
  let instruction : Instruction := ⟨← dialect.record name, [toString slot]⟩
  return .scratch (← dialect.check instruction children)

def resolveScratch (dialect : Dialect) (allocations : Allocations) (token : Token) (children : List Node) :
    Resolution :=
  match Node.significant children with
  | [] =>
      match allocations.slot? token.text with
      | some slot => (dialect.resolveAccess "load" slot children, allocations)
      | none => (.error (.scratchNotFound token.text), allocations)
  | _ :: _ =>
      match allocations.allocateSlot dialect.options.reuse token.text with
      | (some slot, allocations) => (dialect.resolveAccess "store" slot children, allocations)
      | (none, allocations) => (.error (.scratchOverflow token.text), allocations)

end Dialect

namespace Allocations

def resolveConstant (allocations : Allocations) (token : Token) (children : List Node) : Resolution :=
  match Node.significant children with
  | [] =>
      match allocations.constant? token.text with
      | some bound => (.ok (.reference bound), allocations)
      | none => (.error (.constantNotDefined token.text), allocations)
  | [value] =>
      match value.literal?, allocations.constant? token.text with
      | none, _ => (.error .constantLiteral, allocations)
      | some _, some _ => (.error (.constantRedefined token.text), allocations)
      | some literal, none => (.ok .definition, allocations.bind token.text literal)
  | _ => (.error .constantArity, allocations)

def resolveLabel (allocations : Allocations) (token : Token) : Resolution :=
  if token.labelName ∈ allocations.labels then (.error (.labelRedefined token.labelName), allocations)
  else (.ok .label, allocations.declare token.labelName)

def labelled (allocations : Allocations) (family : Family) (kind : String → Kind Node) : Resolution :=
  let allocated := allocations.allocateLabel family
  (.ok (kind allocated.1), allocated.2)

def resolveMacro (allocations : Allocations) (keyword : Keyword) (children : List Node) : Resolution :=
  let significant := Node.significant children
  if significant.length < keyword.leastChildren then (.error (.macroArity keyword), allocations)
  else match keyword with
    | .group => (.ok .group, allocations)
    | .case => allocations.labelled .case .case
    | .loop => allocations.labelled .loop .loop
    | .choice =>
        if significant.all Node.isCase then allocations.labelled .choice .choice
        else (.error .choiceNotCase, allocations)
    | .transaction =>
        if significant.all Node.isField then (.ok .transaction, allocations)
        else (.error .transactionField, allocations)

end Allocations

namespace Dialect

def resolve (dialect : Dialect) (allocations : Allocations) (token : Token) (children : List Node) : Resolution :=
  match token.kind with
  | .opcode => (dialect.resolveOpcode token children, allocations)
  | .bytes => (dialect.resolveLiteral "byte" token children, allocations)
  | .integer => (dialect.resolveLiteral "int" token children, allocations)
  | .scratch => dialect.resolveScratch allocations token children
  | .constant => allocations.resolveConstant token children
  | .label => allocations.resolveLabel token
  | .comment => (.ok .comment, allocations)
  | .root => (.ok (.root dialect.options.version), allocations)
  | .keyword keyword => allocations.resolveMacro keyword children
  | .opening | .closing => (.error (.invalidToken token.text), allocations)

def build (dialect : Dialect) (allocations : Allocations) (token : Located Token) (children : List Node) :
    Except (Located Fault) Node × Allocations :=
  match dialect.resolve allocations token.value children with
  | (.ok kind, allocations) => (.ok (.mk token kind children), allocations)
  | (.error fault, allocations) => (.error ⟨fault, token.location⟩, allocations)

theorem check_ok (dialect : Dialect) (instruction checked : Instruction) (children : List Node)
    (passed : dialect.check instruction children = .ok checked) : checked = instruction := by
  unfold check at passed
  split at passed
  · split at passed
    · contradiction
    · exact (Except.ok.inj passed).symm
  · exact (Except.ok.inj passed).symm

theorem record_ok (dialect : Dialect) (name : String) (record : Record) (found : dialect.record name = .ok record) :
    dialect.table.record? name = some record := by
  unfold Dialect.record at found
  split at found
  · rename_i found'
    rw [found', Except.ok.inj found]
  · contradiction

end Dialect

end TealForms
