import TealForms.Event
import TealForms.Json.Read
import TealForms.Table

set_option autoImplicit false

namespace TealForms

namespace Json.Value

def text? : Value → Option String
  | .scalar (.string text) => text
  | _ => none

def list? {α : Type} (item? : Value → Option α) : Value → Option (List α)
  | .array items => items.mapM item?
  | _ => none

def members? : Value → Option (List (String × Value))
  | .object members => members.mapM fun (key, value) => key.map (·, value)
  | _ => none

-- An array has the values of a record in the order of its keys. In an object a key of the record must not be repeated,
-- and any other key is passed over.
def slots? (keys : List String) : Value → Option (List (Option Value))
  | .array items =>
      if items.length ≤ keys.length then
        some (items.map some ++ List.replicate (keys.length - items.length) none)
      else none
  | value => do
      let members ← value.members?
      keys.mapM fun key =>
        match members.filter fun member => member.1 = key with
        | [] => some none
        | [member] => some (some member.2)
        | _ => none

def name? : Value → Option String
  | .scalar (.string text) => text
  | .object [(key, .scalar .null)] => key
  | _ => none

def byte? (value : Value) : Option UInt8 :=
  value.natural?.bind fun number => if number < UInt8.size then some (.ofNat number) else none

def word? (value : Value) : Option UInt32 :=
  value.natural?.bind fun number => if number < UInt32.size then some (.ofNat number) else none

def required {α : Type} (read? : Value → Option α) (slot : Option Value) : Option α := slot.bind read?

def defaulted {α : Type} (default : α) (read? : Value → Option α) : Option Value → Option α
  | none => some default
  | some value => read? value

-- Null stands for an absent value, and so does a missing key.
def optional {α : Type} (read? : Value → Option α) : Option Value → Option (Option α)
  | none | some (.scalar .null) => some none
  | some value => (read? value).map some

end Json.Value

open Json (Value)

namespace StackType

def text : StackType → String
  | .uint64 => "uint64"
  | .bytes => "[]byte"
  | .any => "any"
  | .bool => "bool"
  | .address => "addr"
  | .bigInt => "bigint"
  | .hash => "hash"
  | .key => "key"
  | .method => "method"
  | .none => "none"
  | .other => "Other"

def known : List StackType := [.uint64, .bytes, .any, .bool, .address, .bigInt, .hash, .key, .method, .none]

def ofText (name : String) : StackType := (known.find? fun type => type.text = name).getD .other

theorem of_text_text (type : StackType) : ofText type.text = type := by
  cases type <;> decide

end StackType

namespace Encoding

def text : Encoding → String
  | .uint8 => "uint8"
  | .int8 => "int8"
  | .label => "int16 (big-endian)"
  | .integer => "varuint"
  | .bytes => "varuint length, bytes"
  | .integers => "varuint count, [varuint ...]"
  | .byteStrings => "varuint count, [varuint length, bytes ...]"
  | .labels => "varuint count, [int16 (big-endian) ...]"
  | .other => "Other"

def known : List Encoding := [.uint8, .int8, .label, .integer, .bytes, .integers, .byteStrings, .labels]

def ofText (name : String) : Encoding := (known.find? fun encoding => encoding.text = name).getD .other

theorem of_text_text (encoding : Encoding) : ofText encoding.text = encoding := by
  cases encoding <;> decide

end Encoding

def StackType.ofValue? (value : Value) : Option StackType := value.name?.map StackType.ofText

def StackType.toValue (type : StackType) : Value := .text type.text

def present (key : String) (value : Option Value) : List (String × Value) := (value.map (key, ·)).toList

def nonempty {α : Type} (key : String) (toValue : α → Value) : List α → List (String × Value)
  | [] => []
  | items => [(key, .array (items.map toValue))]

namespace Descriptor

def keys : List String := ["Name", "Comment", "Encoding", "Reference"]

def ofValue? (value : Value) : Option Descriptor := do
  let [name, comment, encoding, reference] ← value.slots? keys | none
  return {
    name := ← Value.required Value.text? name
    comment := ← Value.defaulted "" Value.text? comment
    encoding := .ofText (← Value.required Value.name? encoding)
    reference := ← Value.optional Value.text? reference }

def toValue (descriptor : Descriptor) : Value :=
  .record ([("Name", .text descriptor.name), ("Comment", .text descriptor.comment),
    ("Encoding", .text descriptor.encoding.text)] ++ present "Reference" (descriptor.reference.map .text))

end Descriptor

namespace Field

def keys : List String := ["Name", "Type", "Note", "Value"]

def ofValue? (value : Value) : Option Field := do
  let [name, type, note, number] ← value.slots? keys | none
  return {
    name := ← Value.required Value.text? name
    type := ← Value.required StackType.ofValue? type
    note := ← Value.optional Value.text? note
    value := ← Value.required Value.word? number }

def toValue (field : Field) : Value :=
  .record ([("Name", .text field.name), ("Type", field.type.toValue)] ++ present "Note" (field.note.map .text) ++
    [("Value", .natural field.value.toNat)])

end Field

namespace Record

def keys : List String :=
  ["Opcode", "Name", "Size", "Cost", "Doc", "DocExtra", "Groups", "Args", "Returns", "ImmediateDetails"]

def ofValue? (value : Value) : Option Record := do
  let [opcode, name, size, cost, doc, docExtra, groups, args, returns, immediates] ← value.slots? keys | none
  return {
    opcode := ← Value.optional Value.byte? opcode
    name := ← Value.required Value.text? name
    size := ← Value.defaulted 0 Value.word? size
    cost := ← Value.defaulted 0 Value.word? cost
    doc := ← Value.optional Value.text? doc
    docExtra := ← Value.optional Value.text? docExtra
    groups := ← Value.defaulted [] (Value.list? Value.text?) groups
    args := ← Value.defaulted [] (Value.list? StackType.ofValue?) args
    returns := ← Value.defaulted [] (Value.list? StackType.ofValue?) returns
    immediates := ← Value.defaulted [] (Value.list? Descriptor.ofValue?) immediates }

def toValue (record : Record) : Value :=
  .record (present "Opcode" (record.opcode.map fun opcode => .natural opcode.toNat) ++
    [("Name", .text record.name), ("Size", .natural record.size.toNat), ("Cost", .natural record.cost.toNat)] ++
    present "Doc" (record.doc.map .text) ++ present "DocExtra" (record.docExtra.map .text) ++
    [("Groups", .array (record.groups.map .text))] ++ nonempty "Args" StackType.toValue record.args ++
    nonempty "Returns" StackType.toValue record.returns ++
    nonempty "ImmediateDetails" Descriptor.toValue record.immediates)

def document (record : Record) : String := .ofList (record.toValue.indented 0)

end Record

namespace Field

def listDocument (fields : List Field) : String := .ofList (Value.array (fields.map toValue)).compact

end Field

namespace Table

def keys : List String := ["Version", "Ops", "PseudoOps", "Fields"]

def groups? (value : Value) : Option (List (String × List Field)) := do
  (← value.members?).mapM fun (name, fields) => (fields.list? Field.ofValue?).map (name, ·)

-- Pseudo-instructions come last, so that they count before instructions of the same name.
def ofValue? (value : Value) : Option Table := do
  let [version, records, pseudo, groups] ← value.slots? keys | none
  return {
    version := ← Value.required Value.word? version
    records := (← Value.required (Value.list? Record.ofValue?) records) ++
      (← Value.defaulted [] (Value.list? Record.ofValue?) pseudo)
    groups := ← Value.defaulted [] groups? groups }

def ofText? (text : String) : Option Table := (Value.ofText? text.toList).bind ofValue?

def loaded (table : Table) : Event := .tableLoaded table.version.toNat table.recordCount table.groupCount

end Table

end TealForms
