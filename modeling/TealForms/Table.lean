set_option autoImplicit false

namespace TealForms

inductive StackType where
  | uint64
  | bytes
  | any
  | bool
  | address
  | bigInt
  | hash
  | key
  | method
  | none
  | other
deriving DecidableEq, Repr

inductive Encoding where
  | uint8
  | int8
  | label
  | integer
  | bytes
  | integers
  | byteStrings
  | labels
  | other
deriving DecidableEq, Repr

def Encoding.isList : Encoding → Bool
  | .integers | .byteStrings | .labels => true
  | _ => false

structure Descriptor where
  name : String
  comment : String := ""
  encoding : Encoding
  reference : Option String := none
deriving DecidableEq, Repr

structure Field where
  name : String
  type : StackType
  note : Option String := none
  value : UInt32
deriving DecidableEq, Repr

structure Record where
  opcode : Option UInt8 := none
  name : String
  size : UInt32 := 0
  cost : UInt32 := 0
  doc : Option String := none
  docExtra : Option String := none
  groups : List String := []
  args : List StackType := []
  returns : List StackType := []
  immediates : List Descriptor := []
deriving DecidableEq, Repr

def Record.isVariadic (record : Record) : Bool :=
  match record.immediates.getLast? with
  | some descriptor => descriptor.encoding.isList
  | none => false

-- The last entry of a name counts.
structure Table where
  version : UInt32
  records : List Record
  groups : List (String × List Field)
deriving DecidableEq, Repr

namespace Table

def record? (table : Table) (name : String) : Option Record := table.records.findRev? fun record => record.name = name

def group (table : Table) (name : String) : List Field :=
  match table.groups.findRev? fun entry => entry.1 = name with
  | some entry => entry.2
  | none => []

-- The group named after the instruction, or else the one that its argument refers to.
def fields (table : Table) (opcode reference : String) : List Field :=
  match table.group opcode with
  | [] => table.group reference
  | found => found

def fieldNames (table : Table) (opcode reference : String) : List String :=
  (table.fields opcode reference).map Field.name

def recordCount (table : Table) : Nat := (table.records.map Record.name).eraseDups.length

def groupCount (table : Table) : Nat := (table.groups.map Prod.fst).eraseDups.length

theorem record_name (table : Table) (name : String) (record : Record) (found : table.record? name = some record) :
    record.name = name := by
  unfold record? at found
  rw [List.findRev?_eq_find?_reverse] at found
  simpa using List.find?_some found

end Table

end TealForms
