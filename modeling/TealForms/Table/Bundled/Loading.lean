import TealForms.Table

set_option autoImplicit false

namespace TealForms.Table.Bundled

def loading : List Record := [
  { opcode := some 34, name := "intc", size := 2, cost := 1, doc := some "Ith constant from intcblock",
    groups := ["Loading Values"], returns := [.uint64], immediates := [⟨"i", "i", .uint8, none⟩] },
  { opcode := some 35, name := "bytec", size := 2, cost := 1, doc := some "Ith constant from bytecblock",
    groups := ["Loading Values"], returns := [.bytes], immediates := [⟨"i", "i", .uint8, none⟩] },
  { opcode := some 36, name := "intcblock", size := 0, cost := 1,
    doc := some "prepare block of uint64 constants", groups := ["Loading Values"],
    immediates := [⟨"uint", "uint", .integers, none⟩] },
  { opcode := some 37, name := "bytecblock", size := 0, cost := 1,
    doc := some "prepare block of byte-array constants", groups := ["Loading Values"],
    immediates := [⟨"bytes", "bytes", .byteStrings, none⟩] },
  { opcode := some 38, name := "pushint", size := 0, cost := 1, doc := some "immediate UINT",
    groups := ["Loading Values"], returns := [.uint64], immediates := [⟨"uint", "uint", .integer, none⟩] },
  { opcode := some 39, name := "pushbytes", size := 0, cost := 1, doc := some "immediate BYTES",
    groups := ["Loading Values"], returns := [.bytes], immediates := [⟨"bytes", "bytes", .bytes, none⟩] },
  { opcode := some 40, name := "pushints", size := 0, cost := 1, doc := some "push sequence of immediate uints",
    groups := ["Loading Values"], immediates := [⟨"uint", "uint", .integers, none⟩] },
  { opcode := some 41, name := "pushbytess", size := 0, cost := 1,
    doc := some "push sequences of immediate byte arrays", groups := ["Loading Values"],
    immediates := [⟨"bytes", "bytes", .byteStrings, none⟩] },
  { opcode := some 42, name := "arg", size := 2, cost := 1, doc := some "Nth LogicSig argument",
    groups := ["Loading Values"], returns := [.bytes], immediates := [⟨"n", "n", .uint8, none⟩] },
  { opcode := some 43, name := "txn", size := 2, cost := 1, doc := some "field F of current transaction",
    groups := ["Loading Values"], returns := [.any], immediates := [⟨"f", "f", .uint8, some "txn"⟩] },
  { opcode := some 44, name := "global", size := 2, cost := 1, doc := some "global field F",
    groups := ["Loading Values"], returns := [.any], immediates := [⟨"f", "f", .uint8, some "global"⟩] },
  { opcode := some 45, name := "gtxn", size := 3, cost := 1,
    doc := some "field F of the Tth transaction in the current group", groups := ["Loading Values"],
    returns := [.any], immediates := [⟨"t", "t", .uint8, none⟩, ⟨"f", "f", .uint8, some "txn"⟩] },
  { opcode := some 46, name := "load", size := 2, cost := 1, doc := some "Ith scratch space value",
    groups := ["Loading Values"], returns := [.any], immediates := [⟨"i", "i", .uint8, none⟩] },
  { opcode := some 47, name := "store", size := 2, cost := 1, doc := some "store A to the Ith scratch space",
    groups := ["Loading Values"], args := [.any], immediates := [⟨"i", "i", .uint8, none⟩] },
  { opcode := some 48, name := "txna", size := 3, cost := 1,
    doc := some "Ith value of the array field F of the current transaction", groups := ["Loading Values"],
    returns := [.any], immediates := [⟨"f", "f", .uint8, some "txn"⟩, ⟨"i", "i", .uint8, none⟩] },
  { opcode := some 49, name := "gtxna", size := 4, cost := 1,
    doc := some "Ith value of the array field F from the Tth transaction in the current group",
    groups := ["Loading Values"], returns := [.any],
    immediates := [⟨"t", "t", .uint8, none⟩, ⟨"f", "f", .uint8, some "txn"⟩, ⟨"i", "i", .uint8, none⟩] },
  { opcode := some 50, name := "gtxns", size := 2, cost := 1,
    doc := some "field F of the Ath transaction in the current group", groups := ["Loading Values"],
    args := [.uint64], returns := [.any], immediates := [⟨"f", "f", .uint8, some "txn"⟩] },
  { opcode := some 51, name := "gload", size := 3, cost := 1,
    doc := some "Ith scratch space value of the Tth transaction", groups := ["Loading Values"],
    returns := [.any], immediates := [⟨"t", "t", .uint8, none⟩, ⟨"i", "i", .uint8, none⟩] },
  { name := "int", size := 0, cost := 1, doc := some "push an integer constant, using intcblock or pushint",
    groups := ["Loading Values"], returns := [.uint64], immediates := [⟨"i", "i", .integer, none⟩] },
  { name := "byte", size := 0, cost := 1,
    doc := some "push a byte-array constant, using bytecblock or pushbytes", groups := ["Loading Values"],
    returns := [.bytes], immediates := [⟨"bytes", "bytes", .bytes, none⟩] },
  { name := "addr", size := 0, cost := 1, doc := some "push the decoded address as a byte-array constant",
    groups := ["Loading Values"], returns := [.bytes], immediates := [⟨"a", "a", .bytes, none⟩] },
  { name := "method", size := 0, cost := 1, doc := some "push the method selector of an ABI signature",
    groups := ["Loading Values"], returns := [.bytes], immediates := [⟨"signature", "signature", .bytes, none⟩] }]

end TealForms.Table.Bundled
