import TealForms.Table

set_option autoImplicit false

namespace TealForms.Table.Bundled

def bytes : List Record := [
  { opcode := some 71, name := "concat", size := 1, cost := 1, doc := some "join A and B",
    groups := ["Byte Array Manipulation"], args := [.bytes, .bytes], returns := [.bytes] },
  { opcode := some 72, name := "substring", size := 3, cost := 1, doc := some "A range of bytes from A",
    groups := ["Byte Array Manipulation"], args := [.bytes], returns := [.bytes],
    immediates := [⟨"s", "s", .uint8, none⟩, ⟨"e", "e", .uint8, none⟩] },
  { opcode := some 73, name := "substring3", size := 1, cost := 1, doc := some "A range of bytes from A",
    groups := ["Byte Array Manipulation"], args := [.bytes, .uint64, .uint64], returns := [.bytes] },
  { opcode := some 74, name := "getbit", size := 1, cost := 1, doc := some "Bth bit of A",
    groups := ["Byte Array Manipulation"], args := [.any, .uint64], returns := [.uint64] },
  { opcode := some 75, name := "setbit", size := 1, cost := 1,
    doc := some "Copy of A with the Bth bit set to C", groups := ["Byte Array Manipulation"],
    args := [.any, .uint64, .uint64], returns := [.any] },
  { opcode := some 76, name := "getbyte", size := 1, cost := 1, doc := some "Bth byte of A",
    groups := ["Byte Array Manipulation"], args := [.bytes, .uint64], returns := [.uint64] },
  { opcode := some 77, name := "setbyte", size := 1, cost := 1,
    doc := some "Copy of A with the Bth byte set to C", groups := ["Byte Array Manipulation"],
    args := [.bytes, .uint64, .uint64], returns := [.bytes] },
  { opcode := some 78, name := "extract", size := 3, cost := 1, doc := some "A range of bytes from A",
    groups := ["Byte Array Manipulation"], args := [.bytes], returns := [.bytes],
    immediates := [⟨"s", "s", .uint8, none⟩, ⟨"l", "l", .uint8, none⟩] },
  { opcode := some 79, name := "extract3", size := 1, cost := 1, doc := some "A range of bytes from A",
    groups := ["Byte Array Manipulation"], args := [.bytes, .uint64, .uint64], returns := [.bytes] },
  { opcode := some 80, name := "extract_uint64", size := 1, cost := 1,
    doc := some "Uint64 from A at position B", groups := ["Byte Array Manipulation"], args := [.bytes, .uint64],
    returns := [.uint64] },
  { opcode := some 81, name := "replace2", size := 2, cost := 1,
    doc := some "Copy of A with bytes starting at S replaced by B", groups := ["Byte Array Manipulation"],
    args := [.bytes, .bytes], returns := [.bytes], immediates := [⟨"s", "s", .uint8, none⟩] },
  { opcode := some 82, name := "bzero", size := 1, cost := 1, doc := some "zero filled byte-array of length A",
    groups := ["Byte Array Manipulation"], args := [.uint64], returns := [.bytes] },
  { opcode := some 83, name := "base64_decode", size := 2, cost := 1,
    doc := some "decode A which was base64-encoded", groups := ["Byte Array Manipulation"], args := [.bytes],
    returns := [.bytes], immediates := [⟨"e", "e", .uint8, some "base64"⟩] },
  { opcode := some 84, name := "json_ref", size := 2, cost := 25,
    doc := some "key B's value from a valid utf-8 encoded json object A", groups := ["Byte Array Manipulation"],
    args := [.bytes, .bytes], returns := [.any], immediates := [⟨"r", "r", .uint8, some "json_ref"⟩] }]

end TealForms.Table.Bundled
