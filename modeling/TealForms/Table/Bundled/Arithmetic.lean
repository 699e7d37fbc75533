import TealForms.Table

set_option autoImplicit false

namespace TealForms.Table.Bundled

def arithmetic : List Record := [
  { opcode := some 1, name := "sha256", size := 1, cost := 35, doc := some "sha256 hash of value A",
    groups := ["Arithmetic"], args := [.bytes], returns := [.bytes] },
  { opcode := some 2, name := "keccak256", size := 1, cost := 35, doc := some "keccak256 hash of value A",
    groups := ["Arithmetic"], args := [.bytes], returns := [.bytes] },
  { opcode := some 3, name := "sha512_256", size := 1, cost := 35, doc := some "sha512_256 hash of value A",
    groups := ["Arithmetic"], args := [.bytes], returns := [.bytes] },
  { opcode := some 4, name := "ed25519verify", size := 1, cost := 1900, doc := some "verify signature",
    groups := ["Arithmetic"], args := [.bytes, .bytes, .bytes], returns := [.bool] },
  { opcode := some 5, name := "+", size := 1, cost := 1, doc := some "A + B", groups := ["Arithmetic"],
    args := [.uint64, .uint64], returns := [.uint64] },
  { opcode := some 6, name := "-", size := 1, cost := 1, doc := some "A - B", groups := ["Arithmetic"],
    args := [.uint64, .uint64], returns := [.uint64] },
  { opcode := some 7, name := "/", size := 1, cost := 1, doc := some "A / B", groups := ["Arithmetic"],
    args := [.uint64, .uint64], returns := [.uint64] },
  { opcode := some 8, name := "*", size := 1, cost := 1, doc := some "A * B", groups := ["Arithmetic"],
    args := [.uint64, .uint64], returns := [.uint64] },
  { opcode := some 9, name := "%", size := 1, cost := 1, doc := some "A % B", groups := ["Arithmetic"],
    args := [.uint64, .uint64], returns := [.uint64] },
  { opcode := some 10, name := "|", size := 1, cost := 1, doc := some "A | B", groups := ["Arithmetic"],
    args := [.uint64, .uint64], returns := [.uint64] },
  { opcode := some 11, name := "&", size := 1, cost := 1, doc := some "A & B", groups := ["Arithmetic"],
    args := [.uint64, .uint64], returns := [.uint64] },
  { opcode := some 12, name := "^", size := 1, cost := 1, doc := some "A ^ B", groups := ["Arithmetic"],
    args := [.uint64, .uint64], returns := [.uint64] },
  { opcode := some 13, name := "shl", size := 1, cost := 1, doc := some "A shl B", groups := ["Arithmetic"],
    args := [.uint64, .uint64], returns := [.uint64] },
  { opcode := some 14, name := "shr", size := 1, cost := 1, doc := some "A shr B", groups := ["Arithmetic"],
    args := [.uint64, .uint64], returns := [.uint64] },
  { opcode := some 15, name := "exp", size := 1, cost := 1, doc := some "A exp B", groups := ["Arithmetic"],
    args := [.uint64, .uint64], returns := [.uint64] },
  { opcode := some 16, name := "<", size := 1, cost := 1, doc := some "A < B", groups := ["Arithmetic"],
    args := [.uint64, .uint64], returns := [.bool] },
  { opcode := some 17, name := ">", size := 1, cost := 1, doc := some "A > B", groups := ["Arithmetic"],
    args := [.uint64, .uint64], returns := [.bool] },
  { opcode := some 18, name := "<=", size := 1, cost := 1, doc := some "A <= B", groups := ["Arithmetic"],
    args := [.uint64, .uint64], returns := [.bool] },
  { opcode := some 19, name := ">=", size := 1, cost := 1, doc := some "A >= B", groups := ["Arithmetic"],
    args := [.uint64, .uint64], returns := [.bool] },
  { opcode := some 20, name := "&&", size := 1, cost := 1, doc := some "A && B", groups := ["Arithmetic"],
    args := [.uint64, .uint64], returns := [.bool] },
  { opcode := some 21, name := "||", size := 1, cost := 1, doc := some "A || B", groups := ["Arithmetic"],
    args := [.uint64, .uint64], returns := [.bool] },
  { opcode := some 22, name := "==", size := 1, cost := 1, doc := some "A == B", groups := ["Arithmetic"],
    args := [.any, .any], returns := [.bool] },
  { opcode := some 23, name := "!=", size := 1, cost := 1, doc := some "A != B", groups := ["Arithmetic"],
    args := [.any, .any], returns := [.bool] },
  { opcode := some 24, name := "!", size := 1, cost := 1, doc := some "A == 0", groups := ["Arithmetic"],
    args := [.uint64], returns := [.bool] },
  { opcode := some 25, name := "~", size := 1, cost := 1, doc := some "bitwise invert",
    groups := ["Arithmetic"], args := [.uint64], returns := [.uint64] },
  { opcode := some 26, name := "len", size := 1, cost := 1, doc := some "length of A", groups := ["Arithmetic"],
    args := [.bytes], returns := [.uint64] },
  { opcode := some 27, name := "itob", size := 1, cost := 1,
    doc := some "converts uint64 A to big-endian byte array", groups := ["Arithmetic"], args := [.uint64],
    returns := [.bytes] },
  { opcode := some 28, name := "btoi", size := 1, cost := 1,
    doc := some "converts big-endian byte array A to uint64", groups := ["Arithmetic"], args := [.bytes],
    returns := [.uint64] },
  { opcode := some 29, name := "mulw", size := 1, cost := 1, doc := some "A times B as a 128-bit result",
    groups := ["Arithmetic"], args := [.uint64, .uint64], returns := [.uint64, .uint64] },
  { opcode := some 30, name := "addw", size := 1, cost := 1, doc := some "A plus B as a 128-bit result",
    groups := ["Arithmetic"], args := [.uint64, .uint64], returns := [.uint64, .uint64] },
  { opcode := some 31, name := "divmodw", size := 1, cost := 20,
    doc := some "W,X = (A,B / C,D); Y,Z = (A,B modulo C,D)", groups := ["Arithmetic"],
    args := [.uint64, .uint64, .uint64, .uint64], returns := [.uint64, .uint64, .uint64, .uint64] },
  { opcode := some 32, name := "sqrt", size := 1, cost := 4, doc := some "integer square root",
    groups := ["Arithmetic"], args := [.uint64], returns := [.uint64] },
  { opcode := some 33, name := "bitlen", size := 1, cost := 1, doc := some "highest set bit",
    groups := ["Arithmetic"], args := [.any], returns := [.uint64] }]

end TealForms.Table.Bundled
