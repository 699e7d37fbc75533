import TealForms.Table

set_option autoImplicit false

namespace TealForms.Table.Bundled

def flow : List Record := [
  { opcode := some 0, name := "err", size := 1, cost := 1, doc := some "Fail immediately.",
    groups := ["Flow Control"] },
  { opcode := some 52, name := "bnz", size := 2, cost := 1,
    doc := some "branch to TARGET if value A is not zero", groups := ["Flow Control"], args := [.uint64],
    immediates := [⟨"target", "target", .label, none⟩] },
  { opcode := some 53, name := "bz", size := 2, cost := 1, doc := some "branch to TARGET if value A is zero",
    groups := ["Flow Control"], args := [.uint64], immediates := [⟨"target", "target", .label, none⟩] },
  { opcode := some 54, name := "b", size := 2, cost := 1, doc := some "branch unconditionally to TARGET",
    groups := ["Flow Control"], immediates := [⟨"target", "target", .label, none⟩] },
  { opcode := some 55, name := "return", size := 1, cost := 1, doc := some "use A as success value; end",
    groups := ["Flow Control"], args := [.uint64] },
  { opcode := some 56, name := "assert", size := 1, cost := 1,
    doc := some "immediately fail unless A is a non-zero number", groups := ["Flow Control"], args := [.uint64] },
  { opcode := some 57, name := "pop", size := 1, cost := 1, doc := some "discard A", groups := ["Flow Control"],
    args := [.any] },
  { opcode := some 58, name := "dup", size := 1, cost := 1, doc := some "duplicate A",
    groups := ["Flow Control"], args := [.any], returns := [.any, .any] },
  { opcode := some 59, name := "dup2", size := 1, cost := 1, doc := some "duplicate A and B",
    groups := ["Flow Control"], args := [.any, .any], returns := [.any, .any, .any, .any] },
  { opcode := some 60, name := "dig", size := 2, cost := 1, doc := some "Nth value from the top of the stack",
    groups := ["Flow Control"], args := [.any], returns := [.any, .any],
    immediates := [⟨"n", "n", .uint8, none⟩] },
  { opcode := some 61, name := "swap", size := 1, cost := 1, doc := some "swaps A and B on stack",
    groups := ["Flow Control"], args := [.any, .any], returns := [.any, .any] },
  { opcode := some 62, name := "select", size := 1, cost := 1,
    doc := some "selects one of two values based on top-of-stack", groups := ["Flow Control"],
    args := [.any, .any, .uint64], returns := [.any] },
  { opcode := some 63, name := "cover", size := 2, cost := 1,
    doc := some "remove top of stack, and place it deeper", groups := ["Flow Control"], args := [.any],
    returns := [.any], immediates := [⟨"n", "n", .uint8, none⟩] },
  { opcode := some 64, name := "uncover", size := 2, cost := 1,
    doc := some "remove the value at depth N and push it", groups := ["Flow Control"], args := [.any],
    returns := [.any], immediates := [⟨"n", "n", .uint8, none⟩] },
  { opcode := some 65, name := "callsub", size := 2, cost := 1,
    doc := some "branch to TARGET, saving the next instruction", groups := ["Flow Control"],
    immediates := [⟨"target", "target", .label, none⟩] },
  { opcode := some 66, name := "retsub", size := 1, cost := 1,
    doc := some "pop the top instruction from the call stack and branch to it", groups := ["Flow Control"] },
  { opcode := some 67, name := "proto", size := 3, cost := 1, doc := some "prepare top call frame",
    groups := ["Flow Control"], immediates := [⟨"a", "a", .uint8, none⟩, ⟨"r", "r", .uint8, none⟩] },
  { opcode := some 68, name := "frame_dig", size := 2, cost := 1,
    doc := some "Nth value from the frame pointer", groups := ["Flow Control"], returns := [.any],
    immediates := [⟨"i", "i", .int8, none⟩] },
  { opcode := some 69, name := "frame_bury", size := 2, cost := 1,
    doc := some "replace the Nth value from the frame pointer", groups := ["Flow Control"], args := [.any],
    immediates := [⟨"i", "i", .int8, none⟩] },
  { opcode := some 70, name := "switch", size := 0, cost := 1, doc := some "branch to the Ath label",
    groups := ["Flow Control"], args := [.uint64], immediates := [⟨"target", "target", .labels, none⟩] }]

end TealForms.Table.Bundled
