import TealForms.Table

set_option autoImplicit false

namespace TealForms.Table.Bundled

def transactions : List Record := [
  { opcode := some 106, name := "itxn_begin", size := 1, cost := 1,
    doc := some "begin preparation of a new inner transaction in a new transaction group",
    groups := ["Inner Transactions"] },
  { opcode := some 107, name := "itxn_next", size := 1, cost := 1,
    doc := some "begin preparation of a new inner transaction in the same transaction group",
    groups := ["Inner Transactions"] },
  { opcode := some 108, name := "itxn_field", size := 2, cost := 1,
    doc := some "set field F of the current inner transaction to A", groups := ["Inner Transactions"],
    args := [.any], immediates := [⟨"f", "f", .uint8, some "txn"⟩] },
  { opcode := some 109, name := "itxn_submit", size := 1, cost := 1,
    doc := some "execute the current inner transaction group", groups := ["Inner Transactions"] },
  { opcode := some 110, name := "itxn", size := 2, cost := 1,
    doc := some "field F of the last inner transaction", groups := ["Inner Transactions"], returns := [.any],
    immediates := [⟨"f", "f", .uint8, some "txn"⟩] },
  { opcode := some 111, name := "itxna", size := 3, cost := 1,
    doc := some "Ith value of the array field F of the last inner transaction",
    groups := ["Inner Transactions"], returns := [.any],
    immediates := [⟨"f", "f", .uint8, some "txn"⟩, ⟨"i", "i", .uint8, none⟩] },
  { opcode := some 112, name := "gitxn", size := 3, cost := 1,
    doc := some "field F of the Tth transaction in the last inner group submitted",
    groups := ["Inner Transactions"], returns := [.any],
    immediates := [⟨"t", "t", .uint8, none⟩, ⟨"f", "f", .uint8, some "txn"⟩] }]

end TealForms.Table.Bundled
