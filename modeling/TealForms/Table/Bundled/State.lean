import TealForms.Table

set_option autoImplicit false

namespace TealForms.Table.Bundled

def state : List Record := [
  { opcode := some 85, name := "balance", size := 1, cost := 1,
    doc := some "balance for account A, in microalgos", groups := ["State Access"], args := [.any],
    returns := [.uint64] },
  { opcode := some 86, name := "min_balance", size := 1, cost := 1,
    doc := some "minimum required balance for account A", groups := ["State Access"], args := [.any],
    returns := [.uint64] },
  { opcode := some 87, name := "app_opted_in", size := 1, cost := 1,
    doc := some "1 if account A is opted in to application B", groups := ["State Access"],
    args := [.any, .uint64], returns := [.bool] },
  { opcode := some 88, name := "app_local_get", size := 1, cost := 1,
    doc := some "local state of the key B in the current application in account A", groups := ["State Access"],
    args := [.any, .bytes], returns := [.any] },
  { opcode := some 89, name := "app_local_get_ex", size := 1, cost := 1,
    doc := some "X is the local state of application B, key C in account A", groups := ["State Access"],
    args := [.any, .uint64, .bytes], returns := [.any, .bool] },
  { opcode := some 90, name := "app_global_get", size := 1, cost := 1,
    doc := some "global state of the key A in the current application", groups := ["State Access"],
    args := [.bytes], returns := [.any] },
  { opcode := some 91, name := "app_global_get_ex", size := 1, cost := 1,
    doc := some "X is the global state of application A, key B", groups := ["State Access"],
    args := [.uint64, .bytes], returns := [.any, .bool] },
  { opcode := some 92, name := "app_local_put", size := 1, cost := 1,
    doc := some "write C to key B in account A's local state", groups := ["State Access"],
    args := [.any, .bytes, .any] },
  { opcode := some 93, name := "app_global_put", size := 1, cost := 1,
    doc := some "write B to key A in the global state", groups := ["State Access"], args := [.bytes, .any] },
  { opcode := some 94, name := "app_local_del", size := 1, cost := 1,
    doc := some "delete key B from account A's local state", groups := ["State Access"], args := [.any, .bytes] },
  { opcode := some 95, name := "app_global_del", size := 1, cost := 1,
    doc := some "delete key A from the global state", groups := ["State Access"], args := [.bytes] },
  { opcode := some 96, name := "asset_holding_get", size := 2, cost := 1,
    doc := some "X is field F from account A's holding of asset B", groups := ["State Access"],
    args := [.any, .uint64], returns := [.any, .bool], immediates := [⟨"f", "f", .uint8, some "asset_holding"⟩] },
  { opcode := some 97, name := "asset_params_get", size := 2, cost := 1,
    doc := some "X is field F from asset A", groups := ["State Access"], args := [.uint64],
    returns := [.any, .bool], immediates := [⟨"f", "f", .uint8, some "asset_params"⟩] },
  { opcode := some 98, name := "app_params_get", size := 2, cost := 1, doc := some "X is field F from app A",
    groups := ["State Access"], args := [.uint64], returns := [.any, .bool],
    immediates := [⟨"f", "f", .uint8, some "app_params"⟩] },
  { opcode := some 99, name := "acct_params_get", size := 2, cost := 1,
    doc := some "X is field F from account A", groups := ["State Access"], args := [.any],
    returns := [.any, .bool], immediates := [⟨"f", "f", .uint8, some "acct_params"⟩] },
  { opcode := some 100, name := "log", size := 1, cost := 1,
    doc := some "write A to log state of the current application", groups := ["State Access"], args := [.bytes] },
  { opcode := some 101, name := "box_create", size := 1, cost := 1,
    doc := some "create a box named A, of length B", groups := ["Box Access"], args := [.bytes, .uint64],
    returns := [.bool] },
  { opcode := some 102, name := "box_get", size := 1, cost := 1,
    doc := some "X is the contents of box A if A exists", groups := ["Box Access"], args := [.bytes],
    returns := [.bytes, .bool] },
  { opcode := some 103, name := "box_put", size := 1, cost := 1,
    doc := some "replaces the contents of box A with byte-array B", groups := ["Box Access"],
    args := [.bytes, .bytes] },
  { opcode := some 104, name := "box_del", size := 1, cost := 1, doc := some "delete box named A if it exists",
    groups := ["Box Access"], args := [.bytes], returns := [.bool] },
  { opcode := some 105, name := "box_len", size := 1, cost := 1,
    doc := some "X is the length of box A if A exists", groups := ["Box Access"], args := [.bytes],
    returns := [.uint64, .bool] }]

end TealForms.Table.Bundled
