import TealForms.CommandLine.Run

set_option autoImplicit false

namespace TealForms.CommandLine

def readAll (name : String) (stream : IO.FS.Stream) : IO Source := do
  let mut bytes : ByteArray := .empty
  let mut failure : Option String := none
  let mut more := true
  while more do
    match ← (stream.read 65536).toBaseIO with
    | .ok chunk =>
        bytes := bytes ++ chunk
        more := !chunk.isEmpty
    | .error error =>
        failure := some (toString error)
        more := false
  return ⟨name, bytes.toList, failure⟩

instance : Files IO where
  standardInput := do readAll "<stdin>" (← IO.getStdin)
  read path := do
    match ← (IO.FS.Handle.mk path .read).toBaseIO with
    | .ok handle => return .ok (← readAll path (.ofHandle handle))
    | .error error => return .error (toString error)
  create path text := do
    match ← (IO.FS.Handle.mk path .write).toBaseIO with
    | .ok handle =>
        match ← (do handle.putStr text; handle.flush : IO Unit).toBaseIO with
        | .ok _ => return .done
        | .error error => return .broken (toString error)
    | .error error => return .refused (toString error)

end TealForms.CommandLine

open TealForms TealForms.CommandLine in
def main (arguments : List String) : IO UInt32 := do
  let outcome ← (run (Request.ofArguments? arguments) : IO Outcome)
  let level := (← IO.getEnv "RUST_LOG").bind Level.ofText?
  (← IO.getStderr).putStr (outcome.errorOutput (level.getD .error))
  (← IO.getStdout).putStr outcome.output
  return .ofNat outcome.status
