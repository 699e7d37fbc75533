import TealForms.CommandLine.Arguments
import TealForms.CommandLine.FileSystem
import TealForms.Compile
import TealForms.Table.Document

set_option autoImplicit false

namespace TealForms.CommandLine

inductive Delivery where
  | done
  | refused (cause : String)
  | broken (cause : String)
deriving DecidableEq, Repr

class Files (m : Type → Type) where
  standardInput : m Source
  read (path : String) : m (Except String Source)
  create (path text : String) : m Delivery

structure Outcome where
  status : Nat
  output : String := ""
  events : List Event := []
  complaint : String := ""
deriving DecidableEq, Repr

def Outcome.errorOutput (outcome : Outcome) (level : Level) : String :=
  Event.log level outcome.events ++ outcome.complaint

def failure (events : List Event) (message cause : String) : Outcome :=
  { status := 1, events := events, complaint := "Error: " ++ message ++ "\n\nCaused by:\n    " ++ cause ++ "\n" }

def misuse : Outcome := { status := 2, complaint := "error: invalid arguments\n" }

def versionText : String := "seal 0.1.0\n"

def helpText : String :=
  "Compiles fully-parenthesized S-expressions into TEAL assembly\n\n" ++
  "Usage: seal [--langspec FILE] compile [-p VERSION] [--no-strict] [-o FILE] FILE\n" ++
  "       seal [--langspec FILE] spec OPCODE\n"

def tableOf (source : Source) : Except String Table :=
  match source.failure with
  | some message => .error message
  | none =>
      match (String.fromUTF8? ⟨source.bytes.toArray⟩).bind Table.ofText? with
      | some table => .ok table
      | none => .error "Malformed instruction table"

section

variable {m : Type → Type} [Monad m] [Files m]

def table : Option String → m (Except String Table)
  | none => return .ok .bundled
  | some path => do
      let source ← Files.read path
      return source.bind tableOf

def input (path : String) : m (Except String Source) :=
  if path = "-" then .ok <$> Files.standardInput else Files.read path

def emit (events : List Event) (path : String) (text : String) : m Outcome := do
  if path = "-" then return { status := 0, output := text, events := events }
  else
    match ← Files.create path text with
    | .done => return { status := 0, events := events }
    | .refused cause => return failure events ("Failed to open for writing: " ++ path) cause
    | .broken cause => return failure events ("Failed to emit to file: " ++ path) cause

def compileWith (table : Table) (compilation : Compilation) : m Outcome := do
  let opening := [table.loaded, .compiling compilation.input]
  match ← input compilation.input with
  | .error cause => return failure opening ("Failed to open for reading: " ++ compilation.input) cause
  | .ok source =>
      let dialect : Dialect := ⟨table, { version := compilation.version, strict := compilation.strict }⟩
      match dialect.compile source with
      | (.error fault, allocations) =>
          let complaint := source.report "Compiler error" fault
          return { status := 1, events := opening ++ allocations.events, complaint := complaint }
      | (.ok node, allocations) =>
          emit (opening ++ allocations.events ++ [.writing compilation.output]) compilation.output node.assembly

def describeWith (table : Table) (opcode : String) : Outcome :=
  match table.record? opcode with
  | none => { status := 1, events := [table.loaded], complaint := "Opcode not found\n" }
  | some record => { status := 0, output := record.document ++ "\n", events := [table.loaded] }

def withTable (path : Option String) (next : Table → m Outcome) : m Outcome := do
  match ← table path with
  | .ok table => next table
  | .error cause => return failure [] ("Failed to load instruction table: " ++ path.getD "") cause

-- At most a table and an input are read, and at most one file is written, as the last thing.
def run : Option Request → m Outcome
  | none => return misuse
  | some .help => return { status := 0, output := helpText }
  | some .version => return { status := 0, output := versionText }
  | some (.compile compilation) => withTable compilation.table fun table => compileWith table compilation
  | some (.describe path opcode) => withTable path fun table => return describeWith table opcode

end

structure World where
  files : FileSystem
  input : List UInt8
  output : String := ""
  errors : String := ""

namespace World

def takeInput (name : String) : StateM World Source :=
  modifyGet fun world => (⟨name, world.input, none⟩, { world with input := [] })

-- A folder can be opened, but reading it fails. The other devices never come to an end.
def read (path : String) : StateM World (Except String Source) := do
  match (← get).files.find path with
  | .ok (.file bytes) => return .ok ⟨path, bytes, none⟩
  | .ok .folder => return .ok ⟨path, [], some Obstacle.isFolder.message⟩
  | .ok (.device .null) => return .ok ⟨path, [], none⟩
  | .ok (.device .input) => .ok <$> takeInput path
  | .ok (.device _) => return .error Obstacle.missing.message
  | .error obstacle => return .error obstacle.message

def create (path text : String) : StateM World Delivery := do
  let world ← get
  match world.files.writable path with
  | .error obstacle => return .refused obstacle.message
  | .ok place =>
      match world.files.lookup place with
      | some (.device .full) => return .broken Obstacle.noSpace.message
      | some (.device .output) => set { world with output := world.output ++ text }
      | some (.device .errors) => set { world with errors := world.errors ++ text }
      | some (.device _) => pure ()
      | _ => set { world with files := world.files.put place text.toUTF8.toList }
      return .done

end World

instance : Files (StateM World) where
  standardInput := World.takeInput "<stdin>"
  read := World.read
  create := World.create

def runIn (world : World) (arguments : List String) : Outcome × World :=
  let (outcome, world) := (run (Request.ofArguments? arguments) : StateM World Outcome).run world
  ({ outcome with output := outcome.output ++ world.output, complaint := outcome.complaint ++ world.errors }, world)

end TealForms.CommandLine
