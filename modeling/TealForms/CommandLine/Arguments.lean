set_option autoImplicit false

namespace TealForms.CommandLine

-- An option that is final ends the reading of arguments.
structure Switch where
  name : String
  letter : Option Char := none
  valued : Bool := true
  final : Bool := false
deriving DecidableEq, Repr

inductive Given where
  | flag (name : String)
  | value (name text : String)
  | plain (text : String)
deriving DecidableEq, Repr

def Given.name? : Given → Option String
  | .flag name | .value name _ => some name
  | .plain _ => none

inductive Shape where
  | terminator
  | long (name : String) (attached : Option String)
  | short (letter : Char) (attached : List Char)
  | plain
deriving DecidableEq, Repr

def splitLong (chars : List Char) : Shape :=
  let name := chars.takeWhile (· != '=')
  match chars.dropWhile (· != '=') with
  | [] => .long (.ofList name) none
  | _ :: value => .long (.ofList name) (some (.ofList value))

def shape (argument : String) : Shape :=
  match argument.toList with
  | ['-', '-'] => .terminator
  | '-' :: '-' :: chars => splitLong chars
  | '-' :: letter :: attached => .short letter attached
  | _ => .plain

-- What is attached to a letter is its value, less one equals sign in front.
def attachedValue : List Char → Option String
  | [] => none
  | '=' :: value => some (.ofList value)
  | value => some (.ofList value)

inductive Reading where
  | plain
  | terminator
  | flag (name : String)
  | value (name text : String)
  | awaiting (name : String)
  | final (name : String)
  | unknown
deriving DecidableEq, Repr

def Switch.reading (switch : Switch) : Option String → Reading
  | none =>
      if switch.final then .final switch.name
      else if switch.valued then .awaiting switch.name
      else .flag switch.name
  | some text => if switch.valued then .value switch.name text else .unknown

def reading (switches : List Switch) (argument : String) : Reading :=
  match shape argument with
  | .plain => .plain
  | .terminator => .terminator
  | .long name attached =>
      match switches.find? fun switch => switch.name = name with
      | some switch => switch.reading attached
      | none => .unknown
  | .short letter attached =>
      match switches.find? fun switch => switch.letter = some letter with
      | some switch => if switch.final then .final switch.name else switch.reading (attachedValue attached)
      | none => .unknown

def after (first : Given) (rest : List Given × List String) : List Given × List String := (first :: rest.1, rest.2)

-- Reads arguments from the left. An option that waits for its value takes the next argument, which must look plain.
-- Where commands are expected, the first plain argument names one and leaves the rest to it.
def scan (switches : List Switch) (commands : Bool) :
    Option String → List String → Option (List Given × List String)
  | some _, [] => none
  | none, [] => some ([], [])
  | some name, argument :: rest =>
      if shape argument = .plain then (scan switches commands none rest).map (after (.value name argument)) else none
  | none, argument :: rest =>
      match reading switches argument with
      | .unknown => none
      | .final name => some ([.flag name], [])
      | .awaiting name => scan switches commands (some name) rest
      | .flag name => (scan switches commands none rest).map (after (.flag name))
      | .value name text => (scan switches commands none rest).map (after (.value name text))
      | .terminator => if commands then none else some (rest.map .plain, [])
      | .plain =>
          if commands then some ([.plain argument], rest)
          else (scan switches commands none rest).map (after (.plain argument))

def isSingle (given : List Given) : Bool :=
  let names := given.filterMap Given.name?
  decide names.Nodup

def value? (name : String) (given : List Given) : Option String :=
  given.findSome? fun
    | .value other text => if other = name then some text else none
    | _ => none

def isSet (name : String) (given : List Given) : Bool := given.contains (.flag name)

def plains (given : List Given) : List String :=
  given.filterMap fun
    | .plain text => some text
    | _ => none

def number? (limit : Nat) (text : String) : Option Nat :=
  let read (digits : List Char) : Option Nat :=
    if digits.isEmpty || !digits.all Char.isDigit then none
    else
      let value := digits.foldl (fun value digit => 10 * value + (digit.toNat - '0'.toNat)) 0
      if value ≤ limit then some value else none
  match text.toList with
  | '+' :: digits => read digits
  | '-' :: digits => (read digits).filter (· = 0)
  | digits => read digits

structure Compilation where
  table : Option String
  input : String
  version : Nat
  strict : Bool
  output : String
deriving DecidableEq, Repr

inductive Request where
  | help
  | version
  | compile (compilation : Compilation)
  | describe (table : Option String) (opcode : String)
deriving DecidableEq, Repr

namespace Request

def tableSwitch : Switch := { name := "langspec" }

def helpSwitch : Switch := { name := "help", letter := some 'h', valued := false, final := true }

def programSwitches : List Switch :=
  [tableSwitch, helpSwitch, { name := "version", letter := some 'V', valued := false, final := true }]

def compileSwitches : List Switch :=
  [tableSwitch, helpSwitch, { name := "pragma-version", letter := some 'p' }, { name := "no-strict", valued := false },
    { name := "output", letter := some 'o' }]

def describeSwitches : List Switch := [tableSwitch, helpSwitch]

def ofCommand (switches : List Switch) (arguments : List String) (request : List Given → Option (String → Request)) :
    Option Request := do
  let (given, _) ← scan switches false none arguments
  if !isSingle given then none
  else
    let request ← request given
    match plains given with
    | [] => if isSet "help" given then some .help else none
    | [text] => if isSet "help" given then some .help else some (request text)
    | _ => none

def compile? (table : Option String) (arguments : List String) : Option Request :=
  ofCommand compileSwitches arguments fun given => do
    let version ← match value? "pragma-version" given with
      | some text => number? (UInt32.size - 1) text
      | none => some 8
    return fun input => .compile {
      table := (value? "langspec" given).or table
      input := input
      version := version
      strict := !isSet "no-strict" given
      output := (value? "output" given).getD "-" }

def describe? (table : Option String) (arguments : List String) : Option Request :=
  ofCommand describeSwitches arguments fun given =>
    some fun opcode => .describe ((value? "langspec" given).or table) opcode

def help? : List String → Option Request
  | [] | ["compile"] | ["spec"] | ["help"] => some .help
  | _ => none

-- The table may be named before the command or after it; after it counts more.
def ofArguments? (arguments : List String) : Option Request := do
  let (given, rest) ← scan programSwitches true none arguments
  if !isSingle given then none
  else if isSet "help" given then some .help
  else if isSet "version" given then some .version
  else
    let table := value? "langspec" given
    match plains given with
    | ["compile"] => compile? table rest
    | ["spec"] => describe? table rest
    | ["help"] => help? rest
    | _ => none

end Request

end TealForms.CommandLine
