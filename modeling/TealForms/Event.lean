import TealForms.Text.Control

set_option autoImplicit false

namespace TealForms

inductive Event where
  | tableLoaded (version opcodes groups : Nat)
  | slotAllocated (slot : Nat) (name : String)
  | constantBound (name text : String)
  | labelSkipped (label : String)
  | labelAllocated (label : String)
  | compiling (input : String)
  | writing (output : String)
deriving DecidableEq, Repr

inductive Level where
  | off
  | error
  | warn
  | info
  | debug
  | trace
deriving DecidableEq, Repr

namespace Level

def rank : Level → Nat
  | .off => 0
  | .error => 1
  | .warn => 2
  | .info => 3
  | .debug => 4
  | .trace => 5

def text : Level → String
  | .off => "OFF"
  | .error => "ERROR"
  | .warn => "WARN"
  | .info => "INFO"
  | .debug => "DEBUG"
  | .trace => "TRACE"

-- Only a bare level is read, in any case; a filter that names modules or a pattern is none.
def ofText? (text : String) : Option Level :=
  [Level.off, .error, .warn, .info, .debug, .trace].find? fun level => level.text = text.toUpper

end Level

namespace Event

def level : Event → Level
  | .compiling _ | .writing _ => .info
  | _ => .debug

def target : Event → String
  | .tableLoaded _ _ _ => "seal::langspec"
  | .compiling _ | .writing _ => "seal"
  | _ => "seal::semantic"

def message : Event → String
  | .tableLoaded version opcodes groups =>
      s!"Loaded instruction table v{version} with {opcodes} opcodes and {groups} field groups"
  | .slotAllocated slot name => s!"Allocated scratch slot {slot} for `{name}`"
  | .constantBound name text => s!"Bound constant `{name}` to `{text}`"
  | .labelSkipped label => s!"Skipped label `{label}`, already declared"
  | .labelAllocated label => s!"Allocated label `{label}`"
  | .compiling input => s!"Compiling {input}"
  | .writing output => s!"Writing output to {output}"

def indented (message : String) : List Char :=
  message.toList.flatMap fun c => if c = '\n' then "\n    ".toList else [c]

def entry (event : Event) : List Char :=
  let level := event.level.text.toList
  let heading := '[' :: level ++ List.replicate (5 - level.length) ' ' ++ ' ' :: event.target.toList ++ "] ".toList
  Text.plain (heading ++ indented event.message ++ ['\n'])

def log (level : Level) (events : List Event) : String :=
  .ofList ((events.filter fun event => event.level.rank ≤ level.rank).flatMap entry)

end Event

end TealForms
