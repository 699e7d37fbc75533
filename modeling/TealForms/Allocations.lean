import TealForms.Event
import TealForms.Node

set_option autoImplicit false

namespace TealForms

inductive Family where
  | choice
  | case
  | loop
deriving DecidableEq, Repr

def loopEnd (label : String) : String := label ++ "_end"

namespace Family

def stem : Family → String
  | .choice => "in"
  | .case => "case"
  | .loop => "while"

def label (family : Family) (number : Nat) : String := family.stem ++ "_" ++ toString number

def names (family : Family) (number : Nat) : List String :=
  match family with
  | .loop => [family.label number, loopEnd (family.label number)]
  | _ => [family.label number]

end Family

-- The least number of each family that was not tried yet.
structure Counters where
  choice : Nat := 0
  case : Nat := 0
  loop : Nat := 0
deriving DecidableEq, Repr

namespace Counters

def get (counters : Counters) : Family → Nat
  | .choice => counters.choice
  | .case => counters.case
  | .loop => counters.loop

def set (counters : Counters) (family : Family) (number : Nat) : Counters :=
  match family with
  | .choice => { counters with choice := number }
  | .case => { counters with case := number }
  | .loop => { counters with loop := number }

theorem get_set (counters : Counters) (family other : Family) (number : Nat) :
    (counters.set family number).get other = if other = family then number else counters.get other := by
  cases family <;> cases other <;> rfl

end Counters

-- Nothing handed out is taken back, whatever fails later. Labels that programs declare and labels that macros need
-- share one set of names.
structure Allocations where
  scratch : List String := []
  constants : List (String × Literal Node) := []
  labels : List String := []
  counters : Counters := {}
  events : List Event := []

def scratchCapacity : Nat := 256

namespace Allocations

def slot? (allocations : Allocations) (name : String) : Option Nat :=
  allocations.scratch.findIdx? fun allocated => allocated = name

def allocateSlot (allocations : Allocations) (reuse : Bool) (name : String) : Option Nat × Allocations :=
  match if reuse then allocations.slot? name else none with
  | some slot => (some slot, allocations)
  | none =>
      let slot := allocations.scratch.length
      if slot < scratchCapacity then
        (some slot, { allocations with
          scratch := allocations.scratch ++ [name]
          events := allocations.events ++ [.slotAllocated slot name] })
      else (none, allocations)

def constant? (allocations : Allocations) (name : String) : Option (Literal Node) :=
  (allocations.constants.find? fun entry => entry.1 = name).map Prod.snd

def bind (allocations : Allocations) (name : String) (literal : Literal Node) : Allocations :=
  { allocations with
    constants := allocations.constants ++ [(name, literal)]
    events := allocations.events ++ [.constantBound name literal.token.value.text] }

def declare (allocations : Allocations) (label : String) : Allocations :=
  { allocations with labels := allocations.labels ++ [label] }

def isTaken (allocations : Allocations) (family : Family) (number : Nat) : Bool :=
  (family.names number).any (allocations.labels.contains ·)

-- One more number than there are labels is tried, so that one of them is free.
def passed (allocations : Allocations) (family : Family) : List Nat :=
  (List.range' (allocations.counters.get family) (allocations.labels.length + 1)).takeWhile (allocations.isTaken family)

def allocateLabel (allocations : Allocations) (family : Family) : String × Allocations :=
  let passed := allocations.passed family
  let number := allocations.counters.get family + passed.length
  (family.label number, { allocations with
    labels := allocations.labels ++ family.names number
    counters := allocations.counters.set family (number + 1)
    events := allocations.events ++ passed.map (fun number => .labelSkipped (family.label number)) ++
      [.labelAllocated (family.label number)] })

end Allocations

end TealForms
