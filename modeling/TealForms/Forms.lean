import TealForms.Build
import TealForms.Token.Scanner

set_option autoImplicit false

namespace TealForms

structure OpenForm where
  parenthesis : Location
  head : Located Token
  children : List Node

-- Perhaps a parenthesis waits for its head. The open forms stand from the innermost out, the finished forms of the
-- program newest first.
structure Nesting where
  pending : Option Location := none
  forms : List OpenForm := []
  finished : List Node := []

namespace Nesting

def add (nesting : Nesting) (node : Node) : Nesting :=
  match nesting.forms with
  | [] => { nesting with finished := node :: nesting.finished }
  | form :: outer => { nesting with forms := { form with children := node :: form.children } :: outer }

def innermost (nesting : Nesting) : Option Location :=
  nesting.pending.or (nesting.forms.head?.map OpenForm.parenthesis)

end Nesting

namespace Dialect

def finish (dialect : Dialect) (nesting : Nesting) (allocations : Allocations) (token : Located Token)
    (children : List Node) : Except (Located Fault) Nesting × Allocations :=
  match dialect.build allocations token children with
  | (.ok node, allocations) => (.ok (nesting.add node), allocations)
  | (.error fault, allocations) => (.error fault, allocations)

def invalid (token : Located Token) : Located Fault := token.map fun token => .invalidToken token.text

-- A node is built as soon as its last child is, so that rules are checked in the order in which forms end.
def step (dialect : Dialect) (nesting : Nesting) (allocations : Allocations) (token : Located Token) :
    Except (Located Fault) Nesting × Allocations :=
  match nesting.pending, token.value.kind with
  | some _, .opening | some _, .closing | _, .root => (.error (invalid token), allocations)
  | some parenthesis, _ =>
      (.ok { nesting with pending := none, forms := ⟨parenthesis, token, []⟩ :: nesting.forms }, allocations)
  | none, .opening => (.ok { nesting with pending := some token.location }, allocations)
  | none, .closing =>
      match nesting.forms with
      | [] => (.error (invalid token), allocations)
      | form :: outer => dialect.finish { nesting with forms := outer } allocations form.head form.children.reverse
  | none, _ => dialect.finish nesting allocations token []

def feed (dialect : Dialect) (nesting : Nesting) (allocations : Allocations) :
    List Scanned → Except (Located Fault) Nesting × Allocations
  | [] => (.ok nesting, allocations)
  | .error failure :: _ => (.error (failure.map .input), allocations)
  | .ok token :: rest =>
      match dialect.step nesting allocations token with
      | (.ok nesting, allocations) => dialect.feed nesting allocations rest
      | (.error fault, allocations) => (.error fault, allocations)

def parse (dialect : Dialect) (allocations : Allocations) (start : Location) (tokens : List Scanned) :
    Except (Located Fault) Node × Allocations :=
  match dialect.feed {} allocations tokens with
  | (.error fault, allocations) => (.error fault, allocations)
  | (.ok nesting, allocations) =>
      match nesting.innermost with
      | some parenthesis => (.error ⟨.unclosedExpression, parenthesis⟩, allocations)
      | none => dialect.build allocations ⟨.root, start⟩ nesting.finished.reverse

end Dialect

end TealForms
