import TealForms.Fault

set_option autoImplicit false

namespace TealForms.Report

-- The last column to underline; a text that goes on below is underlined to the line end.
def lastColumn (location : Location) (line : List Char) : Nat :=
  if location.stop.line = location.start.line then max (location.stop.column - 1) location.start.column
  else line.length + 1

def underline (location : Location) (line : List Char) : List Char :=
  List.replicate (location.start.column - 1) ' ' ++
    List.replicate (lastColumn location line - location.start.column + 1) '^'

def excerpt (location : Location) (line : List Char) : List (List Char) :=
  let number := (toString location.start.line).toList
  let room := List.replicate number.length ' '
  [room ++ " |".toList, number ++ " | ".toList ++ line, room ++ " | ".toList ++ underline location line]

def lines (word : String) (fault : Located Fault) (recorded : List (List Char)) : List (List Char) :=
  [s!"{word}: {fault.value.message}".toList, s!" --> {fault.location.text}".toList] ++
    match recorded[fault.location.start.line - 1]? with
    | some line => excerpt fault.location line
    | none => []

def text (word : String) (fault : Located Fault) (recorded : List (List Char)) : String :=
  .ofList ((lines word fault recorded).flatMap (· ++ ['\n']))

end TealForms.Report
