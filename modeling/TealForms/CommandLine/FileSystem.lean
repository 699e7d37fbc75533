import TealForms.Source
import TealForms.Text.Divide

set_option autoImplicit false

namespace TealForms.CommandLine

inductive Device where
  | null
  | full
  | input
  | output
  | errors
deriving DecidableEq, Repr

inductive Entry where
  | file (bytes : List UInt8)
  | folder
  | device (device : Device)
deriving DecidableEq, Repr

inductive Obstacle where
  | missing
  | notFolder
  | isFolder
  | noSpace
  | tooLong
deriving DecidableEq, Repr

def Obstacle.message : Obstacle → String
  | .missing => "No such file or directory (os error 2)"
  | .notFolder => "Not a directory (os error 20)"
  | .isFolder => "Is a directory (os error 21)"
  | .noSpace => "No space left on device (os error 28)"
  | .tooLong => "File name too long (os error 36)"

structure FileSystem where
  home : List String
  entries : List (List String × Entry)
deriving DecidableEq, Repr

namespace FileSystem

def longestName : Nat := 255

def longestPath : Nat := 4095

def lookup (files : FileSystem) (place : List String) : Option Entry :=
  if place.isEmpty then some .folder
  else (files.entries.find? fun entry => entry.1 = place).map Prod.snd

-- A place is the list of the names that lead to it from the root. Only a folder leads on, also to itself.
def step (files : FileSystem) (place : List String) (name : String) : Except Obstacle (List String) :=
  match files.lookup place with
  | some .folder =>
      if name = "" || name = "." then .ok place
      else if name = ".." then .ok place.dropLast
      else if name.utf8ByteSize ≤ longestName then .ok (place ++ [name])
      else .error .tooLong
  | some _ => .error .notFolder
  | none => .error .missing

def names (path : String) : List String :=
  let parts := Text.divide '/' path.toList
  (parts.1 :: parts.2).map String.ofList

def walk (files : FileSystem) (path : String) (names : List String) : Except Obstacle (List String) :=
  if path = "" then .error .missing
  else if longestPath < path.utf8ByteSize then .error .tooLong
  else names.foldlM files.step (if path.toList.head? = some '/' then [] else files.home)

def find (files : FileSystem) (path : String) : Except Obstacle Entry := do
  match files.lookup (← files.walk path (names path)) with
  | some entry => return entry
  | none => throw .missing

-- The names to follow for writing. What stands before a final slash can only be a folder, and is not looked up.
def namesToWrite (path : String) : List String :=
  let kept := ((names path).reverse.dropWhile (· = "")).reverse
  if kept.length < (names path).length then kept.dropLast ++ ["."] else kept

def writable (files : FileSystem) (path : String) : Except Obstacle (List String) := do
  let place ← files.walk path (namesToWrite path)
  match files.lookup place with
  | some .folder => throw .isFolder
  | _ => return place

def put (files : FileSystem) (place : List String) (bytes : List UInt8) : FileSystem :=
  if files.entries.any fun entry => entry.1 = place then
    { files with entries := files.entries.map fun entry => if entry.1 = place then (place, .file bytes) else entry }
  else { files with entries := files.entries ++ [(place, .file bytes)] }

def devices : List (List String × Entry) :=
  [(["dev"], .folder), (["dev", "null"], .device .null), (["dev", "full"], .device .full),
    (["dev", "stdin"], .device .input), (["dev", "stdout"], .device .output), (["dev", "stderr"], .device .errors)]

def leading (place : List String) : List (List String × Entry) :=
  (List.range place.length).map fun count => (place.take (count + 1), .folder)

def ofHome (home : List String) (content : List (List String × Entry)) : FileSystem where
  home
  entries := devices ++ leading home ++ content.map fun (names, entry) => (home ++ names, entry)

theorem step_folder (files : FileSystem) (place next : List String) (name : String)
    (stepped : files.step place name = .ok next) : files.lookup place = some .folder := by
  unfold step at stepped
  split at stepped
  · assumption
  · exact nomatch stepped
  · exact nomatch stepped

theorem find_replaced (entries : List (List String × Entry)) (place other : List String) (entry : Entry) :
    ((entries.map fun old => if old.1 = place then (place, entry) else old).find? fun old => old.1 = other).map
        Prod.snd =
      if other = place ∧ entries.any (fun old => old.1 = place) then some entry
      else (entries.find? fun old => old.1 = other).map Prod.snd := by
  induction entries with
  | nil => simp
  | cons old rest ih =>
      rw [List.map_cons, List.find?_cons, List.find?_cons, List.any_cons]
      by_cases replaced : old.1 = place
      · rw [if_pos replaced]
        by_cases same : place = other
        · simp [replaced, same]
        · have differ : ¬other = place := fun equal => same equal.symm
          simpa [replaced, same, differ, -List.find?_map] using ih
      · rw [if_neg replaced, decide_eq_false replaced, Bool.false_or]
        by_cases sought : old.1 = other
        · have differ : ¬other = place := fun equal => replaced (sought.trans equal)
          simp [sought, differ]
        · simpa [sought, -List.find?_map] using ih

theorem put_lookup (files : FileSystem) (place other : List String) (bytes : List UInt8) (named : place ≠ []) :
    (files.put place bytes).lookup other =
      if other = place then some (.file bytes) else files.lookup other := by
  unfold put lookup
  by_cases root : other = []
  · simp [root, named.symm]
  by_cases known : (files.entries.any fun entry => entry.1 = place) = true
  · rw [if_pos known]
    simp only [List.isEmpty_iff, root, if_false, find_replaced, known, and_true]
  · rw [if_neg known]
    have absent : ∀ entry ∈ files.entries, entry.1 ≠ place := fun entry member same =>
      known (List.any_eq_true.mpr ⟨entry, member, decide_eq_true same⟩)
    by_cases same : other = place
    · have missing : files.entries.find? (fun entry => entry.1 = place) = none :=
        List.find?_eq_none.mpr fun entry member => by simpa using absent entry member
      simp [List.find?_append, same, missing, named]
    · simp [List.find?_append, same, root, Ne.symm same]

end FileSystem

end TealForms.CommandLine
