import TealForms.CommandLine.Run

set_option autoImplicit false

namespace TealForms.CommandLine

theorem toOption_some {ε α : Type} (result : Except ε α) (value : α) (same : result.toOption = some value) :
    result = .ok value := by
  cases result with
  | error cause => exact nomatch same
  | ok other => exact congrArg Except.ok (Option.some.inj same)

-- What opening an entry gives, and what is then ready on the standard input. The other devices never come to an end.
def Entry.source? (ready : List UInt8) (path : String) : Entry → Option (Source × List UInt8)
  | .file bytes => some (⟨path, bytes, none⟩, ready)
  | .folder => some (⟨path, [], some Obstacle.isFolder.message⟩, ready)
  | .device .null => some (⟨path, [], none⟩, ready)
  | .device .input => some (⟨path, ready, none⟩, [])
  | .device _ => none

namespace FileSystem

def source? (files : FileSystem) (ready : List UInt8) (path : String) : Option (Source × List UInt8) :=
  (files.find path).toOption.bind (Entry.source? ready path)

def Full (files : FileSystem) (path : String) : Prop :=
  path ≠ "-" ∧ ∃ place, files.writable path = .ok place ∧ files.lookup place = some (.device .full)

theorem lookup_named (files : FileSystem) (place : List String) (plain : files.lookup place ≠ some .folder) :
    place ≠ [] := by
  rintro rfl
  exact plain rfl

theorem step_dot (files : FileSystem) (place next : List String) (stepped : files.step place "." = .ok next) :
    files.lookup next = some .folder := by
  have folder := step_folder files place next "." stepped
  have same : place = next := by simpa [step, folder] using stepped
  exact same ▸ folder

theorem walk_ok (files : FileSystem) (path : String) (names place : List String) :
    files.walk path names = .ok place ↔ path ≠ "" ∧ path.utf8ByteSize ≤ longestPath ∧
      names.foldlM files.step (if path.toList.head? = some '/' then [] else files.home) = .ok place := by
  unfold walk
  by_cases blank : path = ""
  · simp [blank]
  · by_cases long : longestPath < path.utf8ByteSize
    · simp [blank, long, Nat.not_le_of_lt long]
    · simp [blank, long, Nat.le_of_not_lt long]

theorem walk_dot (files : FileSystem) (path : String) (names place : List String)
    (walked : files.walk path (names ++ ["."]) = .ok place) : files.lookup place = some .folder := by
  obtain ⟨_, _, led⟩ := (walk_ok files path _ place).mp walked
  rw [List.foldlM_append] at led
  cases front : names.foldlM files.step (if path.toList.head? = some '/' then [] else files.home) with
  | error obstacle => rw [front] at led; exact nomatch led
  | ok middle =>
      rw [front] at led
      change files.step middle "." >>= pure = .ok place at led
      exact step_dot files middle place (by rwa [bind_pure] at led)

theorem writable_walk (files : FileSystem) (path : String) (place : List String)
    (reached : files.writable path = .ok place) :
    files.walk path (names path) = .ok place ∧ files.lookup place ≠ some .folder := by
  unfold writable at reached
  cases walked : files.walk path (namesToWrite path) with
  | error obstacle => exact nomatch walked ▸ reached
  | ok last =>
      rw [walked] at reached
      obtain ⟨plain, rfl⟩ : files.lookup last ≠ some .folder ∧ last = place := by
        simp only [bind, Except.bind] at reached
        split at reached
        · exact nomatch reached
        · exact ⟨by assumption, Except.ok.inj reached⟩
      refine ⟨?_, plain⟩
      unfold namesToWrite at walked
      dsimp only at walked
      split at walked
      · exact absurd (walk_dot files path _ last walked) plain
      · next long =>
          have kept : (names path).reverse.dropWhile (· = "") = (names path).reverse :=
            (List.dropWhile_suffix _).eq_of_length_le (by simpa using long)
          rwa [kept, List.reverse_reverse] at walked

-- Only folders lead on, and a folder is no place for a file.
theorem step_put (files : FileSystem) (first place next : List String) (name : String) (bytes : List UInt8)
    (plain : files.lookup place ≠ some .folder) (stepped : files.step first name = .ok next) :
    (files.put place bytes).step first name = .ok next := by
  have folder := step_folder files first next name stepped
  have other : first ≠ place := fun same => plain (same ▸ folder)
  have found : (files.put place bytes).lookup first = files.lookup first := by
    rw [put_lookup files place first bytes (lookup_named files place plain), if_neg other]
  rw [← stepped, step, step, found]

theorem steps_put (files : FileSystem) (names first place last : List String) (bytes : List UInt8)
    (plain : files.lookup place ≠ some .folder) (led : names.foldlM files.step first = .ok last) :
    names.foldlM (files.put place bytes).step first = .ok last := by
  induction names generalizing first with
  | nil => exact led
  | cons name rest ih =>
      rw [List.foldlM_cons] at led ⊢
      cases stepped : files.step first name with
      | error obstacle => rw [stepped] at led; exact nomatch led
      | ok next =>
          rw [stepped] at led
          rw [step_put files first place next name bytes plain stepped]
          exact ih next led

theorem put_home (files : FileSystem) (place : List String) (bytes : List UInt8) :
    (files.put place bytes).home = files.home := by
  unfold put
  split <;> rfl

theorem walk_put (files : FileSystem) (path : String) (names place last : List String) (bytes : List UInt8)
    (plain : files.lookup place ≠ some .folder) (walked : files.walk path names = .ok last) :
    (files.put place bytes).walk path names = .ok last := by
  obtain ⟨given, short, led⟩ := (walk_ok files path names last).mp walked
  refine (walk_ok _ path names last).mpr ⟨given, short, ?_⟩
  rw [put_home]
  exact steps_put files names _ place last bytes plain led

theorem find_put (files : FileSystem) (path : String) (place : List String) (bytes : List UInt8)
    (reached : files.writable path = .ok place) : (files.put place bytes).find path = .ok (.file bytes) := by
  obtain ⟨walked, plain⟩ := writable_walk files path place reached
  unfold find
  rw [walk_put files path (names path) place place bytes plain walked]
  simp only [bind, Except.bind, put_lookup files place place bytes (lookup_named files place plain), if_true]
  rfl

end FileSystem

inductive Delivered (files : FileSystem) (path text : String) : FileSystem → String → Prop where
  | shown (standard : path = "-") : Delivered files path text files text
  | stored (named : path ≠ "-") (place : List String) (reached : files.writable path = .ok place)
      (plain : ∀ device, files.lookup place ≠ some (.device device)) (after : FileSystem)
      (held : after.find path = .ok (.file text.toUTF8.toList))
      (changed : ∀ other, after.lookup other =
        if other = place then some (.file text.toUTF8.toList) else files.lookup other)
      (home : after.home = files.home) : Delivered files path text after ""
  | passed (named : path ≠ "-") (place : List String) (reached : files.writable path = .ok place) (device : Device)
      (found : files.lookup place = some (.device device)) (takes : device ≠ .full) :
      Delivered files path text files (if device = .output then text else "")

theorem delivered_open (files after : FileSystem) (path text shown : String) (named : path ≠ "-")
    (delivered : Delivered files path text after shown) : ∃ place, files.writable path = .ok place := by
  cases delivered with
  | shown standard => exact absurd standard named
  | stored _ place reached => exact ⟨place, reached⟩
  | passed _ place reached => exact ⟨place, reached⟩

namespace World

theorem read_opened (world : World) (path : String) (source : Source) (rest : List UInt8)
    (opened : world.files.source? world.input path = some (source, rest)) :
    (World.read path).run world = (.ok source, { world with input := rest }) := by
  obtain ⟨entry, found, given⟩ := Option.bind_eq_some_iff.mp opened
  simp only [World.read, StateT.run_bind, StateT.run_get, pure_bind, toOption_some _ entry found]
  unfold Entry.source? at given
  split at given
  case h_5 => exact nomatch given
  all_goals
    cases given
    rfl

theorem read_closed (world : World) (path : String)
    (closed : world.files.source? world.input path = none) :
    ∃ cause, (World.read path).run world = (.error cause, world) := by
  unfold FileSystem.source? at closed
  cases found : world.files.find path with
  | error obstacle =>
      simp only [World.read, StateT.run_bind, StateT.run_get, pure_bind, found]
      exact ⟨_, rfl⟩
  | ok entry =>
      have missed : entry.source? world.input path = none := by simpa [found, Except.toOption] using closed
      simp only [World.read, StateT.run_bind, StateT.run_get, pure_bind, found]
      unfold Entry.source? at missed
      split at missed
      case h_5 device null input =>
        cases device with
        | null => exact absurd rfl null
        | input => exact absurd rfl input
        | full | output | errors => exact ⟨_, rfl⟩
      all_goals exact nomatch missed

theorem create_refused (world : World) (path text : String) (obstacle : Obstacle)
    (closed : world.files.writable path = .error obstacle) :
    (World.create path text).run world = (.refused obstacle.message, world) := by
  simp only [World.create, StateT.run_bind, StateT.run_get, pure_bind, closed]
  rfl

theorem create_broken (world : World) (path text : String) (full : world.files.Full path) :
    (World.create path text).run world = (.broken Obstacle.noSpace.message, world) := by
  obtain ⟨-, place, reached, found⟩ := full
  simp only [World.create, StateT.run_bind, StateT.run_get, pure_bind, reached, found]
  rfl

theorem create_done (world : World) (path text : String) (place : List String) (named : path ≠ "-")
    (reached : world.files.writable path = .ok place) (takes : ¬world.files.Full path) :
    ∃ after shown, (World.create path text).run world = (.done, after) ∧ after.output = world.output ++ shown ∧
      Delivered world.files path text after.files shown := by
  have plain := (FileSystem.writable_walk world.files path place reached).2
  have stored (free : ∀ device, world.files.lookup place ≠ some (.device device)) :
      Delivered world.files path text (world.files.put place text.toUTF8.toList) "" :=
    .stored named place reached free _ (FileSystem.find_put world.files path place _ reached)
      (FileSystem.put_lookup world.files place · _ (FileSystem.lookup_named world.files place plain))
      (FileSystem.put_home world.files place _)
  simp only [World.create, StateT.run_bind, StateT.run_get, pure_bind, reached]
  match found : world.files.lookup place with
  | none => exact ⟨_, "", rfl, String.append_empty.symm, stored (by simp [found])⟩
  | some (.file bytes) => exact ⟨_, "", rfl, String.append_empty.symm, stored (by simp [found])⟩
  | some .folder => exact absurd found plain
  | some (.device device) =>
      have passed : Delivered world.files path text world.files (if device = .output then text else "") :=
        .passed named place reached device found fun same => takes ⟨named, place, reached, same ▸ found⟩
      cases device with
      | full => exact absurd ⟨named, place, reached, found⟩ takes
      | output => exact ⟨_, _, rfl, rfl, passed⟩
      | null | input | errors => exact ⟨_, "", rfl, String.append_empty.symm, passed⟩

end World

end TealForms.CommandLine
