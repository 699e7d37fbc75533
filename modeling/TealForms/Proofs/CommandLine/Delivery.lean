import TealForms.Proofs.CommandLine.Files
import TealForms.Proofs.CommandLine.Request

set_option autoImplicit false

namespace TealForms.CommandLine

namespace FileSystem

def table? (files : FileSystem) (ready : List UInt8) : Option String → Option (Table × List UInt8)
  | none => some (.bundled, ready)
  | some path => (files.source? ready path).bind fun opened =>
      (tableOf opened.1).toOption.map fun table => (table, opened.2)

def input? (files : FileSystem) (ready : List UInt8) (path : String) : Option (Source × List UInt8) :=
  if path = "-" then some (⟨"<stdin>", ready, none⟩, []) else files.source? ready path

end FileSystem

namespace Compilation

def dialect (compilation : Compilation) (table : Table) : Dialect :=
  ⟨table, { version := compilation.version, strict := compilation.strict }⟩

inductive Builds (compilation : Compilation) (files : FileSystem) (ready : List UInt8) (root : Node) : Prop where
  | intro {table : Table} {source : Source} {rest last : List UInt8}
      (loaded : files.table? ready compilation.table = some (table, rest))
      (opened : files.input? rest compilation.input = some (source, last))
      (compiled : ((compilation.dialect table).compile source).1 = .ok root)

inductive Fails (compilation : Compilation) (files : FileSystem) (ready : List UInt8) : Prop where
  | table (unloaded : files.table? ready compilation.table = none)
  | input {table : Table} {rest : List UInt8}
      (loaded : files.table? ready compilation.table = some (table, rest))
      (closed : files.input? rest compilation.input = none)
  | tree {table : Table} {source : Source} {rest last : List UInt8} {fault : Located Fault}
      (loaded : files.table? ready compilation.table = some (table, rest))
      (opened : files.input? rest compilation.input = some (source, last))
      (faulty : ((compilation.dialect table).compile source).1 = .error fault)
  | output {obstacle : Obstacle} (named : compilation.output ≠ "-")
      (closed : files.writable compilation.output = .error obstacle)

theorem builds_sound (compilation : Compilation) (files after : FileSystem) (ready : List UInt8) (root : Node)
    (shown : String) (built : compilation.Builds files ready root)
    (delivered : Delivered files compilation.output root.assembly after shown) :
    ¬compilation.Fails files ready := by
  obtain ⟨loaded, opened, compiled⟩ := built
  rintro (unloaded | ⟨other, closed⟩ | ⟨other, found, faulty⟩ | ⟨named, closed⟩)
  · exact nomatch loaded.symm.trans unloaded
  · obtain ⟨rfl, rfl⟩ := Prod.mk.inj (Option.some.inj (loaded.symm.trans other))
    exact nomatch opened.symm.trans closed
  · obtain ⟨rfl, rfl⟩ := Prod.mk.inj (Option.some.inj (loaded.symm.trans other))
    obtain ⟨rfl, rfl⟩ := Prod.mk.inj (Option.some.inj (opened.symm.trans found))
    exact nomatch compiled.symm.trans faulty
  · obtain ⟨place, reached⟩ := delivered_open files after compilation.output root.assembly shown named delivered
    exact nomatch reached.symm.trans closed

end Compilation

section

variable (files : FileSystem) (ready : List UInt8)

theorem table_loaded (path : Option String) (found : Table) (rest : List UInt8)
    (loaded : files.table? ready path = some (found, rest)) :
    (table path : StateM World _).run { files := files, input := ready } =
      (.ok found, { files := files, input := rest }) := by
  cases path with
  | none =>
      cases loaded
      rfl
  | some path =>
      obtain ⟨⟨source, left⟩, opened, spelled⟩ := Option.bind_eq_some_iff.mp loaded
      obtain ⟨spelt, named, same⟩ := Option.map_eq_some_iff.mp spelled
      obtain ⟨rfl, rfl⟩ := Prod.mk.inj same
      have read := World.read_opened { files := files, input := ready } path source left opened
      simp only [table, Files.read, StateT.run_bind, read]
      exact congrArg (·, _) (toOption_some _ spelt named)

theorem table_unloaded (path : Option String) (unloaded : files.table? ready path = none) :
    ∃ cause rest, (table path : StateM World _).run { files := files, input := ready } =
      (.error cause, { files := files, input := rest }) := by
  cases path with
  | none => exact nomatch unloaded
  | some path =>
      cases opened : files.source? ready path with
      | none =>
          obtain ⟨cause, read⟩ := World.read_closed { files := files, input := ready } path opened
          simp only [table, Files.read, StateT.run_bind, read]
          exact ⟨cause, ready, rfl⟩
      | some found =>
          obtain ⟨source, rest⟩ := found
          have read := World.read_opened { files := files, input := ready } path source rest opened
          cases spelling : tableOf source with
          | ok spelt => simp [FileSystem.table?, opened, spelling, Except.toOption] at unloaded
          | error cause =>
              simp only [table, Files.read, StateT.run_bind, read]
              exact ⟨cause, rest, congrArg (·, _) spelling⟩

theorem input_opened (path : String) (source : Source) (rest : List UInt8)
    (opened : files.input? ready path = some (source, rest)) :
    (input path : StateM World _).run { files := files, input := ready } =
      (.ok source, { files := files, input := rest }) := by
  unfold FileSystem.input? at opened
  unfold input
  split at opened
  · rw [if_pos ‹_›]
    cases opened
    rfl
  · rw [if_neg ‹_›]
    exact World.read_opened { files := files, input := ready } path source rest opened

theorem input_closed (path : String) (closed : files.input? ready path = none) :
    ∃ cause, (input path : StateM World _).run { files := files, input := ready } =
      (.error cause, { files := files, input := ready }) := by
  unfold FileSystem.input? at closed
  unfold input
  split at closed
  · exact nomatch closed
  · rw [if_neg ‹_›]
    exact World.read_closed { files := files, input := ready } path closed

theorem withTable_loaded (path : Option String) (next : Table → StateM World Outcome) (found : Table)
    (rest : List UInt8) (loaded : files.table? ready path = some (found, rest)) :
    (withTable path next).run { files := files, input := ready } =
      (next found).run { files := files, input := rest } := by
  unfold withTable
  simp only [StateT.run_bind]
  rw [table_loaded files ready path found rest loaded]
  rfl

theorem withTable_unloaded (path : Option String) (next : Table → StateM World Outcome)
    (unloaded : files.table? ready path = none) :
    ∃ outcome rest, (withTable path next).run { files := files, input := ready } =
      (outcome, { files := files, input := rest }) ∧ outcome.status = 1 ∧ outcome.output = "" := by
  obtain ⟨cause, rest, read⟩ := table_unloaded files ready path unloaded
  unfold withTable
  simp only [StateT.run_bind]
  rw [read]
  exact ⟨_, rest, rfl, rfl, rfl⟩

-- The last stage either writes the whole text or leaves everything as it is.
theorem emit_effect (events : List Event) (path text : String) :
    ∃ outcome after, (emit events path text : StateM World _).run { files := files, input := ready } =
        (outcome, after) ∧
      (outcome.status = 0 ∧ Delivered files path text after.files (outcome.output ++ after.output) ∨
        outcome.status = 1 ∧ outcome.output ++ after.output = "" ∧ after.files = files ∧
          (files.Full path ∨ path ≠ "-" ∧ ∃ obstacle, files.writable path = .error obstacle)) := by
  unfold emit
  by_cases standard : path = "-"
  · rw [if_pos standard]
    exact ⟨_, _, rfl, .inl ⟨rfl, by simpa using .shown standard⟩⟩
  · rw [if_neg standard]
    simp only [Files.create, StateT.run_bind]
    cases reached : files.writable path with
    | error obstacle =>
        rw [World.create_refused { files := files, input := ready } path text obstacle reached]
        exact ⟨_, _, rfl, .inr ⟨rfl, rfl, rfl, .inr ⟨standard, obstacle, rfl⟩⟩⟩
    | ok place =>
        by_cases full : files.Full path
        · rw [World.create_broken { files := files, input := ready } path text full]
          exact ⟨_, _, rfl, .inr ⟨rfl, rfl, rfl, .inl full⟩⟩
        · obtain ⟨after, shown, created, output, delivered⟩ :=
            World.create_done { files := files, input := ready } path text place standard reached full
          rw [created]
          exact ⟨_, after, rfl, .inl ⟨rfl, by simpa [output] using delivered⟩⟩

end

-- What a compilation comes to: all of it is done, or nothing.
inductive Compilation.Effect (compilation : Compilation) (files : FileSystem) (ready : List UInt8) (status : Nat)
    (shown : String) (after : FileSystem) : Prop where
  | done {root : Node} (status : status = 0) (built : compilation.Builds files ready root)
      (delivered : Delivered files compilation.output root.assembly after shown)
  | failed (status : status = 1) (silent : shown = "") (kept : after = files)
      (cause : compilation.Fails files ready ∨ files.Full compilation.output)

section

variable (files : FileSystem) (ready : List UInt8) (compilation : Compilation)

theorem compileWith_effect (found : Table) (rest : List UInt8)
    (loaded : files.table? ready compilation.table = some (found, rest)) :
    ∃ outcome after, (compileWith found compilation : StateM World _).run { files := files, input := rest } =
        (outcome, after) ∧
      compilation.Effect files ready outcome.status (outcome.output ++ after.output) after.files := by
  unfold compileWith
  simp only [StateT.run_bind]
  cases opened : files.input? rest compilation.input with
  | none =>
      obtain ⟨cause, read⟩ := input_closed files rest compilation.input opened
      rw [read]
      exact ⟨_, _, rfl, .failed rfl rfl rfl (.inl (.input loaded opened))⟩
  | some given =>
      obtain ⟨source, last⟩ := given
      rw [input_opened files rest compilation.input source last opened]
      dsimp only [bind]
      cases compiled : (compilation.dialect found).compile source with
      | mk result allocations =>
          have answer : ((compilation.dialect found).compile source).1 = result := congrArg Prod.fst compiled
          unfold Compilation.dialect at compiled
          rw [compiled]
          cases result with
          | error fault => exact ⟨_, _, rfl, .failed rfl rfl rfl (.inl (.tree loaded opened answer))⟩
          | ok root =>
              obtain ⟨outcome, after, emitted, effect⟩ := emit_effect files last
                ([found.loaded, .compiling compilation.input] ++ allocations.events ++ [.writing compilation.output])
                compilation.output root.assembly
              refine ⟨outcome, after, emitted, ?_⟩
              obtain ⟨status, delivered⟩ | ⟨status, silent, kept, full | ⟨named, obstacle, closed⟩⟩ := effect
              · exact .done status ⟨loaded, opened, answer⟩ delivered
              · exact .failed status silent kept (.inr full)
              · exact .failed status silent kept (.inl (.output named closed))

theorem compile_effect :
    ∃ outcome after, (run (some (.compile compilation)) : StateM World _).run { files := files, input := ready } =
        (outcome, after) ∧
      compilation.Effect files ready outcome.status (outcome.output ++ after.output) after.files := by
  unfold run
  cases loaded : files.table? ready compilation.table with
  | none =>
      obtain ⟨outcome, rest, ran, status, silent⟩ := withTable_unloaded files ready compilation.table _ loaded
      exact ⟨outcome, _, ran, .failed status (by rw [silent]; rfl) rfl (.inl (.table loaded))⟩
  | some given =>
      rw [withTable_loaded files ready compilation.table _ given.1 given.2 loaded]
      exact compileWith_effect files ready compilation given.1 given.2 loaded

theorem run_kept (request : Option Request) :
    ∃ outcome after, (run request : StateM World _).run { files := files, input := ready } = (outcome, after) ∧
      (outcome.status ≠ 0 → outcome.output ++ after.output = "" ∧ after.files = files) := by
  match request with
  | none => exact ⟨_, _, rfl, fun _ => ⟨rfl, rfl⟩⟩
  | some .help => exact ⟨_, _, rfl, fun failed => absurd rfl failed⟩
  | some .version => exact ⟨_, _, rfl, fun failed => absurd rfl failed⟩
  | some (.compile compilation) =>
      obtain ⟨outcome, after, ran, effect⟩ := compile_effect files ready compilation
      refine ⟨outcome, after, ran, fun failed => ?_⟩
      cases effect with
      | done status => exact absurd status failed
      | failed _ silent kept => exact ⟨silent, kept⟩
  | some (.describe path opcode) =>
      unfold run
      cases loaded : files.table? ready path with
      | none =>
          obtain ⟨outcome, rest, ran, status, silent⟩ := withTable_unloaded files ready path _ loaded
          exact ⟨outcome, _, ran, fun _ => ⟨by rw [silent]; rfl, rfl⟩⟩
      | some given =>
          rw [withTable_loaded files ready path _ given.1 given.2 loaded]
          refine ⟨_, _, rfl, fun failed => ?_⟩
          unfold describeWith at failed ⊢
          split at failed
          · exact ⟨rfl, rfl⟩
          · exact absurd rfl failed

end

/-- Whatever the arguments, the files and the standard input: a run that does not succeed has shown and changed nothing;
a compilation that succeeds has delivered what its stages made, and fails only if one of them does. That an opened
file takes its text is not for the program to decide, so the last part leaves out the device that takes none. -/
theorem runIn_delivers (files : FileSystem) (ready : List UInt8) (arguments : List String) (outcome : Outcome)
    (after : World) (ran : runIn { files := files, input := ready } arguments = (outcome, after)) :
    (outcome.status ≠ 0 → outcome.output = "" ∧ after.files = files) ∧
      ∀ compilation, Request.ofArguments? arguments = some (.compile compilation) →
        (∃ front given, Arranged arguments front given ∧ compilation.Asked front given) ∧
        (outcome.status = 0 ∨ outcome.status = 1) ∧
        (outcome.status = 0 → ∃ root, compilation.Builds files ready root ∧
          Delivered files compilation.output root.assembly after.files outcome.output) ∧
        (¬files.Full compilation.output → (outcome.status = 1 ↔ compilation.Fails files ready)) := by
  refine ⟨?_, ?_⟩
  · obtain ⟨first, last, same, kept⟩ := run_kept files ready (Request.ofArguments? arguments)
    unfold runIn at ran
    rw [same] at ran
    cases ran
    exact kept
  · intro compilation asked
    obtain ⟨first, last, same, effect⟩ := compile_effect files ready compilation
    unfold runIn at ran
    rw [asked, same] at ran
    cases ran
    refine ⟨Request.compile_asked arguments compilation asked, ?_⟩
    cases effect with
    | done status built delivered =>
        have sound := compilation.builds_sound files _ ready _ _ built delivered
        refine ⟨.inl status, fun _ => ⟨_, built, delivered⟩, fun _ => ⟨fun failed => ?_, fun fails => absurd fails sound⟩⟩
        exact absurd (status.symm.trans failed) (by decide)
    | failed status silent kept cause =>
        refine ⟨.inr status, fun done => absurd (done.symm.trans status) (by decide), fun takes =>
          ⟨fun _ => cause.resolve_right takes, fun _ => status⟩⟩

theorem input_replaced_or_kept :
    let before (text : String) := FileSystem.ofHome ["work"] [(["in.lisp"], .file text.toUTF8.toList)]
    let ran (text : String) := runIn { files := before text, input := [] } ["compile", "-o", "in.lisp", "in.lisp"]
    (ran "(err)").1.status = 0 ∧ (ran "(err)").1.output = "" ∧
      (ran "(err)").2.files = before "#pragma version 8\nerr\n" ∧
      ¬Compilation.Fails ⟨none, "in.lisp", 8, true, "in.lisp"⟩ (before "(err)") [] ∧
      (ran "(int 1)").1.status = 1 ∧ (ran "(int 1)").2.files = before "(int 1)" := by
  have delivers (text : String) := runIn_delivers
    (FileSystem.ofHome ["work"] [(["in.lisp"], .file text.toUTF8.toList)]) []
    ["compile", "-o", "in.lisp", "in.lisp"] _ _ rfl
  have written : (runIn { files := .ofHome ["work"] [(["in.lisp"], .file "(err)".toUTF8.toList)], input := [] }
      ["compile", "-o", "in.lisp", "in.lisp"]).1.status = 0 := by decide +kernel
  have refused : (runIn { files := .ofHome ["work"] [(["in.lisp"], .file "(int 1)".toUTF8.toList)], input := [] }
      ["compile", "-o", "in.lisp", "in.lisp"]).1.status = 1 := by decide +kernel
  obtain ⟨-, -, -, sound⟩ := (delivers "(err)").2 ⟨none, "in.lisp", 8, true, "in.lisp"⟩ (by decide +kernel)
  refine ⟨written, by decide +kernel, by decide +kernel, fun fails => ?_, refused, ((delivers "(int 1)").1 ?_).2⟩
  · refine absurd (written.symm.trans ((sound ?_).mpr fails)) (by decide)
    rintro ⟨-, place, reached, full⟩
    have found : place = ["work", "in.lisp"] := Except.ok.inj (reached.symm.trans rfl)
    subst found
    exact nomatch full
  · exact fun done => absurd (done.symm.trans refused) (by decide)

end TealForms.CommandLine
