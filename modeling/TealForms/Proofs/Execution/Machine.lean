import TealForms.Command

set_option autoImplicit false

namespace TealForms

inductive Operation where
  | pass
  | label (name : String)
  | perform (line : Line)
  | branchIfZero (target : String)
  | branch (target : String)
deriving DecidableEq, Repr

namespace Operation

def label? : Operation → Option String
  | .label name => some name
  | _ => none

end Operation

def Line.operation : Line → Operation
  | .pragma _ => .pass
  | .label name => .label name
  | .instruction statement comment =>
      match statement.toList with
      | 'b' :: ' ' :: target => .branch (.ofList target)
      | 'b' :: 'z' :: ' ' :: target => .branchIfZero (.ofList target)
      | _ => .perform (.instruction statement comment)

-- The instructions that do not branch change the state in a way that is left open here, or fail.
structure Machine (σ : Type) where
  perform : Line → σ → Option σ
  pop : σ → Option (Nat × σ)

def Operation.find? (target : String) : List Operation → Option (List Operation)
  | [] => none
  | operation :: rest => if operation = .label target then some (operation :: rest) else find? target rest

namespace Machine

section

variable {σ : Type} (machine : Machine σ) (program : List Operation)

def step : List Operation × σ → Option (List Operation × σ)
  | ([], _) => none
  | (.pass :: rest, state) => some (rest, state)
  | (.label _ :: rest, state) => some (rest, state)
  | (.perform line :: rest, state) => (machine.perform line state).map (rest, ·)
  | (.branch target :: _, state) => (Operation.find? target program).map (·, state)
  | (.branchIfZero target :: rest, state) =>
      match machine.pop state with
      | none => none
      | some (0, state) => (Operation.find? target program).map (·, state)
      | some (_ + 1, state) => some (rest, state)

def run : Nat → List Operation × σ → Option (List Operation × σ)
  | 0, place => some place
  | count + 1, place => (machine.step program place).bind (run count)

def Reaches (first last : List Operation × σ) : Prop := ∃ count, machine.run program count first = some last

end

def Completes {σ : Type} (machine : Machine σ) (lines : List Line) (start final : σ) : Prop :=
  machine.Reaches (lines.map Line.operation) (lines.map Line.operation, start) ([], final)

section

variable {σ : Type} {machine : Machine σ} {program : List Operation}

theorem run_add (first second : Nat) (start middle : List Operation × σ)
    (ran : machine.run program first start = some middle) :
    machine.run program (first + second) start = machine.run program second middle := by
  induction first generalizing start with
  | zero =>
      cases ran
      rw [Nat.zero_add]
  | succ first ih =>
      rw [run] at ran
      obtain ⟨next, stepped, rest⟩ := Option.bind_eq_some_iff.mp ran
      rw [Nat.succ_add, run, stepped]
      exact ih next rest

theorem reaches_self (place : List Operation × σ) : machine.Reaches program place place := ⟨0, rfl⟩

theorem reaches_trans (start middle final : List Operation × σ) (first : machine.Reaches program start middle)
    (second : machine.Reaches program middle final) : machine.Reaches program start final := by
  obtain ⟨before, ranBefore⟩ := first
  obtain ⟨later, ranLater⟩ := second
  exact ⟨before + later, (run_add before later start middle ranBefore).trans ranLater⟩

theorem reaches_step (start next final : List Operation × σ) (stepped : machine.step program start = some next)
    (rest : machine.Reaches program next final) : machine.Reaches program start final := by
  obtain ⟨count, ran⟩ := rest
  exact ⟨count + 1, by rw [run, stepped, Option.bind_some, ran]⟩

theorem run_step (count : Nat) (operation : Operation) (rest : List Operation) (state final : σ)
    (ran : machine.run program count (operation :: rest, state) = some ([], final)) :
    ∃ next left, left < count ∧ machine.step program (operation :: rest, state) = some next ∧
      machine.run program left next = some ([], final) := by
  cases count with
  | zero => simp [run] at ran
  | succ left =>
      obtain ⟨next, stepped, later⟩ := Option.bind_eq_some_iff.mp ran
      exact ⟨next, left, Nat.lt_succ_self left, stepped, later⟩

theorem find_label (target : String) (before after : List Operation)
    (absent : target ∉ before.filterMap Operation.label?) :
    Operation.find? target (before ++ .label target :: after) = some (.label target :: after) := by
  induction before with
  | nil => simp [Operation.find?]
  | cons operation before ih =>
      have other : operation ≠ .label target := by
        intro same
        simp [same, Operation.label?] at absent
      have later : target ∉ before.filterMap Operation.label? := by
        intro member
        obtain ⟨element, elementMember, named⟩ := List.mem_filterMap.mp member
        exact absent (List.mem_filterMap.mpr ⟨element, by simp [elementMember], named⟩)
      rw [List.cons_append, Operation.find?, if_neg other]
      exact ih later

-- With one line for each label, a branch arrives where the label stands.
theorem find_suffix (distinct : (program.filterMap Operation.label?).Nodup) (target : String) (after : List Operation)
    (inside : .label target :: after <:+ program) :
    Operation.find? target program = some (.label target :: after) := by
  obtain ⟨before, whole⟩ := inside
  rw [← whole] at distinct ⊢
  apply find_label
  intro member
  rw [List.filterMap_append, List.nodup_append] at distinct
  exact distinct.2.2 target member target (by simp [Operation.label?]) rfl

end

end Machine

end TealForms
