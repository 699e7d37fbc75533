import TealForms.Proofs.Command.Emission
import TealForms.Proofs.Execution.Structured
import TealForms.Proofs.Node.Traversal

set_option autoImplicit false

namespace TealForms

def Command.operation : Command → Operation
  | .pragma _ => .pass
  | .label name => .label name
  | .plain instruction comment => .perform (.instruction instruction.statement comment)
  | .branchIfZero target => .branchIfZero target
  | .branch target => .branch target
  | .beginTransaction => .perform (.instruction "itxn_begin" none)
  | .submitTransaction => .perform (.instruction "itxn_submit" none)

def operations (commands : List Command) : List Operation := commands.map Command.operation

theorem operations_append (first second : List Command) :
    operations (first ++ second) = operations first ++ operations second := List.map_append

theorem operations_cons (command : Command) (rest : List Command) :
    operations (command :: rest) = command.operation :: operations rest := rfl

theorem operations_guarded (target : String) (children body : List Node) (condition : Node) (after : List Operation)
    (parts : Node.significant children = condition :: body) :
    operations (Node.guarded target children) ++ after =
      operations condition.commands ++ .branchIfZero target :: (operations (Node.commandsAll body) ++ after) := by
  rw [Node.guarded_parts target children body condition parts, operations_append, operations_cons, List.append_assoc]
  rfl

theorem inside_rest (before after program : List Operation) (inside : before ++ after <:+ program) :
    after <:+ program :=
  (List.suffix_append before after).trans inside

theorem inside_next (operation : Operation) (after program : List Operation)
    (inside : operation :: after <:+ program) : after <:+ program :=
  (List.suffix_cons operation after).trans inside

namespace Machine

section

variable {σ : Type} {machine : Machine σ} {program : List Operation}

theorem perform_reaches (line : Line) (rest : List Operation) (start next : σ)
    (performed : machine.perform line start = some next) :
    machine.Reaches program (.perform line :: rest, start) (rest, next) :=
  reaches_step _ (rest, next) _ (by simp [step, performed]) (reaches_self _)

theorem label_reaches (name : String) (rest : List Operation) (state : σ) :
    machine.Reaches program (.label name :: rest, state) (rest, state) :=
  reaches_step _ (rest, state) _ rfl (reaches_self _)

theorem enter_reaches (target : String) (rest : List Operation) (start next : σ) (value : Nat)
    (top : machine.pop start = some (value, next)) (holds : value ≠ 0) :
    machine.Reaches program (.branchIfZero target :: rest, start) (rest, next) := by
  cases value with
  | zero => exact absurd rfl holds
  | succ value => exact reaches_step _ (rest, next) _ (by simp [step, top]) (reaches_self _)

theorem branch_reaches (distinct : (program.filterMap Operation.label?).Nodup) (target : String)
    (rest after : List Operation) (state : σ) (inside : .label target :: after <:+ program) :
    machine.Reaches program (.branch target :: rest, state) (.label target :: after, state) :=
  reaches_step _ (.label target :: after, state) _ (by simp [step, find_suffix distinct target after inside])
    (reaches_self _)

theorem skip_reaches (distinct : (program.filterMap Operation.label?).Nodup) (target : String)
    (rest after : List Operation) (start next : σ) (top : machine.pop start = some (0, next))
    (inside : .label target :: after <:+ program) :
    machine.Reaches program (.branchIfZero target :: rest, start) (.label target :: after, next) :=
  reaches_step _ (.label target :: after, next) _ (by simp [step, top, find_suffix distinct target after inside])
    (reaches_self _)

end

end Machine

namespace Task

-- The operations of a task, before whatever follows them; those of several cases stand before their exit.
def place (exit : String) : Task → List Operation → List Operation
  | .one node, after => operations node.commands ++ after
  | .all nodes, after => operations (Node.commandsAll nodes) ++ after
  | .first nodes, after => operations (Node.cases exit nodes) ++ .label exit :: after

def landing (exit : String) : Task → List Operation → List Operation
  | .one _, after | .all _, after => after
  | .first _, after => .label exit :: after

end Task

section

variable {σ : Type} {machine : Machine σ} {program : List Operation}
variable (distinct : (program.filterMap Operation.label?).Nodup)

include distinct

theorem evaluates_reaches (task : Task) (start final : σ) (evaluates : Evaluates machine task start final)
    (exit : String) (after : List Operation) (inside : task.place exit after <:+ program) :
    machine.Reaches program (task.place exit after, start) (task.landing exit after, final) := by
  induction evaluates generalizing exit after with
  | nil state => exact Machine.reaches_self _
  | cons node rest start middle final head tail ihHead ihTail =>
      simp only [Task.place, Node.commandsAll, operations_append, List.append_assoc] at inside ⊢
      apply Machine.reaches_trans _ _ _ (ihHead exit _ inside)
      exact ihTail exit after (inside_rest _ _ _ inside)
  | root token version children start final all ih =>
      apply Machine.reaches_step _ _ _ rfl
      exact ih exit after (inside_next _ _ _ inside)
  | opcode token instruction children start middle final all own ih =>
      simp only [Task.place, Node.commands, operations_append, List.append_assoc] at inside ⊢
      apply Machine.reaches_trans _ _ _ (ih exit _ inside)
      exact Machine.perform_reaches _ after middle final own
  | literal token instruction children start middle final all own ih =>
      simp only [Task.place, Node.commands, operations_append, List.append_assoc] at inside ⊢
      apply Machine.reaches_trans _ _ _ (ih exit _ inside)
      exact Machine.perform_reaches _ after middle final own
  | scratch token instruction children start middle final all own ih =>
      simp only [Task.place, Node.commands, operations_append, List.append_assoc] at inside ⊢
      apply Machine.reaches_trans _ _ _ (ih exit _ inside)
      exact Machine.perform_reaches _ after middle final own
  | definition token children state => exact Machine.reaches_self _
  | reference token bound children start middle final all own ih =>
      simp only [Task.place, Node.commands, operations_append, List.append_assoc] at inside ⊢
      apply Machine.reaches_trans _ _ _ (ih exit _ inside)
      exact Machine.perform_reaches _ after middle final own
  | label token children start final all ih =>
      apply Machine.reaches_trans _ _ _ (Machine.label_reaches _ _ _)
      exact ih exit after (inside_next _ _ _ inside)
  | comment token children state => exact Machine.reaches_self _
  | caseTaken token label children body condition start tested entered final value parts test top holds all ihTest
      ihAll =>
      simp only [Task.place, Node.commands, operations_append, List.append_assoc] at inside ⊢
      rw [operations_guarded label children body condition _ parts] at inside ⊢
      have entering := inside_next _ _ _ (inside_rest _ _ _ inside)
      apply Machine.reaches_trans _ _ _ (ihTest exit _ inside)
      apply Machine.reaches_trans _ _ _ (Machine.enter_reaches label _ tested entered value top holds)
      apply Machine.reaches_trans _ _ _ (ihAll exit _ entering)
      exact Machine.label_reaches label after final
  | casePassed token label children body condition start tested final parts test top ihTest =>
      simp only [Task.place, Node.commands, operations_append, List.append_assoc] at inside ⊢
      rw [operations_guarded label children body condition _ parts] at inside ⊢
      have leaving := inside_rest _ _ _ (inside_next _ _ _ (inside_rest _ _ _ inside))
      apply Machine.reaches_trans _ _ _ (ihTest exit _ inside)
      apply Machine.reaches_trans _ _ _ (Machine.skip_reaches distinct label _ after tested final top leaving)
      exact Machine.label_reaches label after final
  | choice token label children start final first ih =>
      simp only [Task.place, Node.commands, operations_append, List.append_assoc] at inside ⊢
      rw [← Node.cases_significant] at inside ⊢
      apply Machine.reaches_trans _ _ _ (ih label after inside)
      exact Machine.label_reaches label after final
  | loopAgain token label children body condition start tested entered left final value parts test top holds all again
      ihTest ihAll ihAgain =>
      have repeats := ihAgain exit after inside
      simp only [Task.place, Node.commands, operations_append, operations_cons, List.cons_append,
        List.append_assoc] at inside repeats ⊢
      rw [operations_guarded (loopEnd label) children body condition _ parts] at inside repeats ⊢
      have testing := inside_next _ _ _ inside
      have entering := inside_next _ _ _ (inside_rest _ _ _ testing)
      apply Machine.reaches_trans _ _ _ (Machine.label_reaches label _ start)
      apply Machine.reaches_trans _ _ _ (ihTest exit _ testing)
      apply Machine.reaches_trans _ _ _ (Machine.enter_reaches _ _ tested entered value top holds)
      apply Machine.reaches_trans _ _ _ (ihAll exit _ entering)
      apply Machine.reaches_trans _ _ _ (Machine.branch_reaches distinct label _ _ left inside)
      exact repeats
  | loopDone token label children body condition start tested final parts test top ihTest =>
      simp only [Task.place, Node.commands, operations_append, operations_cons, List.cons_append,
        List.append_assoc] at inside ⊢
      rw [operations_guarded (loopEnd label) children body condition _ parts] at inside ⊢
      have testing := inside_next _ _ _ inside
      have leaving := inside_next _ _ _ (inside_rest _ _ _ (inside_next _ _ _ (inside_rest _ _ _ testing)))
      apply Machine.reaches_trans _ _ _ (Machine.label_reaches label _ start)
      apply Machine.reaches_trans _ _ _ (ihTest exit _ testing)
      apply Machine.reaches_trans _ _ _ (Machine.skip_reaches distinct _ _ after tested final top leaving)
      exact Machine.label_reaches _ after final
  | group token children start final all ih => exact ih exit after inside
  | transaction token children start opened filled final begins all submits ih =>
      simp only [Task.place, Node.commands, operations_append, operations_cons, List.cons_append,
        List.append_assoc] at inside ⊢
      apply Machine.reaches_trans _ _ _ (Machine.perform_reaches _ _ start opened begins)
      apply Machine.reaches_trans _ _ _ (ih exit _ (inside_next _ _ _ inside))
      exact Machine.perform_reaches _ after filled final submits
  | firstNone state => exact Machine.reaches_self _
  | firstTaken token label children body rest condition start tested entered final value parts test top holds all
      ihTest ihAll =>
      simp only [Task.place, Node.cases, operations_append, List.append_assoc] at inside ⊢
      rw [operations_guarded label children body condition _ parts] at inside ⊢
      have entering := inside_next _ _ _ (inside_rest _ _ _ inside)
      have later := inside_next _ _ _ (inside_next _ _ _ (inside_rest _ _ _ entering))
      apply Machine.reaches_trans _ _ _ (ihTest exit _ inside)
      apply Machine.reaches_trans _ _ _ (Machine.enter_reaches label _ tested entered value top holds)
      apply Machine.reaches_trans _ _ _ (ihAll exit _ entering)
      exact Machine.branch_reaches distinct exit _ after final (inside_rest _ _ _ later)
  | firstPassed token label children body rest condition start tested left final parts test top later ihTest ihLater =>
      simp only [Task.place, Node.cases, operations_append, List.append_assoc] at inside ⊢
      rw [operations_guarded label children body condition _ parts] at inside ⊢
      have entering := inside_next _ _ _ (inside_rest _ _ _ inside)
      have leaving := inside_next _ _ _ (inside_rest _ _ _ entering)
      apply Machine.reaches_trans _ _ _ (ihTest exit _ inside)
      apply Machine.reaches_trans _ _ _ (Machine.skip_reaches distinct label _ _ tested left top leaving)
      apply Machine.reaches_trans _ _ _ (Machine.label_reaches label _ left)
      exact ihLater exit after (inside_next _ _ _ leaving)

theorem branch_retraces (count : Nat) (target : String) (rest after : List Operation) (state final : σ)
    (inside : .label target :: after <:+ program)
    (ran : machine.run program count (.branch target :: rest, state) = some ([], final)) :
    ∃ left, left < count ∧ machine.run program left (.label target :: after, state) = some ([], final) := by
  obtain ⟨next, left, fewer, stepped, later⟩ := Machine.run_step count _ rest state final ran
  simp only [Machine.step, Machine.find_suffix distinct target after inside, Option.map_some] at stepped
  cases stepped
  exact ⟨left, fewer, later⟩

theorem test_retraces (count : Nat) (target : String) (rest after : List Operation) (state final : σ)
    (inside : .label target :: after <:+ program)
    (ran : machine.run program count (.branchIfZero target :: rest, state) = some ([], final)) :
    ∃ value next left, left < count ∧ machine.pop state = some (value, next) ∧
      (value = 0 ∧ machine.run program left (.label target :: after, next) = some ([], final) ∨
        value ≠ 0 ∧ machine.run program left (rest, next) = some ([], final)) := by
  obtain ⟨next, left, fewer, stepped, later⟩ := Machine.run_step count _ rest state final ran
  cases top : machine.pop state with
  | none => simp [Machine.step, top] at stepped
  | some popped =>
      obtain ⟨value, entered⟩ := popped
      cases value with
      | zero =>
          simp only [Machine.step, top, Machine.find_suffix distinct target after inside, Option.map_some] at stepped
          cases stepped
          exact ⟨0, entered, left, fewer, rfl, .inl ⟨rfl, later⟩⟩
      | succ value =>
          simp only [Machine.step, top] at stepped
          cases stepped
          exact ⟨value + 1, entered, left, fewer, rfl, .inr ⟨Nat.succ_ne_zero value, later⟩⟩

end

section

variable {σ : Type} {machine : Machine σ} {program : List Operation}

theorem label_retraces (count : Nat) (name : String) (rest : List Operation) (state final : σ)
    (ran : machine.run program count (.label name :: rest, state) = some ([], final)) :
    ∃ left, left < count ∧ machine.run program left (rest, state) = some ([], final) := by
  obtain ⟨next, left, fewer, stepped, later⟩ := Machine.run_step count _ rest state final ran
  cases stepped
  exact ⟨left, fewer, later⟩

theorem perform_retraces (count : Nat) (line : Line) (rest : List Operation) (state final : σ)
    (ran : machine.run program count (.perform line :: rest, state) = some ([], final)) :
    ∃ next left, left < count ∧ machine.perform line state = some next ∧
      machine.run program left (rest, next) = some ([], final) := by
  obtain ⟨place, left, fewer, stepped, later⟩ := Machine.run_step count _ rest state final ran
  obtain ⟨next, performed, same⟩ := Option.map_eq_some_iff.mp stepped
  cases same
  exact ⟨next, left, fewer, performed, later⟩

-- A run that starts on a task and ends past the last line gets through the task.
def Retraces (machine : Machine σ) (program : List Operation) (task : Task) : Prop :=
  ∀ exit count after start final, task.place exit after <:+ program →
    machine.run program count (task.place exit after, start) = some ([], final) →
    ∃ middle left, left ≤ count ∧ Evaluates machine task start middle ∧
      machine.run program left (task.landing exit after, middle) = some ([], final)

theorem all_retraces (nodes : List Node) (each : ∀ node ∈ nodes, Retraces machine program (.one node)) :
    Retraces machine program (.all nodes) := by
  induction nodes with
  | nil =>
      intro exit count after start final _ ran
      exact ⟨start, count, Nat.le_refl count, .nil start, ran⟩
  | cons node rest ih =>
      intro exit count after start final inside ran
      simp only [Task.place, Node.commandsAll, operations_append, List.append_assoc] at inside ran
      obtain ⟨middle, left, fewer, first, later⟩ := each node (by simp) exit count _ start final inside ran
      obtain ⟨finished, remaining, least, others, ending⟩ :=
        ih (fun other member => each other (by simp [member])) exit left after middle final
          (inside_rest _ _ _ inside) later
      exact ⟨finished, remaining, Nat.le_trans least fewer, .cons node rest start middle finished first others, ending⟩

theorem own_retraces (children : List Node) (all : Retraces machine program (.all children)) (instruction : Instruction)
    (comment : Option String) (count : Nat) (after : List Operation) (start final : σ)
    (inside : operations (Node.commandsAll children ++ [.plain instruction comment]) ++ after <:+ program)
    (ran : machine.run program count (operations (Node.commandsAll children ++ [.plain instruction comment]) ++ after,
      start) = some ([], final)) :
    ∃ middle next left, left ≤ count ∧ Evaluates machine (.all children) start middle ∧
      machine.perform (.instruction instruction.statement comment) middle = some next ∧
      machine.run program left (after, next) = some ([], final) := by
  rw [operations_append, List.append_assoc] at inside ran
  obtain ⟨middle, left, fewer, run, later⟩ := all "" count _ start final inside ran
  obtain ⟨next, last, least, own, ending⟩ := perform_retraces left _ after middle final later
  exact ⟨middle, next, last, by omega, run, own, ending⟩

variable (distinct : (program.filterMap Operation.label?).Nodup)

include distinct

-- The two ways through a guarded body: past it, or into it and to its end.
theorem guard_retraces (target : String) (children body : List Node) (condition : Node)
    (parts : Node.significant children = condition :: body)
    (each : ∀ child ∈ children, Retraces machine program (.one child)) (count : Nat) (tail after : List Operation)
    (start final : σ) (inside : operations (Node.guarded target children) ++ tail <:+ program)
    (landing : .label target :: after <:+ program)
    (ran : machine.run program count (operations (Node.guarded target children) ++ tail, start) = some ([], final)) :
    ∃ tested value entered, Evaluates machine (.one condition) start tested ∧
      machine.pop tested = some (value, entered) ∧
      (value = 0 ∧ (∃ left, left < count ∧
          machine.run program left (.label target :: after, entered) = some ([], final)) ∨
        value ≠ 0 ∧ ∃ finished left, left < count ∧ Evaluates machine (.all body) entered finished ∧
          machine.run program left (tail, finished) = some ([], final)) := by
  have members : ∀ node ∈ condition :: body, Retraces machine program (.one node) := by
    intro node member
    rw [← parts] at member
    exact each node (List.mem_filter.mp member).1
  rw [operations_guarded target children body condition tail parts] at inside ran
  obtain ⟨tested, left, fewer, test, later⟩ := members condition (by simp) target count _ start final inside ran
  obtain ⟨value, entered, remaining, least, top, branches⟩ :=
    test_retraces distinct left target _ after tested final landing later
  refine ⟨tested, value, entered, test, top, ?_⟩
  rcases branches with ⟨zero, past⟩ | ⟨holds, into⟩
  · exact .inl ⟨zero, remaining, Nat.lt_of_lt_of_le least fewer, past⟩
  · obtain ⟨finished, last, most, all, ending⟩ :=
      all_retraces body (fun node member => members node (by simp [member])) target remaining tail entered final
        (inside_next _ _ _ (inside_rest _ _ _ inside)) into
    exact .inr ⟨holds, finished, last, Nat.lt_of_le_of_lt most (Nat.lt_of_lt_of_le least fewer), all, ending⟩

theorem case_retraces (token : Located Token) (label : String) (children : List Node)
    (filled : Node.significant children ≠ []) (each : ∀ child ∈ children, Retraces machine program (.one child)) :
    Retraces machine program (.one (.mk token (.case label) children)) := by
  intro exit count after start final inside ran
  obtain ⟨condition, body, parts⟩ := List.exists_cons_of_ne_nil filled
  simp only [Task.place, Node.commands, operations_append, List.append_assoc] at inside ran
  obtain ⟨tested, value, entered, test, top, ways⟩ := guard_retraces distinct label children body condition parts each
    count _ after start final inside (inside_rest _ _ _ inside) ran
  rcases ways with ⟨zero, left, fewer, past⟩ | ⟨holds, finished, left, fewer, all, into⟩
  · obtain ⟨last, least, ending⟩ := label_retraces left label after entered final past
    subst zero
    exact ⟨entered, last, by omega, .casePassed token label children body condition start tested entered parts test top,
      ending⟩
  · obtain ⟨last, least, ending⟩ := label_retraces left label after finished final into
    exact ⟨finished, last, by omega, .caseTaken token label children body condition start tested entered finished value
      parts test top holds all, ending⟩

-- Each round of a loop takes a step at least, so that the number of steps left bounds the rounds.
theorem loop_retraces (token : Located Token) (label : String) (children : List Node)
    (filled : Node.significant children ≠ []) (each : ∀ child ∈ children, Retraces machine program (.one child)) :
    Retraces machine program (.one (.mk token (.loop label) children)) := by
  intro exit count after
  obtain ⟨condition, body, parts⟩ := List.exists_cons_of_ne_nil filled
  simp only [Task.place, Node.commands, operations_append, operations_cons, List.cons_append, List.append_assoc]
  induction count using Nat.strongRecOn with
  | ind count ih =>
      intro start final inside ran
      have testing := inside_next _ _ _ inside
      have leaving := inside_next _ _ _ (inside_rest _ _ _ testing)
      obtain ⟨round, shorter, entering⟩ := label_retraces count label _ start final ran
      obtain ⟨tested, value, entered, test, top, ways⟩ := guard_retraces distinct (loopEnd label) children body
        condition parts each round _ after start final testing leaving entering
      rcases ways with ⟨zero, left, fewer, past⟩ | ⟨holds, finished, left, fewer, all, into⟩
      · obtain ⟨last, least, ending⟩ := label_retraces left (loopEnd label) after entered final past
        subst zero
        exact ⟨entered, last, by omega,
          .loopDone token label children body condition start tested entered parts test top, ending⟩
      · obtain ⟨again, least, back⟩ := branch_retraces distinct left label _ _ finished final inside into
        obtain ⟨middle, last, most, repeats, ending⟩ := ih again (by omega) finished final inside back
        exact ⟨middle, last, by omega, .loopAgain token label children body condition start tested entered finished
          middle value parts test top holds all repeats, ending⟩

theorem first_retraces (nodes : List Node) (uniform : ∀ node ∈ nodes, node.isCase = true)
    (filled : ∀ node ∈ nodes, Node.significant node.children ≠ [])
    (each : ∀ node ∈ nodes, ∀ child ∈ node.children, Retraces machine program (.one child)) :
    Retraces machine program (.first nodes) := by
  induction nodes with
  | nil =>
      intro exit count after start final _ ran
      exact ⟨start, count, Nat.le_refl count, .firstNone start, ran⟩
  | cons node rest ih =>
      intro exit count after start final inside ran
      have case := uniform node (by simp)
      obtain ⟨condition, body, parts⟩ := List.exists_cons_of_ne_nil (filled node (by simp))
      obtain ⟨token, kind, children⟩ := node
      cases kind with
      | case label =>
          simp only [Task.place, Node.cases, operations_append, List.append_assoc] at inside ran
          have leaving := inside_next _ _ _ (inside_rest _ _ _ inside)
          have following := inside_next _ _ _ leaving
          obtain ⟨tested, value, entered, test, top, ways⟩ := guard_retraces distinct label children body condition
            parts (each (.mk token (.case label) children) (by simp)) count _ _ start final inside leaving ran
          rcases ways with ⟨zero, left, fewer, past⟩ | ⟨holds, finished, left, fewer, all, into⟩
          · obtain ⟨next, least, passing⟩ := label_retraces left label _ entered final past
            obtain ⟨middle, last, most, later, ending⟩ :=
              ih (fun other member => uniform other (by simp [member]))
                (fun other member => filled other (by simp [member]))
                (fun other member => each other (by simp [member])) exit next after entered final following passing
            subst zero
            exact ⟨middle, last, by omega, .firstPassed token label children body rest condition start tested entered
              middle parts test top later, ending⟩
          · obtain ⟨last, least, ending⟩ :=
              branch_retraces distinct left exit _ after finished final (inside_rest _ _ _ following) into
            exact ⟨finished, last, by omega, .firstTaken token label children body rest condition start tested entered
              finished value parts test top holds all, ending⟩
      | _ => simp [Node.isCase] at case

-- Nodes of a choice are entered through its cases, so that their children are needed beside them.
theorem node_retraces (node : Node) (regular : ∀ other, node.Involves other → other.Regular) :
    Retraces machine program (.one node) ∧ ∀ child ∈ node.children, Retraces machine program (.one child) := by
  induction node using Node.induction with
  | step token kind children ih ihLiteral =>
      have sound : Node.Regular (.mk token kind children) := regular _ .self
      have below : ∀ child ∈ children, ∀ other, child.Involves other → other.Regular := by
        intro child member other reached
        exact regular other (Node.involves_child (.mk token kind children) child other member reached)
      have each : ∀ child ∈ children, Retraces machine program (.one child) := by
        intro child member
        exact (ih child member (below child member)).1
      refine ⟨?_, each⟩
      have all := all_retraces children each
      cases kind with
      | root version =>
          intro exit count after start final inside ran
          obtain ⟨next, left, fewer, stepped, later⟩ := Machine.run_step count _ _ start final ran
          cases stepped
          obtain ⟨middle, last, least, run, ending⟩ := all exit left after start final (inside_next _ _ _ inside) later
          exact ⟨middle, last, by omega, .root token version children start middle run, ending⟩
      | opcode instruction =>
          intro exit count after start final inside ran
          obtain ⟨middle, next, left, fewer, run, own, later⟩ :=
            own_retraces children all instruction _ count after start final inside ran
          exact ⟨next, left, fewer, .opcode token instruction children start middle next run own, later⟩
      | literal instruction =>
          intro exit count after start final inside ran
          obtain ⟨middle, next, left, fewer, run, own, later⟩ :=
            own_retraces children all instruction _ count after start final inside ran
          exact ⟨next, left, fewer, .literal token instruction children start middle next run own, later⟩
      | scratch instruction =>
          intro exit count after start final inside ran
          obtain ⟨middle, next, left, fewer, run, own, later⟩ :=
            own_retraces children all instruction _ count after start final inside ran
          exact ⟨next, left, fewer, .scratch token instruction children start middle next run own, later⟩
      | definition =>
          intro exit count after start final _ ran
          exact ⟨start, count, Nat.le_refl count, .definition token children start, ran⟩
      | reference bound =>
          intro exit count after start final inside ran
          have held : ∀ child ∈ bound.children, Retraces machine program (.one child) := by
            intro child member
            refine (ihLiteral bound rfl child member ?_).1
            intro other reached
            exact regular other (Node.involves_literal _ child other bound rfl member reached)
          obtain ⟨middle, next, left, fewer, run, own, later⟩ := own_retraces bound.children
            (all_retraces bound.children held) bound.instruction _ count after start final inside ran
          exact ⟨next, left, fewer, .reference token bound children start middle next run own, later⟩
      | label =>
          intro exit count after start final inside ran
          obtain ⟨left, fewer, later⟩ := label_retraces count token.value.labelName _ start final ran
          obtain ⟨middle, last, least, run, ending⟩ := all exit left after start final (inside_next _ _ _ inside) later
          exact ⟨middle, last, by omega, .label token children start middle run, ending⟩
      | comment =>
          intro exit count after start final _ ran
          exact ⟨start, count, Nat.le_refl count, .comment token children start, ran⟩
      | case label => exact case_retraces distinct token label children sound each
      | choice label =>
          intro exit count after start final inside ran
          have first : Retraces machine program (.first (Node.significant children)) := by
            apply first_retraces distinct _ sound
            · intro node member
              have filled := below node (Node.mem_significant node children member) node .self
              have case := sound node member
              obtain ⟨origin, kind, parts⟩ := node
              cases kind with
              | case name => exact filled
              | _ => simp [Node.isCase] at case
            · intro node member
              have inside := Node.mem_significant node children member
              exact (ih node inside (below node inside)).2
          simp only [Task.place, Node.commands, operations_append, List.append_assoc] at inside ran
          rw [← Node.cases_significant] at inside ran
          obtain ⟨middle, left, fewer, run, later⟩ := first label count after start final inside ran
          obtain ⟨last, least, ending⟩ := label_retraces left label after middle final later
          exact ⟨middle, last, by omega, .choice token label children start middle run, ending⟩
      | loop label => exact loop_retraces distinct token label children sound each
      | group =>
          intro exit count after start final inside ran
          obtain ⟨middle, left, fewer, run, later⟩ := all exit count after start final inside ran
          exact ⟨middle, left, fewer, .group token children start middle run, later⟩
      | transaction =>
          intro exit count after start final inside ran
          simp only [Task.place, Node.commands, operations_append, operations_cons, List.cons_append,
            List.append_assoc] at inside ran
          obtain ⟨opened, left, fewer, begins, later⟩ := perform_retraces count _ _ start final ran
          obtain ⟨filled, last, least, run, ending⟩ :=
            all exit left _ opened final (inside_next _ _ _ inside) later
          obtain ⟨next, remaining, most, submits, rest⟩ := perform_retraces last _ after filled final ending
          exact ⟨next, remaining, by omega,
            .transaction token children start opened filled next begins run submits, rest⟩

end

end TealForms
