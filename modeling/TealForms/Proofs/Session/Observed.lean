import TealForms.Compile
import TealForms.Proofs.Build.Ledger
import TealForms.Proofs.Node.Rules
import TealForms.Proofs.Session.Scratch

set_option autoImplicit false

namespace TealForms

def Node.bound? : Node → Option (Literal Node)
  | .mk _ (.reference literal) _ => some literal
  | _ => none

def Step.given : Step → List Node
  | .parse _ _ => []
  | .build _ children => children

theorem Nesting.call_children (nesting : Nesting) (token : Located Token) (call : Call)
    (called : nesting.call? token = some call) (child : Node) (member : child ∈ call.children) :
    child ∈ nesting.forest := by
  rw [call?] at called
  split at called
  · cases called
  · cases called
  · cases called
  · obtain ⟨form, first, rfl⟩ := Option.map_eq_some_iff.mp called
    obtain ⟨outer, forms⟩ := List.head?_eq_some_iff.mp first
    rw [nesting.forest_open form outer forms]
    exact List.mem_append_right _ member
  · cases called
    cases member

namespace Dialect

section

variable (dialect : Dialect) (sound : Node → Prop) (kept : Allocations → Prop)

def Keeps : Prop :=
  ∀ before after token children result, dialect.build before token children = (result, after) → kept before →
    (∀ child ∈ children, sound child) → kept after ∧ ∀ node, result = .ok node → sound node

variable {dialect sound kept}

theorem finish_keeps (keeps : dialect.Keeps sound kept) (nesting : Nesting) (before after : Allocations)
    (token : Located Token) (children : List Node) (result : Except (Located Fault) Nesting) (holds : kept before)
    (waiting : ∀ node ∈ nesting.forest, sound node) (below : ∀ child ∈ children, sound child)
    (finished : dialect.finish nesting before token children = (result, after)) :
    kept after ∧ ∀ next, result = .ok next → ∀ node ∈ next.forest, sound node := by
  rw [finish] at finished
  split at finished
  · rename_i node left built
    obtain ⟨stays, made⟩ := keeps before left token children _ built holds below
    cases finished
    refine ⟨stays, ?_⟩
    rintro next same other member
    cases same
    rw [nesting.forest_add node] at member
    rcases List.mem_append.mp member with old | new
    · exact waiting other old
    · rw [List.mem_singleton.mp new]
      exact made node rfl
  · rename_i fault left built
    cases finished
    exact ⟨(keeps before _ token children _ built holds below).1, by simp⟩

theorem step_keeps (keeps : dialect.Keeps sound kept) (nesting : Nesting) (before after : Allocations)
    (token : Located Token) (result : Except (Located Fault) Nesting) (holds : kept before)
    (waiting : ∀ node ∈ nesting.forest, sound node)
    (stepped : dialect.step nesting before token = (result, after)) :
    kept after ∧ ∀ next, result = .ok next → ∀ node ∈ next.forest, sound node := by
  rw [step] at stepped
  split at stepped
  · cases stepped
    exact ⟨holds, by simp⟩
  · cases stepped
    exact ⟨holds, by simp⟩
  · cases stepped
    exact ⟨holds, by simp⟩
  · cases stepped
    refine ⟨holds, ?_⟩
    intro next same
    cases same
    simpa [Nesting.forest] using waiting
  · cases stepped
    refine ⟨holds, ?_⟩
    intro next same
    cases same
    exact waiting
  · split at stepped
    · cases stepped
      exact ⟨holds, by simp⟩
    · rename_i form outer forms
      rw [nesting.forest_open form outer forms] at waiting
      have others : ∀ node ∈ { nesting with forms := outer }.forest, sound node :=
        fun node member => waiting node (List.mem_append_left _ member)
      have below : ∀ child ∈ form.children.reverse, sound child :=
        fun child member => waiting child (List.mem_append_right _ member)
      exact finish_keeps keeps _ before after form.head _ result holds others below stepped
  · exact finish_keeps keeps nesting before after token [] result holds waiting (by simp) stepped

theorem feed_keeps (keeps : dialect.Keeps sound kept) (tokens : List Scanned) (nesting : Nesting)
    (before after : Allocations) (result : Except (Located Fault) Nesting) (holds : kept before)
    (waiting : ∀ node ∈ nesting.forest, sound node) (fed : dialect.feed nesting before tokens = (result, after)) :
    kept after ∧ ∀ next, result = .ok next → ∀ node ∈ next.forest, sound node := by
  induction tokens generalizing nesting before with
  | nil =>
      cases fed
      refine ⟨holds, ?_⟩
      intro next same
      cases same
      exact waiting
  | cons scanned rest ih =>
      cases scanned with
      | error failure =>
          cases fed
          exact ⟨holds, by simp⟩
      | ok token =>
          rw [feed] at fed
          split at fed
          · rename_i middle left stepped
            obtain ⟨stays, later⟩ := step_keeps keeps nesting before left token _ holds waiting stepped
            exact ih middle left stays (later middle rfl) fed
          · rename_i fault left stepped
            cases fed
            refine ⟨(step_keeps keeps nesting before _ token _ holds waiting stepped).1, by simp⟩

theorem parse_keeps (keeps : dialect.Keeps sound kept) (start : Location) (tokens : List Scanned)
    (before after : Allocations) (result : Except (Located Fault) Node) (holds : kept before)
    (parsed : dialect.parse before start tokens = (result, after)) :
    kept after ∧ ∀ tree, result = .ok tree → sound tree := by
  rw [parse] at parsed
  split at parsed
  · rename_i fault left fed
    cases parsed
    have stays := (feed_keeps keeps tokens {} before _ _ holds (by simp [Nesting.forest]) fed).1
    exact ⟨stays, by simp⟩
  · rename_i nesting left fed
    obtain ⟨stays, waiting⟩ := feed_keeps keeps tokens {} before left _ holds (by simp [Nesting.forest]) fed
    split at parsed
    · cases parsed
      exact ⟨stays, by simp⟩
    · have finished : ∀ child ∈ nesting.finished.reverse, sound child := by
        intro child member
        exact waiting nesting rfl child (List.mem_append_left _ member)
      exact keeps left after _ _ result parsed stays finished

theorem calls_built (keeps : dialect.Keeps sound kept) (before : Allocations) (calls : List Call) (call : Call)
    (made : calls = [call]) (holds : kept before) (below : ∀ child ∈ call.children, sound child) :
    ∀ node ∈ dialect.built before calls, sound node := by
  subst made
  intro node member
  rw [built, built, List.append_nil] at member
  cases result : (dialect.callResult before call).1 with
  | error fault => simp [result, Except.toOption] at member
  | ok found =>
      have same : node = found := by simpa [result, Except.toOption] using member
      rw [same]
      exact (keeps before _ call.token call.children _ rfl holds below).2 found result

theorem feed_built (keeps : dialect.Keeps sound kept) (tokens : List Scanned) (nesting : Nesting)
    (before : Allocations) (holds : kept before) (waiting : ∀ node ∈ nesting.forest, sound node) :
    ∀ node ∈ dialect.built before (dialect.feedCalls nesting before tokens), sound node := by
  induction tokens generalizing nesting before with
  | nil => simp [feedCalls, built]
  | cons scanned rest ih =>
      cases scanned with
      | error failure => simp [feedCalls, built]
      | ok token =>
          intro node member
          rw [feedCalls, built_append, ← step_replay] at member
          rcases List.mem_append.mp member with here | later
          · cases called : nesting.call? token with
            | none => simp [called, built] at here
            | some call =>
                have below (child : Node) (inside : child ∈ call.children) : sound child :=
                  waiting child (nesting.call_children token call called child inside)
                exact calls_built keeps before _ call (by simp [called]) holds below node here
          · split at later
            · rename_i middle left stepped
              obtain ⟨stays, after⟩ := step_keeps keeps nesting before left token _ holds waiting stepped
              rw [stepped] at later
              exact ih middle left stays (after middle rfl) node later
            · simp [built] at later

theorem parse_built (keeps : dialect.Keeps sound kept) (start : Location) (tokens : List Scanned)
    (before : Allocations) (holds : kept before) :
    ∀ node ∈ dialect.built before (dialect.parseCalls before start tokens), sound node := by
  intro node member
  rw [parseCalls, built_append, ← feed_replay] at member
  rcases List.mem_append.mp member with here | last
  · exact feed_built keeps tokens {} before holds (by simp [Nesting.forest]) node here
  · obtain ⟨stays, waiting⟩ := feed_keeps keeps tokens {} before _ _ holds (by simp [Nesting.forest]) rfl
    split at last
    · simp [built] at last
    · rename_i nesting done
      split at last
      · simp [built] at last
      · refine calls_built keeps _ _ _ rfl stays ?_ node last
        intro child inside
        exact waiting nesting done child (List.mem_append_left _ inside)

end

theorem step_tree_built (dialect : Dialect) (allocations after : Allocations) (step : Step) (tree : Node)
    (given : dialect.stepResult allocations step = (.ok tree, after)) :
    tree ∈ dialect.built allocations (dialect.stepCalls allocations step) := by
  cases step with
  | build token children =>
      rw [stepResult] at given
      simp [stepCalls, built, callResult, given, Except.toOption]
  | parse start tokens =>
      rw [stepResult, parse] at given
      rw [stepCalls, parseCalls, built_append, ← feed_replay]
      split at given
      · cases given
      · rename_i nesting left fed
        rw [fed]
        split at given
        · cases given
        · rename_i closed
          simp [closed, built, callResult, given, Except.toOption]

theorem build_constants (dialect : Dialect) (before after : Allocations) (token : Located Token)
    (children : List Node) (result : Except (Located Fault) Node)
    (built : dialect.build before token children = (result, after)) :
    after.constants = before.constants ++ result.toOption.toList.filterMap Node.binding? := by
  cases result with
  | ok node =>
      obtain ⟨kind, rfl, settled⟩ := dialect.build_settled before after token children node built
      rw [dialect.settled_constants before after token children kind settled]
      cases bound : Node.binding? (.mk token kind children) <;> simp [bound, Except.toOption]
  | error fault =>
      have kept := (dialect.build_failed_others before after token children fault built).2
      simpa [Except.toOption] using kept

def Whole (dialect : Dialect) (node : Node) : Prop := ∀ other, node.Involves other → dialect.Sound other

-- The slots fit, and constants are bound to nothing else than sound literals.
structure Tidy (dialect : Dialect) (allocations : Allocations) : Prop where
  bounded : allocations.scratch.length ≤ scratchCapacity
  bound : ∀ entry ∈ allocations.constants, dialect.Whole entry.2.node

theorem tidy_literal (dialect : Dialect) (allocations : Allocations) (tidy : dialect.Tidy allocations) (name : String)
    (literal : Literal Node) (known : allocations.constant? name = some literal) : dialect.Whole literal.node :=
  tidy.bound (name, literal) (allocations.constant_some name literal known)

theorem build_bounded (dialect : Dialect) (before after : Allocations) (token : Located Token)
    (children : List Node) (result : Except (Located Fault) Node)
    (built : dialect.build before token children = (result, after))
    (bounded : before.scratch.length ≤ scratchCapacity) : after.scratch.length ≤ scratchCapacity := by
  have table := dialect.call_table before ⟨token, children⟩
  rw [callResult, built] at table
  rw [table]
  split
  · exact Allocations.with_slot_bounded _ _ _ bounded
  · exact bounded

theorem build_whole (dialect : Dialect) (before after : Allocations) (token : Located Token) (children : List Node)
    (node : Node) (built : dialect.build before token children = (.ok node, after)) (tidy : dialect.Tidy before)
    (below : ∀ child ∈ children, dialect.Whole child) : dialect.Whole node := by
  have bounded := dialect.build_bounded before after token children _ built tidy.bounded
  obtain ⟨kind, rfl, settled⟩ := dialect.build_settled before after token children node built
  intro other reached
  rcases Node.involves_cases token kind children other reached with
    here | ⟨child, member, inside⟩ | ⟨literal, refers, inside⟩
  · subst here
    refine dialect.settled_sound before after token children kind settled bounded ?_ ?_
    · intro name literal known
      have sound := dialect.tidy_literal before tidy name literal known literal.node .self
      exact (dialect.literal_sound literal.node literal sound rfl).2
    · intro child member
      exact below child member child .self
  · exact below child member other inside
  · subst refers
    cases settled with
    | reference _ _ _ known => exact dialect.tidy_literal before tidy _ literal known other inside

theorem keeps_whole (dialect : Dialect) : dialect.Keeps dialect.Whole dialect.Tidy := by
  intro before after token children result built tidy below
  have bounded := dialect.build_bounded before after token children result built tidy.bounded
  have constants := dialect.build_constants before after token children result built
  cases result with
  | error fault =>
      refine ⟨⟨bounded, ?_⟩, by simp⟩
      intro entry member
      exact tidy.bound entry (by simpa [constants, Except.toOption] using member)
  | ok node =>
      refine ⟨⟨bounded, ?_⟩, ?_⟩
      · intro entry member
        rw [constants] at member
        rcases List.mem_append.mp member with old | new
        · exact tidy.bound entry old
        · have binds : node.binding? = some entry := by simpa [Except.toOption] using new
          obtain ⟨kind, rfl, _⟩ := dialect.build_settled before after token children node built
          have single : Node.significant children = [entry.2.node] := (Node.binding_some _ entry.1 entry.2 binds).2.2
          have value : entry.2.node ∈ Node.significant children := by simp [single]
          exact below entry.2.node (List.mem_filter.mp value).1
      · intro found same
        cases same
        exact dialect.build_whole before after token children node built tidy below

-- The trees of programs that failed later belong to it too. A node is built from nodes of earlier trees.
inductive Reachable (dialect : Dialect) : Allocations → List Node → Prop where
  | fresh : Reachable dialect {} []
  | next (allocations : Allocations) (trees : List Node) (step : Step) (reached : Reachable dialect allocations trees)
      (known : ∀ child ∈ step.given, ∃ tree ∈ trees, tree.Involves child) :
      Reachable dialect (dialect.stepResult allocations step).2
        (trees ++ dialect.built allocations (dialect.stepCalls allocations step))

theorem step_whole (dialect : Dialect) (allocations : Allocations) (step : Step) (tidy : dialect.Tidy allocations)
    (given : ∀ child ∈ step.given, dialect.Whole child) :
    dialect.Tidy (dialect.stepResult allocations step).2 ∧
      ∀ tree ∈ dialect.built allocations (dialect.stepCalls allocations step), dialect.Whole tree := by
  have keeps := dialect.keeps_whole
  cases step with
  | parse start tokens =>
      exact ⟨(parse_keeps keeps start tokens allocations _ _ tidy rfl).1, parse_built keeps start tokens allocations tidy⟩
  | build token children =>
      exact ⟨(keeps allocations _ token children _ rfl tidy given).1, calls_built keeps allocations _ _ rfl tidy given⟩

theorem reachable_whole (dialect : Dialect) (allocations : Allocations) (trees : List Node)
    (reached : dialect.Reachable allocations trees) :
    dialect.Tidy allocations ∧ ∀ tree ∈ trees, dialect.Whole tree := by
  induction reached with
  | fresh => exact ⟨⟨Nat.zero_le _, by simp⟩, by simp⟩
  | next allocations trees step _ known ih =>
      obtain ⟨tidy, whole⟩ := ih
      have given : ∀ child ∈ step.given, dialect.Whole child := by
        intro child member other inside
        obtain ⟨tree, listed, involved⟩ := known child member
        exact whole tree listed other (tree.involves_trans child other involved inside)
      obtain ⟨stays, made⟩ := dialect.step_whole allocations step tidy given
      refine ⟨stays, ?_⟩
      intro tree member
      rcases List.mem_append.mp member with old | new
      · exact whole tree old
      · exact made tree new

/-- No tree of a session involves a node that breaks a rule of its kind. -/
theorem observed_sound (dialect : Dialect) (allocations : Allocations) (trees : List Node)
    (reached : dialect.Reachable allocations trees) (tree : Node) (given : tree ∈ trees) (node : Node)
    (inside : tree.Involves node) : dialect.Sound node :=
  (dialect.reachable_whole allocations trees reached).2 tree given node inside

theorem failed_program_literal_sound :
    let source : Source := .ofString "(@limit 10) )" "program"
    let program : Step := .parse source.start source.scan
    let reference : Step := .build ⟨⟨.constant, "@limit"⟩, source.start⟩ []
    (standard.stepResult {} program).1.toOption.isNone = true ∧
    ∃ value allocations trees tree, standard.Reachable allocations trees ∧ tree ∈ trees ∧
      standard.stepResult (standard.stepResult {} program).2 reference = (.ok value, allocations) ∧
      tree.children = [value] ∧
      ∃ literal, tree.Involves literal ∧ literal.token.value.text = "10" ∧ standard.Sound literal := by
  intro source program reference
  have failed : (standard.stepResult {} program).1.toOption.isNone = true := by decide +kernel
  have shown : (standard.stepResult (standard.stepResult {} program).2 reference).1.toOption.any (fun node =>
      node.bound?.any fun literal => literal.token.value.text = "10") = true := by decide +kernel
  obtain ⟨result, allocations, refers⟩ : ∃ result allocations,
      standard.stepResult (standard.stepResult {} program).2 reference = (result, allocations) := ⟨_, _, rfl⟩
  rw [refers] at shown
  cases result with
  | error fault => cases shown
  | ok value =>
      obtain ⟨token, kind, children⟩ := value
      cases kind with
      | reference literal =>
          let value : Node := .mk token (.reference literal) children
          let wrapping : Step := .build ⟨⟨.keyword .group, "#fn"⟩, source.start⟩ [value]
          let tree : Node := .mk ⟨⟨.keyword .group, "#fn"⟩, source.start⟩ .group [value]
          have wraps : standard.stepResult allocations wrapping = (.ok tree, allocations) := by
            simp [wrapping, tree, stepResult, build, resolve, Allocations.resolveMacro, Keyword.leastChildren]
          have first : standard.Reachable _ _ := .next {} [] program .fresh (by simp [program, Step.given])
          have second := first.next _ _ reference (by simp [reference, Step.given])
          rw [refers] at second
          have made := standard.step_tree_built _ allocations reference value refers
          have third := second.next _ _ wrapping (by
            intro child member
            rw [List.mem_singleton.mp member]
            exact ⟨value, List.mem_append_right _ made, .self⟩)
          rw [wraps] at third
          have last := standard.step_tree_built allocations allocations wrapping tree wraps
          have inside : tree.Involves literal.node :=
            .literal value literal (.child tree value .self (by simp [tree, Node.children])) rfl
          exact ⟨failed, value, allocations, _, tree, third, List.mem_append_right _ last, refers, rfl, literal.node,
            inside, of_decide_eq_true shown,
            standard.observed_sound _ _ third tree (List.mem_append_right _ last) literal.node inside⟩
      | _ => cases shown

end Dialect

end TealForms
