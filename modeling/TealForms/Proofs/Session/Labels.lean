import TealForms.Proofs.Build.Failed
import TealForms.Proofs.Command.Labels
import TealForms.Proofs.Session.Calls

set_option autoImplicit false

namespace TealForms

namespace Node

def emitted : Node → List Node
  | .mk _ .definition _ | .mk _ .comment _ => []
  | .mk _ (.reference literal) _ => literal.children
  | .mk _ _ children => children

theorem all_label_lines (nodes : List Node) :
    (commandsAll nodes).filterMap Command.label? = nodes.flatMap fun node => node.lines.filterMap Line.label? := by
  induction nodes with
  | nil => rfl
  | cons node rest ih => rw [commandsAll, List.filterMap_append, ih, List.flatMap_cons, lines_label]

theorem own_label_lines (node : Node) (regular : node.Regular) :
    (node.lines.filterMap Line.label?).Perm
      (node.ownLabels ++ node.emitted.flatMap fun child => child.lines.filterMap Line.label?) := by
  rw [lines_label, ← all_label_lines]
  obtain ⟨token, kind, children⟩ := node
  cases kind with
  | definition => exact .nil
  | comment => exact .nil
  | reference literal =>
      rw [commands, List.filterMap_append]
      exact .of_eq (List.append_nil _)
  | _ =>
      have steady := steady_own token _ children regular (by simp) (by simp) (by simp)
      have labels := steady.filterMap Command.label?
      rw [steady_labels, List.filterMap_append, steady_labels, own_labels] at labels
      exact labels.trans List.perm_append_comm

end Node

namespace Dialect

theorem build_labels (dialect : Dialect) (before after : Allocations) (token : Located Token) (children : List Node)
    (result : Except (Located Fault) Node) (built : dialect.build before token children = (result, after)) :
    after.labels = before.labels ++ result.toOption.toList.flatMap Node.ownLabels := by
  cases result with
  | ok node =>
      obtain ⟨kind, rfl, settled⟩ := dialect.build_settled before after token children node built
      simpa [Except.toOption] using dialect.settled_labels before after token children kind settled
  | error fault =>
      have kept := (dialect.build_failed_others before after token children fault built).1
      simpa [Except.toOption] using kept

theorem replay_labels (dialect : Dialect) (allocations : Allocations) (calls : List Call) :
    (dialect.replay allocations calls).labels =
      allocations.labels ++ (dialect.built allocations calls).flatMap Node.ownLabels := by
  induction calls generalizing allocations with
  | nil => simp [replay, built]
  | cons call rest ih =>
      have here := dialect.build_labels allocations _ call.token call.children _ rfl
      rw [replay, built, ih, List.flatMap_append, ← List.append_assoc]
      exact congrArg (· ++ _) here

theorem build_distinct (dialect : Dialect) (before after : Allocations) (token : Located Token) (children : List Node)
    (result : Except (Located Fault) Node) (built : dialect.build before token children = (result, after))
    (distinct : before.labels.Nodup) : after.labels.Nodup := by
  cases result with
  | ok node =>
      obtain ⟨kind, rfl, settled⟩ := dialect.build_settled before after token children node built
      exact dialect.settled_distinct before after token.value children kind settled distinct
  | error fault =>
      rw [dialect.build_labels before after token children _ built]
      simpa [Except.toOption] using distinct

theorem replay_distinct (dialect : Dialect) (allocations : Allocations) (calls : List Call)
    (distinct : allocations.labels.Nodup) : (dialect.replay allocations calls).labels.Nodup := by
  induction calls generalizing allocations with
  | nil => exact distinct
  | cons call rest ih => exact ih _ (dialect.build_distinct allocations _ call.token call.children _ rfl distinct)

theorem label_redefined_iff (dialect : Dialect) (before : Allocations) (token : Located Token) (children : List Node)
    (named : token.value.kind = .label) :
    (dialect.build before token children).1 = .error ⟨.labelRedefined token.value.labelName, token.location⟩ ↔
      token.value.labelName ∈ before.labels := by
  rw [build_error, resolve, named]
  dsimp only
  rw [Allocations.resolveLabel]
  split <;> simp_all

/-- The names that a session reserves are those of the nodes built in it, and all distinct. So it is at each call: a
label fails exactly when its name is reserved by then, and what a node adds to the names it emits as label lines, next
to those of the nodes emitted within it. -/
theorem session_labels (dialect : Dialect) (steps : List Step) :
    (dialect.session {} steps).labels = (dialect.built {} (dialect.calls {} steps)).flatMap Node.ownLabels ∧
    (dialect.session {} steps).labels.Nodup ∧
    ∀ earlier call later, dialect.calls {} steps = earlier ++ call :: later →
      let before := dialect.replay {} earlier
      let result := dialect.callResult before call
      before.labels = (dialect.built {} earlier).flatMap Node.ownLabels ∧
      (call.token.value.kind = .label →
        (result.1 = .error ⟨.labelRedefined call.token.value.labelName, call.token.location⟩ ↔
          call.token.value.labelName ∈ before.labels)) ∧
      ∀ node, result.1 = .ok node →
        result.2.labels = before.labels ++ node.ownLabels ∧
        (node.lines.filterMap Line.label?).Perm
          (node.ownLabels ++ node.emitted.flatMap fun child => child.lines.filterMap Line.label?) := by
  have reserved (calls : List Call) :
      (dialect.replay {} calls).labels = (dialect.built {} calls).flatMap Node.ownLabels :=
    dialect.replay_labels {} calls
  rw [← dialect.session_replay]
  refine ⟨reserved _, dialect.replay_distinct {} _ List.nodup_nil, ?_⟩
  intro earlier call later _
  refine ⟨reserved earlier, dialect.label_redefined_iff _ call.token call.children, ?_⟩
  intro node succeeded
  have result : dialect.build (dialect.replay {} earlier) call.token call.children =
      (.ok node, (dialect.callResult (dialect.replay {} earlier) call).2) := Prod.ext succeeded rfl
  have taken := dialect.build_labels _ _ call.token call.children _ result
  obtain ⟨kind, rfl, settled⟩ := dialect.build_settled _ _ call.token call.children node result
  refine ⟨by simpa [Except.toOption] using taken, Node.own_label_lines _ ?_⟩
  exact dialect.built_regular _ ⟨_, _, settled⟩

theorem imitated_labels_distinct :
    let first : Source := .ofString "while_0_end: (#while 1 (pop 2)) (" "first"
    let second : Source := .ofString "(#in (#case 1 (pop 2)) (#case 3 (pop 4)))" "second"
    let steps : List Step := [.parse first.start first.scan, .parse second.start second.scan]
    let last : Located Token := ⟨⟨.label, "case_1:"⟩, second.start⟩
    let labels := ["while_0_end", "while_1", "while_1_end", "case_0", "case_1", "in_0"]
    (standard.session {} steps).labels = labels ∧ (standard.session {} (steps ++ [.build last []])).labels.Nodup ∧
    (standard.build (standard.session {} steps) last []).1 = .error ⟨.labelRedefined "case_1", second.start⟩ := by
  intro first second steps last labels
  have reserved : (standard.session {} steps).labels = labels := by decide +kernel
  have distinct := (standard.session_labels (steps ++ [.build last []])).2.1
  have made : standard.calls {} (steps ++ [.build last []]) = standard.calls {} steps ++ [⟨last, []⟩] := by
    simp [steps, calls, stepCalls]
  have each := (standard.session_labels (steps ++ [.build last []])).2.2
  have fails := (each (standard.calls {} steps) ⟨last, []⟩ [] made).2.1
  have named : last.value.labelName = "case_1" := by decide
  rw [standard.session_replay, reserved, named] at fails
  exact ⟨reserved, distinct, (fails rfl).mpr (by decide)⟩

end Dialect

end TealForms
