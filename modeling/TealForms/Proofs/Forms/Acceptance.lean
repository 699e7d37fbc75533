import TealForms.Compile
import TealForms.Proofs.Build.Settled
import TealForms.Proofs.Forms.Prefixes
import TealForms.Proofs.Session.Calls

set_option autoImplicit false

namespace TealForms

namespace Form

-- What is wrong with tokens that are no program: the first that does not fit, or else the innermost open parenthesis.
inductive Malformed (tokens : List (Located Token)) : Located Fault → Prop where
  | stray (front : List (Located Token)) (token : Located Token) (rest : List (Located Token))
      (split : tokens = front ++ token :: rest) (begins : Begins front) (stuck : ¬ Begins (front ++ [token])) :
      Malformed tokens ⟨.invalidToken token.value.text, token.location⟩
  | unclosed (innermost : Located Token) (outer : List (Located Token)) (begins : Begins tokens)
      (opened : unmatched tokens = innermost :: outer) : Malformed tokens ⟨.unclosedExpression, innermost.location⟩

end Form

namespace Nesting

-- The parentheses that are open while a program is read are those of the tokens read so far.
structure Traces (nesting : Nesting) (front : List (Located Token)) : Prop where
  begins : Form.Begins front
  pending : nesting.pending.isSome = Form.isDue front
  opened : nesting.pending.toList ++ nesting.forms.map OpenForm.parenthesis =
    (Form.unmatched front).map Located.location

theorem traces_empty : Traces {} [] := ⟨Form.begins_nil, rfl, rfl⟩

theorem traces_add (nodes : List Node) (nesting : Nesting) (front : List (Located Token))
    (traces : nesting.Traces front) : (nodes.foldl add nesting).Traces front := by
  induction nodes generalizing nesting with
  | nil => exact traces
  | cons node rest ih =>
      refine ih (nesting.add node) ?_
      obtain ⟨pending, forms, finished⟩ := nesting
      obtain ⟨begins, due, opened⟩ := traces
      cases forms with
      | nil => exact ⟨begins, due, opened⟩
      | cons form outer => exact ⟨begins, due, opened⟩

section

variable (nesting : Nesting) (front : List (Located Token)) (traces : nesting.Traces front) (token : Located Token)

include traces

theorem shift_unfit (stuck : ¬ Form.Begins (front ++ [token])) : nesting.shift token = none := by
  rw [Form.begins_snoc front token traces.begins] at stuck
  obtain ⟨begins, due, opened⟩ := traces
  obtain ⟨pending, forms, finished⟩ := nesting
  rw [← due] at stuck
  cases pending with
  | some parenthesis => cases kind : token.value.kind <;> simp [Form.Fits, kind] at stuck <;> simp [shift, kind]
  | none =>
      cases kind : token.value.kind <;> simp [Form.Fits, kind] at stuck
      · obtain rfl : forms = [] := by simpa [stuck] using opened
        simp [shift, kind]
      · simp [shift, kind]

theorem shift_fit (goes : Form.Begins (front ++ [token])) :
    ∃ next call, nesting.shift token = some (next, call) ∧ next.Traces (front ++ [token]) := by
  have fits := (Form.begins_snoc front token traces.begins).mp goes
  obtain ⟨begins, due, opened⟩ := traces
  obtain ⟨pending, forms, finished⟩ := nesting
  rw [← due] at fits
  have traced (next : Nesting) (waits : next.pending.isSome = decide (token.value.kind = .opening))
      (same : next.pending.toList ++ next.forms.map OpenForm.parenthesis =
        (Form.bracket (Form.unmatched front) token).map Located.location) : next.Traces (front ++ [token]) :=
    ⟨goes, by rw [waits, Form.due_snoc], by rw [same, Form.unmatched_snoc]⟩
  cases pending with
  | some parenthesis =>
      cases kind : token.value.kind <;> simp [Form.Fits, kind] at fits <;>
        exact ⟨_, _, by rw [shift, kind], traced _ (by simp [kind]) (by simpa [Form.bracket, kind] using opened)⟩
  | none =>
      cases kind : token.value.kind with
      | root => simp [Form.Fits, kind] at fits
      | opening => exact ⟨_, _, by rw [shift, kind], traced _ (by simp [kind]) (by simpa [Form.bracket, kind] using opened)⟩
      | closing =>
          cases forms with
          | nil =>
              have none : Form.unmatched front = [] := by simpa using opened.symm
              simp [Form.Fits, kind, none] at fits
          | cons form outer =>
              refine ⟨⟨none, outer, finished⟩, _, by rw [shift, kind], traced _ (by simp [kind]) ?_⟩
              rw [Form.bracket, kind, List.map_tail, ← opened]
              rfl
      | _ => exact ⟨_, _, by rw [shift, kind], traced _ (by simp [kind]) (by simpa [Form.bracket, kind] using opened)⟩

end

theorem innermost_traces (nesting : Nesting) (front : List (Located Token)) (traces : nesting.Traces front) :
    nesting.innermost = (Form.unmatched front).head?.map Located.location := by
  have opened := congrArg List.head? traces.opened
  rw [List.head?_map] at opened
  rw [← opened, innermost]
  cases nesting.pending <;> simp

end Nesting

namespace Dialect

def validate (dialect : Dialect) (allocations : Allocations) : List Call → Outcome (List Node)
  | [] => (.ok [], allocations)
  | call :: rest =>
      andThen (dialect.callResult allocations call) fun node after =>
        andThen (dialect.validate after rest) fun nodes later => (.ok (node :: nodes), later)

def Refused (parsed : Outcome Node) (validated : Outcome (List Node)) : Prop :=
  ∃ fault after, parsed = (.error fault, after) ∧ validated = (.error fault, after)

section

variable (dialect : Dialect)

theorem validate_append (before : Allocations) (first second : List Call) :
    dialect.validate before (first ++ second) =
      andThen (dialect.validate before first) fun nodes after =>
        andThen (dialect.validate after second) fun others later => (.ok (nodes ++ others), later) := by
  induction first generalizing before with
  | nil =>
      change dialect.validate before second =
        andThen (dialect.validate before second) fun others later => (.ok others, later)
      rcases dialect.validate before second with ⟨fault | nodes, after⟩ <;> rfl
  | cons call rest ih =>
      rw [List.cons_append, validate, validate, then_assoc]
      refine congrArg _ (funext fun node => funext fun after => ?_)
      rw [ih after, then_assoc, then_assoc]
      refine congrArg _ (funext fun nodes => funext fun later => ?_)
      exact then_assoc ..

theorem feed_append (nesting : Nesting) (before : Allocations) (first second : List Scanned) :
    dialect.feed nesting before (first ++ second) =
      andThen (dialect.feed nesting before first) fun next after => dialect.feed next after second := by
  induction first generalizing nesting before with
  | nil => rfl
  | cons scanned rest ih =>
      cases scanned with
      | error failure => rfl
      | ok token =>
          rw [List.cons_append, feed_then, feed_then, then_assoc]
          exact congrArg _ (funext fun next => funext fun after => ih next after)

theorem feed_calls_append (nesting : Nesting) (before : Allocations) (first second : List Scanned) :
    dialect.feedCalls nesting before (first ++ second) =
      dialect.feedCalls nesting before first ++
        match dialect.feed nesting before first with
        | (.ok next, after) => dialect.feedCalls next after second
        | (.error _, _) => [] := by
  induction first generalizing nesting before with
  | nil => rfl
  | cons scanned rest ih =>
      cases scanned with
      | error failure => rfl
      | ok token =>
          rw [List.cons_append, feedCalls, feedCalls, feed]
          rcases dialect.step nesting before token with ⟨fault | next, after⟩
          · simp
          · simp [ih]

variable (nesting : Nesting) (front : List (Located Token)) (traces : nesting.Traces front)

include traces

theorem step_unfit (before : Allocations) (token : Located Token) (stuck : ¬ Form.Begins (front ++ [token])) :
    dialect.step nesting before token = (.error ⟨.invalidToken token.value.text, token.location⟩, before) ∧
      nesting.call? token = none := by
  rw [step_shift, nesting.call_shift, nesting.shift_unfit front traces token stuck]
  exact ⟨rfl, rfl⟩

theorem step_fit (before : Allocations) (token : Located Token) (goes : Form.Begins (front ++ [token])) :
    ∃ next : Nesting, next.Traces (front ++ [token]) ∧
      dialect.step nesting before token =
        andThen (dialect.validate before (nesting.call? token).toList) fun nodes after =>
          (.ok (nodes.foldl Nesting.add next), after) := by
  obtain ⟨next, call, shifted, later⟩ := nesting.shift_fit front traces token goes
  refine ⟨next, later, ?_⟩
  rw [step_shift, nesting.call_shift, shifted]
  cases call with
  | none => rfl
  | some call =>
      dsimp only [Option.bind_some, Option.toList_some]
      rw [finish_then, validate, callResult]
      rcases dialect.build before call.token call.children with ⟨fault | node, after⟩ <;> rfl

theorem feed_fit (before : Allocations) (tokens : List (Located Token)) (goes : Form.Begins (front ++ tokens)) :
    match dialect.feed nesting before (tokens.map .ok) with
    | (.ok next, after) => next.Traces (front ++ tokens) ∧
        ∃ nodes, dialect.validate before (dialect.feedCalls nesting before (tokens.map .ok)) = (.ok nodes, after)
    | (.error fault, after) =>
        dialect.validate before (dialect.feedCalls nesting before (tokens.map .ok)) = (.error fault, after) := by
  induction tokens generalizing nesting front before with
  | nil => exact ⟨by simpa using traces, [], rfl⟩
  | cons token rest ih =>
      rw [List.append_cons] at goes
      have stay := Form.begins_front _ rest goes
      obtain ⟨next, later, stepped⟩ := dialect.step_fit nesting front traces before token stay
      rw [List.map_cons, feed_then, feedCalls, validate_append, stepped]
      generalize dialect.validate before (nesting.call? token).toList = validated
      obtain ⟨fault | nodes, middle⟩ := validated
      · rfl
      · have behind := ih (nodes.foldl Nesting.add next) (front ++ [token]) (next.traces_add nodes _ later) middle goes
        dsimp only [andThen]
        revert behind
        rcases dialect.feed (nodes.foldl Nesting.add next) middle (rest.map .ok) with ⟨fault | last, after⟩
        · intro failed
          dsimp only at failed ⊢
          rw [failed]
        · rintro ⟨traced, others, validated⟩
          dsimp only at validated ⊢
          rw [validated, List.append_cons]
          exact ⟨traced, nodes ++ others, rfl⟩

end

section

variable (dialect : Dialect) (before : Allocations) (start : Location)

-- Tokens up to one that does not fit: only the nodes completed before it are validated.
theorem parse_stray (front : List (Located Token)) (token : Located Token) (rest : List (Located Token))
    (begins : Form.Begins front) (stuck : ¬ Form.Begins (front ++ [token])) :
    let tokens : List Scanned := (front ++ token :: rest).map .ok
    dialect.parseCalls before start tokens = dialect.feedCalls {} before (front.map .ok) ∧
    let validated := dialect.validate before (dialect.parseCalls before start tokens)
    Refused (dialect.parse before start tokens) validated ∨ ∃ nodes after, validated = (.ok nodes, after) ∧
      dialect.parse before start tokens = (.error ⟨.invalidToken token.value.text, token.location⟩, after) := by
  have fed := dialect.feed_fit {} [] Nesting.traces_empty before front (by simpa using begins)
  have whole := dialect.feed_append {} before (front.map .ok) ((token :: rest).map .ok)
  have calls := dialect.feed_calls_append {} before (front.map .ok) ((token :: rest).map .ok)
  rw [← List.map_append] at whole calls
  dsimp only
  rw [parseCalls, calls, parse_then, whole]
  revert fed
  rcases dialect.feed {} before (front.map .ok) with ⟨fault | next, after⟩
  · intro failed
    simpa [andThen] using Or.inl ⟨fault, after, rfl, failed⟩
  · rintro ⟨traces, nodes, validated⟩
    obtain ⟨stepped, none⟩ := dialect.step_unfit next _ traces after token (by simpa using stuck)
    simp only [List.map_cons, andThen, feed_then, feedCalls, stepped, none, Option.toList_none, List.append_nil]
    exact ⟨trivial, .inr ⟨nodes, after, validated, rfl⟩⟩

theorem parse_begins (tokens : List (Located Token)) (begins : Form.Begins tokens) :
    let parsed := dialect.parse before start (tokens.map .ok)
    let validated := dialect.validate before (dialect.parseCalls before start (tokens.map .ok))
    Refused parsed validated ∨ ∃ nodes after, validated = (.ok nodes, after) ∧
      match Form.unmatched tokens with
      | [] => ∃ root, parsed = (.ok root, after)
      | innermost :: _ => parsed = (.error ⟨.unclosedExpression, innermost.location⟩, after) := by
  have fed := dialect.feed_fit {} [] Nesting.traces_empty before tokens (by simpa using begins)
  dsimp only
  rw [parseCalls, parse_then]
  revert fed
  rcases dialect.feed {} before (tokens.map .ok) with ⟨fault | next, after⟩
  · intro failed
    simpa [andThen] using Or.inl ⟨fault, after, rfl, failed⟩
  · rintro ⟨traces, nodes, validated⟩
    have innermost := next.innermost_traces _ traces
    rw [List.nil_append] at innermost
    simp only [andThen, innermost]
    refine .inr ?_
    cases Form.unmatched tokens with
    | nil =>
        refine ⟨nodes ++ [.mk ⟨.root, start⟩ (.root dialect.options.version) next.finished.reverse], after, ?_, _, rfl⟩
        rw [List.head?_nil, Option.map_none, validate_append, validated]
        rfl
    | cons opening outer => exact ⟨nodes, after, by simpa using validated, rfl⟩

mutual
theorem construct_layers (form : Form) (before after : Allocations) (node : Node)
    (made : dialect.construct before form = (.ok node, after)) (depth : Nat) :
    (node.preorder depth).map (fun entry => (entry.1, entry.2.token)) = form.layers depth := by
  cases form with
  | leaf token =>
      obtain ⟨kind, rfl, _⟩ := dialect.build_settled before after token [] node made
      rfl
  | group opening head body closing =>
      obtain ⟨nodes, middle, inside, built⟩ := then_ok _ _ _ _ made
      obtain ⟨kind, rfl, _⟩ := dialect.build_settled middle after head nodes node built
      rw [Node.preorder, List.map_cons, construct_all_layers body before middle nodes inside (depth + 1)]
      rfl
theorem construct_all_layers (forms : List Form) (before after : Allocations) (nodes : List Node)
    (made : dialect.constructAll before forms = (.ok nodes, after)) (depth : Nat) :
    (Node.preorderAll depth nodes).map (fun entry => (entry.1, entry.2.token)) = Form.layersAll depth forms := by
  cases forms with
  | nil =>
      cases made
      rfl
  | cons form rest =>
      obtain ⟨node, middle, first, behind⟩ := then_ok _ _ _ _ made
      obtain ⟨others, _, second, same⟩ := then_ok _ _ _ _ behind
      cases same
      rw [Node.preorderAll, List.map_append, construct_layers form before middle node first depth,
        construct_all_layers rest middle after others second depth]
      rfl
end

theorem parse_outline (tokens : List (Located Token)) (root : Node) (after : Allocations)
    (parsed : dialect.parse before start (tokens.map .ok) = (.ok root, after)) :
    (root.preorder 0).map (fun entry => (entry.1, entry.2.token)) = (0, ⟨.root, start⟩) :: Form.outline [] tokens := by
  obtain ⟨forms, proper, rfl⟩ := dialect.parse_forms before after start tokens root parsed
  rw [dialect.parse_construct forms proper] at parsed
  obtain ⟨nodes, middle, made, built⟩ := then_ok _ _ _ _ parsed
  obtain ⟨kind, rfl, _⟩ := dialect.build_settled middle after _ nodes root built
  rw [Node.preorder, List.map_cons, dialect.construct_all_layers forms before middle nodes made 1,
    Form.program_outline forms proper]
  rfl

end

/-- Reading accepts the programs of the grammar unless a node is not valid, and their trees hold the tokens without the
parentheses in their order and depth. Of other tokens the first that no program goes on with is refused, or else the
innermost open parenthesis; a node that is completed before may fail first. -/
theorem parsed_grammar (dialect : Dialect) (before : Allocations) (start : Location) (tokens : List (Located Token)) :
    let parsed := dialect.parse before start (tokens.map .ok)
    let calls := dialect.parseCalls before start (tokens.map .ok)
    let validated := dialect.validate before calls
    (∀ root after, parsed = (.ok root, after) → Form.Program tokens ∧
      (root.preorder 0).map (fun entry => (entry.1, entry.2.token)) =
        (0, ⟨.root, start⟩) :: Form.outline [] tokens) ∧
    (Form.Program tokens → Refused parsed validated ∨
      ∃ root nodes after, validated = (.ok nodes, after) ∧ parsed = (.ok root, after)) ∧
    (¬ Form.Program tokens → Refused parsed validated ∨
      ∃ fault nodes after, Form.Malformed tokens fault ∧ validated = (.ok nodes, after) ∧
        parsed = (.error fault, after)) ∧
    ∀ front token rest, tokens = front ++ token :: rest → Form.Begins front →
      (¬ Form.Begins (front ++ [token]) ↔ token.value.kind = .closing ∧ Form.unmatched front = [] ∨
        token.value.isParenthesis = true ∧ Form.isDue front = true ∨ token.value.kind = .root) ∧
      (¬ Form.Begins (front ++ [token]) → calls = dialect.feedCalls {} before (front.map .ok)) := by
  refine ⟨?_, ?_, ?_, ?_⟩
  · intro root after parsed
    exact ⟨dialect.parse_forms before after start tokens root parsed,
      dialect.parse_outline before start tokens root after parsed⟩
  · intro program
    have begins : Form.Begins tokens := ⟨[], by simpa using program⟩
    have closed := (Form.program_iff tokens begins).mp program
    have either := dialect.parse_begins before start tokens begins
    rw [closed] at either
    refine either.imp_right ?_
    rintro ⟨nodes, after, validated, root, parsed⟩
    exact ⟨root, nodes, after, validated, parsed⟩
  · intro other
    by_cases begins : Form.Begins tokens
    · have either := dialect.parse_begins before start tokens begins
      rw [Form.program_iff tokens begins] at other
      obtain ⟨innermost, outer, opened⟩ := List.exists_cons_of_ne_nil other
      rw [opened] at either
      refine either.imp_right ?_
      rintro ⟨nodes, after, validated, parsed⟩
      exact ⟨_, nodes, after, .unclosed innermost outer begins opened, validated, parsed⟩
    · obtain ⟨front, token, rest, rfl, begins, stuck⟩ := Form.exists_unfit tokens begins
      refine (dialect.parse_stray before start front token rest begins stuck).2.imp_right ?_
      rintro ⟨nodes, after, validated, parsed⟩
      exact ⟨_, nodes, after, .stray front token rest rfl begins stuck, validated, parsed⟩
  · rintro front token rest rfl begins
    refine ⟨?_, fun stuck => (dialect.parse_stray before start front token rest begins stuck).1⟩
    rw [Form.begins_snoc front token begins, Form.Fits]
    cases kind : token.value.kind <;> cases Form.isDue front <;> simp [Token.isParenthesis, kind]

theorem open_group_refused :
    let token (kind : TokenKind) (text : String) : Located Token := ⟨⟨kind, text⟩, default⟩
    let program := [token .opening "(", token .opcode "pop", token .integer "1"]
    let stray := [token .integer "1", token .closing ")", token .scratch "$x"]
    let tree (tokens : List (Located Token)) := standard.parse {} default (tokens.map .ok)
    let nodes (tokens : List (Located Token)) :=
      standard.validate {} (standard.parseCalls {} default (tokens.map .ok))
    (∃ fault made after, Form.Malformed program fault ∧ nodes program = (.ok made, after) ∧
      tree program = (.error fault, after)) ∧
    (∃ fault made after, Form.Malformed stray fault ∧ nodes stray = (.ok made, after) ∧
      tree stray = (.error fault, after)) := by
  intro token program stray tree nodes
  have passed (tokens : List (Located Token)) (other : ¬ Form.Program tokens)
      (valid : (nodes tokens).1.toOption.isSome = true) :
      ∃ fault made after, Form.Malformed tokens fault ∧ nodes tokens = (.ok made, after) ∧
        tree tokens = (.error fault, after) := by
    refine ((parsed_grammar standard {} default tokens).2.2.1 other).resolve_left ?_
    rintro ⟨fault, after, _, failed⟩
    rw [show nodes tokens = (.error fault, after) from failed] at valid
    cases valid
  have begins : Form.Begins program :=
    ⟨[token .closing ")"], [.group (token .opening "(") (token .opcode "pop") [.leaf (token .integer "1")]
      (token .closing ")")], by simp [Form.ProperAll, Form.Proper, Token.IsHead, token], rfl⟩
  refine ⟨passed program ?_ (by decide +kernel), passed stray ?_ (by decide +kernel)⟩
  · rw [Form.program_iff program begins]
    exact List.cons_ne_nil _ _
  · intro accepted
    have first : Form.Begins [token .integer "1"] :=
      ⟨[], [.leaf (token .integer "1")], by simp [Form.ProperAll, Form.Proper, Token.IsHead, token], rfl⟩
    have stuck := ((parsed_grammar standard {} default stray).2.2.2 [token .integer "1"] (token .closing ")")
      [token .scratch "$x"] rfl first).1.mpr (.inl ⟨rfl, rfl⟩)
    exact stuck ⟨[token .scratch "$x"], accepted⟩

end Dialect

end TealForms
