import TealForms.Proofs.Command.Unnamed
import TealForms.Proofs.Forms.Grammar

set_option autoImplicit false

namespace TealForms

namespace Allocations

def isUntouched (before after : Allocations) : Bool :=
  after.scratch = before.scratch ∧ after.labels = before.labels ∧ after.counters = before.counters

theorem untouched_agree (same : Command → Command → Prop) (before middle left : Allocations)
    (untouched : before.isUntouched middle = true) (grown : before.constants <+: middle.constants)
    (kept : Agree same False before left) : Agree same False middle left := by
  obtain ⟨scratch, labels, counters⟩ := of_decide_eq_true untouched
  refine ⟨kept.scratch.trans scratch.symm, kept.labels.trans labels.symm, kept.counters.trans counters.symm, ?_,
    fun never => never.elim⟩
  intro name absent
  refine kept.unbound name ?_
  rw [constant?, Option.map_eq_none_iff, List.find?_eq_none] at absent ⊢
  exact fun entry member => absent entry (grown.subset member)

end Allocations

namespace Form

def isComment (form : Form) : Bool := form.head.value.kind = .comment

end Form

namespace Dialect

section

variable (dialect : Dialect) (meaning : String → Option (Located Token)) (whole : Form → Bool)

def substituted (token : Located Token) : Located Token := (meaning token.value.text).getD token

mutual
-- A form of a reference goes as a whole if it is asked for and the comments in it take no slot and no label, otherwise
-- only its head does.
def substitute (before : Allocations) : Form → Form
  | .leaf token => .leaf (if token.value.kind = .constant then substituted meaning token else token)
  | .group opening head body closing =>
      if head.value.kind = .constant ∧ body.all Form.isComment then
        if whole (.group opening head body closing) && before.isUntouched (dialect.constructAll before body).2 then
          .leaf (substituted meaning head)
        else .group opening (substituted meaning head) (substituteAll before body) closing
      else .group opening head (substituteAll before body) closing
def substituteAll (before : Allocations) : List Form → List Form
  | [] => []
  | form :: rest => substitute before form :: substituteAll (dialect.construct before form).2 rest
end

end

structure Grounded (dialect : Dialect) (meaning : String → Option (Located Token)) (name : String)
    (literal : Literal Node) : Prop where
  meaning : meaning name = some literal.token
  built : dialect.Built literal.node
  bare : Node.significant literal.children = []

section

variable {dialect : Dialect}

theorem grounded_settled (meaning : String → Option (Located Token)) (name : String) (literal : Literal Node)
    (left : Allocations) (others : List Node) (grounded : dialect.Grounded meaning name literal)
    (blank : Node.significant others = []) :
    dialect.Settled left literal.token.value others (.literal literal.instruction) left := by
  obtain ⟨_, built, bare⟩ := grounded
  obtain ⟨token, instruction, children⟩ := literal
  obtain ⟨before, after, settled⟩ := dialect.built_parts token _ children built
  cases settled with
  | literal word record named found accepted =>
      refine .literal word record named found ?_
      intro strict
      have passed := accepted strict
      rw [Instruction.fault?, Instruction.stackFault?] at passed ⊢
      rwa [Node.comments_return others blank, ← Node.comments_return children bare]

theorem settled_refers (before after : Allocations) (token : Token) (children : List Node) (kind : Kind Node)
    (settled : dialect.Settled before token children kind after) (named : token.kind = .constant)
    (bare : Node.significant children = []) :
    ∃ literal, kind = .reference literal ∧ before.constant? token.text = some literal ∧ after = before := by
  cases settled with
  | reference literal _ _ known => exact ⟨literal, rfl, known, rfl⟩
  | definition value literal _ single => simp [bare] at single
  | literal name record other => simp [IsLiteral, named] at other
  | _ => simp_all

theorem settled_reference (before after : Allocations) (token : Token) (children : List Node) (literal : Literal Node)
    (settled : dialect.Settled before token children (.reference literal) after) :
    token.kind = .constant ∧ Node.significant children = [] := by
  cases settled with
  | reference _ named bare => exact ⟨named, bare⟩

theorem settled_comment (before after : Allocations) (token : Located Token) (children : List Node) (kind : Kind Node)
    (settled : dialect.Settled before token.value children kind after) :
    (Node.mk token kind children).isComment = decide (token.value.kind = .comment) := by
  cases settled with
  | literal name record named => rcases named with ⟨named, _⟩ | ⟨named, _⟩ <;> simp [Node.isComment, named]
  | _ => simp_all [Node.isComment]

theorem construct_comment (before after : Allocations) (form : Form) (node : Node)
    (made : dialect.construct before form = (.ok node, after)) : node.isComment = form.isComment := by
  cases form with
  | leaf token =>
      obtain ⟨kind, rfl, settled⟩ := dialect.build_settled before after token [] node made
      exact settled_comment before after token [] kind settled
  | group opening head body closing =>
      obtain ⟨nodes, middle, _, built⟩ := then_ok _ _ _ _ made
      obtain ⟨kind, rfl, settled⟩ := dialect.build_settled middle after head nodes node built
      exact settled_comment middle after head nodes kind settled

theorem construct_comments (forms : List Form) (before after : Allocations) (nodes : List Node)
    (made : dialect.constructAll before forms = (.ok nodes, after)) :
    forms.all Form.isComment = true ↔ Node.significant nodes = [] := by
  induction forms generalizing before nodes with
  | nil =>
      cases made
      simp [Node.significant]
  | cons form rest ih =>
      obtain ⟨node, middle, first, later⟩ := then_ok _ _ _ _ made
      obtain ⟨others, _, second, same⟩ := then_ok _ _ _ _ later
      cases same
      have seen := construct_comment before middle form node first
      rw [List.all_cons, Bool.and_eq_true, ih middle others second, ← seen]
      by_cases comment : node.isComment = true
      · simp [Node.significant_comment node others comment, comment]
      · simp [Node.significant_other node others comment, comment]

theorem build_grows (before after : Allocations) (token : Located Token) (children : List Node) (node : Node)
    (built : dialect.build before token children = (.ok node, after)) : before.constants <+: after.constants := by
  obtain ⟨kind, rfl, settled⟩ := dialect.build_settled before after token children node built
  rw [dialect.settled_constants before after token children kind settled]
  exact List.prefix_append _ _

mutual
theorem construct_grows (form : Form) (before after : Allocations) (node : Node)
    (made : dialect.construct before form = (.ok node, after)) : before.constants <+: after.constants := by
  cases form with
  | leaf token => exact build_grows before after token [] node made
  | group opening head body closing =>
      obtain ⟨nodes, middle, inside, built⟩ := then_ok _ _ _ _ made
      exact (construct_all_grows body before middle nodes inside).trans (build_grows middle after head nodes node built)
theorem construct_all_grows (forms : List Form) (before after : Allocations) (nodes : List Node)
    (made : dialect.constructAll before forms = (.ok nodes, after)) : before.constants <+: after.constants := by
  cases forms with
  | nil =>
      cases made
      exact List.prefix_refl _
  | cons form rest =>
      obtain ⟨node, middle, first, later⟩ := then_ok _ _ _ _ made
      obtain ⟨others, _, second, same⟩ := then_ok _ _ _ _ later
      cases same
      exact (construct_grows form before middle node first).trans (construct_all_grows rest middle after others second)
end

section

variable {meaning : String → Option (Located Token)} {before after : Allocations} {token : Located Token}
variable {children : List Node} {node : Node}
variable (built : dialect.build before token children = (.ok node, after))

include built

theorem reference_substituted (left : Allocations) (others : List Node)
    (grounded : ∀ name literal, (name, literal) ∈ after.constants → dialect.Grounded meaning name literal)
    (named : token.value.kind = .constant) (bare : Node.significant children = [])
    (blank : Node.significant others = []) :
    after = before ∧ ∃ twin, dialect.build left (substituted meaning token) others = (.ok twin, left) ∧
      Node.Agrees Command.Unnames node twin := by
  obtain ⟨kind, rfl, settled⟩ := dialect.build_settled before after token children node built
  obtain ⟨literal, rfl, known, rfl⟩ := settled_refers before after token.value children kind settled named bare
  have ground := grounded token.value.text literal (after.constant_some token.value.text literal known)
  have replaced : substituted meaning token = literal.token := by rw [substituted, ground.meaning]; rfl
  have settled := grounded_settled meaning _ literal left others ground blank
  have word := literal_word literal ground.built
  rw [replaced]
  exact ⟨rfl, _, dialect.settled_build left left literal.token others _ settled,
    reference_agrees token literal.token literal children others word ground.bare blank⟩

theorem other_substituted (left : Allocations) (others : List Node)
    (kept : Allocations.Agree Command.Unnames False before left)
    (below : List.Forall₂ (Node.Agrees Command.Unnames) children others)
    (other : ¬ (token.value.kind = .constant ∧ Node.significant children = [])) :
    ∃ twin later, dialect.build left token others = (.ok twin, later) ∧ Node.Agrees Command.Unnames node twin ∧
      Allocations.Agree Command.Unnames False after later := by
  refine build_agree dialect.eases_self below Command.unnamed_lets before left after token token node built
    (dialect.reads_self token.value) kept ?_
  intro literal refers
  obtain ⟨kind, rfl, settled⟩ := dialect.build_settled before after token children node built
  cases refers
  exact other (settled_reference before after token.value children literal settled)

end

section

variable {meaning : String → Option (Located Token)} (whole : Form → Bool)

-- The second program may lack constants, those bound in comments that went with their reference, but it never looks
-- for one; slots and labels are the same on both sides throughout.
mutual
theorem construct_substituted (form : Form) (before left after : Allocations) (node : Node)
    (made : dialect.construct before form = (.ok node, after))
    (kept : Allocations.Agree Command.Unnames False before left)
    (grounded : ∀ name literal, (name, literal) ∈ after.constants → dialect.Grounded meaning name literal) :
    ∃ twin later, dialect.construct left (dialect.substitute meaning whole before form) = (.ok twin, later) ∧
      Node.Agrees Command.Unnames node twin ∧ Allocations.Agree Command.Unnames False after later := by
  cases form with
  | leaf token =>
      rw [substitute]
      by_cases named : token.value.kind = .constant
      · obtain ⟨rfl, twin, given, agrees⟩ := reference_substituted made left [] grounded named rfl rfl
        rw [if_pos named]
        exact ⟨twin, left, given, agrees, kept⟩
      · rw [if_neg named]
        exact other_substituted made left [] kept .nil fun refers => named refers.1
  | group opening head body closing =>
      obtain ⟨nodes, middle, inside, built⟩ := then_ok _ _ _ _ made
      have comments := construct_comments body before middle nodes inside
      have grown := build_grows middle after head nodes node built
      obtain ⟨twins, later, given, below, agree⟩ := construct_all_substituted body before left middle nodes inside kept
        fun name literal member => grounded name literal (grown.subset member)
      rw [substitute, inside]
      by_cases refers : head.value.kind = .constant ∧ body.all Form.isComment = true
      · have bare := comments.mp refers.2
        rw [if_pos refers]
        split
        -- The whole form goes, and nothing was taken in it: the second side stays where it was.
        · rename_i asked
          have untouched := (Bool.and_eq_true_iff.mp asked).2
          have old := construct_all_grows body before middle nodes inside
          obtain ⟨rfl, twin, given, agrees⟩ := reference_substituted built left [] grounded refers.1 bare rfl
          exact ⟨twin, left, given, agrees, Allocations.untouched_agree _ before after left untouched old kept⟩
        · have blank : Node.significant twins = [] := by
            have visible := Node.significant_agree below
            rwa [bare, List.forall₂_nil_left_iff] at visible
          obtain ⟨rfl, twin, replaced, agrees⟩ :=
            reference_substituted built later twins grounded refers.1 bare blank
          refine ⟨twin, later, ?_, agrees, agree⟩
          rw [construct, given]
          exact replaced
      · rw [if_neg refers]
        obtain ⟨twin, last, rebuilt, agrees, agree⟩ := other_substituted built later twins agree below fun reference =>
          refers ⟨reference.1, comments.mpr reference.2⟩
        refine ⟨twin, last, ?_, agrees, agree⟩
        rw [construct, given]
        exact rebuilt
theorem construct_all_substituted (forms : List Form) (before left after : Allocations) (nodes : List Node)
    (made : dialect.constructAll before forms = (.ok nodes, after))
    (kept : Allocations.Agree Command.Unnames False before left)
    (grounded : ∀ name literal, (name, literal) ∈ after.constants → dialect.Grounded meaning name literal) :
    ∃ twins later, dialect.constructAll left (dialect.substituteAll meaning whole before forms) = (.ok twins, later) ∧
      List.Forall₂ (Node.Agrees Command.Unnames) nodes twins ∧
      Allocations.Agree Command.Unnames False after later := by
  cases forms with
  | nil =>
      cases made
      exact ⟨[], left, rfl, .nil, kept⟩
  | cons form rest =>
      obtain ⟨node, middle, first, behind⟩ := then_ok _ _ _ _ made
      obtain ⟨others, _, second, same⟩ := then_ok _ _ _ _ behind
      cases same
      have grown := construct_all_grows rest middle after others second
      obtain ⟨twin, between, given, agrees, agree⟩ := construct_substituted form before left middle node first kept
        fun name literal member => grounded name literal (grown.subset member)
      obtain ⟨twins, later, following, below, agree⟩ :=
        construct_all_substituted rest middle between after others second agree grounded
      refine ⟨twin :: twins, later, ?_, .cons agrees below, agree⟩
      rw [substituteAll, first, constructAll, given]
      show andThen (dialect.constructAll between _) _ = _
      rw [following]
      rfl
end

end

theorem substituted_head (meaning : String → Option (Located Token))
    (heads : ∀ name token, meaning name = some token → token.value.IsHead) (token : Located Token)
    (named : token.value.IsHead) : (substituted meaning token).value.IsHead := by
  rw [substituted]
  cases found : meaning token.value.text with
  | none => exact named
  | some literal => exact heads _ literal found

section

variable {meaning : String → Option (Located Token)} (whole : Form → Bool)

mutual
theorem substitute_proper (heads : ∀ name token, meaning name = some token → token.value.IsHead) (form : Form)
    (proper : form.Proper) (before : Allocations) : (dialect.substitute meaning whole before form).Proper := by
  cases form with
  | leaf token =>
      rw [substitute]
      split
      · exact substituted_head meaning heads token proper
      · exact proper
  | group opening head body closing =>
      obtain ⟨opened, named, inside, shut⟩ := proper
      have replaced := substituted_head meaning heads head named
      have below := substitute_all_proper heads body inside before
      rw [substitute]
      split
      · split
        · exact replaced
        · exact ⟨opened, replaced, below, shut⟩
      · exact ⟨opened, named, below, shut⟩
theorem substitute_all_proper (heads : ∀ name token, meaning name = some token → token.value.IsHead)
    (forms : List Form) (proper : Form.ProperAll forms) (before : Allocations) :
    Form.ProperAll (dialect.substituteAll meaning whole before forms) := by
  cases forms with
  | nil => exact trivial
  | cons form rest => exact ⟨substitute_proper heads form proper.1 before, substitute_all_proper heads rest proper.2 _⟩
end

end

section

variable {origin : Located Token → Prop} {root : Node} {allocations : Allocations}
variable (ledger : dialect.Ledger origin [root] allocations)

include ledger

theorem meaning_head (name : String) (token : Located Token) (found : root.meaning? name = some token) :
    token.value.IsHead := by
  obtain ⟨⟨_, literal⟩, known, rfl⟩ := Option.map_eq_some_iff.mp found
  have built := definition_built ledger _ literal (List.mem_of_find?_eq_some known)
  have named := (dialect.built_literal literal.token literal.instruction literal.children built).1
  rcases named with ⟨named, _⟩ | ⟨named, _⟩ <;> simp [Token.IsHead, named]

end

end

/-- The constants of a program are bound once, before they are referred to. If their literals hold comments only, the
program with literals in place of references is read too, and emitted line by line as the program is, the names of the
constants left out. -/
theorem references_substituted (dialect : Dialect) (start : Location) (tokens : List (Located Token)) (root : Node)
    (after : Allocations) (parsed : dialect.parse {} start (tokens.map .ok) = (.ok root, after))
    (bare : ∀ name literal, (name, literal) ∈ root.definitions → Node.significant literal.children = []) :
    (root.definitions.map Prod.fst).Nodup ∧ Node.Backed root.postorder ∧
    (∀ command ∈ root.commands, command.unnamed ≠ command ↔ ∃ reference ∈ root.postorder, ∃ literal,
      reference.kind = .reference literal ∧
      command = .plain literal.instruction (some reference.token.value.text)) ∧
    (∃ forms, Form.ProperAll forms ∧ tokens = Form.tokensAll forms) ∧
    ∀ forms whole, Form.ProperAll forms → tokens = Form.tokensAll forms → ∃ tree left,
      dialect.parse {} start
        ((Form.tokensAll (dialect.substituteAll root.meaning? whole {} forms)).map .ok) = (.ok tree, left) ∧
      tree.lines = root.commands.map fun command => command.unnamed.line := by
  have ledger := parse_ledger parsed
  refine ⟨definitions_single ledger, parse_backed parsed, unnamed_reference ledger,
    dialect.parse_forms {} after start tokens root parsed, ?_⟩
  rintro forms whole proper rfl
  rw [dialect.parse_construct forms proper] at parsed
  obtain ⟨nodes, middle, made, built⟩ := then_ok _ _ _ _ parsed
  have grown := build_grows middle after _ nodes root built
  have grounded : ∀ name literal, (name, literal) ∈ middle.constants → dialect.Grounded root.meaning? name literal := by
    intro name literal member
    have known := grown.subset member
    rw [ledger_definitions ledger] at known
    exact ⟨definition_meaning ledger name literal known, definition_built ledger name literal known,
      bare name literal known⟩
  obtain ⟨twins, later, given, below, agree⟩ :=
    construct_all_substituted whole forms {} {} middle nodes made (Allocations.empty_agree _ False) grounded
  obtain ⟨tree, left, rebuilt, agrees, _⟩ := other_substituted built later twins agree below (by simp [Token.root])
  refine ⟨tree, left, ?_, ?_⟩
  · rw [dialect.parse_construct _ (substitute_all_proper whole (meaning_head ledger) forms proper {}), given]
    exact rebuilt
  · have same : root.commands.map Command.unnamed = tree.commands := by
      rw [← List.forall₂_eq_eq_eq, List.forall₂_map_left_iff]
      exact agrees.commands.imp fun _ _ unnames => unnames.symm
    rw [Node.lines, ← same, List.map_map]
    rfl

theorem kept_comment_substituted :
    let token (kind : TokenKind) (text : String) : Located Token := ⟨⟨kind, text⟩, default⟩
    let group (kind : TokenKind) (text : String) (body : List Form) : Form :=
      .group (token .opening "(") (token kind text) body (token .closing ")")
    let one : Form := .leaf (token .integer "1")
    let stored := group .comment "n" [group .scratch "$x" [one]]
    let loaded : Form := .leaf (token .scratch "$x")
    let forms := [group .constant "@c" [one],
      group (.keyword .case) "#case"
        [.leaf (token .constant "@c"), group .opcode "pop" [group .constant "@c" [.leaf (token .comment "k")]]],
      group .constant "@c" [stored], loaded]
    let others := [group .constant "@c" [one], group (.keyword .case) "#case" [one, group .opcode "pop" [one]],
      group .integer "1" [stored], loaded]
    ∃ root after tree left, standard.parse {} default ((Form.tokensAll forms).map .ok) = (.ok root, after) ∧
      (∀ name literal, (name, literal) ∈ root.definitions → Node.significant literal.children = []) ∧
      standard.parse {} default ((Form.tokensAll others).map .ok) = (.ok tree, left) ∧
      tree.lines = root.commands.map (fun command => command.unnamed.line) := by
  intro token group one stored loaded forms others
  obtain ⟨root, after, parsed, checked⟩ := standard.parse_checked {} default ((Form.tokensAll forms).map .ok)
    (fun root => (root.definitions.all fun entry => (Node.significant entry.2.children).isEmpty) &&
      decide (Form.tokensAll (standard.substituteAll root.meaning? (fun _ => true) {} forms) = Form.tokensAll others))
    (by decide +kernel)
  rw [Bool.and_eq_true, List.all_eq_true] at checked
  obtain ⟨empty, same⟩ := checked
  have bare : ∀ name literal, (name, literal) ∈ root.definitions → Node.significant literal.children = [] :=
    fun name literal member => List.isEmpty_iff.mp (empty (name, literal) member)
  have proper : Form.ProperAll forms := by
    simp [forms, stored, loaded, group, one, token, Form.ProperAll, Form.Proper, Token.IsHead]
  obtain ⟨tree, left, replaced, lines⟩ :=
    (references_substituted standard default (Form.tokensAll forms) root after parsed bare).2.2.2.2 forms
      (fun _ => true) proper rfl
  rw [of_decide_eq_true same] at replaced
  exact ⟨root, after, tree, left, parsed, bare, replaced, lines⟩

theorem commented_variable_lost : ∃ root after fault left,
    standard.compile (.ofString "(@c 1) (@c (`k` ($x 1))) $x" "form") = (.ok root, after) ∧
    (∀ name literal, (name, literal) ∈ root.definitions → Node.significant literal.children = []) ∧
    standard.compile (.ofString "(@c 1) 1 $x" "token") = (.error fault, left) ∧
    fault.value = .scratchNotFound "$x" := by
  obtain ⟨root, after, compiled, checked⟩ := standard.compile_checked (.ofString "(@c 1) (@c (`k` ($x 1))) $x" "form")
    (fun root => root.definitions.all fun entry => (Node.significant entry.2.children).isEmpty) (by decide +kernel)
  obtain ⟨fault, left, failed, lost⟩ := standard.compile_refused (.ofString "(@c 1) 1 $x" "token")
    (fun fault => fault.value = .scratchNotFound "$x") (by decide +kernel)
  refine ⟨root, after, fault, left, compiled, ?_, failed, of_decide_eq_true lost⟩
  exact fun name literal member => List.isEmpty_iff.mp (List.all_eq_true.mp checked (name, literal) member)

end Dialect

end TealForms
