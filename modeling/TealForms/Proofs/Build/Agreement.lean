import TealForms.Proofs.Allocations.Fresh
import TealForms.Proofs.Build.Settled
import TealForms.Proofs.Node.Agreement

set_option autoImplicit false

namespace TealForms

namespace Allocations

-- If they are linked, the constants of the first side are bound on the second as well, to literals that agree;
-- otherwise the second side may lack them.
structure Agree (same : Command → Command → Prop) (linked : Prop) (before left : Allocations) : Prop where
  scratch : left.scratch = before.scratch
  labels : left.labels = before.labels
  counters : left.counters = before.counters
  unbound : ∀ name, before.constant? name = none → left.constant? name = none
  bound : linked → ∀ name literal, before.constant? name = some literal →
    ∃ twin, left.constant? name = some twin ∧ literal.Agrees same twin

theorem constant_bind (allocations : Allocations) (name other : String) (literal : Literal Node) :
    (allocations.bind name literal).constant? other =
      (allocations.constant? other).or (if name = other then some literal else none) := by
  rw [constant?, constant?, bind, List.find?_append]
  cases allocations.constants.find? fun entry => entry.1 = other with
  | some entry => rfl
  | none => by_cases named : name = other <;> simp [named]

theorem empty_agree (same : Command → Command → Prop) (linked : Prop) : Agree same linked {} {} :=
  ⟨rfl, rfl, rfl, fun _ _ => rfl, fun _ _ _ found => by cases found⟩

section

variable {same : Command → Command → Prop} {linked : Prop} {before left : Allocations}
variable (agree : Agree same linked before left)

include agree

theorem slot_agree (name : String) : left.slot? name = before.slot? name := by
  rw [slot?, slot?, agree.scratch]

theorem allocate_slot_agree (after : Allocations) (reuse : Bool) (name : String) (slot : Option Nat)
    (allocated : before.allocateSlot reuse name = (slot, after)) :
    ∃ later, left.allocateSlot reuse name = (slot, later) ∧ Agree same linked after later := by
  rw [allocateSlot] at allocated ⊢
  rw [slot_agree agree, agree.scratch]
  split at allocated
  · cases allocated
    exact ⟨left, rfl, agree⟩
  · dsimp only at allocated ⊢
    split at allocated
    · rename_i room
      cases allocated
      rw [if_pos room]
      exact ⟨_, rfl, rfl, agree.labels, agree.counters, agree.unbound, agree.bound⟩
    · rename_i full
      cases allocated
      rw [if_neg full]
      exact ⟨left, rfl, agree⟩

theorem allocate_label_agree (family : Family) :
    (left.allocateLabel family).1 = (before.allocateLabel family).1 ∧
      Agree same linked (before.allocateLabel family).2 (left.allocateLabel family).2 := by
  obtain ⟨label, labels, counters⟩ := before.allocate_label_same left family agree.labels agree.counters
  exact ⟨label, agree.scratch, labels, counters, agree.unbound, agree.bound⟩

theorem declare_agree (label : String) : Agree same linked (before.declare label) (left.declare label) :=
  ⟨agree.scratch, congrArg (· ++ [label]) agree.labels, agree.counters, agree.unbound, agree.bound⟩

theorem bind_agree (name : String) (literal twin : Literal Node)
    (alike : literal.Agrees same twin) : Agree same linked (before.bind name literal) (left.bind name twin) := by
  refine ⟨agree.scratch, agree.labels, agree.counters, ?_, ?_⟩
  · intro other absent
    rw [constant_bind, Option.or_eq_none_iff] at absent ⊢
    refine ⟨agree.unbound other absent.1, ?_⟩
    by_cases named : name = other <;> simp_all
  · intro link other found known
    rw [constant_bind, Option.or_eq_some_iff] at known
    rw [constant_bind]
    rcases known with old | ⟨absent, new⟩
    · obtain ⟨given, same, alike⟩ := agree.bound link other found old
      exact ⟨given, by rw [same, Option.some_or], alike⟩
    · rw [agree.unbound other absent, Option.none_or]
      by_cases named : name = other
      · rw [if_pos named] at new ⊢
        cases new
        exact ⟨twin, rfl, alike⟩
      · rw [if_neg named] at new
        cases new

end

end Allocations

namespace Dialect

structure Eases (second first : Dialect) : Prop where
  table : second.table = first.table
  version : second.options.version = first.options.version
  reuse : second.options.reuse = first.options.reuse
  strict : second.options.strict = true → first.options.strict = true

structure Reads (first second : Dialect) (token other : Token) : Prop where
  kind : other.kind = token.kind
  text : token.kind ≠ .opcode → other.text = token.text
  name : token.kind = .opcode → second.opcodeName other = first.opcodeName token
  args : token.kind = .opcode → other.args = token.args
  exempt : token.kind = .opcode → second.isExempt other = false → first.isExempt token = false

theorem eases_self (dialect : Dialect) : dialect.Eases dialect := ⟨rfl, rfl, rfl, id⟩

theorem reads_self (dialect : Dialect) (token : Token) : dialect.Reads dialect token token :=
  ⟨rfl, fun _ => rfl, fun _ => rfl, fun _ => rfl, fun _ => id⟩

-- The relation lets all commands be but, unless constants are linked, the literals that stand for them.
structure Lets (same : Command → Command → Prop) (linked : Prop) : Prop where
  steady : Node.Steady same
  bare : ∀ instruction, same (.plain instruction none) (.plain instruction none)
  access : ∀ instruction name, instruction.record.name = "load" ∨ instruction.record.name = "store" →
    same (.plain instruction (some name)) (.plain instruction (some name))
  linked : linked → ∀ command, same command command

section

variable {same : Command → Command → Prop} {linked : Prop} {first second : Dialect} {children others : List Node}
variable (eases : second.Eases first) (below : List.Forall₂ (Node.Agrees same) children others)

include eases below

theorem accepts_agree (instruction : Instruction) (accepted : first.Accepts instruction children) :
    second.Accepts instruction others := by
  intro strict
  have passed := accepted (eases.strict strict)
  rw [Instruction.fault?, Instruction.stackFault?] at passed ⊢
  rwa [eases.table, Node.returns_agree below]

theorem settled_agree (lets : Lets same linked) (before left after : Allocations) (token other : Token)
    (kind : Kind Node) (settled : first.Settled before token children kind after)
    (reads : first.Reads second token other) (kept : Allocations.Agree same linked before left)
    (refers : ∀ literal, kind = .reference literal → linked) :
    ∃ twin later, second.Settled left other others twin later ∧ Node.Matches same token other kind twin ∧
      Allocations.Agree same linked after later := by
  have significant := Node.significant_agree below
  have passed := accepts_agree eases below
  cases settled with
  | opcode record named found accepted =>
      rw [← reads.name named, ← eases.table] at found
      rw [← reads.args named] at accepted ⊢
      refine ⟨_, left, .opcode record (reads.kind.trans named) found ?_, .opcode _ (lets.bare _), kept⟩
      exact fun checked => passed _ (accepted (reads.exempt named checked))
  | literal name record named found accepted =>
      have text := reads.text (by rcases named with ⟨named, _⟩ | ⟨named, _⟩ <;> simp [named])
      rw [← text] at accepted ⊢
      rw [← eases.table] at found
      rw [← reads.kind] at named
      exact ⟨_, left, .literal name record named found (passed _ accepted), .literal _ (lets.bare _), kept⟩
  | load record slot named bare known found accepted =>
      have text := reads.text (by simp [named])
      have own := lets.access ⟨record, [toString slot]⟩ token.text (.inl (first.table.record_name _ record found))
      rw [bare, List.forall₂_nil_left_iff] at significant
      rw [← text, ← Allocations.slot_agree kept] at known
      rw [← eases.table] at found
      rw [← reads.kind] at named
      exact ⟨_, left, .load record slot named significant known found (passed _ accepted),
        .scratch _ (by rwa [text]), kept⟩
  | store record slot after named filled allocated found accepted =>
      have text := reads.text (by simp [named])
      have own := lets.access ⟨record, [toString slot]⟩ token.text (.inr (first.table.record_name _ record found))
      obtain ⟨later, given, agree⟩ := Allocations.allocate_slot_agree kept after _ _ _ allocated
      have values : Node.significant others ≠ [] := by
        intro none
        rw [none, List.forall₂_nil_right_iff] at significant
        exact filled significant
      rw [← text, ← eases.reuse] at given
      rw [← eases.table] at found
      rw [← reads.kind] at named
      exact ⟨_, later, .store record slot later named values given found (passed _ accepted),
        .scratch _ (by rwa [text]), agree⟩
  | reference literal named bare known =>
      have text := reads.text (by simp [named])
      have link := refers literal rfl
      obtain ⟨twin, given, alike⟩ := kept.bound link token.text literal known
      rw [bare, List.forall₂_nil_left_iff] at significant
      rw [← text] at given
      rw [← reads.kind] at named
      refine ⟨_, left, .reference twin named significant given, .reference literal twin alike ?_, kept⟩
      rw [text]
      exact lets.linked link _
  | definition value literal named single read fresh =>
      have text := reads.text (by simp [named])
      rw [single] at significant
      obtain ⟨value', rest, agrees, none, values⟩ := List.forall₂_cons_left_iff.mp significant
      rw [List.forall₂_nil_left_iff.mp none] at values
      obtain ⟨twin, given, alike⟩ := agrees.literal literal read
      have absent := kept.unbound token.text fresh
      have agree := Allocations.bind_agree kept token.text literal twin alike
      rw [← text] at absent agree
      rw [← reads.kind] at named
      rw [← text]
      exact ⟨_, _, .definition value' twin named values given absent, .definition, agree⟩
  | label named fresh =>
      have text := reads.text (by simp [named])
      have label : other.labelName = token.labelName := by rw [Token.labelName, Token.labelName, text]
      have agree := Allocations.declare_agree kept token.labelName
      rw [← label] at agree
      rw [← label, ← kept.labels] at fresh
      rw [← reads.kind] at named
      rw [← label]
      exact ⟨_, _, .label named fresh, .label label, agree⟩
  | comment named => exact ⟨_, left, .comment (reads.kind.trans named), .comment, kept⟩
  | root named =>
      rw [← eases.version]
      exact ⟨_, left, .root (reads.kind.trans named), .root _, kept⟩
  | case named filled =>
      obtain ⟨label, agree⟩ := Allocations.allocate_label_agree kept .case
      rw [← label]
      rw [significant.length_eq] at filled
      exact ⟨_, _, .case (reads.kind.trans named) filled, .case _, agree⟩
  | loop named filled =>
      obtain ⟨label, agree⟩ := Allocations.allocate_label_agree kept .loop
      rw [← label]
      rw [significant.length_eq] at filled
      exact ⟨_, _, .loop (reads.kind.trans named) filled, .loop _, agree⟩
  | choice named filled cases =>
      obtain ⟨label, agree⟩ := Allocations.allocate_label_agree kept .choice
      rw [← label]
      rw [significant.length_eq] at filled
      have uniform := Node.all_agree significant Node.isCase (fun _ _ agrees => agrees.case) cases
      exact ⟨_, _, .choice (reads.kind.trans named) filled uniform, .choice _, agree⟩
  | group named => exact ⟨_, left, .group (reads.kind.trans named), .group, kept⟩
  | transaction named filled fields =>
      rw [significant.length_eq] at filled
      have uniform := Node.all_agree significant Node.isField (fun _ _ agrees => agrees.field) fields
      exact ⟨_, left, .transaction (reads.kind.trans named) filled uniform, .transaction, kept⟩

theorem build_agree (lets : Lets same linked) (before left after : Allocations) (token other : Located Token)
    (node : Node) (built : first.build before token children = (.ok node, after))
    (reads : first.Reads second token.value other.value) (kept : Allocations.Agree same linked before left)
    (refers : ∀ literal, node.kind = .reference literal → linked) :
    ∃ twin later, second.build left other others = (.ok twin, later) ∧ Node.Agrees same node twin ∧
      Allocations.Agree same linked after later := by
  obtain ⟨kind, rfl, settled⟩ := first.build_settled before after token children node built
  obtain ⟨twin, later, settled, matching, agree⟩ :=
    settled_agree eases below lets before left after token.value other.value kind settled reads kept refers
  refine ⟨_, later, second.settled_build left later other others twin settled, ?_, agree⟩
  exact Node.matches_agree same token other kind twin children others lets.steady matching below

end

end Dialect

end TealForms
