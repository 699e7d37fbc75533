import TealForms.Proofs.Forms.Grammar
import TealForms.Proofs.Session.Scratch

set_option autoImplicit false

namespace TealForms

structure Heading where
  head : Token
  filled : Bool := false

namespace Heading

def defines? (heading : Heading) : Option String :=
  if heading.head.kind = .scratch ∧ heading.filled = true then some heading.head.text else none

def holds (child : Token) : List Heading → List Heading
  | [] => []
  | heading :: outer => { heading with filled := heading.filled || child.kind ≠ .comment } :: outer

-- Tokens behind the first one that is refused define nothing more.
def definitions (waiting : Bool) (opened : List Heading) : List Scanned → List String
  | [] => []
  | .error _ :: _ => []
  | .ok token :: rest =>
      match waiting, token.value.kind with
      | true, .opening | true, .closing | _, .root => []
      | true, _ => definitions false ({ head := token.value } :: opened) rest
      | false, .opening => definitions true opened rest
      | false, .closing =>
          match opened with
          | [] => []
          | heading :: outer => heading.defines?.toList ++ definitions false (holds heading.head outer) rest
      | false, _ => definitions false (holds token.value opened) rest

end Heading

def Scanned.definitions (tokens : List Scanned) : List String := Heading.definitions false [] tokens

def OpenForm.heading (form : OpenForm) : Heading :=
  ⟨form.head.value, !(Node.significant form.children).isEmpty⟩

def Nesting.definitions (nesting : Nesting) (tokens : List Scanned) : List String :=
  Heading.definitions nesting.pending.isSome (nesting.forms.map OpenForm.heading) tokens

namespace Nesting

def Made (call : Call) (node : Node) : Prop := node.isComment = decide (call.token.value.kind = .comment)

theorem heading_defines (form : OpenForm) :
    form.heading.defines? = Call.defines? ⟨form.head, form.children.reverse⟩ := by
  rw [Heading.defines?, Call.defines?, OpenForm.heading, Node.significant, Node.significant, List.filter_reverse,
    List.isEmpty_reverse]
  simp only [Bool.not_eq_true']

theorem forms_made (nesting : Nesting) (call : Call) (node : Node) (made : Made call node) :
    (nesting.add node).forms.map OpenForm.heading =
      Heading.holds call.token.value (nesting.forms.map OpenForm.heading) := by
  obtain ⟨pending, forms, finished⟩ := nesting
  cases forms with
  | nil => rfl
  | cons form outer =>
      have filled : (!(Node.significant (node :: form.children)).isEmpty) =
          (!(Node.significant form.children).isEmpty || decide (call.token.value.kind ≠ .comment)) := by
        rw [Made] at made
        by_cases comment : call.token.value.kind = .comment <;> simp_all [Node.significant]
      simp [add, Heading.holds, OpenForm.heading, filled]

theorem definitions_quiet (nesting next : Nesting) (token : Located Token) (rest : List Scanned)
    (shifted : nesting.shift token = some (next, none)) :
    nesting.definitions (.ok token :: rest) = next.definitions rest := by
  obtain ⟨pending, forms, finished⟩ := nesting
  obtain ⟨⟨kind, text⟩, location⟩ := token
  cases pending <;> cases kind <;> cases forms <;> cases shifted <;> rfl

theorem definitions_call (nesting next : Nesting) (token : Located Token) (rest : List Scanned) (call : Call)
    (node : Node) (shifted : nesting.shift token = some (next, some call)) (made : Made call node) :
    nesting.definitions (.ok token :: rest) = call.defines?.toList ++ (next.add node).definitions rest := by
  have opened := next.forms_made call node made
  have still : (next.add node).pending = next.pending := (next.add_forms node).1
  rw [definitions, definitions, opened, still]
  obtain ⟨pending, forms, finished⟩ := nesting
  obtain ⟨⟨kind, text⟩, location⟩ := token
  cases pending with
  | some parenthesis => cases kind <;> cases shifted
  | none =>
      cases kind with
      | closing =>
          cases forms with
          | nil => cases shifted
          | cons form outer =>
              cases shifted
              rw [← heading_defines]
              rfl
      | _ => cases shifted <;> rfl

theorem exists_made (call : Call) : ∃ node, Made call node := by
  by_cases comment : call.token.value.kind = .comment
  · exact ⟨.mk call.token .comment [], by simp [Made, Node.isComment, comment]⟩
  · exact ⟨.mk call.token .group [], by simp [Made, Node.isComment, comment]⟩

end Nesting

namespace Dialect

theorem built_made (dialect : Dialect) (before after : Allocations) (call : Call) (node : Node)
    (built : dialect.build before call.token call.children = (.ok node, after)) : Nesting.Made call node := by
  obtain ⟨kind, rfl, settled⟩ := dialect.build_settled before after call.token call.children node built
  rw [Nesting.Made]
  cases settled with
  | literal _ _ named => rcases named with ⟨named, _⟩ | ⟨named, _⟩ <;> simp [Node.isComment, named]
  | opcode _ named | load _ _ named | store _ _ _ named | reference _ named | definition _ _ named | label named
  | comment named | root named | case named | loop named | choice named | group named | transaction named =>
      simp [Node.isComment, named]

theorem call_prefix (dialect : Dialect) (before : Allocations) (call : Call) :
    (dialect.callResult before call).2.scratch <+: before.scratch ++ call.defines?.toList := by
  rw [call_table]
  cases call.defines? with
  | none => simp
  | some name =>
      dsimp only
      rw [Allocations.withSlot]
      split
      · exact List.prefix_append _ _
      · exact List.prefix_refl _

section

variable (dialect : Dialect) (nesting : Nesting) (before after : Allocations) (token : Located Token)
variable (rest : List Scanned)

-- Each slot that is taken is taken for the next one of the variables.
theorem step_definitions (next : Nesting) (stepped : dialect.step nesting before token = (.ok next, after)) :
    ∃ defined, nesting.definitions (.ok token :: rest) = defined ++ next.definitions rest ∧
      after.scratch <+: before.scratch ++ defined := by
  rw [step_shift] at stepped
  rcases shifted : nesting.shift token with _ | ⟨middle, _ | call⟩
  · rw [shifted] at stepped
    cases stepped
  · rw [shifted] at stepped
    cases stepped
    exact ⟨[], nesting.definitions_quiet next token rest shifted, List.prefix_append _ _⟩
  · rw [shifted] at stepped
    dsimp only at stepped
    rw [finish_then] at stepped
    obtain ⟨node, left, built, added⟩ := then_ok _ _ _ _ stepped
    cases added
    have table := dialect.call_prefix before call
    rw [callResult, built] at table
    have made := dialect.built_made before after call node built
    exact ⟨_, nesting.definitions_call middle token rest call node shifted made, table⟩

theorem step_room (fault : Located Fault) (stepped : dialect.step nesting before token = (.error fault, after))
    (room : before.scratch.length + (nesting.definitions (.ok token :: rest)).length ≤ scratchCapacity)
    (name : String) : fault.value ≠ .scratchOverflow name := by
  rw [step_shift] at stepped
  rcases shifted : nesting.shift token with _ | ⟨middle, _ | call⟩
  · rw [shifted] at stepped
    cases stepped
    intro same
    cases same
  · rw [shifted] at stepped
    cases stepped
  · rw [shifted] at stepped
    dsimp only at stepped
    rw [finish_then] at stepped
    rcases built : dialect.build before call.token call.children with ⟨found | node, left⟩
    · rw [built] at stepped
      cases stepped
      obtain ⟨value, location⟩ := fault
      rintro rfl
      obtain ⟨node, made⟩ := Nesting.exists_made call
      have failed : (dialect.callResult before call).1 = .error ⟨.scratchOverflow name, location⟩ := by
        rw [callResult, built]
      obtain ⟨defines, _, full, _⟩ := (dialect.overflow_iff before call name location).mp failed
      rw [nesting.definitions_call middle token rest call node shifted made, defines] at room
      simp at room
      omega
    · rw [built] at stepped
      cases stepped

end

theorem feed_room (dialect : Dialect) (tokens : List Scanned) (nesting : Nesting) (before after : Allocations)
    (fault : Located Fault) (fed : dialect.feed nesting before tokens = (.error fault, after))
    (room : before.scratch.length + (nesting.definitions tokens).length ≤ scratchCapacity) (name : String) :
    fault.value ≠ .scratchOverflow name := by
  induction tokens generalizing nesting before with
  | nil => cases fed
  | cons scanned rest ih =>
      cases scanned with
      | error failure =>
          cases fed
          intro same
          cases same
      | ok token =>
          rw [feed_then] at fed
          rcases stepped : dialect.step nesting before token with ⟨found | next, left⟩
          · rw [stepped] at fed
            cases fed
            exact dialect.step_room nesting before after token rest fault stepped room name
          · rw [stepped] at fed
            obtain ⟨defined, split, table⟩ := dialect.step_definitions nesting before left token rest next stepped
            have bound := table.length_le
            rw [split, List.length_append] at room
            rw [List.length_append] at bound
            exact ih next left fed (by omega)

theorem parse_room (dialect : Dialect) (start : Location) (tokens : List Scanned) (after : Allocations)
    (fault : Located Fault) (parsed : dialect.parse {} start tokens = (.error fault, after))
    (few : (Scanned.definitions tokens).length ≤ scratchCapacity) (name : String) :
    fault.value ≠ .scratchOverflow name := by
  rw [parse_then] at parsed
  rcases fed : dialect.feed {} {} tokens with ⟨found | nesting, left⟩
  · rw [fed] at parsed
    cases parsed
    exact dialect.feed_room tokens {} {} after fault fed ((Nat.zero_add _).trans_le few) name
  · rw [fed, andThen] at parsed
    split at parsed
    · cases parsed
      intro same
      cases same
    · cases parsed

end Dialect

end TealForms
