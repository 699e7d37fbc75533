import TealForms.Build
import TealForms.Proofs.Node.View

set_option autoImplicit false

namespace TealForms

namespace Allocations

-- The literals that constants are bound to are trees; nothing else of the allocations has a location or a comment.
def seen (view : View) (allocations : Allocations) : Allocations :=
  { allocations with constants := allocations.constants.map fun entry => (entry.1, entry.2.seen view) }

section

variable (view : View) (allocations : Allocations)

theorem allocate_slot_seen (reuse : Bool) (name : String) :
    (allocations.seen view).allocateSlot reuse name =
      ((allocations.allocateSlot reuse name).1, (allocations.allocateSlot reuse name).2.seen view) := by
  rw [allocateSlot, allocateSlot, show (allocations.seen view).slot? name = allocations.slot? name from rfl]
  split
  · rfl
  · rw [show (allocations.seen view).scratch = allocations.scratch from rfl]
    dsimp only
    split <;> rfl

theorem constant_seen (name : String) :
    (allocations.seen view).constant? name = (allocations.constant? name).map (Literal.seen view) := by
  rw [constant?, constant?, seen, List.find?_map, Option.map_map, Option.map_map]
  rfl

theorem bind_seen (name : String) (literal : Literal Node) :
    (allocations.seen view).bind name (literal.seen view) = (allocations.bind name literal).seen view := by
  simp [bind, seen, Literal.seen, View.located]

end

end Allocations

namespace View

def resolution (view : View) (resolution : Resolution) : Resolution :=
  (resolution.1.map (Kind.seen view), resolution.2.seen view)

def outcome {α : Type} (view : View) (value : α → α) (outcome : Except (Located Fault) α × Allocations) :
    Except (Located Fault) α × Allocations :=
  ((outcome.1.map value).mapError view.located, outcome.2.seen view)

end View

namespace Dialect

section

variable (dialect : Dialect) (view : View) (token : Token) (children : List Node)

theorem check_seen (instruction : Instruction) :
    dialect.check instruction (Node.seenAll view children) = dialect.check instruction children := by
  rw [check, check, Instruction.fault?, Instruction.fault?, Instruction.stackFault?, Instruction.stackFault?,
    Node.seen_returns_all]

theorem opcode_seen :
    dialect.resolveOpcode token (Node.seenAll view children) =
      (dialect.resolveOpcode token children).map (Kind.seen view) := by
  rw [resolveOpcode, resolveOpcode]
  cases dialect.record (dialect.opcodeName token) with
  | error fault => rfl
  | ok record =>
      dsimp only [bind, Except.bind]
      split
      · rfl
      · rw [check_seen]
        cases dialect.check ⟨record, token.args⟩ children <;> rfl

theorem literal_seen (name : String) :
    dialect.resolveLiteral name token (Node.seenAll view children) =
      (dialect.resolveLiteral name token children).map (Kind.seen view) := by
  rw [resolveLiteral, resolveLiteral]
  cases dialect.record name with
  | error fault => rfl
  | ok record =>
      dsimp only [bind, Except.bind]
      rw [check_seen]
      cases dialect.check ⟨record, [token.text]⟩ children <;> rfl

theorem access_seen (name : String) (slot : Nat) :
    dialect.resolveAccess name slot (Node.seenAll view children) =
      (dialect.resolveAccess name slot children).map (Kind.seen view) := by
  rw [resolveAccess, resolveAccess]
  cases dialect.record name with
  | error fault => rfl
  | ok record =>
      dsimp only [bind, Except.bind]
      rw [check_seen]
      cases dialect.check ⟨record, [toString slot]⟩ children <;> rfl

theorem scratch_seen (before : Allocations) :
    dialect.resolveScratch (before.seen view) token (Node.seenAll view children) =
      view.resolution (dialect.resolveScratch before token children) := by
  rw [resolveScratch, resolveScratch, Node.seen_significant]
  cases Node.significant children with
  | nil =>
      rw [List.map_nil]
      dsimp only
      rw [show (before.seen view).slot? token.text = before.slot? token.text from rfl]
      cases before.slot? token.text with
      | none => rfl
      | some slot => exact congrArg (·, _) (dialect.access_seen view children "load" slot)
  | cons value rest =>
      rw [List.map_cons]
      dsimp only
      rw [before.allocate_slot_seen view]
      rcases before.allocateSlot dialect.options.reuse token.text with ⟨none | slot, after⟩
      · rfl
      · exact congrArg (·, _) (dialect.access_seen view children "store" slot)

theorem constant_seen (before : Allocations) :
    (before.seen view).resolveConstant token (Node.seenAll view children) =
      view.resolution (before.resolveConstant token children) := by
  rw [Allocations.resolveConstant, Allocations.resolveConstant, Node.seen_significant]
  rcases Node.significant children with _ | ⟨value, _ | ⟨second, rest⟩⟩
  · rw [List.map_nil]
    dsimp only
    rw [before.constant_seen view]
    cases before.constant? token.text <;> rfl
  · rw [List.map_singleton]
    dsimp only
    rw [before.constant_seen view, Node.seen_literal]
    cases value.literal? with
    | none => rfl
    | some literal =>
        cases before.constant? token.text with
        | none => exact congrArg (Except.ok Kind.definition, ·) (before.bind_seen view token.text literal)
        | some bound => rfl
  · rfl

theorem macro_seen (before : Allocations) (keyword : Keyword) :
    (before.seen view).resolveMacro keyword (Node.seenAll view children) =
      view.resolution (before.resolveMacro keyword children) := by
  unfold Allocations.resolveMacro
  dsimp only
  rw [Node.seen_all_property view Node.isCase (Node.seen_case view),
    Node.seen_all_property view Node.isField (Node.seen_field view), Node.seen_significant, List.length_map]
  split
  · rfl
  · cases keyword with
    | choice => dsimp only; split <;> rfl
    | transaction => dsimp only; split <;> rfl
    | _ => rfl

theorem resolve_seen (before : Allocations) :
    dialect.resolve (before.seen view) token (Node.seenAll view children) =
      view.resolution (dialect.resolve before token children) := by
  rw [resolve, resolve]
  cases token.kind with
  | opcode => exact congrArg (·, _) (dialect.opcode_seen view token children)
  | bytes => exact congrArg (·, _) (dialect.literal_seen view token children "byte")
  | integer => exact congrArg (·, _) (dialect.literal_seen view token children "int")
  | scratch => exact dialect.scratch_seen view token children before
  | constant => exact constant_seen view token children before
  | keyword keyword => exact macro_seen view children before keyword
  | label =>
      dsimp only
      rw [Allocations.resolveLabel, Allocations.resolveLabel,
        show (before.seen view).labels = before.labels from rfl]
      split <;> rfl
  | _ => rfl

end

theorem build_seen (dialect : Dialect) (view : View) (before : Allocations) (token : Located Token)
    (children : List Node) :
    dialect.build (before.seen view) (view.located token) (Node.seenAll view children) =
      view.outcome (Node.seen view) (dialect.build before token children) := by
  rw [build, build, View.located, resolve_seen]
  rcases dialect.resolve before token.value children with ⟨fault | kind, after⟩
  · rfl
  · exact congrArg (Except.ok ·, _) (Node.seen_mk view token kind children).symm

end Dialect

end TealForms
