import TealForms.Proofs.Command.Emission

set_option autoImplicit false

namespace TealForms

namespace Command

def isPlain : Command → Bool
  | .plain _ _ => true
  | _ => false

def instructions (commands : List Command) : List Command := commands.filter isPlain

theorem instructions_append (first second : List Command) :
    instructions (first ++ second) = instructions first ++ instructions second :=
  List.filter_append first second

theorem instructions_steady (commands : List Command) : instructions (steady commands) = instructions commands := by
  rw [instructions, steady, List.filter_filter]
  refine List.filter_congr fun command _ => ?_
  cases command <;> rfl

end Command

namespace Node

theorem guarded_instructions (target : String) (children : List Node) :
    Command.instructions (guarded target children) = Command.instructions (commandsAll children) := by
  rw [← Command.instructions_steady, guarded_steady, Command.instructions_steady]

theorem cases_instructions (exit : String) (nodes : List Node)
    (uniform : ∀ node ∈ significant nodes, node.isCase = true) :
    Command.instructions (cases exit nodes) = Command.instructions (commandsAll nodes) := by
  rw [← Command.instructions_steady, cases_steady exit nodes uniform, Command.instructions_steady]

theorem instructions_own (token : Located Token) (kind : Kind Node) (children : List Node)
    (sound : Regular (.mk token kind children)) (emitted : kind ≠ .definition) (visible : kind ≠ .comment)
    (direct : ∀ bound, kind ≠ .reference bound) :
    Command.instructions (commands (.mk token kind children)) =
      Command.instructions (commandsAll children) ++ Command.instructions (own (.mk token kind children)) := by
  cases kind with
  | definition => exact absurd rfl emitted
  | comment => exact absurd rfl visible
  | reference bound => exact absurd rfl (direct bound)
  | root version => exact (List.append_nil _).symm
  | label => exact (List.append_nil _).symm
  | group => exact (List.append_nil _).symm
  | case label => rw [commands, Command.instructions_append, guarded_instructions, own]
  | choice label => rw [commands, Command.instructions_append, cases_instructions label children sound, own]
  | loop label =>
      have body : Command.instructions (commands (.mk token (.loop label) children)) =
          Command.instructions (guarded (loopEnd label) children) := by
        rw [commands, Command.instructions_append]
        exact List.append_nil _
      rw [body, guarded_instructions]
      exact (List.append_nil _).symm
  | transaction =>
      rw [commands, Command.instructions_append]
      rfl
  | _ => rw [commands, Command.instructions_append, own]

end Node

end TealForms
