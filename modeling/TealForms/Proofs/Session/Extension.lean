import TealForms.Compile
import TealForms.Proofs.Build.Effect
import TealForms.Proofs.Session.Calls

set_option autoImplicit false

namespace TealForms

namespace Dialect

section

variable (dialect : Dialect) (before : Allocations)

theorem call_extends (call : Call) : before.Extends (dialect.callResult before call).2 :=
  effect_extends before _ call.token call.children _ (dialect.build_effect before call.token call.children)

theorem replay_extends (calls : List Call) : before.Extends (dialect.replay before calls) := by
  induction calls generalizing before with
  | nil => exact before.extends_self
  | cons call rest ih => exact before.extends_trans _ _ (dialect.call_extends before call) (ih _)

theorem session_extends (steps : List Step) : before.Extends (dialect.session before steps) := by
  rw [← dialect.session_replay before steps]
  exact dialect.replay_extends before _

end

/-- Whatever allocations a call finds, it leaves two of the three tables as they are and adds to the third one at most;
of the calls that fail only a definition may have added its slot. So slots, bound literals and reserved names stay
through the rest of any session. -/
theorem session_keeps (dialect : Dialect) (before : Allocations) :
    (∀ token children,
      let outcome := dialect.build before token children
      Effect before token children outcome.1 outcome.2 ∧ before.Extends outcome.2 ∧ before.DiffersOnce outcome.2) ∧
    ∀ steps,
      let after := dialect.session before steps
      before.Extends after ∧
      (∀ name slot, before.slot? name = some slot → after.slot? name = some slot) ∧
      (∀ name literal, before.constant? name = some literal → after.constant? name = some literal) ∧
      ∀ name ∈ before.labels, name ∈ after.labels := by
  refine ⟨?_, ?_⟩
  · intro token children outcome
    have effect := dialect.build_effect before token children
    exact ⟨effect, effect_extends before _ token children _ effect, effect_once before _ token children _ effect⟩
  · intro steps after
    have grown := dialect.session_extends before steps
    exact ⟨grown, before.extends_slot after grown, before.extends_constant after grown,
      fun name member => grown.labels.subset member⟩

theorem refused_constant_stays :
    let first : Source := .ofString "(@c 1) ($y 3 4)" "first"
    let second : Source := .ofString "(@c 2)" "second"
    let before := standard.session {} [.parse first.start first.scan]
    let after := standard.session before [.parse second.start second.scan]
    (∃ literal, before.constant? "@c" = some literal ∧ after.constant? "@c" = some literal) ∧
    before.slot? "$y" = some 0 ∧ after.slot? "$y" = some 0 ∧
    (standard.parse before second.start second.scan).1.toOption.isNone = true := by
  intro first second before after
  obtain ⟨_, slots, constants, _⟩ := (standard.session_keeps before).2 [.parse second.start second.scan]
  have left : (before.constant? "@c").isSome = true ∧ before.slot? "$y" = some 0 := by decide +kernel
  obtain ⟨literal, known⟩ := Option.isSome_iff_exists.mp left.1
  exact ⟨⟨literal, known, constants "@c" literal known⟩, left.2, slots "$y" 0 left.2, by decide +kernel⟩

end Dialect

end TealForms
