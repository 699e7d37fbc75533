import TealForms.Compile
import TealForms.Proofs.Build.Agreement
import TealForms.Proofs.Build.Failed
import TealForms.Proofs.Forms.Comparison

set_option autoImplicit false

namespace TealForms

namespace Dialect

def lenient (dialect : Dialect) : Dialect := { dialect with options := { dialect.options with strict := false } }

def Spares {α : Type} (strict lenient : Except Fault α) : Prop :=
  lenient = strict ∨ ∃ fault, strict = .error fault ∧ fault.isCheck = true

section

variable (dialect : Dialect) (token : Token) (children : List Node)

theorem check_spares (instruction : Instruction) :
    Spares (dialect.check instruction children) (dialect.lenient.check instruction children) := by
  rw [check]
  split
  · split
    · rename_i fault broken
      exact .inr ⟨fault, rfl, instruction.fault_check dialect.table children fault broken⟩
    · exact .inl rfl
  · exact .inl rfl

theorem bind_spares {α β : Type} (first : Except Fault α) (next other : α → Except Fault β)
    (later : ∀ value, Spares (next value) (other value)) : Spares (first >>= next) (first >>= other) := by
  cases first with
  | error fault => exact .inl rfl
  | ok value => exact later value

theorem then_spares {α β : Type} (strict lenient : Except Fault α) (next : α → Except Fault β)
    (spares : Spares strict lenient) : Spares (strict >>= next) (lenient >>= next) := by
  rcases spares with rfl | ⟨fault, rfl, check⟩
  · exact .inl rfl
  · exact .inr ⟨fault, rfl, check⟩

theorem opcode_spares :
    Spares (dialect.resolveOpcode token children) (dialect.lenient.resolveOpcode token children) := by
  refine bind_spares (dialect.record (dialect.opcodeName token)) _ _ fun record => ?_
  dsimp only
  rw [show dialect.lenient.isExempt token = dialect.isExempt token from rfl]
  split
  · exact .inl rfl
  · exact then_spares _ _ _ (dialect.check_spares children _)

theorem literal_spares (name : String) :
    Spares (dialect.resolveLiteral name token children) (dialect.lenient.resolveLiteral name token children) :=
  bind_spares (dialect.record name) _ _ fun _ => then_spares _ _ _ (dialect.check_spares children _)

theorem access_spares (name : String) (slot : Nat) :
    Spares (dialect.resolveAccess name slot children) (dialect.lenient.resolveAccess name slot children) :=
  bind_spares (dialect.record name) _ _ fun _ => then_spares _ _ _ (dialect.check_spares children _)

theorem resolve_spares (before : Allocations) :
    dialect.lenient.resolve before token children = dialect.resolve before token children ∨
      ∃ fault after, dialect.resolve before token children = (.error fault, after) ∧ fault.isCheck = true := by
  have paired {strict lenient : Except Fault (Kind Node)} (after : Allocations) (spares : Spares strict lenient) :
      (lenient, after) = (strict, after) ∨
        ∃ fault left, (strict, after) = (.error fault, left) ∧ fault.isCheck = true := by
    rcases spares with rfl | ⟨fault, rfl, check⟩
    · exact .inl rfl
    · exact .inr ⟨fault, after, rfl, check⟩
  rw [resolve, resolve]
  cases token.kind with
  | opcode => exact paired before (dialect.opcode_spares token children)
  | bytes => exact paired before (dialect.literal_spares token children "byte")
  | integer => exact paired before (dialect.literal_spares token children "int")
  | scratch =>
      dsimp only
      rw [resolveScratch, resolveScratch]
      split
      · split
        · exact paired before (dialect.access_spares children "load" _)
        · exact .inl rfl
      · rw [show dialect.lenient.options.reuse = dialect.options.reuse from rfl]
        split
        · exact paired _ (dialect.access_spares children "store" _)
        · exact .inl rfl
  | _ => exact .inl rfl

end

-- Without the checks all goes the same way, until a check fails.
def leniency (dialect : Dialect) : Comparison dialect dialect.lenient where
  token := Eq
  node := Eq
  allocations := Eq
  fault := Eq
  excused fault := fault.value.isCheck = true
  kinds := by
    rintro token _ rfl
    rfl
  invalid := by
    rintro token _ rfl _
    exact .inr rfl
  unclosed := by
    rintro token _ rfl
    exact .inr rfl
  builds := by
    rintro before _ token _ children others rfl rfl below
    obtain rfl := List.forall₂_eq_eq_eq ▸ below
    rw [build, build]
    rcases dialect.resolve_spares token.value children before with same | ⟨fault, after, failed, check⟩
    · rw [same]
      rcases dialect.resolve before token.value children with ⟨fault | kind, after⟩
      · exact .inr ⟨_, _, rfl, rfl⟩
      · exact ⟨_, _, rfl, rfl, rfl⟩
    · rw [failed]
      exact .inl check

theorem compile_lenient (dialect : Dialect) (source : Source) :
    dialect.leniency.Follows Eq (dialect.compile source) (dialect.lenient.compile source) := by
  refine dialect.leniency.parse_follows source.scan source.scan {} {} source.start source.start ?_ rfl rfl
  rw [List.forall₂_same]
  rintro (failure | token) _
  · exact .inr rfl
  · exact rfl

end Dialect

end TealForms
