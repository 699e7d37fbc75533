import TealForms.Forms

set_option autoImplicit false

namespace TealForms

namespace Nesting

def forest (nesting : Nesting) : List Node :=
  nesting.finished.reverse ++ nesting.forms.reverse.flatMap fun form => form.children.reverse

theorem forest_add (nesting : Nesting) (node : Node) : (nesting.add node).forest = nesting.forest ++ [node] := by
  unfold add forest
  cases nesting.forms with
  | nil => simp
  | cons form outer => simp

theorem forest_open (nesting : Nesting) (form : OpenForm) (outer : List OpenForm)
    (forms : nesting.forms = form :: outer) :
    nesting.forest = { nesting with forms := outer }.forest ++ form.children.reverse := by
  simp [forest, forms]

theorem add_heads (nesting : Nesting) (node : Node) (form : OpenForm) (member : form ∈ (nesting.add node).forms) :
    ∃ old ∈ nesting.forms, form.head = old.head := by
  rw [add] at member
  cases forms : nesting.forms with
  | nil => simp [forms] at member
  | cons first outer =>
      rw [forms] at member
      rcases List.mem_cons.mp member with same | later
      · exact ⟨first, by simp, by rw [same]⟩
      · exact ⟨form, by simp [later], rfl⟩

end Nesting

namespace Dialect

section

variable (dialect : Dialect) (origin : Located Token → Prop) (invariant : List Node → Allocations → Prop)

-- What every building step keeps holds of the finished program.
def Preserves : Prop :=
  ∀ rest children before token node after, origin token → invariant (rest ++ children) before →
    dialect.build before token children = (.ok node, after) → invariant (rest ++ [node]) after

def Holds (nesting : Nesting) (allocations : Allocations) : Prop :=
  (∀ form ∈ nesting.forms, origin form.head) ∧ invariant nesting.forest allocations

variable {dialect origin invariant}

theorem finish_preserves (preserves : dialect.Preserves origin invariant) (nesting next : Nesting)
    (before after : Allocations) (token : Located Token) (children : List Node) (known : origin token)
    (heads : ∀ form ∈ nesting.forms, origin form.head) (holds : invariant (nesting.forest ++ children) before)
    (finished : dialect.finish nesting before token children = (.ok next, after)) :
    Holds origin invariant next after := by
  rw [finish] at finished
  split at finished
  · rename_i node left built
    cases finished
    refine ⟨?_, ?_⟩
    · intro form member
      obtain ⟨old, oldMember, same⟩ := nesting.add_heads node form member
      rw [same]
      exact heads old oldMember
    · rw [nesting.forest_add node]
      exact preserves nesting.forest children before token node _ known holds built
  · cases finished

theorem step_preserves (preserves : dialect.Preserves origin invariant) (nesting next : Nesting)
    (before after : Allocations) (token : Located Token) (known : origin token)
    (holds : Holds origin invariant nesting before)
    (stepped : dialect.step nesting before token = (.ok next, after)) : Holds origin invariant next after := by
  obtain ⟨heads, kept⟩ := holds
  rw [step] at stepped
  split at stepped
  · cases stepped
  · cases stepped
  · cases stepped
  · cases stepped
    refine ⟨?_, by simpa [Nesting.forest] using kept⟩
    intro form member
    rcases List.mem_cons.mp member with same | later
    · rw [same]
      exact known
    · exact heads form later
  · cases stepped
    exact ⟨heads, kept⟩
  · split at stepped
    · cases stepped
    · rename_i form outer forms
      have known : origin form.head := heads form (by simp [forms])
      have others : ∀ form ∈ outer, origin form.head := fun form member => heads form (by simp [forms, member])
      rw [nesting.forest_open form outer forms] at kept
      exact finish_preserves preserves _ next before after form.head _ known others kept stepped
  · exact finish_preserves preserves nesting next before after token [] known heads (by simpa using kept) stepped

theorem feed_preserves (preserves : dialect.Preserves origin invariant) (tokens : List Scanned)
    (known : ∀ token, .ok token ∈ tokens → origin token) (nesting next : Nesting) (before after : Allocations)
    (holds : Holds origin invariant nesting before)
    (fed : dialect.feed nesting before tokens = (.ok next, after)) : Holds origin invariant next after := by
  induction tokens generalizing nesting before with
  | nil =>
      cases fed
      exact holds
  | cons scanned rest ih =>
      cases scanned with
      | error failure => cases fed
      | ok token =>
          rw [feed] at fed
          split at fed
          · rename_i middle left stepped
            have kept := step_preserves preserves nesting middle before left token (known token (by simp)) holds stepped
            exact ih (fun token member => known token (by simp [member])) middle left kept fed
          · cases fed

theorem parse_preserves (preserves : dialect.Preserves origin invariant) (start : Location) (tokens : List Scanned)
    (known : ∀ token, .ok token ∈ tokens → origin token) (root : origin ⟨.root, start⟩) (before after : Allocations)
    (initial : invariant [] before) (tree : Node) (parsed : dialect.parse before start tokens = (.ok tree, after)) :
    invariant [tree] after := by
  rw [parse] at parsed
  split at parsed
  · cases parsed
  · rename_i nesting left fed
    have kept := (feed_preserves preserves tokens known {} nesting before left ⟨by simp, initial⟩ fed).2
    split at parsed
    · cases parsed
    · rename_i closed
      have forms : nesting.forms = [] := by
        cases open_ : nesting.forms with
        | nil => rfl
        | cons form outer => simp [Nesting.innermost, open_] at closed
      have whole : nesting.forest = nesting.finished.reverse := by simp [Nesting.forest, forms]
      rw [whole] at kept
      exact preserves [] nesting.finished.reverse left ⟨.root, start⟩ tree after root kept parsed

end

end Dialect

end TealForms
