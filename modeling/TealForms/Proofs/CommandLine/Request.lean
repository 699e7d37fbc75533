import TealForms.CommandLine.Arguments

set_option autoImplicit false

namespace TealForms.CommandLine

def Chosen (given : List Given) (name : String) : Option String → Prop
  | some text => .value name text ∈ given
  | none => ∀ text, .value name text ∉ given

theorem value?_chosen (given : List Given) (name : String) : Chosen given name (value? name given) := by
  unfold value?
  cases found : given.findSome? _ with
  | some text =>
      obtain ⟨item, member, matched⟩ := List.exists_of_findSome?_eq_some found
      cases item with
      | value other value =>
          obtain ⟨rfl, rfl⟩ : other = name ∧ value = text := by simpa using matched
          exact member
      | flag other => exact nomatch matched
      | plain text => exact nomatch matched
  | none =>
      intro text member
      have missed := List.findSome?_eq_none_iff.mp found _ member
      simp at missed

structure Arranged (arguments : List String) (before after : List Given) : Prop where
  command : plains before = ["compile"]
  split : ∃ rest ignored, scan Request.programSwitches true none arguments = some (before, rest) ∧
    scan Request.compileSwitches false none rest = some (after, ignored)

-- What a compilation takes from its arguments. The table named after the command counts more.
structure Compilation.Asked (compilation : Compilation) (before after : List Given) : Prop where
  input : plains after = [compilation.input]
  lenient : compilation.strict = false ↔ .flag "no-strict" ∈ after
  version : (Chosen after "pragma-version" none ∧ compilation.version = 8) ∨
    ∃ text, Chosen after "pragma-version" (some text) ∧ number? (UInt32.size - 1) text = some compilation.version
  output : ∃ text, Chosen after "output" text ∧ compilation.output = text.getD "-"
  table : ∃ near far, Chosen after "langspec" near ∧ Chosen before "langspec" far ∧ compilation.table = near.or far

namespace Request

theorem ofCommand_found (switches : List Switch) (arguments : List String)
    (request : List Given → Option (String → Request)) (found : Request)
    (asked : ofCommand switches arguments request = some found) (command : found ≠ .help) :
    ∃ given ignored text make, scan switches false none arguments = some (given, ignored) ∧
      plains given = [text] ∧ request given = some make ∧ found = make text := by
  obtain ⟨⟨given, ignored⟩, scanned, checked⟩ := Option.bind_eq_some_iff.mp asked
  dsimp only at checked
  split at checked
  · exact nomatch checked
  · obtain ⟨make, made, chosen⟩ := Option.bind_eq_some_iff.mp checked
    split at chosen
    · split at chosen
      · exact absurd (Option.some.inj chosen).symm command
      · exact nomatch chosen
    · split at chosen
      · exact absurd (Option.some.inj chosen).symm command
      · exact ⟨given, ignored, _, make, scanned, ‹_›, made, (Option.some.inj chosen).symm⟩
    · exact nomatch chosen

theorem compile?_asked (table : Option String) (arguments : List String) (compilation : Compilation)
    (asked : compile? table arguments = some (.compile compilation)) :
    ∃ after ignored, scan compileSwitches false none arguments = some (after, ignored) ∧
      ∀ before, value? "langspec" before = table → compilation.Asked before after := by
  obtain ⟨after, ignored, text, make, scanned, plain, made, found⟩ :=
    ofCommand_found compileSwitches arguments _ _ asked (by simp)
  have given := value?_chosen after "pragma-version"
  have numbered : ∃ version, compilation = ⟨(value? "langspec" after).or table, text, version,
      !isSet "no-strict" after, (value? "output" after).getD "-"⟩ ∧
      ((Chosen after "pragma-version" none ∧ version = 8) ∨
        ∃ number, Chosen after "pragma-version" (some number) ∧ number? (UInt32.size - 1) number = some version) := by
    dsimp only at made
    split at made
    · next number read =>
        obtain ⟨version, numbered, made⟩ := Option.bind_eq_some_iff.mp made
        obtain rfl := Option.some.inj made
        exact ⟨version, Request.compile.inj found, .inr ⟨number, read ▸ given, numbered⟩⟩
    · next absent =>
        obtain rfl := Option.some.inj made
        exact ⟨8, Request.compile.inj found, .inl ⟨absent ▸ given, rfl⟩⟩
  obtain ⟨version, rfl, numbered⟩ := numbered
  exact ⟨after, ignored, scanned, fun before chosen => ⟨plain, by simp [isSet], numbered,
    ⟨_, value?_chosen after "output", rfl⟩,
    ⟨_, _, value?_chosen after "langspec", value?_chosen before "langspec", by rw [chosen]⟩⟩⟩

theorem compile_asked (arguments : List String) (compilation : Compilation)
    (asked : ofArguments? arguments = some (.compile compilation)) :
    ∃ before after, Arranged arguments before after ∧ compilation.Asked before after := by
  unfold ofArguments? at asked
  obtain ⟨⟨before, rest⟩, scanned, checked⟩ := Option.bind_eq_some_iff.mp asked
  dsimp only at checked
  split at checked
  · exact nomatch checked
  · split at checked
    · exact nomatch checked
    · split at checked
      · exact nomatch checked
      · split at checked
        · next command =>
            obtain ⟨after, ignored, split, found⟩ := compile?_asked _ rest compilation checked
            exact ⟨before, after, ⟨command, rest, ignored, scanned, split⟩, found before rfl⟩
        · obtain ⟨_, _, _, _, _, _, made, found⟩ :=
            ofCommand_found describeSwitches rest _ _ checked (by simp)
          obtain rfl := Option.some.inj made
          exact nomatch found
        · unfold help? at checked
          split at checked <;> exact nomatch checked
        · exact nomatch checked

end Request

end TealForms.CommandLine
