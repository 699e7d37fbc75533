import TealForms.Proofs.Table.Records

set_option autoImplicit false

namespace TealForms

open Json (Value Lexeme quoted)

namespace Table

def listed (texts : List (List Char)) : List Char := '[' :: [','].intercalate texts ++ [']']

def keyed (members : List (String × List Char)) : List Char :=
  '\x7b' :: [','].intercalate (members.map fun member => quoted (some member.1) ++ ':' :: member.2) ++ ['\x7d']

def document (version : UInt32) (records pseudo : List Record) (groups : List (String × List Field)) : String :=
  .ofList (keyed [
    ("Version", Nat.toDigits 10 version.toNat),
    ("Ops", listed (records.map fun record => record.document.toList)),
    ("PseudoOps", listed (pseudo.map fun record => record.document.toList)),
    ("Fields", keyed (groups.map fun group => (group.1, (Field.listDocument group.2).toList)))])

def fieldsValue (fields : List Field) : Value := .array (fields.map Field.toValue)

def groupsValue (groups : List (String × List Field)) : Value :=
  .record (groups.map fun group => (group.1, fieldsValue group.2))

def toValue (version : UInt32) (records pseudo : List Record) (groups : List (String × List Field)) : Value :=
  .record [
    ("Version", .natural version.toNat),
    ("Ops", .array (records.map Record.toValue)),
    ("PseudoOps", .array (pseudo.map Record.toValue)),
    ("Fields", groupsValue groups)]

theorem listed_spelled {α : Type} (items : List α) (text : α → List Char) (toValue : α → Value)
    (spelled : ∀ item ∈ items, Lexeme.Spelled (text item) (toValue item).lexemes) :
    Lexeme.Spelled (listed (items.map text)) (Value.array (items.map toValue)).lexemes := by
  have closed := Lexeme.spelled_closed items text _ spelled '[' ']' [] _ _ rfl rfl (by simp)
  rw [Value.lexemes, List.map_map]
  exact closed

theorem keyed_spelled {α : Type} (items : List α) (key : α → String) (text : α → List Char) (toValue : α → Value)
    (spelled : ∀ item ∈ items, Lexeme.Spelled (text item) (toValue item).lexemes) :
    Lexeme.Spelled (keyed (items.map fun item => (key item, text item)))
      (Value.record (items.map fun item => (key item, toValue item))).lexemes := by
  have closed := Lexeme.spelled_closed items _ _
    (fun item inside => Value.member_spelled (some (key item), toValue item) [] _ (by simp) (spelled item inside))
    '\x7b' '\x7d' [] _ _ rfl rfl (by simp)
  rw [Value.record, Value.lexemes, keyed]
  simp only [List.map_map]
  exact closed

theorem record_spelled (record : Record) : Lexeme.Spelled record.document.toList record.toValue.lexemes := by
  rw [Record.document, String.toList_ofList]
  exact record.toValue.indented_spelled record.to_value_valid 0

theorem fields_spelled (fields : List Field) :
    Lexeme.Spelled (Field.listDocument fields).toList (fieldsValue fields).lexemes := by
  rw [Field.listDocument, String.toList_ofList]
  exact Value.compact_spelled _ (Value.list_valid _ Field.to_value_valid fields)

theorem document_spelled (version : UInt32) (records pseudo : List Record) (groups : List (String × List Field)) :
    Lexeme.Spelled (document version records pseudo groups).toList (toValue version records pseudo groups).lexemes := by
  let members : List (String × List Char × Value) := [
    ("Version", Nat.toDigits 10 version.toNat, .natural version.toNat),
    ("Ops", listed (records.map fun record => record.document.toList), .array (records.map Record.toValue)),
    ("PseudoOps", listed (pseudo.map fun record => record.document.toList), .array (pseudo.map Record.toValue)),
    ("Fields", keyed (groups.map fun group => (group.1, (Field.listDocument group.2).toList)), groupsValue groups)]
  have number : Lexeme.Spelled (Nat.toDigits 10 version.toNat) (Value.natural version.toNat).lexemes :=
    Value.compact_spelled (.natural version.toNat) (Value.natural_valid version.toNat)
  have written (records : List Record) := listed_spelled records _ Record.toValue fun record _ => record_spelled record
  have grouped := keyed_spelled groups Prod.fst _ _ fun group _ => fields_spelled group.2
  rw [document, String.toList_ofList]
  refine keyed_spelled members Prod.fst (fun member => member.2.1) (fun member => member.2.2) ?_
  simp only [members, List.forall_mem_cons]
  exact ⟨number, written records, written pseudo, grouped, by simp⟩

theorem groups_value (groups : List (String × List Field)) :
    groups? (groupsValue groups) = some groups := by
  rw [groups?, groupsValue, Value.members_record, Option.bind_eq_bind, Option.bind_some, List.mapM_map]
  refine (Value.map_m_some _ id groups fun group _ => ?_).trans (congrArg some (List.map_id groups))
  show ((fieldsValue group.2).list? Field.ofValue?).map (group.1, ·) = some group
  rw [fieldsValue, Value.list_map Field.ofValue? Field.toValue Field.of_value_to_value]
  rfl

theorem of_value_to_value (version : UInt32) (records pseudo : List Record) (groups : List (String × List Field)) :
    ofValue? (toValue version records pseudo groups) = some ⟨version, records ++ pseudo, groups⟩ := by
  have read (records : List Record) := Value.list_map Record.ofValue? Record.toValue Record.of_value_to_value records
  have found := Value.slots_said keys [some (.natural version.toNat), some (.array (records.map Record.toValue)),
    some (.array (pseudo.map Record.toValue)), some (groupsValue groups)] (by decide) rfl
  change (toValue version records pseudo groups).slots? keys = _ at found
  rw [ofValue?, found]
  simp [Value.required_some, Value.defaulted_some, Value.word_natural, read, groups_value]

theorem of_text_document (version : UInt32) (records pseudo : List Record) (groups : List (String × List Field)) :
    ofText? (document version records pseudo groups) = some ⟨version, records ++ pseudo, groups⟩ := by
  rw [ofText?, Value.of_text_spelled _ _ (document_spelled version records pseudo groups)]
  exact of_value_to_value version records pseudo groups

theorem find_last {α : Type} (is? : α → Bool) (before : List α) (item : α) (after : List α) (here : is? item = true)
    (others : ∀ other ∈ after, is? other = false) : (before ++ item :: after).findRev? is? = some item := by
  have none : after.reverse.find? is? = none := by
    rw [List.find?_eq_none]
    intro other listed found
    rw [others other (List.mem_reverse.mp listed)] at found
    cases found
  rw [List.findRev?_eq_find?_reverse, List.reverse_append, List.reverse_cons, List.find?_append, List.find?_append,
    none]
  simp [here]

/-- A record that a table has for a name is found under the name again in every table that has it, printed, for its
only record; pseudo-instructions of other names make no difference. A list of fields that a table gives, printed as a
group of another table, is that group. -/
theorem printed_again (table : Table) :
    (∀ name record, table.record? name = some record → ∀ version pseudo groups,
      (∀ other ∈ pseudo, other.name ≠ name) →
      ∃ again, ofText? (document version [record] pseudo groups) = some again ∧ again.record? name = some record) ∧
    ∀ opcode reference version records pseudo before name after, (∀ other ∈ after, other.1 ≠ name) →
      let fields := table.fields opcode reference
      ∃ again, ofText? (document version records pseudo (before ++ (name, fields) :: after)) = some again ∧
        again.group name = fields ∧ again.fields name name = fields := by
  refine ⟨?_, ?_⟩
  · intro name record found version pseudo groups others
    have named := table.record_name name record found
    refine ⟨_, of_text_document version [record] pseudo groups, ?_⟩
    exact find_last _ [] record pseudo (decide_eq_true named) fun other listed => decide_eq_false (others other listed)
  · intro opcode reference version records pseudo before name after others fields
    let again : Table := ⟨version, records ++ pseudo, before ++ (name, fields) :: after⟩
    have group : again.group name = fields := by
      rw [Table.group, find_last _ before (name, fields) after (decide_eq_true rfl) fun other listed =>
        decide_eq_false (others other listed)]
    refine ⟨again, of_text_document .., group, ?_⟩
    rw [Table.fields, group]
    cases fields <;> rfl

theorem unknown_type_printed_again :
    let record : Record := {
      name := "k\n\x01", docExtra := some "a \"b\" \\", args := [.other, .uint64]
      immediates := [{ name := "", encoding := .other }, { name := "F", encoding := .labels, reference := some "g" }] }
    let fields : List Field := [{ name := "x", type := .other, value := 4294967295 }]
    (∃ again, ofText? (document 3 [record] [] []) = some again ∧ again.record? "k\n\x01" = some record) ∧
      ∃ again, ofText? (document 3 [] [] [("h", fields)]) = some again ∧ again.group "h" = fields := by
  intro record fields
  obtain ⟨records, groups⟩ := printed_again ⟨8, [record], [("g", fields)]⟩
  refine ⟨records _ record (by decide) 3 [] [] (by simp), ?_⟩
  obtain ⟨again, loaded, found, -⟩ := groups "f" "g" 3 [] [] [] "h" [] (by simp)
  exact ⟨again, loaded, found⟩

end Table

end TealForms
