import TealForms.Proofs.Json.Printed
import TealForms.Table.Document

set_option autoImplicit false

namespace TealForms

namespace Json.Value

theorem map_m_some {α β : Type} (read? : α → Option β) (value : α → β) (items : List α)
    (reads : ∀ item ∈ items, read? item = some (value item)) : items.mapM read? = some (items.map value) := by
  induction items with
  | nil => rfl
  | cons item items ih =>
      obtain ⟨first, others⟩ := List.forall_mem_cons.mp reads
      rw [List.mapM_cons, first, ih others]
      rfl

theorem list_map {α : Type} (item? : Value → Option α) (toValue : α → Value)
    (reads : ∀ item, item? (toValue item) = some item) (items : List α) :
    list? item? (.array (items.map toValue)) = some items := by
  rw [list?, List.mapM_map, map_m_some (item? ∘ toValue) id items fun item _ => reads item, List.map_id]

theorem members_record (members : List (String × Value)) : (record members).members? = some members := by
  rw [record, members?, List.mapM_map]
  exact (map_m_some _ id members fun member _ => rfl).trans (congrArg some (List.map_id members))

def slot? (members : List (String × Value)) (key : String) : Option (Option Value) :=
  match members.filter fun member => member.1 = key with
  | [] => some none
  | [member] => some (some member.2)
  | _ => none

theorem slots_record (keys : List String) (members : List (String × Value)) :
    (record members).slots? keys = keys.mapM (slot? members) := by
  show (record members).members?.bind (fun members => keys.mapM (slot? members)) = _
  rw [members_record]
  rfl

-- A member is left out where reading supplies its value.
def said (entries : List (String × Option Value)) : List (String × Value) :=
  entries.flatMap fun entry => present entry.1 entry.2

theorem said_cons (first : String × Option Value) (rest : List (String × Option Value)) :
    said (first :: rest) = present first.1 first.2 ++ said rest := rfl

theorem mem_present (key : String) (slot : Option Value) (member : String × Value)
    (written : member ∈ present key slot) : member.1 = key ∧ member.2 ∈ slot := by
  cases slot with
  | none => cases written
  | some value =>
      obtain rfl := List.mem_singleton.mp written
      exact ⟨rfl, rfl⟩

theorem said_key (entries : List (String × Option Value)) (member : String × Value) (said : member ∈ said entries) :
    member.1 ∈ entries.map Prod.fst := by
  obtain ⟨entry, inside, written⟩ := List.mem_flatMap.mp said
  rw [(mem_present entry.1 entry.2 member written).1]
  exact List.mem_map_of_mem inside

theorem said_under (entries : List (String × Option Value)) (distinct : (entries.map Prod.fst).Nodup)
    (entry : String × Option Value) (listed : entry ∈ entries) :
    (said entries).filter (fun member => member.1 = entry.1) = present entry.1 entry.2 := by
  induction entries with
  | nil => cases listed
  | cons first rest ih =>
      obtain ⟨fresh, distinct⟩ := List.nodup_cons.mp distinct
      rw [said_cons, List.filter_append]
      rcases List.mem_cons.mp listed with rfl | listed
      · have own : (present entry.1 entry.2).filter (fun member => member.1 = entry.1) = present entry.1 entry.2 :=
          List.filter_eq_self.mpr fun member written => decide_eq_true (mem_present entry.1 entry.2 member written).1
        have others : (said rest).filter (fun member => member.1 = entry.1) = [] := by
          rw [List.filter_eq_nil_iff]
          intro member written same
          exact fresh (of_decide_eq_true same ▸ said_key rest member written)
        rw [own, others, List.append_nil]
      · have own : (present first.1 first.2).filter (fun member => member.1 = entry.1) = [] := by
          rw [List.filter_eq_nil_iff]
          intro member written same
          rw [(mem_present first.1 first.2 member written).1, decide_eq_true_eq] at same
          exact fresh (same ▸ List.mem_map_of_mem listed)
        rw [own, List.nil_append]
        exact ih distinct listed

theorem slot_said (entries : List (String × Option Value)) (distinct : (entries.map Prod.fst).Nodup)
    (entry : String × Option Value) (listed : entry ∈ entries) : slot? (said entries) entry.1 = some entry.2 := by
  rw [slot?, said_under entries distinct entry listed]
  obtain ⟨key, _ | value⟩ := entry <;> rfl

theorem slots_said (keys : List String) (slots : List (Option Value)) (distinct : keys.Nodup)
    (paired : keys.length = slots.length) : (record (said (keys.zip slots))).slots? keys = some slots := by
  have first : (keys.zip slots).map Prod.fst = keys := List.map_fst_zip (Nat.le_of_eq paired)
  have second : (keys.zip slots).map Prod.snd = slots := List.map_snd_zip (Nat.le_of_eq paired.symm)
  have found := map_m_some (slot? (said (keys.zip slots)) ∘ Prod.fst) Prod.snd (keys.zip slots)
    (slot_said _ (first.symm ▸ distinct))
  rw [← List.mapM_map, first, second] at found
  rw [slots_record, found]

def filled {α : Type} (toValue : α → Value) (items : List α) : Option Value :=
  if items.isEmpty then none else some (.array (items.map toValue))

theorem nonempty_filled {α : Type} (key : String) (toValue : α → Value) (items : List α) :
    nonempty key toValue items = present key (filled toValue items) := by
  cases items <;> rfl

theorem defaulted_filled {α : Type} (item? : Value → Option α) (toValue : α → Value)
    (reads : ∀ item, item? (toValue item) = some item) (items : List α) :
    defaulted [] (list? item?) (filled toValue items) = some items := by
  cases items with
  | nil => rfl
  | cons item items => exact list_map item? toValue reads (item :: items)

theorem text_text (content : String) : (text content).text? = some content := rfl

theorem name_text (name : String) : (text name).name? = some name := rfl

theorem required_some {α : Type} (read? : Value → Option α) (value : Value) :
    required read? (some value) = read? value := rfl

theorem defaulted_some {α : Type} (default : α) (read? : Value → Option α) (value : Value) :
    defaulted default read? (some value) = read? value := rfl

theorem optional_text (slot : Option String) : optional text? (slot.map .text) = some slot := by
  cases slot <;> rfl

theorem byte_natural (byte : UInt8) : (natural byte.toNat).byte? = some byte := by
  rw [byte?, natural_natural, Option.bind_some, if_pos byte.toNat_lt, UInt8.ofNat_toNat]

theorem word_natural (word : UInt32) : (natural word.toNat).word? = some word := by
  rw [word?, natural_natural, Option.bind_some, if_pos word.toNat_lt, UInt32.ofNat_toNat]

theorem optional_byte (slot : Option UInt8) :
    optional byte? (slot.map fun byte => .natural byte.toNat) = some slot := by
  cases slot with
  | none => rfl
  | some byte =>
      show (natural byte.toNat).byte?.map some = _
      rw [byte_natural, Option.map_some]

theorem text_valid (content : String) : (text content).Valid := .scalar _ trivial

theorem natural_valid (value : Nat) : (natural value).Valid := .scalar _ (digits_number value)

theorem list_valid {α : Type} (toValue : α → Value) (valid : ∀ item, (toValue item).Valid) (items : List α) :
    (Value.array (items.map toValue)).Valid := by
  refine .array _ fun value listed => ?_
  obtain ⟨item, _, rfl⟩ := List.mem_map.mp listed
  exact valid item

def SlotValid (slot : Option Value) : Prop := ∀ value ∈ slot, value.Valid

theorem some_valid (value : Value) (valid : value.Valid) : SlotValid (some value) := by
  intro same said
  obtain rfl := Option.some.inj said
  exact valid

theorem map_valid {α : Type} (toValue : α → Value) (valid : ∀ item, (toValue item).Valid) (slot : Option α) :
    SlotValid (slot.map toValue) := by
  intro value said
  obtain ⟨item, _, rfl⟩ := Option.map_eq_some_iff.mp said
  exact valid item

theorem filled_valid {α : Type} (toValue : α → Value) (valid : ∀ item, (toValue item).Valid) (items : List α) :
    SlotValid (filled toValue items) := by
  cases items with
  | nil => simp [SlotValid, filled]
  | cons item items => exact some_valid _ (list_valid toValue valid (item :: items))

theorem said_valid (keys : List String) (slots : List (Option Value)) (valid : ∀ slot ∈ slots, SlotValid slot) :
    (record (said (keys.zip slots))).Valid := by
  refine .object _ fun member listed => ?_
  obtain ⟨own, said, rfl⟩ := List.mem_map.mp listed
  obtain ⟨⟨key, slot⟩, paired, written⟩ := List.mem_flatMap.mp said
  exact valid slot (List.of_mem_zip paired).2 own.2 (mem_present key slot own written).2

end Json.Value

open Json (Value)

theorem StackType.of_value_to_value (type : StackType) : ofValue? type.toValue = some type :=
  congrArg some type.of_text_text

namespace Descriptor

def slots (descriptor : Descriptor) : List (Option Value) :=
  [some (.text descriptor.name), some (.text descriptor.comment), some (.text descriptor.encoding.text),
    descriptor.reference.map .text]

theorem to_value_said (descriptor : Descriptor) :
    descriptor.toValue = .record (Value.said (keys.zip descriptor.slots)) := by
  simp [toValue, slots, keys, Value.said, present]

theorem of_value_to_value (descriptor : Descriptor) : ofValue? descriptor.toValue = some descriptor := by
  rw [ofValue?, to_value_said, Value.slots_said keys descriptor.slots (by decide) rfl]
  simp [slots, Value.required_some, Value.defaulted_some, Value.optional_text, Value.text_text, Value.name_text,
    Encoding.of_text_text]

theorem to_value_valid (descriptor : Descriptor) : descriptor.toValue.Valid := by
  rw [to_value_said]
  refine Value.said_valid _ _ ?_
  simp only [slots, List.forall_mem_cons]
  exact ⟨Value.some_valid _ (Value.text_valid _), Value.some_valid _ (Value.text_valid _),
    Value.some_valid _ (Value.text_valid _), Value.map_valid _ Value.text_valid _, by simp⟩

end Descriptor

namespace Field

def slots (field : Field) : List (Option Value) :=
  [some (.text field.name), some field.type.toValue, field.note.map .text, some (.natural field.value.toNat)]

theorem to_value_said (field : Field) : field.toValue = .record (Value.said (keys.zip field.slots)) := by
  simp [toValue, slots, keys, Value.said, present]

theorem of_value_to_value (field : Field) : ofValue? field.toValue = some field := by
  rw [ofValue?, to_value_said, Value.slots_said keys field.slots (by decide) rfl]
  simp [slots, Value.required_some, Value.optional_text, Value.text_text, Value.word_natural,
    StackType.of_value_to_value]

theorem to_value_valid (field : Field) : field.toValue.Valid := by
  rw [to_value_said]
  refine Value.said_valid _ _ ?_
  simp only [slots, List.forall_mem_cons]
  exact ⟨Value.some_valid _ (Value.text_valid _), Value.some_valid _ (Value.text_valid _),
    Value.map_valid _ Value.text_valid _, Value.some_valid _ (Value.natural_valid _), by simp⟩

end Field

namespace Record

def slots (record : Record) : List (Option Value) :=
  [record.opcode.map fun opcode => .natural opcode.toNat, some (.text record.name), some (.natural record.size.toNat),
    some (.natural record.cost.toNat), record.doc.map .text, record.docExtra.map .text,
    some (.array (record.groups.map .text)), Value.filled StackType.toValue record.args,
    Value.filled StackType.toValue record.returns, Value.filled Descriptor.toValue record.immediates]

theorem to_value_said (record : Record) : record.toValue = .record (Value.said (keys.zip record.slots)) := by
  rw [toValue, Value.nonempty_filled, Value.nonempty_filled, Value.nonempty_filled]
  simp [slots, keys, Value.said, present]

theorem of_value_to_value (record : Record) : ofValue? record.toValue = some record := by
  rw [ofValue?, to_value_said, Value.slots_said keys record.slots (by decide) rfl]
  simp [slots, Value.required_some, Value.defaulted_some, Value.optional_byte, Value.word_natural, Value.optional_text,
    Value.text_text, Value.list_map Value.text? .text Value.text_text,
    Value.defaulted_filled _ _ StackType.of_value_to_value, Value.defaulted_filled _ _ Descriptor.of_value_to_value]

theorem to_value_valid (record : Record) : record.toValue.Valid := by
  have types := Value.filled_valid StackType.toValue fun type => Value.text_valid type.text
  rw [to_value_said]
  refine Value.said_valid _ _ ?_
  simp only [slots, List.forall_mem_cons]
  exact ⟨Value.map_valid _ (fun _ => Value.natural_valid _) _, Value.some_valid _ (Value.text_valid _),
    Value.some_valid _ (Value.natural_valid _), Value.some_valid _ (Value.natural_valid _),
    Value.map_valid _ Value.text_valid _, Value.map_valid _ Value.text_valid _,
    Value.some_valid _ (Value.list_valid _ Value.text_valid _), types record.args, types record.returns,
    Value.filled_valid _ Descriptor.to_value_valid _, by simp⟩

end Record

end TealForms
