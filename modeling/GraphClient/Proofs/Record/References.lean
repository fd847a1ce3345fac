import GraphClient.Proofs.Record.Merging

/-!
# Where references lead

A value refers to a record when it is a reference to it or a list with an item that refers to it, at
any depth. A table is closed when every reference leads to a record of the table and every record is
stored under its own key.

A single record may refer to one that is merged after it, so merging one record need not keep a table
closed. Merging a list of records does that is closed in itself (`Closed.mergeAll`), for what is
referred to afterwards was referred to before or in the list.
-/

namespace GraphClient

/-- The value is a reference to the record, or a list with such an item at any depth. -/
inductive FieldValue.RefersTo : FieldValue → RecordKey → Prop
  | reference (target : RecordKey) : RefersTo (.reference target) target
  | item {items : List FieldValue} {x : FieldValue} {target : RecordKey} :
      x ∈ items → RefersTo x target → RefersTo (.list items) target

theorem FieldValue.not_refersTo_scalar {value : Json} {target : RecordKey} :
    ¬ (scalar value).RefersTo target := nofun

namespace Record

/-- A field of the record refers to the other record. -/
def RefersTo (r : Record) (target : RecordKey) : Prop := ∃ f ∈ r.fields, f.2.RefersTo target

theorem not_refersTo_empty {key target : RecordKey} : ¬ (Record.mk key []).RefersTo target := by
  rintro ⟨f, hf, -⟩
  cases hf

theorem RefersTo.of_setField {r : Record} {name : String} {value : FieldValue} {target : RecordKey}
    (h : (r.setField name value).RefersTo target) : r.RefersTo target ∨ value.RefersTo target := by
  obtain ⟨f, hf, hrefers⟩ := h
  rcases Assoc.mem_of_mem_insert hf with hmem | rfl
  · exact .inl ⟨f, hmem, hrefers⟩
  · exact .inr hrefers

theorem RefersTo.of_mergeField {r : Record} {name : String} {value : FieldValue}
    {target : RecordKey} (h : (r.mergeField name value).RefersTo target) :
    r.RefersTo target ∨ value.RefersTo target := by
  rw [mergeField] at h
  split at h
  · exact .inl h
  · exact h.of_setField

theorem RefersTo.of_mergeFields {r : Record} {fields : List (String × FieldValue)}
    {target : RecordKey} (h : (r.mergeFields fields).1.RefersTo target) :
    r.RefersTo target ∨ ∃ f ∈ fields, f.2.RefersTo target := by
  induction fields generalizing r with
  | nil => exact .inl h
  | cons f fs ih =>
    rcases ih h with hmerged | ⟨f', hf', hrefers⟩
    · exact hmerged.of_mergeField.imp_right fun hvalue => ⟨f, List.mem_cons_self, hvalue⟩
    · exact .inr ⟨f', List.mem_cons_of_mem f hf', hrefers⟩

/-- What these records refer to is the key of one of them. -/
def ClosedList (rs : List Record) : Prop :=
  ∀ r ∈ rs, ∀ target, r.RefersTo target → ∃ r' ∈ rs, r'.key = target

end Record

namespace RecordTable

/-- Every record is stored under its own key, and what it refers to is stored. -/
structure Closed (table : RecordTable) : Prop where
  keyed : ∀ key r, (key, r) ∈ table → r.key = key
  stored : ∀ key r, (key, r) ∈ table → ∀ target, r.RefersTo target → target ∈ Assoc.keys table

theorem closed_nil : Closed [] := ⟨nofun, nofun⟩

/-- What an entry comes from that a merge leaves in the table. -/
theorem mem_merge {table : RecordTable} {r stored : Record} {key : RecordKey}
    (h : (key, stored) ∈ (merge table r).1) :
    (key, stored) ∈ table ∨ (key = r.key ∧ stored = r) ∨
      ∃ existing, key = r.key ∧ (key, existing) ∈ table ∧ stored = (existing.mergeWith r).1 := by
  rw [merge] at h
  split at h
  · next existing hexisting =>
    rcases Assoc.mem_of_mem_insert h with hmem | heq
    · exact .inl hmem
    · cases heq
      exact .inr (.inr ⟨existing, rfl, Assoc.mem_of_get?_eq_some hexisting, rfl⟩)
  · rcases Assoc.mem_of_mem_insert h with hmem | heq
    · exact .inl hmem
    · cases heq
      exact .inr (.inl ⟨rfl, rfl⟩)

theorem mem_keys_mergeAll {table : RecordTable} {rs : List Record} {key : RecordKey} :
    key ∈ Assoc.keys (mergeAll table rs).1 ↔ key ∈ Assoc.keys table ∨ ∃ r ∈ rs, r.key = key := by
  rw [Assoc.mem_keys_iff, Assoc.mem_keys_iff, isSome_get?_mergeAll]

theorem key_of_mem_mergeAll {table : RecordTable} (h : ∀ key r, (key, r) ∈ table → r.key = key)
    (rs : List Record) : ∀ key r, (key, r) ∈ (mergeAll table rs).1 → r.key = key := by
  induction rs generalizing table with
  | nil => exact h
  | cons incoming rs ih =>
    refine ih fun key r hr => ?_
    rcases mem_merge hr with hmem | ⟨rfl, rfl⟩ | ⟨existing, rfl, hmem, rfl⟩
    · exact h key r hmem
    · rfl
    · rw [Record.key_mergeWith]
      exact h _ existing hmem

/-- What is referred to after a merge was referred to before, or comes in. -/
theorem refersTo_of_mem_mergeAll {table : RecordTable} {rs : List Record} {key target : RecordKey}
    {r : Record} (h : (key, r) ∈ (mergeAll table rs).1) (hrefers : r.RefersTo target) :
    (∃ before, (key, before) ∈ table ∧ before.RefersTo target) ∨
      ∃ incoming ∈ rs, incoming.RefersTo target := by
  induction rs generalizing table with
  | nil => exact .inl ⟨r, h, hrefers⟩
  | cons first rs ih =>
    rcases ih h with ⟨merged, hmerged, hrefers⟩ | ⟨incoming, hincoming, hrefers⟩
    · rcases mem_merge hmerged with hmem | ⟨rfl, rfl⟩ | ⟨existing, rfl, hmem, rfl⟩
      · exact .inl ⟨merged, hmem, hrefers⟩
      · exact .inr ⟨merged, List.mem_cons_self, hrefers⟩
      · rcases hrefers.of_mergeFields with hexisting | hfield
        · exact .inl ⟨existing, hmem, hexisting⟩
        · exact .inr ⟨first, List.mem_cons_self, hfield⟩
    · exact .inr ⟨incoming, List.mem_cons_of_mem first hincoming, hrefers⟩

/-- Records that are closed in themselves keep a table closed. -/
theorem Closed.mergeAll {table : RecordTable} (h : table.Closed) {rs : List Record}
    (hrs : Record.ClosedList rs) : (mergeAll table rs).1.Closed where
  keyed := key_of_mem_mergeAll h.keyed rs
  stored key r hr target hrefers := by
    rw [mem_keys_mergeAll]
    rcases refersTo_of_mem_mergeAll hr hrefers with ⟨before, hbefore, hrefers⟩ |
      ⟨incoming, hincoming, hrefers⟩
    · exact .inl (h.stored key before hbefore target hrefers)
    · exact .inr (hrs incoming hincoming target hrefers)

/-- The records of a closed table are closed in themselves. -/
theorem Closed.values {table : RecordTable} (h : table.Closed) :
    Record.ClosedList (Assoc.values table) := by
  intro r hr target hrefers
  obtain ⟨⟨key, r⟩, hentry, rfl⟩ := List.mem_map.mp hr
  obtain ⟨⟨target, r'⟩, hentry', rfl⟩ := List.mem_map.mp (h.stored key r hentry target hrefers)
  exact ⟨r', List.mem_map_of_mem hentry', h.keyed target r' hentry'⟩

theorem Closed.isSome_of_refersTo {table : RecordTable} (h : table.Closed) {key target : RecordKey}
    {r : Record} (hr : Assoc.get? table key = some r) (hrefers : r.RefersTo target) :
    (Assoc.get? table target).isSome = true :=
  Assoc.mem_keys_iff.mp (h.stored key r (Assoc.mem_of_get?_eq_some hr) target hrefers)

end RecordTable

end GraphClient
