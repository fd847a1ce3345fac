import GraphClient.Proofs.Record.WellFormed

/-!
# What a merge does to fields

A table is seen as the values of fields: `fieldAt table key name` is what the record of `key` holds
for `name`. Merging replaces the value of a field by the one that comes in, unless the two are equal;
`afterMerge` says so for a single field. Merging the records of a well-formed table does this to
every field at once (`fieldAt_mergeAll_values`), and what it reports as changed are the field keys of
the fields whose value before and after are unequal (`mem_changed_mergeAll_values`).

Merging any list of records, also with several records of one key, leaves the fields alone whose
field keys it does not report. `KeptOutside` says this of a record before and after.
-/

namespace GraphClient

/-- The value of a field after a merge, by its value before and by what comes in. -/
def FieldValue.afterMerge (before incoming : Option FieldValue) : Option FieldValue :=
  match incoming with
  | none => before
  | some value => if before == some value then before else some value

namespace Record

theorem holds_eq (r : Record) (name : String) (value : FieldValue) :
    r.holds name value = (r.field? name == some value) := by
  rw [holds]
  cases r.field? name <;> rfl

theorem field?_mergeField_self (r : Record) (name : String) (value : FieldValue) :
    (r.mergeField name value).field? name = FieldValue.afterMerge (r.field? name) (some value) := by
  rw [mergeField, holds_eq, FieldValue.afterMerge]
  split
  · rfl
  · exact field?_setField_self r name value

theorem field?_mergeField_of_ne (r : Record) {name other : String} (value : FieldValue)
    (h : other ≠ name) : (r.mergeField name value).field? other = r.field? other := by
  rw [mergeField]
  split
  · rfl
  · exact field?_setField_of_ne r value h

theorem field?_mergeFields (r : Record) {fields : Assoc String FieldValue}
    (h : (Assoc.keys fields).Nodup) (name : String) :
    (r.mergeFields fields).1.field? name =
      FieldValue.afterMerge (r.field? name) (Assoc.get? fields name) := by
  induction fields generalizing r with
  | nil => rfl
  | cons f fs ih =>
    obtain ⟨key, value⟩ := f
    obtain ⟨hkey, hfs⟩ := List.nodup_cons.mp h
    have hrest := ih (r.mergeField key value) hfs
    rw [mergeFields, hrest, Assoc.get?_cons]
    split
    · next heq =>
      subst heq
      have hnone : Assoc.get? fs key = none := by
        rw [← Option.not_isSome_iff_eq_none, ← Assoc.mem_keys_iff]
        exact hkey
      rw [hnone, field?_mergeField_self]
      rfl
    · next hne => rw [field?_mergeField_of_ne r value (Ne.symm hne)]

/-- A field that comes in is reported unless the record holds an equal value. -/
theorem mem_changed_mergeFields (r : Record) {fields : Assoc String FieldValue}
    (h : (Assoc.keys fields).Nodup) {k : String} :
    k ∈ (r.mergeFields fields).2 ↔
      ∃ name value, Assoc.get? fields name = some value ∧
        (r.field? name == some value) = false ∧ k = r.key.fieldKey name := by
  induction fields generalizing r with
  | nil => simp [mergeFields]
  | cons f fs ih =>
    obtain ⟨key, value⟩ := f
    obtain ⟨hkey, hfs⟩ := List.nodup_cons.mp h
    have hne : ∀ {name v}, Assoc.get? fs name = some v → name ≠ key := by
      rintro name v hname rfl
      exact hkey (Assoc.mem_keys_iff.mpr (by rw [hname]; rfl))
    have hrest : k ∈ ((r.mergeField key value).mergeFields fs).2 ↔
        ∃ name v, Assoc.get? fs name = some v ∧
          (r.field? name == some v) = false ∧ k = r.key.fieldKey name := by
      rw [ih (r.mergeField key value) hfs]
      refine exists_congr fun name => exists_congr fun v => and_congr_right fun hname => ?_
      rw [field?_mergeField_of_ne r value (hne hname), key_mergeField]
    have hfirst : ∀ {name v}, Assoc.get? ((key, value) :: fs) name = some v ↔
        (name = key ∧ v = value) ∨ Assoc.get? fs name = some v := by
      intro name v
      rw [Assoc.get?_eq_some_iff_mem h, Assoc.get?_eq_some_iff_mem hfs, List.mem_cons,
        Prod.mk.injEq]
    simp only [mergeFields, hfirst, holds_eq]
    constructor
    · intro hk
      split at hk
      · obtain ⟨name, v, hv, hdiff, rfl⟩ := hrest.mp hk
        exact ⟨name, v, .inr hv, hdiff, rfl⟩
      · next hdiff =>
        rcases KeySet.mem_insert.mp hk with rfl | hk
        · exact ⟨key, value, .inl ⟨rfl, rfl⟩, Bool.eq_false_iff.mpr hdiff, rfl⟩
        · obtain ⟨name, v, hv, hdiff, rfl⟩ := hrest.mp hk
          exact ⟨name, v, .inr hv, hdiff, rfl⟩
    · rintro ⟨name, v, ⟨rfl, rfl⟩ | hv, hdiff, rfl⟩
      · rw [if_neg (by simp [hdiff])]
        exact KeySet.mem_insert.mpr (.inl rfl)
      · have hk := hrest.mpr ⟨name, v, hv, hdiff, rfl⟩
        split
        · exact hk
        · exact KeySet.mem_insert.mpr (.inr hk)

/-- The same record, but for fields whose field keys are among those that changed. -/
structure KeptOutside (changed : KeySet) (r r' : Record) : Prop where
  key : r'.key = r.key
  field : ∀ name, r.key.fieldKey name ∉ changed → r'.field? name = r.field? name

namespace KeptOutside

theorem refl (changed : KeySet) (r : Record) : KeptOutside changed r r := ⟨rfl, fun _ _ => rfl⟩

theorem mono {changed more : KeySet} (hsub : ∀ k, k ∈ changed → k ∈ more) {r r' : Record}
    (h : KeptOutside changed r r') : KeptOutside more r r' :=
  ⟨h.key, fun name hname => h.field name fun hk => hname (hsub _ hk)⟩

theorem trans {changed : KeySet} {r r' r'' : Record} (h : KeptOutside changed r r')
    (h' : KeptOutside changed r' r'') : KeptOutside changed r r'' where
  key := h'.key.trans h.key
  field name hname := by
    rw [h'.field name (by rwa [h.key]), h.field name hname]

end KeptOutside

theorem mergeFields_cons (r : Record) (name : String) (value : FieldValue)
    (fields : List (String × FieldValue)) :
    r.mergeFields ((name, value) :: fields) =
      (((r.mergeField name value).mergeFields fields).1,
        if r.holds name value then ((r.mergeField name value).mergeFields fields).2
        else ((r.mergeField name value).mergeFields fields).2.insert (r.key.fieldKey name)) :=
  rfl

theorem keptOutside_mergeFields (r : Record) (fields : List (String × FieldValue)) :
    KeptOutside (r.mergeFields fields).2 r (r.mergeFields fields).1 := by
  induction fields generalizing r with
  | nil => exact KeptOutside.refl ∅ r
  | cons f fs ih =>
    obtain ⟨name, value⟩ := f
    have hrest := ih (r.mergeField name value)
    rw [mergeFields_cons]
    by_cases hheld : r.holds name value = true
    · rw [if_pos hheld]
      rwa [show r.mergeField name value = r from if_pos hheld] at hrest ⊢
    · rw [if_neg hheld]
      refine ⟨by simp, fun other hother => ?_⟩
      rw [KeySet.mem_insert, not_or] at hother
      rw [hrest.field other (by rw [key_mergeField]; exact hother.2)]
      exact field?_mergeField_of_ne r value fun heq => hother.1 (heq ▸ rfl)

end Record

namespace FieldValue

theorem afterMerge_eq_or (before incoming : Option FieldValue) :
    afterMerge before incoming = before ∨ afterMerge before incoming = incoming := by
  cases incoming with
  | none => exact .inl rfl
  | some value =>
    rw [afterMerge]
    split
    · exact .inl rfl
    · exact .inr rfl

theorem isSome_afterMerge (before incoming : Option FieldValue) :
    (afterMerge before incoming).isSome = (before.isSome || incoming.isSome) := by
  cases incoming with
  | none => rw [afterMerge, Option.isSome_none, Bool.or_false]
  | some value =>
    rw [afterMerge, Option.isSome_some, Bool.or_true]
    split
    · next heq =>
      cases before with
      | none => cases heq
      | some stored => rfl
    · rfl

/-- A merge makes a difference to a field exactly if a value comes in that is not equal. -/
theorem beq_afterMerge_eq_false_iff {before incoming : Option FieldValue}
    (h : ∀ value, before = some value → value.WellFormed) :
    (before == afterMerge before incoming) = false ↔
      ∃ value, incoming = some value ∧ (before == some value) = false := by
  have hrefl : (before == before) = true := by
    cases before with
    | none => rfl
    | some value => exact beq_refl (h value rfl)
  cases incoming with
  | none => simp [afterMerge, hrefl]
  | some value =>
    rw [afterMerge]
    split
    · next heq => simp [hrefl, heq]
    · next hne => simp [hne]

/-- What a field holds after a well-formed value came in is equal to that value. -/
theorem exists_afterMerge_eq_some (before : Option FieldValue) {value : FieldValue}
    (h : value.WellFormed) :
    ∃ stored, afterMerge before (some value) = some stored ∧ (stored == value) = true := by
  rw [afterMerge]
  split
  · next heq =>
    cases before with
    | none => cases heq
    | some stored => exact ⟨stored, rfl, heq⟩
  · exact ⟨value, rfl, beq_refl h⟩

end FieldValue

namespace RecordTable

/-- The value that a table holds for a field of a record. -/
def fieldAt (table : RecordTable) (key : RecordKey) (name : String) : Option FieldValue :=
  (Assoc.get? table key).bind fun r => r.field? name

theorem fieldAt_of_get?_eq_some {table : RecordTable} {key : RecordKey} {r : Record}
    (h : Assoc.get? table key = some r) (name : String) :
    fieldAt table key name = r.field? name := by
  rw [fieldAt, h, Option.bind_some]

theorem WellFormed.fieldAt {table : RecordTable} (h : table.WellFormed) {key : RecordKey}
    {name : String} {value : FieldValue} (hvalue : table.fieldAt key name = some value) :
    value.WellFormed := by
  obtain ⟨r, hr, hname⟩ := Option.bind_eq_some_iff.mp hvalue
  exact (h.records key r hr).values name value hname

theorem fieldAt_merge_of_ne (table : RecordTable) {r : Record} {key : RecordKey}
    (h : key ≠ r.key) (name : String) :
    fieldAt (merge table r).1 key name = fieldAt table key name := by
  rw [fieldAt, get?_merge_of_ne table h, fieldAt]

theorem fieldAt_merge_self (table : RecordTable) {r : Record} (h : (Assoc.keys r.fields).Nodup)
    (name : String) :
    fieldAt (merge table r).1 r.key name =
      FieldValue.afterMerge (fieldAt table r.key name) (r.field? name) := by
  rw [fieldAt, get?_merge_self, Option.bind_some, fieldAt]
  cases Assoc.get? table r.key with
  | none => cases r.field? name <;> simp [FieldValue.afterMerge]
  | some existing => exact existing.field?_mergeFields h name

/-- What a table holds for a field after a merge, it held before or it came in. -/
theorem exists_of_fieldAt_mergeAll {table : RecordTable} {rs : List Record}
    (hrs : ∀ r ∈ rs, (Assoc.keys r.fields).Nodup) {key : RecordKey} {name : String}
    {value : FieldValue} (h : fieldAt (mergeAll table rs).1 key name = some value) :
    fieldAt table key name = some value ∨
      ∃ r ∈ rs, r.key = key ∧ r.field? name = some value := by
  induction rs generalizing table with
  | nil => exact .inl h
  | cons r rs ih =>
    obtain ⟨hr, hrs⟩ := List.forall_mem_cons.mp hrs
    rw [mergeAll_cons] at h
    rcases ih hrs h with hmerged | ⟨r', hr', hkey, hvalue⟩
    · by_cases hkey : key = r.key
      · subst hkey
        rw [fieldAt_merge_self table hr] at hmerged
        rcases FieldValue.afterMerge_eq_or (fieldAt table r.key name) (r.field? name) with heq | heq
        · exact .inl (heq ▸ hmerged)
        · exact .inr ⟨r, List.mem_cons_self, rfl, heq ▸ hmerged⟩
      · rw [fieldAt_merge_of_ne table hkey] at hmerged
        exact .inl hmerged
    · exact .inr ⟨r', List.mem_cons_of_mem r hr', hkey, hvalue⟩

/-- A field that was there or came in is there after a merge. -/
theorem isSome_fieldAt_mergeAll {table : RecordTable} {rs : List Record}
    (hrs : ∀ r ∈ rs, (Assoc.keys r.fields).Nodup) {key : RecordKey} {name : String}
    (h : (fieldAt table key name).isSome = true ∨
      ∃ r ∈ rs, r.key = key ∧ (r.field? name).isSome = true) :
    (fieldAt (mergeAll table rs).1 key name).isSome = true := by
  induction rs generalizing table with
  | nil =>
    rcases h with h | ⟨r, hr, -⟩
    · exact h
    · cases hr
  | cons r rs ih =>
    obtain ⟨hr, hrs⟩ := List.forall_mem_cons.mp hrs
    rw [mergeAll_cons]
    refine ih hrs ?_
    by_cases hkey : key = r.key
    · subst hkey
      rw [fieldAt_merge_self table hr, FieldValue.isSome_afterMerge, Bool.or_eq_true]
      rcases h with h | ⟨r', hr', hkey', hvalue⟩
      · exact .inl (.inl h)
      · rcases List.mem_cons.mp hr' with rfl | hr'
        · exact .inl (.inr hvalue)
        · exact .inr ⟨r', hr', hkey', hvalue⟩
    · rw [fieldAt_merge_of_ne table hkey]
      rcases h with h | ⟨r', hr', hkey', hvalue⟩
      · exact .inl h
      · rcases List.mem_cons.mp hr' with rfl | hr'
        · exact absurd hkey'.symm hkey
        · exact .inr ⟨r', hr', hkey', hvalue⟩

theorem mem_changed_merge {table : RecordTable} (ht : table.KeyedByRecord) {r : Record}
    (h : (Assoc.keys r.fields).Nodup) {k : String} :
    k ∈ (merge table r).2 ↔
      ∃ name value, r.field? name = some value ∧
        (fieldAt table r.key name == some value) = false ∧ k = r.key.fieldKey name := by
  cases hr : Assoc.get? table r.key with
  | none =>
    have hbefore : ∀ name, fieldAt table r.key name = none := fun name => by rw [fieldAt, hr]; rfl
    simp only [merge, hr, hbefore, Record.mem_fieldKeys, Assoc.mem_keys_iff, Option.isSome_iff_exists]
    constructor
    · rintro ⟨name, ⟨value, hvalue⟩, rfl⟩
      exact ⟨name, value, hvalue, rfl, rfl⟩
    · rintro ⟨name, value, hvalue, -, rfl⟩
      exact ⟨name, ⟨value, hvalue⟩, rfl⟩
  | some existing =>
    have hkey : existing.key = r.key := ht _ _ hr
    have hbefore := fieldAt_of_get?_eq_some hr
    have hmem := existing.mem_changed_mergeFields h (k := k)
    simpa only [merge, hr, hbefore, hkey, Record.mergeWith, Record.field?] using hmem

theorem WellFormed.of_cons {key : RecordKey} {r : Record} {table : RecordTable}
    (h : WellFormed ((key, r) :: table)) :
    r.key = key ∧ r.WellFormed ∧ Assoc.get? table key = none ∧ WellFormed table := by
  obtain ⟨hkey, hnodup⟩ := List.nodup_cons.mp h.nodup
  have hhead : Assoc.get? ((key, r) :: table) key = some r := by rw [Assoc.get?_cons, if_pos rfl]
  have hnone : Assoc.get? table key = none := by
    rw [← Option.not_isSome_iff_eq_none, ← Assoc.mem_keys_iff]
    exact hkey
  have htail : ∀ {other stored}, Assoc.get? table other = some stored →
      Assoc.get? ((key, r) :: table) other = some stored := by
    intro other stored hstored
    have hne : key ≠ other := by
      rintro rfl
      rw [hnone] at hstored
      cases hstored
    rw [Assoc.get?_cons, if_neg hne, hstored]
  exact ⟨h.keyed _ _ hhead, h.records _ _ hhead, hnone,
    hnodup, fun _ _ hr => h.keyed _ _ (htail hr), fun _ _ hr => h.records _ _ (htail hr)⟩

theorem fieldAt_cons_self (r : Record) (rest : RecordTable) (name : String) :
    fieldAt ((r.key, r) :: rest) r.key name = r.field? name :=
  fieldAt_of_get?_eq_some (by rw [Assoc.get?_cons, if_pos rfl]) name

theorem fieldAt_cons_of_ne {key : RecordKey} {r : Record} (h : key ≠ r.key) (rest : RecordTable)
    (name : String) : fieldAt ((r.key, r) :: rest) key name = fieldAt rest key name := by
  rw [fieldAt, Assoc.get?_cons, if_neg (Ne.symm h), fieldAt]

/-- Merging the records of a table merges every field of it. -/
theorem fieldAt_mergeAll_values (table : RecordTable) {incoming : RecordTable}
    (h : incoming.WellFormed) (key : RecordKey) (name : String) :
    fieldAt (mergeAll table (Assoc.values incoming)).1 key name =
      FieldValue.afterMerge (fieldAt table key name) (fieldAt incoming key name) := by
  induction incoming generalizing table with
  | nil => rfl
  | cons entry rest ih =>
    obtain ⟨k, r⟩ := entry
    obtain ⟨rfl, hr, hnone, hrest⟩ := h.of_cons
    rw [Assoc.values, List.map_cons, mergeAll_cons, ← Assoc.values, ih (merge table r).1 hrest]
    by_cases hkey : key = r.key
    · subst hkey
      have hlast : fieldAt rest r.key name = none := by rw [fieldAt, hnone]; rfl
      rw [fieldAt_merge_self table hr.nodup, hlast, fieldAt_cons_self]
      rfl
    · rw [fieldAt_merge_of_ne table hkey, fieldAt_cons_of_ne hkey]

/-- A merge of the records of a table reports a field that comes in unless it holds an equal
value. -/
theorem mem_reported_mergeAll_values {table incoming : RecordTable} (ht : table.KeyedByRecord)
    (h : incoming.WellFormed) {k : String} :
    k ∈ (mergeAll table (Assoc.values incoming)).2 ↔
      ∃ key name value, fieldAt incoming key name = some value ∧
        (fieldAt table key name == some value) = false ∧ k = key.fieldKey name := by
  induction incoming generalizing table with
  | nil => simp [Assoc.values, fieldAt]
  | cons entry rest ih =>
    obtain ⟨entryKey, r⟩ := entry
    obtain ⟨rfl, hr, hnone, hrest⟩ := h.of_cons
    have hmerged := ih (keyedByRecord_merge ht r) hrest
    have hlast : ∀ name, fieldAt rest r.key name = none := fun name => by
      rw [fieldAt, hnone]
      rfl
    rw [Assoc.values, List.map_cons, mergeAll_cons, ← Assoc.values, KeySet.mem_union,
      mem_changed_merge ht hr.nodup, hmerged]
    constructor
    · rintro (⟨name, value, hvalue, hdiff, rfl⟩ | ⟨key, name, value, hvalue, hdiff, rfl⟩)
      · exact ⟨r.key, name, value, (fieldAt_cons_self r rest name).trans hvalue, hdiff, rfl⟩
      · have hkey : key ≠ r.key := by
          rintro rfl
          rw [hlast] at hvalue
          cases hvalue
        rw [fieldAt_merge_of_ne table hkey] at hdiff
        exact ⟨key, name, value, (fieldAt_cons_of_ne hkey rest name).trans hvalue, hdiff, rfl⟩
    · rintro ⟨key, name, value, hvalue, hdiff, rfl⟩
      by_cases hkey : key = r.key
      · subst hkey
        rw [fieldAt_cons_self] at hvalue
        exact .inl ⟨name, value, hvalue, hdiff, rfl⟩
      · rw [fieldAt_cons_of_ne hkey] at hvalue
        rw [← fieldAt_merge_of_ne table hkey] at hdiff
        exact .inr ⟨key, name, value, hvalue, hdiff, rfl⟩

/-- A merge of the records of a table reports the fields whose value before and after are
unequal. -/
theorem mem_changed_mergeAll_values {table incoming : RecordTable} (ht : table.WellFormed)
    (h : incoming.WellFormed) {k : String} :
    k ∈ (mergeAll table (Assoc.values incoming)).2 ↔
      ∃ key name, (fieldAt table key name ==
          fieldAt (mergeAll table (Assoc.values incoming)).1 key name) = false ∧
        k = key.fieldKey name := by
  rw [mem_reported_mergeAll_values ht.keyed h]
  refine exists_congr fun key => exists_congr fun name => ?_
  rw [fieldAt_mergeAll_values table h,
    FieldValue.beq_afterMerge_eq_false_iff fun _ hvalue => ht.fieldAt hvalue]
  constructor
  · rintro ⟨value, hvalue, hdiff, hk⟩
    exact ⟨⟨value, hvalue, hdiff⟩, hk⟩
  · rintro ⟨⟨value, hvalue, hdiff⟩, hk⟩
    exact ⟨value, hvalue, hdiff, hk⟩

theorem exists_keptOutside_merge {table : RecordTable} {key : RecordKey} {r : Record}
    (h : Assoc.get? table key = some r) (incoming : Record) :
    ∃ r', Assoc.get? (merge table incoming).1 key = some r' ∧
      Record.KeptOutside (merge table incoming).2 r r' := by
  by_cases hkey : key = incoming.key
  · subst hkey
    refine ⟨(r.mergeWith incoming).1, by rw [get?_merge_self, h], ?_⟩
    rw [merge, h]
    exact r.keptOutside_mergeFields incoming.fields
  · exact ⟨r, by rw [get?_merge_of_ne table hkey, h], Record.KeptOutside.refl _ r⟩

/-- Whatever is merged, every record stays, and so do its fields that are not reported. -/
theorem exists_keptOutside_mergeAll {table : RecordTable} {key : RecordKey} {r : Record}
    (h : Assoc.get? table key = some r) (rs : List Record) :
    ∃ r', Assoc.get? (mergeAll table rs).1 key = some r' ∧
      Record.KeptOutside (mergeAll table rs).2 r r' := by
  induction rs generalizing table r with
  | nil => exact ⟨r, h, Record.KeptOutside.refl _ r⟩
  | cons incoming rs ih =>
    obtain ⟨r', hr', hkept⟩ := exists_keptOutside_merge h incoming
    obtain ⟨r'', hr'', hkept'⟩ := ih hr'
    refine ⟨r'', hr'', Record.KeptOutside.trans (hkept.mono ?_) (hkept'.mono ?_)⟩
    · exact fun k hk => KeySet.mem_union.mpr (.inl hk)
    · exact fun k hk => KeySet.mem_union.mpr (.inr hk)

theorem isSome_get?_mergeAll (table : RecordTable) (rs : List Record)
    (key : RecordKey) :
    (Assoc.get? (mergeAll table rs).1 key).isSome = true ↔
      (Assoc.get? table key).isSome = true ∨ ∃ r ∈ rs, r.key = key := by
  induction rs generalizing table with
  | nil => simp
  | cons r rs ih =>
    rw [mergeAll_cons, ih (merge table r).1]
    simp only [List.mem_cons, exists_eq_or_imp]
    by_cases hkey : key = r.key
    · subst hkey
      simp [get?_merge_self]
    · rw [get?_merge_of_ne table hkey]
      simp [Ne.symm hkey]

theorem WellFormed.fieldAt_of_mem {table : RecordTable} (h : table.WellFormed)
    {r : Record} (hr : r ∈ Assoc.values table) (name : String) :
    table.fieldAt r.key name = r.field? name := by
  obtain ⟨⟨key, r⟩, hentry, rfl⟩ := List.mem_map.mp hr
  have hget : Assoc.get? table key = some r := Assoc.get?_eq_some_of_mem h.nodup hentry
  have hkey : r.key = key := h.keyed key r hget
  rw [hkey]
  exact fieldAt_of_get?_eq_some hget name

theorem WellFormed.exists_mem_of_fieldAt {table : RecordTable} (h : table.WellFormed)
    {key : RecordKey} {name : String} {value : FieldValue}
    (hvalue : table.fieldAt key name = some value) :
    ∃ r ∈ Assoc.values table, r.key = key ∧ r.field? name = some value := by
  obtain ⟨r, hr, hname⟩ := Option.bind_eq_some_iff.mp hvalue
  exact ⟨r, List.mem_map.mpr ⟨(key, r), Assoc.mem_of_get?_eq_some hr, rfl⟩, h.keyed key r hr, hname⟩

end RecordTable

end GraphClient
