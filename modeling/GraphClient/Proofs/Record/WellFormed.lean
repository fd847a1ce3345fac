import GraphClient.Proofs.Json.Equality
import GraphClient.Record.Table

/-!
# Well-formed records

A value of a field is well formed when the JSON in it is. A record is well formed when it holds each
field once and all its values are well formed; a table, when it holds each key once, every record
under its own key, and only well-formed records. Merging well-formed records keeps a table well
formed, so the table that a store builds up is.
-/

namespace GraphClient

namespace FieldValue

mutual

/-- No JSON object in the value repeats a key. -/
def WellFormed : FieldValue → Prop
  | scalar value => value.WellFormed
  | reference _ => True
  | list items => WellFormedItems items

/-- Every item is well formed. -/
def WellFormedItems : List FieldValue → Prop
  | [] => True
  | x :: xs => WellFormed x ∧ WellFormedItems xs

end

mutual

theorem equal_refl : ∀ x : FieldValue, x.WellFormed → equal x x = true
  | scalar value, h => Json.equal_refl value h
  | reference key, _ => by simp [equal]
  | list items, h => equalItems_refl items h

theorem equalItems_refl : ∀ xs : List FieldValue, WellFormedItems xs → equalItems xs xs = true
  | [], _ => rfl
  | x :: xs, h => by
    rw [equalItems, equal_refl x h.1, equalItems_refl xs h.2]
    rfl

end

mutual

theorem equal_trans : ∀ {a b c : FieldValue}, equal a b = true → equal b c = true →
    equal a c = true
  | scalar _, scalar _, scalar _, hab, hbc => Json.equal_trans hab hbc
  | reference _, reference _, reference _, hab, hbc => by
    simp only [equal, beq_iff_eq] at *
    exact hab.trans hbc
  | list _, list _, list _, hab, hbc => equalItems_trans hab hbc

theorem equalItems_trans : ∀ {xs ys zs : List FieldValue}, equalItems xs ys = true →
    equalItems ys zs = true → equalItems xs zs = true
  | [], [], _, _, h => h
  | _ :: _, _ :: _, _ :: _, hxy, hyz => by
    simp only [equalItems, Bool.and_eq_true] at *
    exact ⟨equal_trans hxy.1 hyz.1, equalItems_trans hxy.2 hyz.2⟩

end

theorem beq_refl {x : FieldValue} (h : x.WellFormed) : (x == x) = true := equal_refl x h

theorem beq_trans {a b c : FieldValue} (hab : (a == b) = true) (hbc : (b == c) = true) :
    (a == c) = true :=
  equal_trans hab hbc

end FieldValue

/-- A record with each field once and well-formed values only. -/
structure Record.WellFormed (r : Record) : Prop where
  nodup : (Assoc.keys r.fields).Nodup
  values : ∀ name value, r.field? name = some value → value.WellFormed

/-- A table with each key once, each record under its own key, and well-formed records only. -/
structure RecordTable.WellFormed (table : RecordTable) : Prop where
  nodup : (Assoc.keys table).Nodup
  keyed : table.KeyedByRecord
  records : ∀ key r, Assoc.get? table key = some r → r.WellFormed

namespace Record

theorem wellFormed_empty (key : RecordKey) : (Record.mk key []).WellFormed where
  nodup := List.nodup_nil
  values _ _ h := nomatch h

theorem WellFormed.of_fields {r : Record} (hnodup : (Assoc.keys r.fields).Nodup)
    (h : ∀ f ∈ r.fields, f.2.WellFormed) : r.WellFormed :=
  ⟨hnodup, fun name value hvalue => h (name, value) (Assoc.mem_of_get?_eq_some hvalue)⟩

theorem WellFormed.setField {r : Record} (h : r.WellFormed) (name : String) {value : FieldValue}
    (hvalue : value.WellFormed) : (r.setField name value).WellFormed where
  nodup := Assoc.nodup_keys_insert h.nodup name value
  values other v hv := by
    by_cases hname : other = name
    · subst hname
      rw [field?_setField_self, Option.some.injEq] at hv
      exact hv ▸ hvalue
    · rw [field?_setField_of_ne _ _ hname] at hv
      exact h.values other v hv

theorem WellFormed.mergeFields {r : Record} (h : r.WellFormed) {fields : List (String × FieldValue)}
    (hfields : ∀ f ∈ fields, f.2.WellFormed) : (r.mergeFields fields).1.WellFormed := by
  induction fields generalizing r with
  | nil => exact h
  | cons f fs ih =>
    obtain ⟨name, value⟩ := f
    obtain ⟨hvalue, hfs⟩ := List.forall_mem_cons.mp hfields
    have hmerged : (r.mergeField name value).WellFormed := by
      rw [mergeField]
      split
      · exact h
      · exact h.setField name hvalue
    exact ih hmerged hfs

theorem WellFormed.of_mem {r : Record} (h : r.WellFormed) {f : String × FieldValue}
    (hf : f ∈ r.fields) : f.2.WellFormed :=
  h.values f.1 f.2 (Assoc.get?_eq_some_of_mem h.nodup hf)

end Record

namespace RecordTable

theorem wellFormed_nil : WellFormed [] where
  nodup := List.nodup_nil
  keyed _ _ h := nomatch h
  records _ _ h := nomatch h

theorem nodup_keys_merge {table : RecordTable} (h : (Assoc.keys table).Nodup) (r : Record) :
    (Assoc.keys (merge table r).1).Nodup := by
  rw [merge]
  split
  · exact Assoc.nodup_keys_insert h _ _
  · exact Assoc.nodup_keys_insert h _ _

theorem nodup_keys_mergeAll {table : RecordTable} (h : (Assoc.keys table).Nodup)
    (rs : List Record) : (Assoc.keys (mergeAll table rs).1).Nodup := by
  induction rs generalizing table with
  | nil => exact h
  | cons r rs ih => exact ih (nodup_keys_merge h r)

theorem WellFormed.merge {table : RecordTable} (h : table.WellFormed) {r : Record}
    (hr : r.WellFormed) : (table.merge r).1.WellFormed where
  nodup := nodup_keys_merge h.nodup r
  keyed := keyedByRecord_merge h.keyed r
  records key stored hstored := by
    by_cases hkey : key = r.key
    · subst hkey
      rw [get?_merge_self, Option.some.injEq] at hstored
      subst hstored
      split
      · next existing hexisting =>
        exact (h.records _ _ hexisting).mergeFields fun _ => hr.of_mem
      · exact hr
    · rw [get?_merge_of_ne table hkey] at hstored
      exact h.records key stored hstored

theorem WellFormed.mergeAll {table : RecordTable} (h : table.WellFormed) {rs : List Record}
    (hrs : ∀ r ∈ rs, r.WellFormed) : (table.mergeAll rs).1.WellFormed := by
  induction rs generalizing table with
  | nil => exact h
  | cons r rs ih =>
    obtain ⟨hr, hrs⟩ := List.forall_mem_cons.mp hrs
    exact ih (h.merge hr) hrs

end RecordTable

end GraphClient
