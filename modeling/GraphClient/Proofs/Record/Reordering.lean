import GraphClient.Proofs.Json.Reordering
import GraphClient.Proofs.Record.WellFormed

/-!
# Records that differ in the order of keys inside their values

Two values of a field are `Reordered` when they hold the same references in the same places, and JSON
values that differ in nothing but the order of keys. Records are, when they list the same fields in
the same order with such values, and tables, when they list such records under the same keys.

A merge compares values up to the order of keys, so it cannot tell such records apart: it reports the
same changes, and what comes out differs in the order of keys at most (`RecordTable.Reordered.mergeAll`).
-/

namespace GraphClient

namespace Assoc

variable {κ α : Type} {R : α → α → Prop}

/-- Related values under the same keys in the same order. -/
def Matched (R : α → α → Prop) (m n : Assoc κ α) : Prop :=
  List.Forall₂ (fun a b => a.1 = b.1 ∧ R a.2 b.2) m n

namespace Matched

theorem nil : Matched R ([] : Assoc κ α) [] := List.Forall₂.nil

theorem cons (key : κ) {x y : α} (h : R x y) {m n : Assoc κ α} (hrest : Matched R m n) :
    Matched R ((key, x) :: m) ((key, y) :: n) :=
  List.Forall₂.cons ⟨rfl, h⟩ hrest

theorem append {m n m' n' : Assoc κ α} (h : Matched R m n) (h' : Matched R m' n') :
    Matched R (m ++ m') (n ++ n') :=
  List.rel_append h h'

theorem refl {m : Assoc κ α} (h : ∀ entry ∈ m, R entry.2 entry.2) : Matched R m m :=
  List.forall₂_same.mpr fun entry hentry => ⟨rfl, h entry hentry⟩

theorem keys_eq {m n : Assoc κ α} (h : Matched R m n) : keys m = keys n := by
  induction h with
  | nil => rfl
  | cons hentry _ ih => exact congrArg₂ List.cons hentry.1 ih

theorem values {m n : Assoc κ α} (h : Matched R m n) : List.Forall₂ R (values m) (values n) := by
  induction h with
  | nil => exact .nil
  | cons hentry _ ih => exact .cons hentry.2 ih

variable [DecidableEq κ]

theorem get? {m n : Assoc κ α} (h : Matched R m n) (key : κ) :
    Option.Rel R (Assoc.get? m key) (Assoc.get? n key) := by
  induction h with
  | nil => exact .none
  | @cons a b m n hentry _ ih =>
    obtain ⟨k, x⟩ := a
    obtain ⟨k', y⟩ := b
    obtain ⟨rfl, hvalue⟩ := hentry
    rw [get?_cons, get?_cons]
    split
    · exact .some hvalue
    · exact ih

theorem insert {m n : Assoc κ α} (h : Matched R m n) (key : κ) {x y : α} (hxy : R x y) :
    Matched R (Assoc.insert m key x) (Assoc.insert n key y) := by
  induction h with
  | nil => exact .cons key hxy .nil
  | @cons a b m n hentry hrest ih =>
    obtain ⟨k, _⟩ := a
    obtain ⟨k', _⟩ := b
    obtain ⟨rfl, hvalue⟩ := hentry
    rw [Assoc.insert, Assoc.insert]
    split
    · exact .cons k hxy hrest
    · exact .cons k hvalue ih

theorem insertAll {m n entries others : Assoc κ α} (h : Matched R m n)
    (hentries : Matched R entries others) :
    Matched R (Assoc.insertAll m entries) (Assoc.insertAll n others) := by
  induction hentries generalizing m n with
  | nil => exact h
  | @cons a b _ _ hentry _ ih =>
    obtain ⟨key, x⟩ := a
    obtain ⟨key', y⟩ := b
    obtain ⟨rfl, hvalue⟩ := hentry
    exact ih (h.insert key hvalue)

end Matched

end Assoc

namespace FieldValue

/-- The values differ in the order of keys at most. -/
inductive Reordered : FieldValue → FieldValue → Prop
  | scalar {x y : Json} (h : x.Reordered y) : Reordered (scalar x) (scalar y)
  | reference (key : RecordKey) : Reordered (reference key) (reference key)
  | list {xs ys : List FieldValue} (length : xs.length = ys.length)
      (items : ∀ (i : ℕ) x y, xs[i]? = some x → ys[i]? = some y → Reordered x y) :
      Reordered (list xs) (list ys)

namespace Reordered

theorem symm {x y : FieldValue} (h : Reordered x y) : Reordered y x := by
  induction h with
  | scalar h => exact .scalar h.symm
  | reference key => exact .reference key
  | list length _ ih => exact .list length.symm fun i y x hy hx => ih i x y hx hy

theorem list_iff {xs ys : List FieldValue} :
    Reordered (.list xs) (.list ys) ↔ List.Forall₂ Reordered xs ys := by
  rw [forall₂_iff_getElem?]
  constructor
  · intro h
    cases h with
    | list length items => exact ⟨length, items⟩
  · exact fun ⟨length, items⟩ => .list length items

mutual

theorem refl : ∀ {x : FieldValue}, x.WellFormed → Reordered x x
  | .scalar _, h => .scalar (.refl h)
  | .reference key, _ => .reference key
  | .list _, h => list_iff.mpr (refl_items h)

theorem refl_items : ∀ {xs : List FieldValue}, WellFormedItems xs → List.Forall₂ Reordered xs xs
  | [], _ => .nil
  | _ :: _, h => .cons (refl h.1) (refl_items h.2)

end

theorem equalItems_of_forall₂ {xs ys : List FieldValue}
    (h : List.Forall₂ (fun x y => equal x y = true) xs ys) : equalItems xs ys = true := by
  induction h with
  | nil => rfl
  | cons hxy _ ih => rw [equalItems, hxy, ih, Bool.and_self]

theorem beq {x y : FieldValue} (h : Reordered x y) : (x == y) = true := by
  induction h with
  | scalar h => exact h.equal
  | reference key => exact beq_self_eq_true key
  | list length _ ih => exact equalItems_of_forall₂ (forall₂_iff_getElem?.mpr ⟨length, ih⟩)

/-- What is equal to a value is equal to its reorderings. -/
theorem beq_congr {x x' y y' : FieldValue} (hx : Reordered x x') (hy : Reordered y y') :
    (x == y) = (x' == y') := by
  rw [Bool.eq_iff_iff]
  constructor
  · exact fun h => beq_trans hx.symm.beq (beq_trans h hy.beq)
  · exact fun h => beq_trans hx.beq (beq_trans h hy.symm.beq)

end Reordered

end FieldValue

/-- The records list the same fields in the same order, with values that differ in the order of keys
at most. -/
structure Record.Reordered (r r' : Record) : Prop where
  key : r.key = r'.key
  fields : Assoc.Matched FieldValue.Reordered r.fields r'.fields

namespace Record

variable {r r' : Record} {value value' : FieldValue}

theorem WellFormed.reordered (h : r.WellFormed) : r.Reordered r where
  key := rfl
  fields := .refl fun _ hf => .refl (h.of_mem hf)

namespace Reordered

theorem field? (h : r.Reordered r') (name : String) :
    Option.Rel FieldValue.Reordered (r.field? name) (r'.field? name) :=
  h.fields.get? name

theorem fieldKeys_eq (h : r.Reordered r') : r.fieldKeys = r'.fieldKeys := by
  rw [fieldKeys, fieldKeys, h.key, h.fields.keys_eq]

theorem setField (h : r.Reordered r') (name : String) (hvalue : value.Reordered value') :
    (r.setField name value).Reordered (r'.setField name value') where
  key := h.key
  fields := h.fields.insert name hvalue

theorem holds_eq (h : r.Reordered r') (name : String) (hvalue : value.Reordered value') :
    r.holds name value = r'.holds name value' := by
  rw [holds, holds]
  rcases none_or_some_of_rel (h.field? name) with ⟨hx, hy⟩ | ⟨stored, stored', hx, hy, hstored⟩
  · rw [hx, hy]
  · rw [hx, hy]
    exact hstored.beq_congr hvalue

theorem mergeField (h : r.Reordered r') (name : String) (hvalue : value.Reordered value') :
    (r.mergeField name value).Reordered (r'.mergeField name value') := by
  rw [Record.mergeField, Record.mergeField, h.holds_eq name hvalue]
  split
  · exact h
  · exact h.setField name hvalue

/-- A merge of fields reports the same changes. -/
theorem mergeFields {fields fields' : List (String × FieldValue)} (h : r.Reordered r')
    (hfields : Assoc.Matched FieldValue.Reordered fields fields') :
    (r.mergeFields fields).1.Reordered (r'.mergeFields fields').1 ∧
      (r.mergeFields fields).2 = (r'.mergeFields fields').2 := by
  induction hfields generalizing r r' with
  | nil => exact ⟨h, rfl⟩
  | @cons f f' fields fields' hf _ ih =>
    obtain ⟨name, value⟩ := f
    obtain ⟨name', value'⟩ := f'
    obtain ⟨rfl, hvalue⟩ := hf
    obtain ⟨hmerged, hchanged⟩ := ih (h.mergeField name hvalue)
    refine ⟨hmerged, ?_⟩
    simp only [Record.mergeFields, hchanged, h.holds_eq name hvalue, h.key]

end Reordered

end Record

/-- The tables list the same keys in the same order, with records that differ in the order of keys
inside their values at most. -/
abbrev RecordTable.Reordered : RecordTable → RecordTable → Prop := Assoc.Matched Record.Reordered

namespace RecordTable

variable {table table' : RecordTable} {r r' : Record}

theorem WellFormed.reordered (h : table.WellFormed) : table.Reordered table :=
  .refl fun entry hentry =>
    (h.records entry.1 entry.2 (Assoc.get?_eq_some_of_mem h.nodup hentry)).reordered

namespace Reordered

theorem merge (h : table.Reordered table') (hr : r.Reordered r') :
    (table.merge r).1.Reordered (table'.merge r').1 ∧ (table.merge r).2 = (table'.merge r').2 := by
  rw [RecordTable.merge, RecordTable.merge, hr.key]
  rcases none_or_some_of_rel (h.get? r'.key) with ⟨hx, hy⟩ | ⟨stored, stored', hx, hy, hstored⟩
  · rw [hx, hy]
    exact ⟨h.insert r'.key hr, hr.fieldKeys_eq⟩
  · obtain ⟨hmerged, hchanged⟩ := hstored.mergeFields hr.fields
    rw [hx, hy]
    exact ⟨h.insert r'.key hmerged, hchanged⟩

/-- Merging records that differ in the order of keys reports the same changes, and the tables that
come out differ in the order of keys at most. -/
theorem mergeAll {rs rs' : List Record} (h : table.Reordered table')
    (hrs : List.Forall₂ Record.Reordered rs rs') :
    (table.mergeAll rs).1.Reordered (table'.mergeAll rs').1 ∧
      (table.mergeAll rs).2 = (table'.mergeAll rs').2 := by
  induction hrs generalizing table table' with
  | nil => exact ⟨h, rfl⟩
  | @cons r r' rs rs' hr _ ih =>
    obtain ⟨hfirst, hchanged⟩ := h.merge hr
    obtain ⟨hrest, hothers⟩ := ih hfirst
    rw [mergeAll_cons, mergeAll_cons, hchanged, hothers]
    exact ⟨hrest, rfl⟩

theorem ofRecords {rs rs' : List Record} (h : List.Forall₂ Record.Reordered rs rs') :
    (RecordTable.ofRecords rs).Reordered (RecordTable.ofRecords rs') :=
  have hempty : RecordTable.Reordered [] [] := .nil
  (hempty.mergeAll h).1

end Reordered

end RecordTable

end GraphClient
