import GraphClient.Proofs.Normalization.Visits
import GraphClient.Proofs.Normalization.WellFormed
import GraphClient.Proofs.Record.Merging

/-!
# References under the path resolver

Under a resolver that gives no object an identity, every object is stored under the path on which it
was reached. So a reference names the place at which it stands: that of a field is the key of the
record with the name of the field, and in a list the index of the item is added, at every depth of
lists (`FieldValue.PlacedAt`). Normalized data are so placed, and a merge keeps it up, since a merged
field holds what it held before or what came in.
-/

namespace GraphClient

namespace FieldValue

mutual

/-- Every reference in a value names the place at which it stands. -/
def PlacedAt : RecordKey → FieldValue → Prop
  | _, scalar _ => True
  | path, reference key => key = path
  | path, list items => PlacedItems path 0 items

/-- The items of a list stand at the indices from a given one on. -/
def PlacedItems : RecordKey → Nat → List FieldValue → Prop
  | _, _, [] => True
  | path, index, x :: xs => PlacedAt (path.item index) x ∧ PlacedItems path (index + 1) xs

end

end FieldValue

/-- Every reference in a record names the place at which it stands. -/
def Record.Placed (r : Record) : Prop :=
  ∀ name value, r.field? name = some value → value.PlacedAt (r.key.child name)

namespace RecordTable

/-- Every reference in a table names the place at which it stands. -/
def Placed (table : RecordTable) : Prop :=
  ∀ key name value, table.fieldAt key name = some value → value.PlacedAt (key.child name)

theorem placed_nil : Placed [] := nofun

variable {table : RecordTable}

theorem Placed.mergeAll (h : table.Placed) {rs : List Record} (hrs : ∀ r ∈ rs, r.WellFormed)
    (hplaced : ∀ r ∈ rs, r.Placed) : (table.mergeAll rs).1.Placed := by
  intro key name value hvalue
  rcases exists_of_fieldAt_mergeAll (fun r hr => (hrs r hr).nodup) hvalue with
    hbefore | ⟨r, hr, rfl, hincoming⟩
  · exact h key name value hbefore
  · exact hplaced r hr name value hincoming

theorem Placed.values (h : table.Placed) (hwell : table.WellFormed) :
    ∀ r ∈ Assoc.values table, r.Placed := by
  intro r hr name value hvalue
  exact h r.key name value ((hwell.fieldAt_of_mem hr name).trans hvalue)

theorem WellFormed.values (h : table.WellFormed) : ∀ r ∈ Assoc.values table, r.WellFormed := by
  intro r hr
  obtain ⟨⟨key, r⟩, hentry, rfl⟩ := List.mem_map.mp hr
  exact h.records key r (Assoc.get?_eq_some_of_mem h.nodup hentry)

theorem Placed.erase (h : table.Placed) (key : RecordKey) : Placed (Assoc.erase table key) := by
  intro other name value hvalue
  by_cases hkey : other = key
  · rw [fieldAt, hkey, Assoc.get?_erase_self] at hvalue
    cases hvalue
  · rw [fieldAt, Assoc.get?_erase_of_ne _ hkey] at hvalue
    exact h other name value hvalue

theorem WellFormed.erase (h : table.WellFormed) (key : RecordKey) :
    WellFormed (Assoc.erase table key) := by
  have hkept : ∀ {other r}, Assoc.get? (Assoc.erase table key) other = some r →
      Assoc.get? table other = some r := by
    intro other r hr
    by_cases hkey : other = key
    · rw [hkey, Assoc.get?_erase_self] at hr
      cases hr
    · rwa [Assoc.get?_erase_of_ne _ hkey] at hr
  exact ⟨Assoc.nodup_keys_erase h.nodup key, fun other r hr => h.keyed other r (hkept hr),
    fun other r hr => h.records other r (hkept hr)⟩

end RecordTable

/-- The resolver gives no object an identity. -/
def KeyResolver.NeverIdentifies (resolver : KeyResolver) : Prop :=
  ∀ field object, resolver.ofObject field object = none

theorem KeyResolver.neverIdentifies_byPath : byPath.NeverIdentifies := fun _ _ => rfl

namespace Normalization

variable {c : Context}

theorem placedItems_itemValues {item : Shape} {field : Field}
    (hitem : ∀ {path value stored pieces}, shapeValue c field item path value = .ok (stored, pieces) →
      stored.PlacedAt path)
    {path : RecordKey} {index : Nat} {items : List Json} {values : List FieldValue} {pieces : Pieces}
    (h : itemValues (shapeValue c field item) path index items = .ok (values, pieces)) :
    FieldValue.PlacedItems path index values := by
  induction items generalizing index values pieces with
  | nil =>
    cases h
    trivial
  | cons x xs ih =>
    obtain ⟨first, others, inner, more, hx, hxs, rfl, rfl⟩ := itemValues_cons_eq_ok h
    exact ⟨hitem hx, ih hxs⟩

/-- What is stored for a value stands at the path of the value. -/
theorem placedAt_shapeValue (hc : c.resolver.NeverIdentifies) {field : Field} (shape : Shape) :
    ∀ {path value stored pieces}, shapeValue c field shape path value = .ok (stored, pieces) →
      stored.PlacedAt path := by
  induction shape using Shape.inductionOn with
  | leaf =>
    intro path value stored pieces h
    rw [shapeValue_leaf] at h
    cases h
    trivial
  | list item ih =>
    intro path value stored pieces h
    rcases shapeValue_list_eq_ok h with ⟨-, rfl, -⟩ | ⟨items, values, -, hitems, rfl⟩
    · trivial
    · exact placedItems_itemValues ih hitems
  | object selections =>
    intro path value stored pieces h
    rcases shapeValue_object_eq_ok h with ⟨-, rfl, -⟩ | ⟨members, key, fields, children, -, rfl, -,
      rfl, -⟩
    · trivial
    · rw [hc]
      rfl

/-- The records of any data are so placed. -/
theorem placed_of_pieces (hc : c.resolver.NeverIdentifies) {root : RecordKey}
    {selections : List Selection} {data : Json.Object} {taken : Pieces}
    (h : pieces c root selections data = .ok taken) : ∀ r ∈ taken.records, r.Placed := by
  intro r hr name stored hstored
  obtain ⟨v, -, hyields⟩ := yielded_of_pieces h r hr
  obtain ⟨f, -, rfl, value, inner, -, hvalue⟩ := hyields.field name stored hstored
  rw [hyields.key]
  exact placedAt_shapeValue hc f.2 hvalue

end Normalization

theorem placed_normalize {resolver : KeyResolver} (hresolver : resolver.NeverIdentifies)
    {vars : Json.Object} {root : RecordKey} {selections : List Selection} {data : Json.Object}
    {normalized : Normalized} (h : normalize resolver vars root selections data = .ok normalized)
    (hdata : (Json.object data).WellFormed) : normalized.records.Placed := by
  obtain ⟨taken, htaken, hrecords, -⟩ := normalize_eq_ok h
  rw [hrecords]
  exact RecordTable.placed_nil.mergeAll (Normalization.wellFormed_pieces htaken hdata)
    (Normalization.placed_of_pieces hresolver htaken)

end GraphClient
