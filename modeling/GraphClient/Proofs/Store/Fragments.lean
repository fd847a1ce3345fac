import GraphClient.Proofs.Normalization.Listing
import GraphClient.Proofs.Store.RoundTrip
import Mathlib.Data.List.Nodup

/-!
# Fragments of objects and of records

Taking an object apart decides about fragments by what the object names as its type: the member
`__typename` of the data. Reading a record decides by the field `__typename` of the record. The
member goes by the name in the response and the field by the name it is stored under, so the two are
the same only where the type is asked for under its own name, and nothing else is asked for under
that name (`Visit.AsksType`).

Then an object that is the only one of its key is read with the fragments with which it was taken
apart (`entered_write`). Where the type has an alias, it is not.
-/

namespace GraphClient

mutual

/-- The positions of the fragments of a selection that apply to an object of a type, a fragment
inside of another behind it. -/
def Selection.entered (typename : Option String) (position : List Nat) :
    Selection → List (List Nat)
  | .field _ _ => []
  | .fragment types selections =>
    if fragmentApplies types typename then
      position :: selectionsEntered typename position 0 selections
    else []

/-- The positions of the fragments that apply to an object of a type. -/
def selectionsEntered (typename : Option String) (position : List Nat) :
    (index : Nat) → List Selection → List (List Nat)
  | _, [] => []
  | index, s :: ss =>
    s.entered typename (position ++ [index]) ++ selectionsEntered typename position (index + 1) ss

end

theorem selectionsEntered_of_no_fragment {selections : List Selection}
    (h : selections.any Selection.isFragment = false) (typename : Option String)
    (position : List Nat) (index : Nat) :
    selectionsEntered typename position index selections = [] := by
  induction selections generalizing index with
  | nil => rw [selectionsEntered]
  | cons s ss ih =>
    rw [List.any_cons, Bool.or_eq_false_iff] at h
    cases s with
    | field field shape =>
      rw [selectionsEntered, Selection.entered, List.nil_append, ih h.2]
    | fragment types selections => cases h.1

namespace Normalization

variable {c : Context}

/-- Where there are fragments, the type is asked for under its own name, and nothing else is. -/
def Visit.AsksType (vars : Json.Object) (v : Visit) : Prop :=
  v.selections.any Selection.isFragment = true →
    ∀ f ∈ v.fields, f.1.responseName = Json.typenameKey ↔ f.1.cacheKey vars = Json.typenameKey

/-- The object has only members that are asked for. -/
def Visit.OnlySelected (v : Visit) : Prop :=
  ∀ name ∈ Assoc.keys v.object, ∃ f ∈ v.fields, f.1.responseName = name

/-- A record holds what a visit writes, and nothing else. -/
structure Visit.HeldBy (c : Context) (v : Visit) (r : Record) : Prop where
  written : ∀ name stored, r.field? name = some stored → Writes c v name stored
  present : ∀ name stored, Writes c v name stored → (r.field? name).isSome = true

/-- The record of an object that asks for its type names the type that the object names. -/
theorem Visit.HeldBy.recordTypename?_eq {v : Visit} {r : Record} (hr : v.HeldBy c r)
    {records : List Record} (htaken : v.TakenIn c records) (hselected : v.OnlySelected)
    (hasks : ∀ f ∈ v.fields,
      f.1.responseName = Json.typenameKey ↔ f.1.cacheKey c.vars = Json.typenameKey) :
    Reading.recordTypename? r = Json.typename? v.object := by
  -- what the record holds as its type comes from the member
  have hfrom : ∀ stored, r.field? Json.typenameKey = some stored → ∃ value,
      Assoc.get? v.object Json.typenameKey = some value ∧
        Reading.recordTypename? r = value.asString? := by
    intro stored hstored
    obtain ⟨f, hf, hkey, value, pieces, hvalue, hshape⟩ := hr.written _ _ hstored
    rw [(hasks f hf).mpr hkey] at hvalue
    exact ⟨value, hvalue, Reading.recordTypename?_of_shapeValue hshape hstored⟩
  rw [Json.typename?]
  cases hmember : Assoc.get? v.object Json.typenameKey with
  | none =>
    cases hfield : r.field? Json.typenameKey with
    | none =>
      rw [Reading.recordTypename?, hfield]
      rfl
    | some stored =>
      obtain ⟨value, hvalue, -⟩ := hfrom stored hfield
      cases hmember.symm.trans hvalue
  | some value =>
    -- the member is asked for, so something is stored as the type
    have hkeys : Json.typenameKey ∈ Assoc.keys v.object := by
      rw [Assoc.mem_keys_iff, hmember]
      rfl
    obtain ⟨f, hf, hname⟩ := hselected _ hkeys
    obtain ⟨fields, children, hfields, -⟩ := htaken
    obtain ⟨stored, inner, hshape, -⟩ := hfields.exists_shapeValue hf (hname ▸ hmember)
    have hwrites : Writes c v Json.typenameKey stored :=
      ⟨f, hf, (hasks f hf).mp hname, value, inner, hname ▸ hmember, hshape⟩
    obtain ⟨held, hheld⟩ := Option.isSome_iff_exists.mp (hr.present _ _ hwrites)
    obtain ⟨value', hvalue', htype⟩ := hfrom held hheld
    cases hmember.symm.trans hvalue'
    exact htype

/-- The record of an object that is the only one of its key. -/
theorem heldBy_of_only (root : Visit) {v : Visit} {taken : Pieces}
    (htaken : pieces c root.key root.selections root.object = .ok taken)
    (hwell : taken.WellFormed) (hv : Reaches c root v)
    (honly : ∀ w, Reaches c root w → w.key = v.key → w = v) {r : Record}
    (hr : ∀ name, (RecordTable.ofRecords taken.records).fieldAt v.key name = r.field? name) :
    v.HeldBy c r := by
  have hnodup : ∀ r ∈ taken.records, (Assoc.keys r.fields).Nodup := fun r hr => (hwell r hr).nodup
  constructor
  case written =>
    intro name stored hstored
    rw [← hr] at hstored
    rcases RecordTable.exists_of_fieldAt_mergeAll hnodup hstored with hempty |
      ⟨r', hr', hkey, hvalue⟩
    · cases hempty
    · obtain ⟨w, hw, hyields⟩ := yielded_of_pieces htaken r' hr'
      obtain rfl := honly w hw (hyields.key.symm.trans hkey)
      exact hyields.field name stored hvalue
  case present =>
    intro name stored hwrites
    rw [← hr]
    exact RecordTable.isSome_fieldAt_mergeAll hnodup
      (.inr ((hv.takenIn_pieces htaken).exists_field hwrites))

end Normalization

namespace Store

open Normalization (Reaches Visit)

variable {β : Type}

/-- Contents that were empty hold what is written, field by field. -/
theorem fieldAt_write_of_empty {s : Store MemoryContents β} (hempty : s.contents = .empty)
    {operation : Operation} {data : Json.Object} (hdata : (Json.object data).WellFormed)
    {normalized : Normalized} (hnormalize : s.normalize operation data = .ok normalized) :
    ∃ changed after, s.write operation data = (.ok changed, after) ∧
      (∀ key, (after.load? key).isSome = true ↔ ∃ r ∈ Assoc.values normalized.records, r.key = key) ∧
      ∀ key name, after.fieldAt key name = normalized.records.fieldAt key name := by
  have hwrite : s.write operation data = s.merge (Assoc.values normalized.records) .none := by
    rw [write, hnormalize]
  rw [hwrite, merge_values_eq, hempty]
  refine ⟨_, _, rfl, fun key => ?_, fun key name => ?_⟩
  · have hnone : ¬ (Assoc.get? ([] : RecordTable) key).isSome = true := by
      rw [Assoc.get?_nil]
      exact Bool.false_ne_true
    exact (RecordTable.isSome_get?_mergeAll [] _ key).trans (or_iff_right hnone)
  · have hmerged := RecordTable.fieldAt_mergeAll_values [] (wellFormed_normalize hnormalize hdata)
      key name
    refine Eq.trans hmerged ?_
    cases normalized.records.fieldAt key name <;> rfl

/-- After a write into an empty store, every object that is the only one of its key is read with
the fragments with which it was taken apart, if it asks for its type where there are fragments. -/
theorem entered_write {s : Store MemoryContents β} (hempty : s.contents = .empty)
    {operation : Operation} {data : Json.Object} (hdata : (Json.object data).WellFormed)
    {normalized : Normalized} (hnormalize : s.normalize operation data = .ok normalized)
    (hselected : ∀ v, Reaches ⟨s.resolver, operation.vars⟩
      ⟨operation.rootKey, operation.selections, data⟩ v → v.OnlySelected)
    (honce : ∀ v w, Reaches ⟨s.resolver, operation.vars⟩
        ⟨operation.rootKey, operation.selections, data⟩ v →
      Reaches ⟨s.resolver, operation.vars⟩ ⟨operation.rootKey, operation.selections, data⟩ w →
      v.key = w.key → v = w)
    (hasks : ∀ v, Reaches ⟨s.resolver, operation.vars⟩
      ⟨operation.rootKey, operation.selections, data⟩ v → v.AsksType operation.vars) :
    ∃ changed after, s.write operation data = (.ok changed, after) ∧
      ∀ v, Reaches ⟨s.resolver, operation.vars⟩
          ⟨operation.rootKey, operation.selections, data⟩ v →
        ∃ r, after.load? v.key = some r ∧
          selectionsEntered (Reading.recordTypename? r) [] 0 v.selections =
            selectionsEntered (Json.typename? v.object) [] 0 v.selections := by
  obtain ⟨taken, htaken, hrecords, -⟩ := normalize_eq_ok hnormalize
  have hwell := Normalization.wellFormed_pieces htaken hdata
  obtain ⟨changed, after, hwrite, hloaded, hfield⟩ := fieldAt_write_of_empty hempty hdata hnormalize
  refine ⟨changed, after, hwrite, fun v hv => ?_⟩
  have htakenIn := hv.takenIn_pieces htaken
  have hsome : (after.load? v.key).isSome = true := by
    obtain ⟨fields, children, -, hplace⟩ := htakenIn
    have hsome : (Assoc.get? normalized.records v.key).isSome = true := by
      rw [hrecords]
      exact (RecordTable.isSome_get?_mergeAll [] taken.records v.key).mpr
        (.inr ⟨_, hplace List.mem_cons_self, rfl⟩)
    obtain ⟨r, hr⟩ := Option.isSome_iff_exists.mp hsome
    exact (hloaded v.key).mpr ⟨r, List.mem_map.mpr ⟨_, Assoc.mem_of_get?_eq_some hr, rfl⟩,
      (wellFormed_normalize hnormalize hdata).keyed v.key r hr⟩
  obtain ⟨r, hr⟩ := Option.isSome_iff_exists.mp hsome
  refine ⟨r, hr, ?_⟩
  cases hfragment : v.selections.any Selection.isFragment with
  | false => rw [selectionsEntered_of_no_fragment hfragment, selectionsEntered_of_no_fragment hfragment]
  | true =>
    have hheld : v.HeldBy ⟨s.resolver, operation.vars⟩ r := by
      refine Normalization.heldBy_of_only ⟨operation.rootKey, operation.selections, data⟩ htaken
        hwell hv (fun w hw hkey => honce w v hw hv hkey) fun name => ?_
      rw [← hrecords, ← hfield, fieldAt, hr, Option.bind_some]
    rw [hheld.recordTypename?_eq htakenIn (hselected v hv) (hasks v hv hfragment)]

section Hero

private def leafField (name : String) : Selection :=
  .field { responseName := name, name := name } .leaf

private def typedSelections (typename : Selection) : List Selection :=
  [typename, leafField "id", .fragment ["Droid", "Human"] [
    leafField "name", .fragment ["Human"] [leafField "height"],
    .fragment ["Droid"] [leafField "primaryFunction"]]]

private def typedQuery (typename : Selection) : Operation :=
  { name := "Hero", document := "", id := "hero", selections := [
    .field { responseName := "hero", name := "hero" } (.object (typedSelections typename))] }

private def typedStore : Store MemoryContents Unit := { resolver := .byTypeAndId, contents := .empty }

private def typedContext : Normalization.Context := ⟨.byTypeAndId, []⟩

private def typedRoot (typename : Selection) (hero : Json.Object) : Visit :=
  ⟨.queryRoot, (typedQuery typename).selections, [("hero", .object hero)]⟩

private def droidHero : Json.Object :=
  [("__typename", .string "Droid"), ("id", .string "1"), ("name", .string "R2-D2"),
    ("primaryFunction", .string "Astromech")]

private theorem onlySelected_of_all {root : Visit}
    (h : (root.all typedContext).all (fun v =>
      (Assoc.keys v.object).all fun name => v.fields.any fun f => f.1.responseName = name) = true)
    {v : Visit} (hv : Reaches typedContext root v) : v.OnlySelected := by
  intro name hname
  have hany := List.all_eq_true.mp (List.all_eq_true.mp h v (Visit.mem_all_iff.mpr hv)) name hname
  obtain ⟨f, hf, heq⟩ := List.any_eq_true.mp hany
  exact ⟨f, hf, of_decide_eq_true heq⟩

private theorem once_of_nodup {root : Visit}
    (h : ((root.all typedContext).map Visit.key).Nodup) {v w : Visit}
    (hv : Reaches typedContext root v) (hw : Reaches typedContext root w) (hkey : v.key = w.key) :
    v = w :=
  List.inj_on_of_nodup_map h (Visit.mem_all_iff.mpr hv) (Visit.mem_all_iff.mpr hw) hkey

theorem entered_write_heroQuery :
    ∃ changed after r,
      typedStore.write (typedQuery (leafField "__typename")) [("hero", .object droidHero)] =
        (.ok changed, after) ∧
      after.load? ⟨"Droid:1"⟩ = some r ∧
      selectionsEntered (Reading.recordTypename? r) [] 0 (typedSelections (leafField "__typename")) =
        [[2], [2, 2]] := by
  have hdata : (Json.object [("hero", .object droidHero)]).WellFormed := by
    simp [droidHero, Json.WellFormed, Json.WellFormedMembers, Assoc.keys]
  obtain ⟨normalized, hnormalize⟩ : ∃ normalized, typedStore.normalize
      (typedQuery (leafField "__typename")) [("hero", .object droidHero)] = .ok normalized :=
    exists_eq_ok (by decide)
  have hasks : ∀ v, Reaches typedContext (typedRoot (leafField "__typename") droidHero) v →
      v.AsksType [] := by
    intro v hv _ f hf
    have hall : ((typedRoot (leafField "__typename") droidHero).all typedContext).all (fun v =>
        v.fields.all fun f => decide (f.1.responseName = Json.typenameKey) ==
          decide (f.1.cacheKey [] = Json.typenameKey)) = true := by decide
    have h := List.all_eq_true.mp (List.all_eq_true.mp hall v (Visit.mem_all_iff.mpr hv)) f hf
    simpa using h
  obtain ⟨changed, after, hwrite, hagree⟩ := entered_write (s := typedStore) rfl hdata hnormalize
    (fun v hv => onlySelected_of_all (by decide) hv)
    (fun v w hv hw hkey => once_of_nodup (by decide) hv hw hkey) hasks
  have hhero : Reaches typedContext (typedRoot (leafField "__typename") droidHero)
      ⟨⟨"Droid:1"⟩, typedSelections (leafField "__typename"), droidHero⟩ :=
    Visit.mem_all_iff.mp (List.mem_cons_of_mem _ List.mem_cons_self)
  obtain ⟨r, hr, hentered⟩ := hagree _ hhero
  exact ⟨changed, after, r, hwrite, hr, hentered.trans (by decide)⟩

private def aliasedType : Selection := .field { responseName := "kind", name := "__typename" } .leaf

private def aliasedHero : Json.Object := [("kind", .string "Droid"), ("id", .string "1")]

private def aliasedVisit : Visit :=
  ⟨⟨"QUERY_ROOT.hero"⟩, typedSelections aliasedType, aliasedHero⟩

/-- Where the type has an alias, fragments apply to the record that did not apply to the object. -/
theorem entered_differ_aliasedType :
    (∀ v, Reaches typedContext (typedRoot aliasedType aliasedHero) v → v.OnlySelected) ∧
    (∀ v w, Reaches typedContext (typedRoot aliasedType aliasedHero) v →
      Reaches typedContext (typedRoot aliasedType aliasedHero) w → v.key = w.key → v = w) ∧
    Reaches typedContext (typedRoot aliasedType aliasedHero) aliasedVisit ∧
    ∃ changed after r,
      typedStore.write (typedQuery aliasedType) [("hero", .object aliasedHero)] =
        (.ok changed, after) ∧
      after.load? aliasedVisit.key = some r ∧
      selectionsEntered (Reading.recordTypename? r) [] 0 aliasedVisit.selections =
        [[2], [2, 2]] ∧
      selectionsEntered (Json.typename? aliasedVisit.object) [] 0 aliasedVisit.selections = [] := by
  refine ⟨fun v hv => onlySelected_of_all (by decide) hv,
    fun v w hv hw hkey => once_of_nodup (by decide) hv hw hkey,
    Visit.mem_all_iff.mp (List.mem_cons_of_mem _ List.mem_cons_self), ?_⟩
  have hloaded : ((typedStore.write (typedQuery aliasedType)
      [("hero", .object aliasedHero)]).2.load? aliasedVisit.key).map Reading.recordTypename? =
        some (some "Droid") := by decide
  obtain ⟨r, hr, htype⟩ := Option.map_eq_some_iff.mp hloaded
  exact ⟨_, _, r, rfl, hr, by rw [htype]; decide, by decide⟩

end Hero

end Store

end GraphClient
