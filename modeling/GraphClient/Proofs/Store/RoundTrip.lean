import GraphClient.Proofs.Reading.Written
import GraphClient.Proofs.Store.Publication

/-!
# Reading an operation after writing it

Whatever the contents were, data that is `Readable` is read back by the operation with which it was
written. Between the two stands the merged record of every key: each of its fields that the write
touched is equal to what each visit has written for it, since one of them came in
(`yielded_of_pieces`), all of them are equal, and a merge keeps an old value only when it is equal.
-/

namespace GraphClient.Store

open Normalization (Readable Reaches Visit Writes)

variable {β : Type}

section Stored

variable {c : Normalization.Context} {root v : Visit} {taken : Pieces}

/-- The table of a response has a field that a visit writes, with an equal value where all visits of
its record agree. -/
theorem exists_fieldAt_of_writes
    (htaken : Normalization.pieces c root.key root.selections root.object = .ok taken)
    (hwell : taken.WellFormed) (hv : Reaches c root v) {name : String} {written : FieldValue}
    (hwrites : Writes c v name written)
    (hagreed : ∀ w value, Reaches c root w → w.key = v.key → Writes c w name value →
      (value == written) = true) :
    ∃ value, (RecordTable.ofRecords taken.records).fieldAt v.key name = some value ∧
      (value == written) = true := by
  have hnodup : ∀ r ∈ taken.records, (Assoc.keys r.fields).Nodup := fun r hr => (hwell r hr).nodup
  have hplace := (hv.takenIn_pieces htaken).exists_field hwrites
  obtain ⟨value, hvalue⟩ := Option.isSome_iff_exists.mp
    (RecordTable.isSome_fieldAt_mergeAll hnodup (.inr hplace))
  refine ⟨value, hvalue, ?_⟩
  rcases RecordTable.exists_of_fieldAt_mergeAll hnodup hvalue with hempty | ⟨r, hr, hkey, hfield⟩
  · cases hempty
  · obtain ⟨w, hw, hyields⟩ := Normalization.yielded_of_pieces htaken r hr
    exact hagreed w value hw (hyields.key.symm.trans hkey) (hyields.field name value hfield)

variable {s after : Store MemoryContents β} {changed : KeySet}

theorem isSome_load?_of_stored
    (htaken : Normalization.pieces c root.key root.selections root.object = .ok taken)
    (hwell : taken.WellFormed)
    (hstored : s.Stored (Assoc.values (RecordTable.ofRecords taken.records)) changed after)
    (hv : Reaches c root v) : (after.load? v.key).isSome = true := by
  obtain ⟨fields, children, -, hrecords⟩ := hv.takenIn_pieces htaken
  have hsome : (Assoc.get? (RecordTable.ofRecords taken.records) v.key).isSome = true :=
    (RecordTable.isSome_get?_mergeAll [] taken.records v.key).mpr
      (.inr ⟨_, hrecords List.mem_cons_self, rfl⟩)
  obtain ⟨r, hr⟩ := Option.isSome_iff_exists.mp hsome
  exact (hstored.loaded v.key).mpr (.inr ⟨r, List.mem_map.mpr
    ⟨(v.key, r), Assoc.mem_of_get?_eq_some hr, rfl⟩,
    (RecordTable.wellFormed_nil.mergeAll hwell).keyed v.key r hr⟩)

/-- So do the contents after the response was stored. -/
theorem exists_fieldAt_of_stored
    (htaken : Normalization.pieces c root.key root.selections root.object = .ok taken)
    (hwell : taken.WellFormed)
    (hstored : s.Stored (Assoc.values (RecordTable.ofRecords taken.records)) changed after)
    (hv : Reaches c root v) {name : String} {written : FieldValue}
    (hwrites : Writes c v name written)
    (hagreed : ∀ w value, Reaches c root w → w.key = v.key → Writes c w name value →
      (value == written) = true) :
    ∃ stored, after.fieldAt v.key name = some stored ∧ (stored == written) = true := by
  obtain ⟨value, hvalue, hequal⟩ := exists_fieldAt_of_writes htaken hwell hv hwrites hagreed
  obtain ⟨incoming, hincoming, hkey, hfield⟩ :=
    (RecordTable.wellFormed_nil.mergeAll hwell).exists_mem_of_fieldAt hvalue
  obtain ⟨stored, hheld, hkept⟩ := hstored.written incoming hincoming name value hfield
  exact ⟨stored, hkey ▸ hheld, FieldValue.beq_trans hkept hequal⟩

theorem heldIn_of_stored (hroot : Readable c root)
    (htaken : Normalization.pieces c root.key root.selections root.object = .ok taken)
    (hwell : taken.WellFormed)
    (hstored : s.Stored (Assoc.values (RecordTable.ofRecords taken.records)) changed after)
    (hafter : after.contents.table.WellFormed) (hv : Reaches c root v) :
    Reading.HeldIn c after.load? v := by
  obtain ⟨r, hr⟩ := Option.isSome_iff_exists.mp (isSome_load?_of_stored htaken hwell hstored hv)
  refine ⟨r, hr, hafter.keyed v.key r hr, fun name written hwrites => ?_⟩
  obtain ⟨stored, hheld, hequal⟩ := exists_fieldAt_of_stored htaken hwell hstored hv hwrites
    fun w value hw hkey hvalue => hroot.coherent w v hw hv hkey name value written hvalue hwrites
  rw [fieldAt, hr, Option.bind_some] at hheld
  exact ⟨stored, hheld, hequal⟩

end Stored

theorem fst_read_eq {σ : Type} [Storage σ] {s : Store σ β} {operation : Operation}
    {result : ReadResult} (h : s.readOperation operation = .ok result) (directives : Directives) :
    (s.read operation directives).1 = responseOf result := by
  rw [read, lookup, readDirected, readAndEvict, h]
  cases directives.evictAfterRead <;> rfl

/-- Data that is readable is read back after it was written, whatever the store held before. The
read is served by the records that were written, and depends on the fields that were written. -/
theorem readOperation_write {s : Store MemoryContents β} (hs : s.contents.table.WellFormed)
    (hresolver : s.resolver.NeverRedirects) {operation : Operation} {data : Json.Object}
    (hdata : (Json.object data).WellFormed) {normalized : Normalized}
    (hnormalize : s.normalize operation data = .ok normalized)
    (hroot : Readable ⟨s.resolver, operation.vars⟩
      ⟨operation.rootKey, operation.selections, data⟩) :
    ∃ changed after result, s.write operation data = (.ok changed, after) ∧
      after.readOperation operation = .ok result ∧
      (∀ directives, (after.read operation directives).1 = responseOf result) ∧
      (Json.object result.data ==
        (Shape.object operation.selections).restrict (.object data)) = true ∧
      (Shape.object operation.selections).restrict (.object result.data) = .object result.data ∧
      result.dependentKeys = normalized.dependentKeys ∧
      Assoc.keys result.records = Assoc.keys normalized.records := by
  obtain ⟨taken, htaken, hrecords, hkeys⟩ := normalize_eq_ok hnormalize
  have hwell := Normalization.wellFormed_pieces htaken hdata
  obtain ⟨changed, after, hmerge, hstored⟩ :=
    exists_stored_merge hs (wellFormed_normalize hnormalize hdata)
  have hwrite : s.write operation data = (.ok changed, after) := by
    rw [write, hnormalize]
    exact hmerge
  have hafter : after.contents.table.WellFormed := by
    have h := wellFormed_write hs operation hdata
    rwa [hwrite] at h
  rw [hrecords] at hstored
  obtain ⟨result, hread, hagain, hordered, hdependent, horder⟩ :=
    readData_again hresolver hroot
      (fun v hv => heldIn_of_stored hroot htaken hwell hstored hafter hv) htaken
  have hsame : after.resolver = s.resolver := by
    rw [merge_values_eq] at hmerge
    cases hmerge
    rfl
  have hhit : after.readOperation operation = .ok result := by
    rw [readOperation, hsame]
    exact hread
  refine ⟨changed, after, result, hwrite, hhit, fun _ => fst_read_eq hhit _, hagain, hordered, ?_, ?_⟩
  · rw [hdependent, hkeys]
  · rw [horder, hrecords]

section Droid

private def typenameField : Field := { responseName := "__typename", name := "__typename" }

private def idField : Field := { responseName := "id", name := "id" }

private def nameField : Field := { responseName := "name", name := "name" }

private def functionField : Field := { responseName := "use", name := "primaryFunction" }

private def friendsField : Field := { responseName := "friends", name := "friends" }

private def heroField : Field := { responseName := "hero", name := "hero" }

private def friendSelections : List Selection :=
  [.field idField .leaf, .field nameField .leaf]

private def droidSelections : List Selection :=
  [.field typenameField .leaf, .fragment ["Droid"] [.field functionField .leaf],
    .field idField .leaf, .field friendsField (.list (.object friendSelections))]

private def droidQuery : Operation :=
  { name := "Droid", document := "", id := "droid",
    selections := [.field heroField (.object droidSelections)] }

private def friendObject : Json.Object :=
  [("name", .string "R2-D2"), ("id", .string "2001"), ("__typename", .string "Droid")]

/-- A droid that is its own friend. -/
private def droidObject : Json.Object :=
  [("friends", .array [.object friendObject, .null]), ("id", .string "2001"),
    ("__typename", .string "Droid"), ("use", .string "Astromech"), ("height", .bool true)]

private def droidData : Json.Object := [("hero", .object droidObject)]

/-- An older response: the droid had another function, and nobody knew its friends. -/
private def olderData : Json.Object :=
  [("hero", .object [("__typename", .string "Droid"), ("use", .string "Protocol"),
    ("id", .string "2001"), ("friends", .null)])]

private def droidStore : Store MemoryContents Unit :=
  (({ resolver := .byTypeAndId, contents := .empty } : Store MemoryContents Unit).write droidQuery
    olderData).2

private def droidContext : Normalization.Context := ⟨.byTypeAndId, []⟩

private def rootVisit : Visit := ⟨.queryRoot, droidQuery.selections, droidData⟩

private def droidVisit : Visit := ⟨⟨"Droid:2001"⟩, droidSelections, droidObject⟩

private def friendVisit : Visit := ⟨⟨"Droid:2001"⟩, friendSelections, friendObject⟩

private theorem fields_rootVisit : rootVisit.fields = [(heroField, .object droidSelections)] := rfl

private theorem fields_droidVisit : droidVisit.fields =
    [(typenameField, .leaf), (functionField, .leaf), (idField, .leaf),
      (friendsField, .list (.object friendSelections))] := rfl

private theorem fields_friendVisit :
    friendVisit.fields = [(idField, .leaf), (nameField, .leaf)] := rfl

private theorem reaches_rootVisit {v : Visit} (h : Reaches droidContext rootVisit v) :
    v = rootVisit ∨ v = droidVisit ∨ v = friendVisit := by
  induction h with
  | refl => exact .inl rfl
  | tail _ hlead ih =>
    obtain ⟨f, hf, value, hvalue, hmeets⟩ := hlead
    rcases ih with rfl | rfl | rfl
    · rw [fields_rootVisit] at hf
      simp only [List.mem_singleton] at hf
      subst hf
      cases hvalue
      cases hmeets
      exact .inr (.inl rfl)
    · rw [fields_droidVisit] at hf
      simp only [List.mem_cons, List.not_mem_nil, or_false] at hf
      rcases hf with rfl | rfl | rfl | rfl
      · cases hmeets
      · cases hmeets
      · cases hmeets
      · cases hvalue
        cases hmeets with
        | @item _ _ _ index x _ hx hmeets =>
          match index, hx with
          | 0, rfl =>
            cases hmeets
            exact .inr (.inr rfl)
          | 1, rfl => cases hmeets
    · rw [fields_friendVisit] at hf
      simp only [List.mem_cons, List.not_mem_nil, or_false] at hf
      rcases hf with rfl | rfl
      · cases hmeets
      · cases hmeets

private theorem writes_rootVisit {name : String} {stored : FieldValue} :
    Writes droidContext rootVisit name stored ↔
      (name, stored) ∈ [("hero", FieldValue.reference ⟨"Droid:2001"⟩)] :=
  Normalization.writes_iff_mem rfl

private theorem writes_droidVisit {name : String} {stored : FieldValue} :
    Writes droidContext droidVisit name stored ↔
      (name, stored) ∈ [("__typename", FieldValue.scalar (.string "Droid")),
        ("primaryFunction", .scalar (.string "Astromech")), ("id", .scalar (.string "2001")),
        ("friends", .list [.reference ⟨"Droid:2001"⟩, .scalar .null])] :=
  Normalization.writes_iff_mem rfl

private theorem writes_friendVisit {name : String} {stored : FieldValue} :
    Writes droidContext friendVisit name stored ↔
      (name, stored) ∈ [("id", FieldValue.scalar (.string "2001")),
        ("name", .scalar (.string "R2-D2"))] :=
  Normalization.writes_iff_mem rfl

/-- Fields found twice are found with equal values. -/
private def agree (xs ys : List (String × FieldValue)) : Bool :=
  xs.all fun x => ys.all fun y => x.1 != y.1 || x.2 == y.2

private theorem agree_eq_true {xs ys : List (String × FieldValue)} (h : agree xs ys = true)
    {name : String} {a b : FieldValue} (ha : (name, a) ∈ xs) (hb : (name, b) ∈ ys) :
    (a == b) = true := by
  have hpair := List.all_eq_true.mp (List.all_eq_true.mp h _ ha) _ hb
  simpa using hpair

private theorem readable_rootVisit : Readable droidContext rootVisit where
  present v hv := by
    rcases reaches_rootVisit hv with rfl | rfl | rfl
    · rw [fields_rootVisit]
      decide
    · rw [fields_droidVisit]
      decide
    · rw [fields_friendVisit]
      decide
  distinct v hv := by
    rcases reaches_rootVisit hv with rfl | rfl | rfl <;> decide
  typename v hv hfragment := by
    rcases reaches_rootVisit hv with rfl | rfl | rfl
    · cases hfragment
    · exact ⟨typenameField, List.mem_cons_self, rfl, rfl, rfl⟩
    · cases hfragment
  coherent v w hv hw hkey name a b ha hb := by
    rcases reaches_rootVisit hv with rfl | rfl | rfl <;>
    rcases reaches_rootVisit hw with rfl | rfl | rfl <;>
    simp only [writes_rootVisit, writes_droidVisit, writes_friendVisit] at ha hb <;>
    first
    | exact absurd hkey (by decide)
    | exact agree_eq_true (by decide) ha hb

theorem readOperation_write_droidQuery :
    ∃ changed after result,
      droidStore.write droidQuery droidData = (.ok changed, after) ∧
      changed.toList = ["Droid:2001.friends", "Droid:2001.name", "Droid:2001.primaryFunction"] ∧
      after.readOperation droidQuery = .ok result ∧
      (Json.object result.data ==
        (Shape.object droidQuery.selections).restrict (.object droidData)) = true ∧
      (Shape.object droidQuery.selections).restrict (.object result.data) = .object result.data ∧
      Assoc.keys result.records = [.queryRoot, ⟨"Droid:2001"⟩] := by
  have holder : (Json.object olderData).WellFormed := by
    simp [olderData, Json.WellFormed, Json.WellFormedMembers, Assoc.keys]
  have hstore : droidStore.contents.table.WellFormed :=
    wellFormed_write RecordTable.wellFormed_nil droidQuery holder
  have hdata : (Json.object droidData).WellFormed := by
    simp [droidData, droidObject, friendObject, Json.WellFormed, Json.WellFormedMembers,
      Json.WellFormedItems, Assoc.keys]
  obtain ⟨normalized, hnormalize⟩ : ∃ normalized,
      droidStore.normalize droidQuery droidData = .ok normalized :=
    exists_eq_ok (by decide)
  obtain ⟨changed, after, result, hwrite, hread, -, hequal, hordered, -, hrecords⟩ :=
    readOperation_write hstore KeyResolver.neverRedirects_byTypeAndId hdata hnormalize
      readable_rootVisit
  have hchanged : changed.toList =
      ["Droid:2001.friends", "Droid:2001.name", "Droid:2001.primaryFunction"] := by
    have h : (droidStore.write droidQuery droidData).1.toOption.map KeySet.toList =
        some ["Droid:2001.friends", "Droid:2001.name", "Droid:2001.primaryFunction"] := by decide
    rw [hwrite] at h
    exact Option.some.inj h
  have hkeys : Assoc.keys normalized.records = [.queryRoot, ⟨"Droid:2001"⟩] := by
    have h : (droidStore.normalize droidQuery droidData).toOption.map
        (fun normalized => Assoc.keys normalized.records) =
          some [.queryRoot, ⟨"Droid:2001"⟩] := by decide
    rw [hnormalize] at h
    exact Option.some.inj h
  exact ⟨changed, after, result, hwrite, hchanged, hread, hequal, hordered, hrecords.trans hkeys⟩

end Droid

end GraphClient.Store
