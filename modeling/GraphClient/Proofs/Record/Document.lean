import GraphClient.Proofs.Json.Parsed
import GraphClient.Proofs.Record.KeyOrder
import GraphClient.Record.Document

/-!
# Records and their JSON form

The object around a value names its kind, so a value is read in one way only, whatever a scalar holds:
`FieldValue.ofJson?_eq_some_iff` lists the documents that are read, and no document of one kind is one
of another. What reading adds to this is that repeated keys collapse, and a well-formed record has
none. So the well-formed records are those that their JSON form gives back, and every record that was
read from a document is one of them (`Record.roundTrip_toJson`).
-/

namespace GraphClient

namespace Assoc

variable {κ α : Type} [DecidableEq κ]

theorem insertAll_of_nodup {m : Assoc κ α} {entries : List (κ × α)}
    (h : (keys (m ++ entries)).Nodup) : insertAll m entries = m ++ entries := by
  induction entries generalizing m with
  | nil => exact (List.append_nil m).symm
  | cons entry entries ih =>
    have hnone : get? m entry.1 = none := get?_eq_none_of_nodup h
    have hassoc : m ++ entry :: entries = m ++ [entry] ++ entries := by simp
    rw [hassoc] at h ⊢
    rw [← ih h, insertAll, List.foldl_cons, insert_of_get?_eq_none hnone, insertAll]

/-- Entries without a repeated key are a table already. -/
theorem ofEntries_of_nodup {entries : List (κ × α)} (h : (keys entries).Nodup) :
    ofEntries entries = entries :=
  insertAll_of_nodup h

theorem mem_of_mem_insertAll {m : Assoc κ α} {entries : List (κ × α)} {entry : κ × α}
    (h : entry ∈ insertAll m entries) : entry ∈ m ∨ entry ∈ entries := by
  induction entries generalizing m with
  | nil => exact .inl h
  | cons first entries ih =>
    rcases ih h with hinsert | hmem
    · rcases mem_of_mem_insert hinsert with hold | rfl
      · exact .inl hold
      · exact .inr List.mem_cons_self
    · exact .inr (List.mem_cons_of_mem first hmem)

end Assoc

namespace Json

mutual

/-- Where no key is repeated nothing collapses. -/
theorem collapse_of_wellFormed : ∀ {x : Json}, x.WellFormed → collapse x = x
  | array items, h => congrArg array (collapseItems_of_wellFormed h)
  | object members, h => by
    rw [collapse, collapseMembers_of_wellFormed h.2, Assoc.ofEntries_of_nodup h.1]
  | string _, _ => rfl
  | number _, _ => rfl
  | bool _, _ => rfl
  | null, _ => rfl

theorem collapseItems_of_wellFormed : ∀ {items : List Json}, WellFormedItems items →
    collapseItems items = items
  | [], _ => rfl
  | _ :: _, h => congrArg₂ List.cons (collapse_of_wellFormed h.1) (collapseItems_of_wellFormed h.2)

theorem collapseMembers_of_wellFormed : ∀ {members : List (String × Json)},
    WellFormedMembers members → collapseMembers members = members
  | [], _ => rfl
  | (key, x) :: xs, h => by
    rw [collapseMembers, collapse_of_wellFormed h.1, collapseMembers_of_wellFormed h.2]

end

end Json

namespace FieldValue

theorem ofJson?_scalar (payload : Json) :
    ofJson? (.object [("scalar", payload)]) = some (scalar payload.collapse) := by
  cases payload <;> rfl

/-- A document is a field value in one of three ways. -/
theorem ofJson?_eq_some_iff {document : Json} {value : FieldValue} :
    ofJson? document = some value ↔
      (∃ payload, document = .object [("scalar", payload)] ∧ value = scalar payload.collapse) ∨
      (∃ text, document = .object [("reference", .string text)] ∧ value = reference ⟨text⟩) ∨
      ∃ items values, document = .object [("list", .array items)] ∧
        ofJsonItems? items = some values ∧ value = list values := by
  constructor
  · intro h
    rw [ofJson?.eq_def] at h
    split at h
    · split at h
      · next htag =>
        subst htag
        obtain ⟨values, hvalues, rfl⟩ := Option.map_eq_some_iff.mp h
        exact .inr (.inr ⟨_, values, rfl, hvalues, rfl⟩)
      · split at h
        · next htag =>
          subst htag
          exact .inl ⟨_, rfl, (Option.some.inj h).symm⟩
        · cases h
    · split at h
      · next htag =>
        subst htag
        exact .inl ⟨_, rfl, (Option.some.inj h).symm⟩
      · split at h
        · next payload _ _ htag =>
          subst htag
          obtain ⟨text, htext, rfl⟩ := Option.map_eq_some_iff.mp h
          cases payload with
          | string value =>
            cases htext
            exact .inr (.inl ⟨_, rfl, rfl⟩)
          | _ => cases htext
        · cases h
    · cases h
  · rintro (⟨payload, rfl, rfl⟩ | ⟨text, rfl, rfl⟩ | ⟨items, values, rfl, hvalues, rfl⟩)
    · exact ofJson?_scalar payload
    · rfl
    · exact Option.map_eq_some_iff.mpr ⟨values, hvalues, rfl⟩

theorem ofJsonItems?_cons_eq_some_iff {document : Json} {documents : List Json}
    {values : List FieldValue} : ofJsonItems? (document :: documents) = some values ↔
      ∃ first rest, ofJson? document = some first ∧ ofJsonItems? documents = some rest ∧
        values = first :: rest := by
  rw [ofJsonItems?]
  split
  · next first rest hfirst hrest => simp [hfirst, hrest, eq_comm]
  · next hnone =>
    refine iff_of_false nofun ?_
    rintro ⟨first, rest, hfirst, hrest, -⟩
    exact hnone first rest hfirst hrest

mutual

/-- A well-formed value is read back from its JSON form. -/
theorem ofJson?_toJson : ∀ {value : FieldValue}, value.WellFormed →
    ofJson? value.toJson = some value
  | scalar payload, h => by rw [toJson, ofJson?_scalar, Json.collapse_of_wellFormed h]
  | reference _, _ => rfl
  | list items, h => by
    rw [toJson]
    exact ofJson?_eq_some_iff.mpr (.inr (.inr ⟨_, items, rfl, ofJsonItems?_toJsonItems h, rfl⟩))

theorem ofJsonItems?_toJsonItems : ∀ {items : List FieldValue}, WellFormedItems items →
    ofJsonItems? (toJsonItems items) = some items
  | [], _ => rfl
  | _ :: _, h =>
    ofJsonItems?_cons_eq_some_iff.mpr
      ⟨_, _, ofJson?_toJson h.1, ofJsonItems?_toJsonItems h.2, rfl⟩

end

mutual

/-- Whatever the document is, a value that is read from it is well formed. -/
theorem wellFormed_of_ofJson? : ∀ {value : FieldValue} {document : Json},
    ofJson? document = some value → value.WellFormed
  | scalar _, document, h => by
    rcases ofJson?_eq_some_iff.mp h with ⟨payload, -, heq⟩ | ⟨text, -, heq⟩ | ⟨_, _, -, -, heq⟩
    · cases heq
      exact payload.wellFormed_collapse
    · cases heq
    · cases heq
  | reference _, _, _ => trivial
  | list values, document, h => by
    rcases ofJson?_eq_some_iff.mp h with ⟨_, -, heq⟩ | ⟨_, -, heq⟩ | ⟨items, _, -, hitems, heq⟩
    · cases heq
    · cases heq
    · cases heq
      exact wellFormedItems_of_ofJsonItems? hitems

theorem wellFormedItems_of_ofJsonItems? : ∀ {values : List FieldValue} {documents : List Json},
    ofJsonItems? documents = some values → WellFormedItems values
  | [], _, _ => trivial
  | value :: values, documents, h => by
    cases documents with
    | nil => cases h
    | cons document documents =>
      obtain ⟨first, rest, hfirst, hrest, heq⟩ := ofJsonItems?_cons_eq_some_iff.mp h
      cases heq
      exact ⟨wellFormed_of_ofJson? hfirst, wellFormedItems_of_ofJsonItems? hrest⟩

end

end FieldValue

namespace Record

theorem fieldEntries?_toJson {fields : List (String × FieldValue)}
    (h : ∀ f ∈ fields, f.2.WellFormed) :
    fieldEntries? (fields.map fun f => (f.1, f.2.toJson)) = some fields := by
  induction fields with
  | nil => rfl
  | cons f fs ih =>
    obtain ⟨hf, hfs⟩ := List.forall_mem_cons.mp h
    rw [List.map_cons, fieldEntries?, FieldValue.ofJson?_toJson hf, ih hfs]

theorem wellFormed_of_fieldEntries? {members : List (String × Json)}
    {fields : List (String × FieldValue)} (h : fieldEntries? members = some fields) :
    ∀ f ∈ fields, f.2.WellFormed := by
  induction members generalizing fields with
  | nil =>
    cases h
    exact nofun
  | cons member members ih =>
    rw [fieldEntries?] at h
    split at h
    · next value rest hvalue hrest =>
      cases h
      exact List.forall_mem_cons.mpr ⟨FieldValue.wellFormed_of_ofJson? hvalue, ih hrest⟩
    · cases h

/-- A well-formed record is read back from its JSON form, its fields in the order that they have. -/
theorem ofJson?_toJson {r : Record} (h : r.WellFormed) : ofJson? r.toJson = some r := by
  have hfields : fieldsOfJson? (fieldsToJson r.fields) = some r.fields := by
    rw [fieldsToJson, fieldsOfJson?, fieldEntries?_toJson fun _ => h.of_mem, Option.map_some,
      Assoc.ofEntries_of_nodup h.nodup]
  change ofParts? (.string r.key.text) (fieldsToJson r.fields) = some r
  rw [ofParts?.eq_def, hfields]

theorem wellFormed_of_ofParts? {key fields : Json} {r : Record}
    (h : ofParts? key fields = some r) : r.WellFormed := by
  rw [ofParts?.eq_def] at h
  split at h
  · next text read hread =>
    cases h
    cases fields with
    | object members =>
      obtain ⟨entries, hentries, rfl⟩ := Option.map_eq_some_iff.mp hread
      refine .of_fields (Assoc.nodup_keys_ofEntries entries) fun f hf => ?_
      have hmem : f ∈ entries := (Assoc.mem_of_mem_insertAll hf).resolve_left List.not_mem_nil
      exact wellFormed_of_fieldEntries? hentries f hmem
    | _ => cases hread
  · cases h

/-- Whatever the document is, a record that is read from it is well formed. -/
theorem wellFormed_of_ofJson? {document : Json} {r : Record} (h : ofJson? document = some r) :
    r.WellFormed := by
  rw [ofJson?.eq_def] at h
  split at h
  · split at h
    · exact wellFormed_of_ofParts? h
    · cases h
  · exact wellFormed_of_ofParts? h
  · cases h

/-- The JSON form gives exactly the well-formed records back, and every record that was read from a
document is one of them: written again, it is read as the same record. -/
theorem roundTrip_toJson :
    (∀ r : Record, ofJson? r.toJson = some r ↔ r.WellFormed) ∧
      ∀ document r, ofJson? document = some r → r.WellFormed ∧ ofJson? r.toJson = some r := by
  refine ⟨fun r => ⟨wellFormed_of_ofJson?, ofJson?_toJson⟩, fun document r h => ?_⟩
  have hwell : r.WellFormed := wellFormed_of_ofJson? h
  exact ⟨hwell, ofJson?_toJson hwell⟩

/-- A document with a member that no record has and a field that comes twice. One scalar looks like a
reference, another one like a list, and holds a repeated key. -/
private def lukeDocument : Json :=
  .object [("note", .null),
    ("fields", .object [
      ("blob", .object [("scalar", .null)]),
      ("friends", .object [("list", .array [
        .object [("reference", .string "Droid:2001")],
        .object [("list", .array [.object [("scalar", .object [
          ("list", .array []), ("list", .array [.null])])]])]])]),
      ("blob", .object [("scalar", .object [("reference", .string "Droid:2001")])])]),
    ("key", .string "Human:1000")]

private def luke : Record :=
  ⟨⟨"Human:1000"⟩, [
    ("blob", .scalar (.object [("reference", .string "Droid:2001")])),
    ("friends", .list [.reference ⟨"Droid:2001"⟩,
      .list [.scalar (.object [("list", .array [.null])])]])]⟩

theorem roundTrip_toJson_luke :
    ofJson? lukeDocument = some luke ∧ luke.WellFormed ∧ ofJson? luke.toJson = some luke := by
  have hread : ofJson? lukeDocument = some luke := rfl
  exact ⟨hread, roundTrip_toJson.2 lukeDocument luke hread⟩

end Record

end GraphClient
