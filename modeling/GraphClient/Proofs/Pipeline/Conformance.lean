import GraphClient.Pipeline.ParseStage
import GraphClient.Proofs.Selection.Walk

/-!
# The responses that are accepted

The parse stage checks what a server has sent in three places: the status must be a success, the body
must be an object with data or errors, and the data must have the shape that the operation asks for.
The last is the relation `Shape.Conforms`, and taking data apart succeeds exactly if the data conforms
(`exists_normalize_iff`), whatever keys its objects are stored under. `Operation.Accepts` puts the
three together, and the stage accepts exactly these responses (`parseHttp_accepts`).
-/

namespace GraphClient

mutual

/-- The members of an object are what a selection asks for, as far as they are there. -/
inductive Selection.Fits : Selection → Json.Object → Prop
  | absent {field shape members} : Assoc.get? members field.responseName = none →
      Selection.Fits (.field field shape) members
  | present {field shape members value} : Assoc.get? members field.responseName = some value →
      Shape.Conforms shape value → Selection.Fits (.field field shape) members
  /-- The object does not name a type, or names another. -/
  | other {types selections members} : (∀ type ∈ types, Json.typename? members ≠ some type) →
      Selection.Fits (.fragment types selections) members
  | same {types selections members type} : Json.typename? members = some type → type ∈ types →
      (∀ s ∈ selections, Selection.Fits s members) →
      Selection.Fits (.fragment types selections) members

/-- A value has the shape that is asked for. -/
inductive Shape.Conforms : Shape → Json → Prop
  | null {shape} : Shape.Conforms shape .null
  | leaf {value} : Shape.Conforms .leaf value
  | object {selections members} : (∀ s ∈ selections, Selection.Fits s members) →
      Shape.Conforms (.object selections) (.object members)
  | list {item items} : (∀ value ∈ items, Shape.Conforms item value) →
      Shape.Conforms (.list item) (.array items)

end

theorem Selection.fits_field_iff {field : Field} {shape : Shape} {members : Json.Object} :
    (Selection.field field shape).Fits members ↔
      ∀ value, Assoc.get? members field.responseName = some value → shape.Conforms value := by
  constructor
  · rintro (hnone | ⟨hsome, hconforms⟩) value hvalue
    · cases hnone.symm.trans hvalue
    · cases hsome.symm.trans hvalue
      exact hconforms
  · intro h
    cases hvalue : Assoc.get? members field.responseName with
    | none => exact .absent hvalue
    | some value => exact .present hvalue (h value hvalue)

theorem Selection.fits_fragment_iff {types : List String} {selections : List Selection}
    {members : Json.Object} :
    (Selection.fragment types selections).Fits members ↔
      (fragmentApplies types (Json.typename? members) = true →
        ∀ s ∈ selections, s.Fits members) := by
  constructor
  · intro h happlies
    cases h with
    | same _ _ hfits => exact hfits
    | other hother =>
      cases htype : Json.typename? members with
      | none =>
        rw [htype] at happlies
        cases happlies
      | some type =>
        rw [htype] at happlies
        exact absurd htype (hother type (fragmentApplies_some.mp happlies))
  · intro h
    by_cases happlies : fragmentApplies types (Json.typename? members) = true
    · cases htype : Json.typename? members with
      | none =>
        rw [htype] at happlies
        cases happlies
      | some type =>
        have hmem : type ∈ types := fragmentApplies_some.mp (htype ▸ happlies)
        exact .same htype hmem (h happlies)
    · refine .other fun type hmem htype => happlies ?_
      rw [htype]
      exact fragmentApplies_some.mpr hmem

theorem Shape.conforms_object_iff {selections : List Selection} {members : Json.Object} :
    (Shape.object selections).Conforms (.object members) ↔ ∀ s ∈ selections, s.Fits members :=
  ⟨fun h => by cases h; assumption, .object⟩

theorem Shape.conforms_list_iff {item : Shape} {items : List Json} :
    (Shape.list item).Conforms (.array items) ↔ ∀ value ∈ items, item.Conforms value :=
  ⟨fun h => by cases h; assumption, .list⟩

/-- An object is asked for, and the value is neither one nor `null`. -/
theorem Shape.not_conforms_object {selections : List Selection} {value : Json}
    (hnull : value ≠ .null) (hobject : ∀ members, value ≠ .object members) :
    ¬ (Shape.object selections).Conforms value := by
  intro h
  cases h with
  | null => exact hnull rfl
  | object => exact hobject _ rfl

theorem Shape.not_conforms_list {item : Shape} {value : Json} (hnull : value ≠ .null)
    (harray : ∀ items, value ≠ .array items) : ¬ (Shape.list item).Conforms value := by
  intro h
  cases h with
  | null => exact hnull rfl
  | list => exact harray _ rfl

namespace Normalization

theorem exists_itemValues_iff
    {value : RecordKey → Json → Except ShapeMismatch (FieldValue × Pieces)} {p : Json → Prop}
    (h : ∀ path x, (∃ r, value path x = .ok r) ↔ p x) (path : RecordKey) (index : Nat)
    (items : List Json) : (∃ r, itemValues value path index items = .ok r) ↔ ∀ x ∈ items, p x := by
  induction items generalizing index with
  | nil => exact iff_of_true ⟨_, rfl⟩ (by simp)
  | cons x xs ih =>
    rw [itemValues, List.forall_mem_cons, ← h (path.item index) x, ← ih (index + 1)]
    constructor
    · rintro ⟨r, hr⟩
      obtain ⟨first, hfirst, hr⟩ := bind_eq_ok_iff.mp hr
      exact ⟨⟨first, hfirst⟩, exists_map_eq_ok_iff.mp ⟨r, hr⟩⟩
    · rintro ⟨⟨first, hfirst⟩, hothers⟩
      obtain ⟨r, hr⟩ := exists_map_eq_ok_iff.mpr hothers
      exact ⟨r, bind_eq_ok_iff.mpr ⟨first, hfirst, hr⟩⟩

mutual

theorem exists_selectionFields_iff (c : Context) (key : RecordKey) (members : Json.Object) :
    ∀ s : Selection, (∃ r, selectionFields c key members s = .ok r) ↔ s.Fits members
  | .field field shape => by
    rw [Selection.fits_field_iff, selectionFields]
    cases hvalue : Assoc.get? members field.responseName with
    | none => exact iff_of_true ⟨_, rfl⟩ fun _ h => by cases h
    | some value =>
      have hshape := exists_shapeValue_iff c field shape (key.child (field.cacheKey c.vars)) value
      refine exists_map_eq_ok_iff.trans (hshape.trans ⟨fun h _ hsame => ?_, fun h => h value rfl⟩)
      cases hsame
      exact h
  | .fragment types selections => by
    rw [Selection.fits_fragment_iff, selectionFields]
    split
    · next happlies =>
      rw [exists_selectionsFields_iff c key members selections]
      exact ⟨fun h _ => h, fun h => h happlies⟩
    · next hnot => exact iff_of_true ⟨_, rfl⟩ fun happlies => absurd happlies hnot

theorem exists_selectionsFields_iff (c : Context) (key : RecordKey) (members : Json.Object) :
    ∀ ss : List Selection,
      (∃ r, selectionsFields c key members ss = .ok r) ↔ ∀ s ∈ ss, s.Fits members
  | [] => iff_of_true ⟨_, rfl⟩ (by simp)
  | s :: ss => by
    rw [selectionsFields, List.forall_mem_cons, ← exists_selectionFields_iff c key members s,
      ← exists_selectionsFields_iff c key members ss]
    constructor
    · rintro ⟨r, hr⟩
      obtain ⟨first, hfirst, hr⟩ := bind_eq_ok_iff.mp hr
      exact ⟨⟨first, hfirst⟩, exists_map_eq_ok_iff.mp ⟨r, hr⟩⟩
    · rintro ⟨⟨first, hfirst⟩, hothers⟩
      obtain ⟨r, hr⟩ := exists_map_eq_ok_iff.mpr hothers
      exact ⟨r, bind_eq_ok_iff.mpr ⟨first, hfirst, hr⟩⟩

/-- A value is taken apart exactly if it has the shape that is asked for, wherever it is stored. -/
theorem exists_shapeValue_iff (c : Context) (field : Field) :
    ∀ (shape : Shape) (path : RecordKey) (value : Json),
      (∃ r, shapeValue c field shape path value = .ok r) ↔ shape.Conforms value
  | .leaf, path, value => by
    rw [shapeValue_leaf]
    exact iff_of_true ⟨_, rfl⟩ .leaf
  | .object selections, path, value => by
    cases value with
    | null => exact iff_of_true ⟨_, rfl⟩ .null
    | object members =>
      rw [Shape.conforms_object_iff, shapeValue]
      exact exists_map_eq_ok_iff.trans (exists_selectionsFields_iff c _ members selections)
    | _ =>
      refine iff_of_false (fun ⟨_, h⟩ => by cases h) (Shape.not_conforms_object ?_ ?_) <;> simp
  | .list item, path, value => by
    cases value with
    | null => exact iff_of_true ⟨_, rfl⟩ .null
    | array items =>
      rw [Shape.conforms_list_iff, shapeValue]
      exact exists_map_eq_ok_iff.trans
        (exists_itemValues_iff (exists_shapeValue_iff c field item) path 0 items)
    | _ =>
      refine iff_of_false (fun ⟨_, h⟩ => by cases h) (Shape.not_conforms_list ?_ ?_) <;> simp

end

end Normalization

/-- Taking a value apart tells whether it conforms. -/
theorem Normalization.isOk_shapeValue_iff (c : Context) (field : Field) (shape : Shape)
    (path : RecordKey) (value : Json) :
    (shapeValue c field shape path value).isOk = true ↔ shape.Conforms value := by
  rw [← exists_shapeValue_iff c field shape path value]
  refine ⟨exists_eq_ok, fun ⟨_, h⟩ => ?_⟩
  rw [h]
  rfl

instance (shape : Shape) (value : Json) : Decidable (shape.Conforms value) :=
  decidable_of_iff _ (Normalization.isOk_shapeValue_iff ⟨.byTypeAndId, []⟩
    { responseName := "", name := "" } shape .queryRoot value)

/-- Fields may be absent, unselected or `null`, but a list cannot stand for an object. -/
example :
    let hero : Shape := .object [.field { responseName := "name", name := "name" } .leaf,
      .fragment ["Human"] [.field { responseName := "home", name := "home" } (.object [])]]
    hero.Conforms (.object [("age", .string "33"), ("home", .array [])]) ∧
      ¬ hero.Conforms (.object [("__typename", .string "Human"), ("home", .array [])]) := by
  decide +kernel

/-- The data of a response is taken apart exactly if it fits what is asked for. -/
theorem exists_normalize_iff (resolver : KeyResolver) (vars : Json.Object) (root : RecordKey)
    (selections : List Selection) (data : Json.Object) :
    (∃ normalized, normalize resolver vars root selections data = .ok normalized) ↔
      ∀ s ∈ selections, s.Fits data := by
  rw [normalize, Normalization.pieces]
  exact exists_map_eq_ok_iff.trans (exists_map_eq_ok_iff.trans
    (Normalization.exists_selectionsFields_iff _ root data selections))

namespace Response

/-- The members of an object that a response may be. -/
structure Envelope (members : Json.Object) : Prop where
  data : ∀ value, Assoc.get? members "data" = some value →
    value = .null ∨ ∃ data, value = .object data
  errors : ∀ value, Assoc.get? members "errors" = some value →
    value = .null ∨ ∃ errors, ResponseError.listOfJson? value = some errors
  carries : (∃ value, Assoc.get? members "data" = some value) ∨
    ∃ value, Assoc.get? members "errors" = some value ∧ value ≠ .null

/-- A response has the data and the errors of an object; what is absent or `null` is left out. -/
structure Carries (response : Response Json) (members : Json.Object) : Prop where
  data : ∀ data, response.data = some data ↔ Assoc.get? members "data" = some data ∧ data ≠ .null
  errors : ∀ value, Assoc.get? members "errors" = some value → value ≠ .null →
    ResponseError.listOfJson? value = some response.errors
  noErrors : (∀ value, Assoc.get? members "errors" = some value → value = .null) →
    response.errors = []
  fromCache : response.fromCache = false

variable {members : Json.Object}

theorem exists_dataOf_iff : (∃ data, dataOf members = .ok data) ↔
    ∀ value, Assoc.get? members "data" = some value → value = .null ∨ ∃ data, value = .object data := by
  rw [dataOf]
  cases Assoc.get? members "data" with
  | none => exact iff_of_true ⟨_, rfl⟩ fun _ h => by cases h
  | some value => cases value <;> simp

theorem dataOf_eq_ok {data : Option Json} (h : dataOf members = .ok data) (value : Json) :
    data = some value ↔ Assoc.get? members "data" = some value ∧ value ≠ .null := by
  rw [dataOf] at h
  split at h
  · next hnone =>
    cases h
    simp [hnone]
  · next hnull =>
    cases h
    rw [hnull]
    refine iff_of_false (fun h => by cases h) fun ⟨hsame, hvalue⟩ => ?_
    cases hsame
    exact hvalue rfl
  · next object hobject =>
    cases h
    rw [hobject]
    refine ⟨fun hsame => ⟨hsame, ?_⟩, And.left⟩
    cases hsame
    exact fun h => by cases h
  · cases h

/-- The errors of an object: none, a list, or something else. -/
theorem errorsOf_cases (members : Json.Object) :
    ((∀ value, Assoc.get? members "errors" = some value → value = .null) ∧
        errorsOf members = .ok none) ∨
      ∃ value, Assoc.get? members "errors" = some value ∧ value ≠ .null ∧
        ((∃ errors, ResponseError.listOfJson? value = some errors ∧
            errorsOf members = .ok (some errors)) ∨
          ResponseError.listOfJson? value = none ∧ errorsOf members = .error .invalidErrors) := by
  rw [errorsOf]
  split
  · next hnone => exact .inl ⟨fun _ h => (by cases hnone.symm.trans h), rfl⟩
  · next hnull => exact .inl ⟨fun _ h => (by cases hnull.symm.trans h; rfl), rfl⟩
  · next value hnotNull hvalue =>
    refine .inr ⟨value, hvalue, hnotNull, ?_⟩
    cases hlist : ResponseError.listOfJson? value with
    | none => exact .inr ⟨rfl, rfl⟩
    | some errors => exact .inl ⟨errors, rfl, rfl⟩

theorem exists_errorsOf_iff : (∃ errors, errorsOf members = .ok errors) ↔
    ∀ value, Assoc.get? members "errors" = some value →
      value = .null ∨ ∃ errors, ResponseError.listOfJson? value = some errors := by
  rcases errorsOf_cases members with
    ⟨hnull, hok⟩ | ⟨value, hvalue, hnotNull, ⟨errors, hlist, hok⟩ | ⟨hnone, herror⟩⟩
  · exact iff_of_true ⟨_, hok⟩ fun value h => .inl (hnull value h)
  · refine iff_of_true ⟨_, hok⟩ fun other h => .inr ⟨errors, ?_⟩
    cases hvalue.symm.trans h
    exact hlist
  · refine iff_of_false (fun ⟨_, hok⟩ => by cases herror.symm.trans hok) fun h => ?_
    rcases h value hvalue with hnull | ⟨errors, hlist⟩
    · exact hnotNull hnull
    · cases hnone.symm.trans hlist

/-- An object is a response if its data and its errors can be read, and it has either. -/
theorem ofJson_object_eq_ok_iff {response : Response Json} :
    ofJson (.object members) = .ok response ↔ ∃ data errors, dataOf members = .ok data ∧
      errorsOf members = .ok errors ∧
      (Assoc.contains members "data" = true ∨ errors.isSome = true) ∧
      response = { data := data, errors := errors.getD [] } := by
  rw [ofJson, bind_eq_ok_iff]
  refine exists_congr fun data => ?_
  rw [bind_eq_ok_iff, ← exists_and_left]
  refine exists_congr fun errors => and_congr_right fun _ => and_congr_right fun _ => ?_
  cases Assoc.contains members "data" <;> cases errors <;>
    simp [pure, Except.pure, throw, throwThe, MonadExceptOf.throw, bind, Except.bind, eq_comm]

theorem exists_ofJson_object_iff :
    (∃ response, ofJson (.object members) = .ok response) ↔ Envelope members := by
  constructor
  · rintro ⟨response, h⟩
    obtain ⟨data, errors, hdata, herrors, hcarries, -⟩ := ofJson_object_eq_ok_iff.mp h
    refine ⟨exists_dataOf_iff.mp ⟨data, hdata⟩, exists_errorsOf_iff.mp ⟨errors, herrors⟩, ?_⟩
    refine hcarries.imp Option.isSome_iff_exists.mp fun hsome => ?_
    rcases errorsOf_cases members with ⟨-, hnone⟩ | ⟨value, hvalue, hnotNull, -⟩
    · cases herrors.symm.trans hnone
      cases hsome
    · exact ⟨value, hvalue, hnotNull⟩
  · rintro ⟨hdata, herrors, hcarries⟩
    obtain ⟨data, hdata⟩ := exists_dataOf_iff.mpr hdata
    obtain ⟨errors, herrors⟩ := exists_errorsOf_iff.mpr herrors
    refine ⟨_, ofJson_object_eq_ok_iff.mpr ⟨data, errors, hdata, herrors, ?_, rfl⟩⟩
    refine hcarries.imp Option.isSome_iff_exists.mpr fun ⟨value, hvalue, hnotNull⟩ => ?_
    rcases errorsOf_cases members with
      ⟨hnull, -⟩ | ⟨_, -, -, ⟨_, -, hok⟩ | ⟨-, herror⟩⟩
    · exact absurd (hnull value hvalue) hnotNull
    · cases herrors.symm.trans hok
      rfl
    · cases herrors.symm.trans herror

theorem carries_of_ofJson {response : Response Json}
    (h : ofJson (.object members) = .ok response) : response.Carries members := by
  obtain ⟨data, errors, hdata, herrors, -, rfl⟩ := ofJson_object_eq_ok_iff.mp h
  rcases errorsOf_cases members with
    ⟨hnull, hnone⟩ | ⟨value, hvalue, hnotNull, ⟨list, hlist, hok⟩ | ⟨-, herror⟩⟩
  · cases herrors.symm.trans hnone
    exact ⟨dataOf_eq_ok hdata, fun value hvalue hnotNull => absurd (hnull value hvalue) hnotNull,
      fun _ => rfl, rfl⟩
  · cases herrors.symm.trans hok
    refine ⟨dataOf_eq_ok hdata, fun other hother _ => ?_,
      fun hnull => absurd (hnull value hvalue) hnotNull, rfl⟩
    cases hvalue.symm.trans hother
    exact hlist
  · cases herrors.symm.trans herror

/-- A body is a response if it is an object with the members of one. -/
theorem ofBytes_eq_ok_iff {body : ByteArray} {response : Response Json} :
    ofBytes body = .ok response ↔
      ∃ members, Json.parseBytes? body = some (.object members) ∧
        ofJson (.object members) = .ok response := by
  rw [ofBytes]
  cases Json.parseBytes? body with
  | none => simp
  | some value => cases value <;> simp [ofJson]

end Response

/-- A response of success whose body is an object that a response may be, with data that is what the
operation asks for. -/
structure Operation.Accepts (operation : Operation) (http : Http.Response)
    (members : Json.Object) : Prop where
  success : 200 ≤ http.status ∧ http.status < 300
  body : Json.parseBytes? http.body = some (.object members)
  envelope : Response.Envelope members
  fits : ∀ data, Assoc.get? members "data" = some (.object data) →
    ∀ s ∈ operation.selections, s.Fits data

namespace Pipeline.ParseStage

variable {resolver : KeyResolver} {operation : Operation} {http : Http.Response}

theorem isSuccess_iff {status : Nat} :
    Http.isSuccess status = true ↔ 200 ≤ status ∧ status < 300 := by
  simp [Http.isSuccess]

theorem parseHttp_of_not_isSuccess (h : Http.isSuccess http.status = false) :
    parseHttp resolver operation http = .error (.http http.status http.body) := by
  rw [parseHttp, h]
  rfl

/-- What a response of success is parsed into. -/
theorem parseHttp_eq_ok_iff (h : Http.isSuccess http.status = true) {response : Response Json}
    {records : List Record} :
    parseHttp resolver operation http = .ok (response, records) ↔
      ∃ parsed, Response.ofBytes http.body = .ok parsed ∧
        (((∀ data, parsed.data ≠ some (.object data)) ∧ response = parsed ∧ records = []) ∨
          ∃ data normalized, parsed.data = some (.object data) ∧
            normalize resolver operation.vars operation.rootKey operation.selections data =
              .ok normalized ∧
            response = { parsed with dependentKeys := normalized.dependentKeys } ∧
            records = Assoc.values normalized.records) := by
  rw [parseHttp, h]
  refine bind_eq_ok_iff.trans (exists_congr fun parsed => ?_)
  rw [mapError_eq_ok_iff]
  refine and_congr_right fun _ => ?_
  split
  · next data hdata =>
    rw [bind_eq_ok_iff]
    constructor
    · rintro ⟨normalized, hnormalized, hsame⟩
      cases hsame
      exact .inr ⟨data, normalized, hdata, mapError_eq_ok_iff.mp hnormalized, rfl, rfl⟩
    · rintro (⟨hnone, -⟩ | ⟨found, normalized, hfound, hnormalized, rfl, rfl⟩)
      · exact absurd hdata (hnone data)
      · cases hdata.symm.trans hfound
        exact ⟨normalized, mapError_eq_ok_iff.mpr hnormalized, rfl⟩
  · next hnone =>
    constructor
    · intro hsame
      cases hsame
      exact .inl ⟨hnone, rfl, rfl⟩
    · rintro (⟨-, rfl, rfl⟩ | ⟨data, _, hdata, -⟩)
      · rfl
      · exact absurd hdata (hnone data)

theorem exists_malformed_of_parseHttp (h : Http.isSuccess http.status = true) {failure : Failure}
    (hparse : parseHttp resolver operation http = .error failure) :
    ∃ malformation, failure = .malformed malformation := by
  rw [parseHttp, h] at hparse
  rcases bind_eq_error_iff.mp hparse with hbody | ⟨parsed, -, hdata⟩
  · obtain ⟨malformation, -, rfl⟩ := mapError_eq_error_iff.mp hbody
    exact ⟨malformation, rfl⟩
  · split at hdata
    · rcases bind_eq_error_iff.mp hdata with hunfit | ⟨_, -, hpure⟩
      · obtain ⟨mismatch, -, rfl⟩ := mapError_eq_error_iff.mp hunfit
        exact ⟨.unfitData mismatch, rfl⟩
      · cases hpure
    · cases hdata

theorem isSuccess_of_parseHttp {result : Response Json × List Record}
    (h : parseHttp resolver operation http = .ok result) : Http.isSuccess http.status = true := by
  cases hstatus : Http.isSuccess http.status with
  | true => rfl
  | false =>
    rw [parseHttp_of_not_isSuccess hstatus] at h
    cases h

/-- What is parsed was accepted, and its data and errors are those of the body. -/
theorem accepts_of_parseHttp {response : Response Json} {records : List Record}
    (h : parseHttp resolver operation http = .ok (response, records)) :
    ∃ members, operation.Accepts http members ∧ response.Carries members ∧
      (response.data = none → records = []) := by
  have hsuccess := isSuccess_of_parseHttp h
  obtain ⟨parsed, hbytes, hparsed⟩ := (parseHttp_eq_ok_iff hsuccess).mp h
  obtain ⟨members, hbody, hjson⟩ := Response.ofBytes_eq_ok_iff.mp hbytes
  have henvelope := Response.exists_ofJson_object_iff.mp ⟨parsed, hjson⟩
  have hcarries := Response.carries_of_ofJson hjson
  have hdata : ∀ data, Assoc.get? members "data" = some (.object data) →
      parsed.data = some (.object data) :=
    fun data hget => (hcarries.data _).mpr ⟨hget, fun hnull => by cases hnull⟩
  rcases hparsed with ⟨hnone, rfl, rfl⟩ | ⟨data, normalized, hsome, hnormalized, rfl, rfl⟩
  · refine ⟨members, ⟨isSuccess_iff.mp hsuccess, hbody, henvelope, fun data hget => ?_⟩, hcarries,
      fun _ => rfl⟩
    exact absurd (hdata data hget) (hnone data)
  · have hfits := (exists_normalize_iff _ _ _ _ _).mp ⟨normalized, hnormalized⟩
    refine ⟨members, ⟨isSuccess_iff.mp hsuccess, hbody, henvelope, fun found hget => ?_⟩,
      { hcarries with }, fun hnone => ?_⟩
    · cases hsome.symm.trans (hdata found hget)
      exact hfits
    · cases hsome.symm.trans hnone

theorem exists_parseHttp_of_accepts (resolver : KeyResolver) {members : Json.Object}
    (h : operation.Accepts http members) :
    ∃ response records, parseHttp resolver operation http = .ok (response, records) := by
  have hsuccess := isSuccess_iff.mpr h.success
  obtain ⟨parsed, hjson⟩ := Response.exists_ofJson_object_iff.mpr h.envelope
  have hbytes := Response.ofBytes_eq_ok_iff.mpr ⟨members, h.body, hjson⟩
  by_cases hdata : ∃ data, parsed.data = some (.object data)
  · obtain ⟨data, hdata⟩ := hdata
    have hget := (((Response.carries_of_ofJson hjson).data _).mp hdata).1
    obtain ⟨normalized, hnormalized⟩ := (exists_normalize_iff resolver operation.vars
      operation.rootKey operation.selections data).mpr (h.fits data hget)
    exact ⟨_, _, (parseHttp_eq_ok_iff hsuccess).mpr
      ⟨parsed, hbytes, .inr ⟨data, normalized, hdata, hnormalized, rfl, rfl⟩⟩⟩
  · rw [not_exists] at hdata
    exact ⟨_, _, (parseHttp_eq_ok_iff hsuccess).mpr
      ⟨parsed, hbytes, .inl ⟨hdata, rfl, rfl⟩⟩⟩

/-- The parse stage accepts exactly the responses that conform. It refuses a status that is no success
with the body as it came, and everything else as malformed. -/
theorem parseHttp_accepts (resolver : KeyResolver) (operation : Operation) (http : Http.Response) :
    ((∃ response records, parseHttp resolver operation http = .ok (response, records)) ↔
      ∃ members, operation.Accepts http members) ∧
    (∀ failure, parseHttp resolver operation http = .error failure →
      if 200 ≤ http.status ∧ http.status < 300 then ∃ malformation, failure = .malformed malformation
      else failure = .http http.status http.body) ∧
    ∀ response records, parseHttp resolver operation http = .ok (response, records) →
      ∃ members, operation.Accepts http members ∧ response.Carries members ∧
        (response.data = none → records = []) := by
  refine ⟨⟨?_, ?_⟩, fun failure h => ?_, fun response records h => accepts_of_parseHttp h⟩
  · rintro ⟨response, records, h⟩
    obtain ⟨members, haccepts, -⟩ := accepts_of_parseHttp h
    exact ⟨members, haccepts⟩
  · rintro ⟨members, haccepts⟩
    exact exists_parseHttp_of_accepts resolver haccepts
  · split
    · next hsuccess => exact exists_malformed_of_parseHttp (isSuccess_iff.mpr hsuccess) h
    · next hnot =>
      have hstatus := Bool.eq_false_iff.mpr fun hsuccess => hnot (isSuccess_iff.mp hsuccess)
      rw [parseHttp_of_not_isSuccess hstatus] at h
      cases h
      rfl

end Pipeline.ParseStage

end GraphClient
