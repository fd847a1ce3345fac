import GraphClient.Proofs.Json.Reordering
import GraphClient.Proofs.Json.Texts
import GraphClient.Proofs.Record.KeyOrder
import GraphClient.Selection.Basic

/-!
# Keys of fields tell arguments apart

`Argument.Resolves` says, apart from how it is computed, what the value of an argument is: a variable
without a value is null, and in an input object the last value of a name counts. `resolve` computes
such a value, and any two of one argument differ in the order of keys only.

The key of a field is its name with the canonical text of its arguments, so two fields whose names are
without parentheses have one key just when they have one name and arguments of one value, up to the
order of keys (`cacheKey_eq_iff`). In particular the order of keys in the variables makes no difference
to a key.
-/

namespace GraphClient

namespace Argument

mutual

/-- The literals of an argument repeat no key. -/
def WellFormed : Argument → Prop
  | literal value => value.WellFormed
  | ofVariable _ => True
  | object fields => WellFormedFields fields
  | list items => WellFormedItems items

def WellFormedFields : List (String × Argument) → Prop
  | [] => True
  | (_, argument) :: fields => WellFormed argument ∧ WellFormedFields fields

def WellFormedItems : List Argument → Prop
  | [] => True
  | item :: items => WellFormed item ∧ WellFormedItems items

end

theorem wellFormedFields_iff {fields : List (String × Argument)} :
    WellFormedFields fields ↔ ∀ f ∈ fields, f.2.WellFormed := by
  induction fields with
  | nil => simp [WellFormedFields]
  | cons f fs ih => simp [WellFormedFields, ih]

theorem wellFormedItems_iff {items : List Argument} :
    WellFormedItems items ↔ ∀ a ∈ items, a.WellFormed := by
  induction items with
  | nil => simp [WellFormedItems]
  | cons a as ih => simp [WellFormedItems, ih]

/-- The argument has this value under the values of the variables. The members of an input object may
come in any order. -/
inductive Resolves (vars : Json.Object) : Argument → Json → Prop
  | literal (value : Json) : Resolves vars (literal value) value
  | ofVariable {name : String} {value : Json} (found : Assoc.get? vars name = some value) :
      Resolves vars (ofVariable name) value
  | missing {name : String} (missing : Assoc.get? vars name = none) :
      Resolves vars (ofVariable name) .null
  | object {fields : List (String × Argument)} {members : Json.Object}
      (nodup : (Assoc.keys members).Nodup)
      (names : ∀ name, name ∈ Assoc.keys members ↔ name ∈ fields.map Prod.fst)
      (last : ∀ before name argument after value, fields = before ++ (name, argument) :: after →
        name ∉ after.map Prod.fst → Assoc.get? members name = some value →
        Resolves vars argument value) : Resolves vars (object fields) (.object members)
  | list {items : List Argument} {values : List Json} (length : items.length = values.length)
      (pointwise : ∀ (i : ℕ) argument value, items[i]? = some argument → values[i]? = some value →
        Resolves vars argument value) : Resolves vars (list items) (.array values)

variable {vars : Json.Object}

theorem map_fst_resolveFields (fields : List (String × Argument)) :
    (resolveFields vars fields).map Prod.fst = fields.map Prod.fst := by
  rw [resolveFields_eq_map, List.map_map]
  rfl

mutual

/-- Every argument has a value. -/
theorem resolves_resolve : ∀ argument : Argument, argument.Resolves vars (argument.resolve vars)
  | .literal value => .literal value
  | .ofVariable name => by
    rw [resolve]
    cases h : Assoc.get? vars name with
    | some value => exact .ofVariable h
    | none => exact .missing h
  | .object fields => by
    have hresolved := resolves_of_mem_fields fields
    rw [resolve]
    refine .object (Assoc.nodup_keys_ofEntries _) (fun name => ?_) ?_
    · rw [Assoc.mem_keys_ofEntries, map_fst_resolveFields]
    · rintro before name argument after value rfl hafter hvalue
      rw [resolveFields_eq_map, List.map_append, List.map_cons, Assoc.get?_ofEntries] at hvalue
      · obtain rfl := Option.some.inj hvalue
        exact hresolved (name, argument) (List.mem_append_right before List.mem_cons_self)
      · rwa [← resolveFields_eq_map, map_fst_resolveFields]
  | .list items => by
    have hresolved := resolves_of_mem items
    rw [resolve, resolveItems_eq_map]
    refine .list (List.length_map _).symm fun i argument value hargument hvalue => ?_
    rw [List.getElem?_map, hargument] at hvalue
    obtain rfl := Option.some.inj hvalue
    exact hresolved argument (List.mem_of_getElem? hargument)

theorem resolves_of_mem_fields : ∀ fields : List (String × Argument), ∀ f ∈ fields,
    f.2.Resolves vars (f.2.resolve vars)
  | [], _, hmem => nomatch hmem
  | (_, argument) :: fields, f, hmem => by
    rcases List.mem_cons.mp hmem with rfl | hmem
    · exact resolves_resolve argument
    · exact resolves_of_mem_fields fields f hmem

theorem resolves_of_mem : ∀ items : List Argument, ∀ a ∈ items,
    a.Resolves vars (a.resolve vars)
  | [], _, hmem => nomatch hmem
  | item :: items, a, hmem => by
    rcases List.mem_cons.mp hmem with heq | hmem
    · exact heq ▸ resolves_resolve item
    · exact resolves_of_mem items a hmem

end

/-- The values of one argument differ in the order of keys at most. -/
theorem Resolves.reordered (hvars : (Json.object vars).WellFormed) {argument : Argument} {x y : Json}
    (hx : argument.Resolves vars x) (hargument : argument.WellFormed)
    (hy : argument.Resolves vars y) : x.Reordered y := by
  induction hx generalizing y with
  | literal value =>
    cases hy
    exact .refl hargument
  | ofVariable found =>
    cases hy with
    | ofVariable found' =>
      obtain rfl := Option.some.inj (found.symm.trans found')
      exact .refl (hvars.of_get? found)
    | missing missing => cases found.symm.trans missing
  | missing missing =>
    cases hy with
    | ofVariable found => cases found.symm.trans missing
    | missing => exact .scalar rfl
  | @object fields xs nodup names last ih =>
    cases hy with
    | @object _ ys nodup' names' last' =>
      refine .object nodup ?_ fun name x y hx hy => ?_
      · rw [List.perm_ext_iff_of_nodup nodup nodup']
        exact fun name => (names name).trans (names' name).symm
      · have hname : name ∈ fields.map Prod.fst :=
          (names name).mp (Assoc.mem_keys_iff.mpr (by rw [hx]; rfl))
        obtain ⟨before, argument, after, hfields, hafter⟩ := Assoc.exists_last hname
        have hmem : (name, argument) ∈ fields := by simp [hfields]
        exact ih before name argument after x hfields hafter hx
          (wellFormedFields_iff.mp hargument _ hmem)
          (last' before name argument after y hfields hafter hy)
  | @list items xs length _ ih =>
    cases hy with
    | @list _ ys length' pointwise' =>
      refine .array (length.symm.trans length') fun i x y hx hy => ?_
      obtain ⟨hi, -⟩ := List.getElem?_eq_some_iff.mp hx
      have hitem : items[i]? = some items[i] := List.getElem?_eq_getElem (length ▸ hi)
      exact ih i _ x hitem hx (wellFormedItems_iff.mp hargument _ (List.getElem_mem _))
        (pointwise' i _ y hitem hy)

end Argument

namespace Json

theorem sortedMembers_insert (members : Object) (key : String) (value : Json) :
    sortedMembers (Assoc.insert members key value) =
      Assoc.insert (sortedMembers members) key value.sorted := by
  induction members with
  | nil => rfl
  | cons m members ih =>
    obtain ⟨name, x⟩ := m
    rw [Assoc.insert, sortedMembers, Assoc.insert]
    split
    · rw [sortedMembers]
    · rw [sortedMembers, ih]

theorem sortedMembers_ofEntries (entries : List (String × Json)) :
    sortedMembers (Assoc.ofEntries entries) = Assoc.ofEntries (sortedMembers entries) := by
  have hall : ∀ members : Object, sortedMembers (Assoc.insertAll members entries) =
      Assoc.insertAll (sortedMembers members) (sortedMembers entries) := by
    induction entries with
    | nil => exact fun _ => rfl
    | cons entry entries ih =>
      intro members
      have hrest := ih (Assoc.insert members entry.1 entry.2)
      rwa [sortedMembers_insert] at hrest
  exact hall []

end Json

section Variables

variable {u v : Json.Object}

mutual

theorem Argument.sorted_resolve_eq (h : (Json.object u).Reordered (.object v)) :
    ∀ argument : Argument, (argument.resolve u).sorted = (argument.resolve v).sorted
  | .literal _ => rfl
  | .ofVariable name => by
    rw [resolve, resolve, ← Option.getD_map Json.sorted, ← Option.getD_map Json.sorted,
      h.map_sorted_get? name]
  | .object fields => by
    rw [resolve, resolve, Json.sorted_object, Json.sorted_object, Json.sortedMembers_ofEntries,
      Json.sortedMembers_ofEntries, sortedMembers_resolveFields_eq h fields]
  | .list items => by
    rw [resolve, resolve, Json.sorted, Json.sorted, sortedItems_resolveItems_eq h items]

theorem Argument.sortedMembers_resolveFields_eq (h : (Json.object u).Reordered (.object v)) :
    ∀ fields : List (String × Argument),
      Json.sortedMembers (resolveFields u fields) = Json.sortedMembers (resolveFields v fields)
  | [] => rfl
  | (name, argument) :: fields => by
    rw [resolveFields, resolveFields, Json.sortedMembers, Json.sortedMembers,
      sorted_resolve_eq h argument, sortedMembers_resolveFields_eq h fields]

theorem Argument.sortedItems_resolveItems_eq (h : (Json.object u).Reordered (.object v)) :
    ∀ items : List Argument,
      Json.sortedItems (resolveItems u items) = Json.sortedItems (resolveItems v items)
  | [] => rfl
  | item :: items => by
    rw [resolveItems, resolveItems, Json.sortedItems, Json.sortedItems, sorted_resolve_eq h item,
      sortedItems_resolveItems_eq h items]

end

/-- The order of keys in the variables does not show in a key. -/
theorem Field.cacheKey_eq_of_reordered (h : (Json.object u).Reordered (.object v)) (field : Field) :
    field.cacheKey u = field.cacheKey v := by
  rw [cacheKey, cacheKey, resolveArguments, resolveArguments, Json.canonicalText,
    Json.canonicalText, Argument.sorted_resolve_eq h]

end Variables

namespace Json

/-- Well-formed values have one canonical text when they are reorderings of each other. -/
theorem canonicalText_eq_iff {x y : Json} (hx : x.WellFormed) (hy : y.WellFormed) :
    x.canonicalText = y.canonicalText ↔ x.Reordered y := by
  rw [reordered_iff_sorted_eq hx hy]
  refine ⟨fun h => ?_, fun h => congrArg toText h⟩
  have htext := congrArg String.toList h
  simp only [canonicalText, toList_toText] at htext
  exact render_injective htext

end Json

/-- A text is cut at the first place of a character. -/
theorem takeWhile_append_cons {a : List Char} {c : Char} (h : c ∉ a) (x : List Char) :
    (a ++ c :: x).takeWhile (· ≠ c) = a := by
  have hne : ∀ d ∈ a, decide (d ≠ c) = true := fun d hd =>
    decide_eq_true fun heq => h (heq ▸ hd)
  rw [List.takeWhile_append_of_pos hne, List.takeWhile_cons_of_neg (by simp), List.append_nil]

theorem append_cons_inj_of_notMem {a b x y : List Char} {c : Char} (ha : c ∉ a) (hb : c ∉ b) :
    a ++ c :: x = b ++ c :: y ↔ a = b ∧ x = y := by
  refine ⟨fun h => ?_, fun ⟨hab, hxy⟩ => hab ▸ hxy ▸ rfl⟩
  have hab : a = b := by rw [← takeWhile_append_cons ha x, h, takeWhile_append_cons hb]
  subst hab
  exact ⟨rfl, (List.cons.inj (List.append_cancel_left h)).2⟩

namespace Field

/-- The key of a field without arguments has no parenthesis, unless the name has one. -/
theorem mem_toList_cacheKey_iff {f : Field} (hname : '(' ∉ f.name.toList) (vars : Json.Object) :
    '(' ∈ (f.cacheKey vars).toList ↔ f.arguments ≠ [] := by
  rw [cacheKey]
  cases f.arguments <;> simp [hname]

theorem toList_cacheKey_of_ne_nil {f : Field} (h : f.arguments ≠ []) (vars : Json.Object) :
    (f.cacheKey vars).toList = f.name.toList ++
      '(' :: ((resolveArguments vars f.arguments).canonicalText.toList ++ [')']) := by
  have hnonempty : f.arguments.isEmpty = false := List.isEmpty_eq_false_iff.mpr h
  simp [cacheKey, hnonempty]

/-- Two fields have one key just when they have one name and either no arguments or arguments whose
values are the same up to the order of keys. -/
theorem cacheKey_eq_iff {f g : Field} (hf : '(' ∉ f.name.toList) (hg : '(' ∉ g.name.toList)
    (hfa : (Argument.object f.arguments).WellFormed) (hga : (Argument.object g.arguments).WellFormed)
    {u v : Json.Object} (hu : (Json.object u).WellFormed) (hv : (Json.object v).WellFormed)
    {x y : Json} (hx : (Argument.object f.arguments).Resolves u x)
    (hy : (Argument.object g.arguments).Resolves v y) :
    f.cacheKey u = g.cacheKey v ↔ f.name = g.name ∧
      (f.arguments = [] ∧ g.arguments = [] ∨
        f.arguments ≠ [] ∧ g.arguments ≠ [] ∧ x.Reordered y) := by
  have hfx := hx.reordered hu hfa (Argument.resolves_resolve _)
  have hgy := hy.reordered hv hga (Argument.resolves_resolve _)
  have hvalues : (resolveArguments u f.arguments).canonicalText =
      (resolveArguments v g.arguments).canonicalText ↔ x.Reordered y := by
    refine (Json.canonicalText_eq_iff hfx.symm.wellFormed hgy.symm.wellFormed).trans ?_
    exact ⟨fun h => (hfx.trans h).trans hgy.symm, fun h => (hfx.symm.trans h).trans hgy⟩
  by_cases hfn : f.arguments = [] <;> by_cases hgn : g.arguments = []
  · simp [cacheKey_of_no_arguments, hfn, hgn]
  · -- one of the keys has a parenthesis and the other has none
    have hne : f.cacheKey u ≠ g.cacheKey v := by
      intro h
      have hmem := (mem_toList_cacheKey_iff hg v).mpr hgn
      rw [← h, mem_toList_cacheKey_iff hf] at hmem
      exact hmem hfn
    simp [hne, hfn, hgn]
  · have hne : f.cacheKey u ≠ g.cacheKey v := by
      intro h
      have hmem := (mem_toList_cacheKey_iff hf u).mpr hfn
      rw [h, mem_toList_cacheKey_iff hg] at hmem
      exact hmem hgn
    simp [hne, hfn, hgn]
  · rw [← String.toList_inj, toList_cacheKey_of_ne_nil hfn, toList_cacheKey_of_ne_nil hgn,
      append_cons_inj_of_notMem hf hg, List.append_cancel_right_eq, String.toList_inj,
      String.toList_inj, hvalues]
    simp [hfn, hgn]

section Reviews

private def reviews (arguments : List (String × Argument)) : Field :=
  { responseName := "reviews", name := "reviews", arguments }

private def latestReviews : Field :=
  reviews [("page", .literal (.ofInt 7)), ("filter", .object [("stars", .ofVariable "stars")]),
    ("page", .literal (.ofInt 1))]

/-- The stars are an integer. -/
private def reviewsWithFilter : Field :=
  reviews [("filter", .object [("stars", .literal (.ofInt 4))]), ("page", .ofVariable "page")]

/-- The stars are the double `4.0`. -/
private def reviewsWithDouble : Field :=
  reviews [("filter", .object [("stars", .literal (.number (.double 0x4010000000000000)))]),
    ("page", .ofVariable "page")]

theorem cacheKey_eq_iff_latestReviews :
    latestReviews.cacheKey [("stars", .ofInt 4)] = reviewsWithFilter.cacheKey [("page", .ofInt 1)] ∧
      latestReviews.cacheKey [("stars", .ofInt 4)] ≠
        reviewsWithDouble.cacheKey [("page", .ofInt 1)] := by
  have hname : '(' ∉ "reviews".toList := by decide
  have hlatest : (Argument.object latestReviews.arguments).WellFormed :=
    ⟨trivial, ⟨trivial, trivial⟩, trivial, trivial⟩
  have hstars : (Json.object [("stars", .ofInt 4)]).WellFormed :=
    ⟨List.nodup_singleton _, trivial, trivial⟩
  have hpage : (Json.object [("page", .ofInt 1)]).WellFormed :=
    ⟨List.nodup_singleton _, trivial, trivial⟩
  have hfilter : (Argument.object reviewsWithFilter.arguments).WellFormed :=
    ⟨⟨trivial, trivial⟩, trivial, trivial⟩
  have hdouble : (Argument.object reviewsWithDouble.arguments).WellFormed :=
    ⟨⟨trivial, trivial⟩, trivial, trivial⟩
  constructor
  · refine (cacheKey_eq_iff hname hname hlatest hfilter hstars hpage (Argument.resolves_resolve _)
      (Argument.resolves_resolve _)).mpr ⟨rfl, .inr ⟨nofun, nofun, ?_⟩⟩
    refine Json.Reordered.of_perm ⟨by decide, ?_⟩ (List.Perm.swap _ _ _)
    exact ⟨trivial, ⟨List.nodup_singleton _, trivial, trivial⟩, trivial⟩
  · intro h
    obtain ⟨-, ⟨hnil, -⟩ | ⟨-, -, hvalues⟩⟩ := (cacheKey_eq_iff hname hname hlatest hdouble hstars hpage
      (Argument.resolves_resolve _) (Argument.resolves_resolve _)).mp h
    · cases hnil
    · -- the stars of the filters would be reorderings of each other
      generalize hx : (Argument.object latestReviews.arguments).resolve _ = x at hvalues
      generalize hy : (Argument.object reviewsWithDouble.arguments).resolve _ = y at hvalues
      cases hvalues with
      | scalar h => cases hx; cases h
      | array => cases hx
      | object _ _ members =>
        cases hx
        cases hy
        have hfilters := members "filter" _ _ rfl rfl
        cases hfilters with
        | object _ _ members => cases members "stars" _ _ rfl rfl

end Reviews

end Field

end GraphClient
