import GraphClient.Json.Canonical
import GraphClient.Proofs.Json.Equality
import Mathlib.Data.List.Perm.Basic
import Mathlib.Data.String.Basic

/-!
# Values that differ in the order of keys

Two values are `Reordered` when they differ in nothing but the order in which their objects list the
keys, at any depth. Only well-formed values are: no object may repeat a key. Numbers are compared as
they are, so an integer and a double differ, and so do the two zeros.

Sorting a value reorders it, and makes one value of all that are reorderings of one another
(`reordered_iff_sorted_eq`). Such values are equal, and the rest of the library sees no difference in
them that matters: not the type that an object names, not what is equal to it.
-/

namespace GraphClient

theorem isSome_eq_of_rel {α β : Type} {R : α → β → Prop} {x : Option α} {y : Option β}
    (h : Option.Rel R x y) : x.isSome = y.isSome := by
  cases h <;> rfl

theorem none_or_some_of_rel {α β : Type} {R : α → β → Prop} {x : Option α} {y : Option β}
    (h : Option.Rel R x y) : x = none ∧ y = none ∨ ∃ a b, x = some a ∧ y = some b ∧ R a b := by
  cases h with
  | some hab => exact .inr ⟨_, _, rfl, rfl, hab⟩
  | none => exact .inl ⟨rfl, rfl⟩

theorem bind_eq_of_rel {α β γ : Type} {R : α → β → Prop} {x : Option α} {y : Option β}
    (h : Option.Rel R x y) {f : α → Option γ} {g : β → Option γ} (hfg : ∀ a b, R a b → f a = g b) :
    x.bind f = y.bind g := by
  cases h with
  | some hab => exact hfg _ _ hab
  | none => rfl

namespace Json

/-- Neither an array nor an object. -/
def isScalar : Json → Bool
  | array _ => false
  | object _ => false
  | _ => true

/-- The values differ in the order of keys at most, and no object of them repeats a key. -/
inductive Reordered : Json → Json → Prop
  | scalar {x : Json} (h : x.isScalar = true) : Reordered x x
  | array {xs ys : List Json} (length : xs.length = ys.length)
      (items : ∀ (i : ℕ) x y, xs[i]? = some x → ys[i]? = some y → Reordered x y) :
      Reordered (array xs) (array ys)
  | object {xs ys : Object} (nodup : (Assoc.keys xs).Nodup)
      (perm : (Assoc.keys xs).Perm (Assoc.keys ys))
      (members : ∀ name x y, Assoc.get? xs name = some x → Assoc.get? ys name = some y →
        Reordered x y) : Reordered (object xs) (object ys)

/-- Where two lists have the same keys, a member of one has a member of its name in the other. -/
theorem exists_get?_of_perm {xs ys : Object} (h : (Assoc.keys xs).Perm (Assoc.keys ys))
    {name : String} {x : Json} (hx : Assoc.get? xs name = some x) :
    ∃ y, Assoc.get? ys name = some y := by
  have hmem : name ∈ Assoc.keys xs := by simp [Assoc.mem_keys_iff, hx]
  exact Option.isSome_iff_exists.mp (Assoc.mem_keys_iff.mp (h.mem_iff.mp hmem))

theorem exists_getElem?_of_length_eq {xs ys : List Json} (h : xs.length = ys.length) {i : ℕ}
    {x : Json} (hx : xs[i]? = some x) : ∃ y, ys[i]? = some y := by
  obtain ⟨hi, -⟩ := List.getElem?_eq_some_iff.mp hx
  exact ⟨ys[i], List.getElem?_eq_getElem (h ▸ hi)⟩

/-- Members that a function takes to one value are found under the same names. -/
theorem map_get?_eq {α : Type} {f : Json → α} {xs ys : Object}
    (perm : (Assoc.keys xs).Perm (Assoc.keys ys))
    (h : ∀ name x y, Assoc.get? xs name = some x → Assoc.get? ys name = some y → f x = f y)
    (name : String) : (Assoc.get? xs name).map f = (Assoc.get? ys name).map f := by
  cases hx : Assoc.get? xs name with
  | some x =>
    obtain ⟨y, hy⟩ := exists_get?_of_perm perm hx
    rw [hy, Option.map_some, Option.map_some, h name x y hx hy]
  | none =>
    cases hy : Assoc.get? ys name with
    | none => rfl
    | some y =>
      obtain ⟨x, hx'⟩ := exists_get?_of_perm perm.symm hy
      cases hx.symm.trans hx'

namespace Reordered

theorem symm {x y : Json} (h : Reordered x y) : Reordered y x := by
  induction h with
  | scalar h => exact .scalar h
  | array length _ ih => exact .array length.symm fun i y x hy hx => ih i x y hx hy
  | object nodup perm _ ih =>
    exact .object (perm.nodup_iff.mp nodup) perm.symm fun name y x hy hx => ih name x y hx hy

theorem trans {x y z : Json} (hxy : Reordered x y) (hyz : Reordered y z) : Reordered x z := by
  induction hxy generalizing z with
  | scalar => exact hyz
  | array length _ ih =>
    cases hyz with
    | scalar h => cases h
    | array length' items' =>
      refine .array (length.trans length') fun i x z hx hz => ?_
      obtain ⟨y, hy⟩ := exists_getElem?_of_length_eq length hx
      exact ih i x y hx hy (items' i y z hy hz)
  | object nodup perm _ ih =>
    cases hyz with
    | scalar h => cases h
    | object _ perm' members' =>
      refine .object nodup (perm.trans perm') fun name x z hx hz => ?_
      obtain ⟨y, hy⟩ := exists_get?_of_perm perm hx
      exact ih name x y hx hy (members' name y z hy hz)

theorem wellFormed {x y : Json} (h : Reordered x y) : x.WellFormed := by
  induction h with
  | @scalar x h =>
    cases x with
    | array => cases h
    | object => cases h
    | _ => trivial
  | array length _ ih =>
    refine wellFormedItems_iff.mpr fun x hx => ?_
    obtain ⟨i, hi⟩ := List.getElem?_of_mem hx
    obtain ⟨y, hy⟩ := exists_getElem?_of_length_eq length hi
    exact ih i x y hi hy
  | object nodup perm _ ih =>
    refine ⟨nodup, wellFormedMembers_iff.mpr fun m hm => ?_⟩
    have hx := Assoc.get?_eq_some_of_mem nodup hm
    obtain ⟨y, hy⟩ := exists_get?_of_perm perm hx
    exact ih m.1 m.2 y hx hy

mutual

/-- A well-formed value is a reordering of itself. -/
theorem refl : ∀ {x : Json}, x.WellFormed → Reordered x x
  | .null, _ => .scalar rfl
  | .bool _, _ => .scalar rfl
  | .number _, _ => .scalar rfl
  | .string _, _ => .scalar rfl
  | .array items, h => .array rfl fun i x y hx hy => by
    obtain rfl := Option.some.inj (hx.symm.trans hy)
    exact refl_of_mem h x (List.mem_of_getElem? hx)
  | .object members, h => .object h.1 (List.Perm.refl _) fun name x y hx hy => by
    obtain rfl := Option.some.inj (hx.symm.trans hy)
    exact refl_of_mem_members h.2 (name, x) (Assoc.mem_of_get?_eq_some hx)

theorem refl_of_mem : ∀ {items : List Json}, WellFormedItems items → ∀ x ∈ items, Reordered x x
  | [], _, _, hmem => nomatch hmem
  | x :: _, h, z, hmem => by
    rcases List.mem_cons.mp hmem with heq | hmem
    · exact heq ▸ refl h.1
    · exact refl_of_mem h.2 z hmem

theorem refl_of_mem_members : ∀ {members : List (String × Json)}, WellFormedMembers members →
    ∀ m ∈ members, Reordered m.2 m.2
  | [], _, _, hmem => nomatch hmem
  | (_, x) :: _, h, m, hmem => by
    rcases List.mem_cons.mp hmem with rfl | hmem
    · exact refl h.1
    · exact refl_of_mem_members h.2 m hmem

end

theorem array_iff {xs ys : List Json} :
    Reordered (.array xs) (.array ys) ↔ List.Forall₂ Reordered xs ys := by
  rw [forall₂_iff_getElem?]
  constructor
  · intro h
    cases h with
    | scalar h => cases h
    | array length items => exact ⟨length, items⟩
  · exact fun ⟨length, items⟩ => .array length items

/-- The members of an object may be listed in any order. -/
theorem of_perm {xs ys : Object} (h : (Json.object xs).WellFormed) (perm : xs.Perm ys) :
    Reordered (.object xs) (.object ys) := by
  refine .object h.1 (perm.map _) fun name x y hx hy => ?_
  have hmem := perm.mem_iff.mp (Assoc.mem_of_get?_eq_some hx)
  have hys : (Assoc.keys ys).Nodup := (perm.map _).nodup_iff.mp h.1
  obtain rfl := Option.some.inj ((Assoc.get?_eq_some_of_mem hys hmem).symm.trans hy)
  exact refl (h.of_get? hx)

end Reordered

section Sorted

variable {members : Object}

theorem keys_sortedMembers (members : Object) :
    Assoc.keys (sortedMembers members) = Assoc.keys members := by
  simp [sortedMembers_eq_map, Assoc.keys, Function.comp_def]

theorem get?_sortedMembers (members : Object) (name : String) :
    Assoc.get? (sortedMembers members) name = (Assoc.get? members name).map sorted := by
  induction members with
  | nil => rfl
  | cons m members ih =>
    obtain ⟨key, x⟩ := m
    rw [sortedMembers, Assoc.get?_cons, Assoc.get?_cons, ih]
    split <;> rfl

/-- The members of an object in the order of their keys. -/
def byKey (members : Object) : Object := members.mergeSort fun a b => decide (a.1 ≤ b.1)

theorem byKey_perm (members : Object) : (byKey members).Perm members :=
  List.mergeSort_perm members _

theorem keys_byKey_perm (members : Object) : (Assoc.keys (byKey members)).Perm (Assoc.keys members) :=
  (byKey_perm members).map _

theorem get?_byKey (h : (Assoc.keys members).Nodup) (name : String) :
    Assoc.get? (byKey members) name = Assoc.get? members name := by
  have hsorted := (keys_byKey_perm members).nodup_iff.mpr h
  refine Option.ext fun x => ?_
  rw [Assoc.get?_eq_some_iff_mem hsorted, Assoc.get?_eq_some_iff_mem h,
    (byKey_perm members).mem_iff]

theorem pairwise_byKey (members : Object) : (byKey members).Pairwise fun a b => a.1 ≤ b.1 := by
  have htrans : ∀ a b c : String × Json, decide (a.1 ≤ b.1) = true → decide (b.1 ≤ c.1) = true →
      decide (a.1 ≤ c.1) = true := by
    intro a b c hab hbc
    simp only [decide_eq_true_eq] at *
    exact le_trans hab hbc
  have htotal : ∀ a b : String × Json, (decide (a.1 ≤ b.1) || decide (b.1 ≤ a.1)) = true := by
    intro a b
    simpa using le_total a.1 b.1
  exact (List.pairwise_mergeSort htrans htotal members).imp of_decide_eq_true

/-- Lists of the same members are the same in the order of their keys. -/
theorem byKey_eq_of_get?_eq {xs ys : Object} (hxs : (Assoc.keys xs).Nodup)
    (hys : (Assoc.keys ys).Nodup) (h : ∀ name, Assoc.get? xs name = Assoc.get? ys name) :
    byKey xs = byKey ys := by
  have hperm : (byKey xs).Perm (byKey ys) := by
    refine (byKey_perm xs).trans (List.Perm.trans ?_ (byKey_perm ys).symm)
    have hnodup : ∀ {zs : Object}, (Assoc.keys zs).Nodup → zs.Nodup := fun h =>
      List.Pairwise.of_map Prod.fst (fun _ _ hne heq => hne (congrArg Prod.fst heq)) h
    rw [List.perm_ext_iff_of_nodup (hnodup hxs) (hnodup hys)]
    rintro ⟨name, x⟩
    rw [← Assoc.get?_eq_some_iff_mem hxs, ← Assoc.get?_eq_some_iff_mem hys, h]
  refine hperm.eq_of_pairwise (fun a b ha hb hab hba => ?_) (pairwise_byKey xs) (pairwise_byKey ys)
  have hname : a.1 = b.1 := le_antisymm hab hba
  have hx := Assoc.get?_eq_some_of_mem hxs ((byKey_perm xs).mem_iff.mp ha)
  have hy := Assoc.get?_eq_some_of_mem hys ((byKey_perm ys).mem_iff.mp hb)
  rw [h, hname, hy] at hx
  exact Prod.ext hname (Option.some.inj hx).symm

theorem sorted_object (members : Object) :
    (object members).sorted = object (byKey (sortedMembers members)) := rfl

end Sorted

namespace Reordered

/-- Sorting makes one value of two that are reorderings of each other. -/
theorem sorted_eq {x y : Json} (h : Reordered x y) : x.sorted = y.sorted := by
  induction h with
  | scalar => rfl
  | @array xs ys length _ ih =>
    rw [sorted, sorted, sortedItems_eq_map, sortedItems_eq_map]
    refine congrArg Json.array (List.ext_getElem? fun i => ?_)
    rw [List.getElem?_map, List.getElem?_map]
    cases hx : xs[i]? with
    | some x =>
      obtain ⟨y, hy⟩ := exists_getElem?_of_length_eq length hx
      rw [hy, Option.map_some, Option.map_some, ih i x y hx hy]
    | none =>
      have hy : ys[i]? = none := by
        rw [List.getElem?_eq_none_iff] at hx ⊢
        exact length ▸ hx
      rw [hy]
  | @object xs ys nodup perm _ ih =>
    rw [sorted_object, sorted_object]
    refine congrArg Json.object (byKey_eq_of_get?_eq ?_ ?_ fun name => ?_)
    · rwa [keys_sortedMembers]
    · rw [keys_sortedMembers]
      exact perm.nodup_iff.mp nodup
    · rw [get?_sortedMembers, get?_sortedMembers]
      exact map_get?_eq perm ih name

/-- In objects that are reorderings of each other, members of one name are sorted alike. -/
theorem map_sorted_get? {xs ys : Object} (h : Reordered (.object xs) (.object ys)) (name : String) :
    (Assoc.get? xs name).map sorted = (Assoc.get? ys name).map sorted := by
  cases h with
  | scalar h => cases h
  | object _ perm members =>
    exact map_get?_eq perm (fun name x y hx hy => (members name x y hx hy).sorted_eq) name

end Reordered

mutual

/-- Sorting reorders a value. -/
theorem reordered_sorted : ∀ {x : Json}, x.WellFormed → Reordered x x.sorted
  | null, _ => .scalar rfl
  | bool _, _ => .scalar rfl
  | number _, _ => .scalar rfl
  | string _, _ => .scalar rfl
  | array items, h => by
    rw [sorted, sortedItems_eq_map]
    refine .array (List.length_map _).symm fun i x y hx hy => ?_
    rw [List.getElem?_map, hx] at hy
    cases hy
    exact reordered_sorted_of_mem h x (List.mem_of_getElem? hx)
  | object members, h => by
    have hkeys := keys_sortedMembers members
    rw [sorted_object]
    refine .object h.1 (hkeys ▸ (keys_byKey_perm _).symm) fun name x y hx hy => ?_
    rw [get?_byKey (hkeys ▸ h.1), get?_sortedMembers, hx] at hy
    cases hy
    exact reordered_sorted_of_mem_members h.2 (name, x) (Assoc.mem_of_get?_eq_some hx)

theorem reordered_sorted_of_mem : ∀ {items : List Json}, WellFormedItems items →
    ∀ x ∈ items, Reordered x x.sorted
  | [], _, _, hmem => nomatch hmem
  | x :: _, h, z, hmem => by
    rcases List.mem_cons.mp hmem with heq | hmem
    · exact heq ▸ reordered_sorted h.1
    · exact reordered_sorted_of_mem h.2 z hmem

theorem reordered_sorted_of_mem_members : ∀ {members : List (String × Json)},
    WellFormedMembers members → ∀ m ∈ members, Reordered m.2 m.2.sorted
  | [], _, _, hmem => nomatch hmem
  | (_, x) :: _, h, m, hmem => by
    rcases List.mem_cons.mp hmem with rfl | hmem
    · exact reordered_sorted h.1
    · exact reordered_sorted_of_mem_members h.2 m hmem

end

/-- Well-formed values are reorderings of each other when they are one value once they are sorted. -/
theorem reordered_iff_sorted_eq {x y : Json} (hx : x.WellFormed) (hy : y.WellFormed) :
    Reordered x y ↔ x.sorted = y.sorted := by
  refine ⟨Reordered.sorted_eq, fun h => ?_⟩
  exact (reordered_sorted hx).trans (h ▸ (reordered_sorted hy).symm)

theorem equalItems_of_forall₂ {xs ys : List Json}
    (h : List.Forall₂ (fun x y => equal x y = true) xs ys) : equalItems xs ys = true := by
  induction h with
  | nil => rfl
  | cons hxy _ ih => rw [equalItems, hxy, ih, Bool.and_self]

namespace Reordered

theorem equal {x y : Json} (h : Reordered x y) : Json.equal x y = true := by
  induction h with
  | scalar h => exact equal_refl _ (Reordered.scalar h).wellFormed
  | array length _ ih => exact equalItems_of_forall₂ (forall₂_iff_getElem?.mpr ⟨length, ih⟩)
  | @object xs ys nodup perm _ ih =>
    have hlength : xs.length = ys.length := by simpa [Assoc.keys] using perm.length_eq
    rw [Json.equal, hlength, beq_self_eq_true, Bool.true_and, equalMembers_iff]
    intro m hm
    have hx := Assoc.get?_eq_some_of_mem nodup hm
    obtain ⟨y, hy⟩ := exists_get?_of_perm perm hx
    exact ⟨y, hy, ih m.1 m.2 y hx hy⟩

section Objects

variable {xs ys : Object}

/-- Under every name stand reorderings of one value, or nothing in both. -/
theorem get? (h : Reordered (.object xs) (.object ys)) (name : String) :
    Option.Rel Reordered (Assoc.get? xs name) (Assoc.get? ys name) := by
  cases h with
  | scalar h => cases h
  | object _ perm members =>
    cases hx : Assoc.get? xs name with
    | some x =>
      obtain ⟨y, hy⟩ := exists_get?_of_perm perm hx
      rw [hy]
      exact .some (members name x y hx hy)
    | none =>
      have hnone := map_get?_eq perm (f := fun _ => ()) (fun _ _ _ _ _ => rfl) name
      rw [hx] at hnone
      rw [Option.map_eq_none_iff.mp hnone.symm]
      exact .none

theorem typename?_eq (h : Reordered (.object xs) (.object ys)) : typename? xs = typename? ys :=
  bind_eq_of_rel (h.get? typenameKey) fun _ _ hvalue => asString?_eq_of_equal hvalue.equal

/-- Objects are reorderings of each other when they hold reorderings under every name. -/
theorem of_get? (hxs : (Assoc.keys xs).Nodup) (hys : (Assoc.keys ys).Nodup)
    (h : ∀ name, Option.Rel Reordered (Assoc.get? xs name) (Assoc.get? ys name)) :
    Reordered (.object xs) (.object ys) := by
  refine .object hxs ?_ fun name x y hx hy => ?_
  · rw [List.perm_ext_iff_of_nodup hxs hys]
    intro name
    rw [Assoc.mem_keys_iff, Assoc.mem_keys_iff, isSome_eq_of_rel (h name)]
  · have hname := h name
    rw [hx, hy] at hname
    cases hname with
    | some hvalue => exact hvalue

theorem nodup_keys (h : Reordered (.object xs) (.object ys)) : (Assoc.keys xs).Nodup :=
  h.wellFormed.1

theorem insert (h : Reordered (.object xs) (.object ys)) (name : String) {x y : Json}
    (hxy : Reordered x y) :
    Reordered (.object (Assoc.insert xs name x)) (.object (Assoc.insert ys name y)) := by
  refine of_get? (Assoc.nodup_keys_insert h.nodup_keys name x)
    (Assoc.nodup_keys_insert h.symm.nodup_keys name y) fun other => ?_
  by_cases hname : other = name
  · subst hname
    rw [Assoc.get?_insert_self, Assoc.get?_insert_self]
    exact .some hxy
  · rw [Assoc.get?_insert_of_ne _ _ hname, Assoc.get?_insert_of_ne _ _ hname]
    exact h.get? other

end Objects

theorem keyFragment?_eq {x y : Json} (h : Reordered x y) : x.keyFragment? = y.keyFragment? := by
  cases h <;> rfl

end Reordered

end Json

end GraphClient
