import GraphClient.Json.Basic
import Mathlib.Data.List.Forall2

/-!
# Equality of JSON values up to the order of keys

`Json.equal` compares objects by looking up the members of the one in the other, so it is reflexive
only on values in which no object repeats a key, that is, on well-formed ones. Transitivity needs no
such condition: a member that is found in the second object is found from there in the third.
-/

namespace GraphClient

theorem forall₂_iff_getElem? {α β : Type} {R : α → β → Prop} {xs : List α} {ys : List β} :
    List.Forall₂ R xs ys ↔ xs.length = ys.length ∧
      ∀ (i : ℕ) x y, xs[i]? = some x → ys[i]? = some y → R x y := by
  rw [List.forall₂_iff_get]
  refine and_congr_right fun _ => ⟨fun h i x y hx hy => ?_, fun h i hx hy => ?_⟩
  · obtain ⟨hi, rfl⟩ := List.getElem?_eq_some_iff.mp hx
    obtain ⟨hi', rfl⟩ := List.getElem?_eq_some_iff.mp hy
    exact h i hi hi'
  · exact h i _ _ (by simp [hx]) (by simp [hy])

namespace Json

theorem Number.equal_trans : ∀ {a b c : Number}, a.equal b = true → b.equal c = true →
    a.equal c = true
  | .integer _, .integer _, .integer _, hab, hbc => by
    simp only [Number.equal, beq_iff_eq] at *
    exact hab.trans hbc
  | .double _, .double _, .double _, hab, hbc => Binary64.equal_trans hab hbc

/-- What it takes for the members of one object to be found in another. -/
theorem equalMembers_iff {xs ys : List (String × Json)} :
    equalMembers xs ys = true ↔
      ∀ m ∈ xs, ∃ y, Assoc.get? ys m.1 = some y ∧ equal m.2 y = true := by
  induction xs with
  | nil => simp [equalMembers]
  | cons m xs ih =>
    obtain ⟨key, x⟩ := m
    rw [equalMembers, Bool.and_eq_true, ih, List.forall_mem_cons]
    refine and_congr_left fun _ => ?_
    cases h : Assoc.get? ys key with
    | none => simp
    | some y => simp

mutual

/-- A well-formed value is equal to itself. -/
theorem equal_refl : ∀ x : Json, x.WellFormed → equal x x = true
  | null, _ => rfl
  | bool b, _ => by simp [equal]
  | number n, _ => Number.equal_self n
  | string s, _ => by simp [equal]
  | array items, h => equalItems_refl items h
  | object members, h => by
    have hmembers := equalMembers_refl members members h.2
      fun m hm => Assoc.get?_eq_some_of_mem h.1 hm
    simp [equal, hmembers]

theorem equalItems_refl : ∀ xs : List Json, WellFormedItems xs → equalItems xs xs = true
  | [], _ => rfl
  | x :: xs, h => by
    rw [equalItems, equal_refl x h.1, equalItems_refl xs h.2]
    rfl

theorem equalMembers_refl : ∀ xs ys : List (String × Json), WellFormedMembers xs →
    (∀ m ∈ xs, Assoc.get? ys m.1 = some m.2) → equalMembers xs ys = true
  | [], _, _, _ => rfl
  | (key, x) :: xs, ys, h, hfound => by
    have hx : Assoc.get? ys key = some x := hfound (key, x) List.mem_cons_self
    have hxs := equalMembers_refl xs ys h.2 fun m hm => hfound m (List.mem_cons_of_mem _ hm)
    simp [equalMembers, hx, equal_refl x h.1, hxs]

end

mutual

theorem equal_trans : ∀ {a b c : Json}, equal a b = true → equal b c = true → equal a c = true
  | null, null, _, _, hbc => hbc
  | bool a, bool b, bool c, hab, hbc => by
    simp only [equal, beq_iff_eq] at *
    exact hab.trans hbc
  | number a, number b, number c, hab, hbc => Number.equal_trans hab hbc
  | string a, string b, string c, hab, hbc => by
    simp only [equal, beq_iff_eq] at *
    exact hab.trans hbc
  | array xs, array ys, array zs, hab, hbc => equalItems_trans hab hbc
  | object xs, object ys, object zs, hab, hbc => by
    simp only [equal, Bool.and_eq_true, beq_iff_eq] at *
    exact ⟨hab.1.trans hbc.1, equalMembers_trans hab.2 (equalMembers_iff.mp hbc.2)⟩

theorem equalItems_trans : ∀ {xs ys zs : List Json}, equalItems xs ys = true →
    equalItems ys zs = true → equalItems xs zs = true
  | [], [], _, _, h => h
  | x :: xs, y :: ys, z :: zs, hxy, hyz => by
    simp only [equalItems, Bool.and_eq_true] at *
    exact ⟨equal_trans hxy.1 hyz.1, equalItems_trans hxy.2 hyz.2⟩

theorem equalMembers_trans : ∀ {xs ys zs : List (String × Json)}, equalMembers xs ys = true →
    (∀ m ∈ ys, ∃ z, Assoc.get? zs m.1 = some z ∧ equal m.2 z = true) → equalMembers xs zs = true
  | [], _, _, _, _ => rfl
  | (key, x) :: xs, ys, zs, hxy, hyz => by
    rw [equalMembers, Bool.and_eq_true] at hxy
    cases hy : Assoc.get? ys key with
    | none => simp [hy] at hxy
    | some y =>
      rw [hy] at hxy
      obtain ⟨z, hz, hequal⟩ := hyz (key, y) (Assoc.mem_of_get?_eq_some hy)
      have hxs := equalMembers_trans hxy.2 hyz
      simp [equalMembers, hz, equal_trans hxy.1 hequal, hxs]

end

theorem asString?_eq_of_equal {a b : Json} (h : equal a b = true) : a.asString? = b.asString? := by
  cases a <;> cases b <;> simp_all [equal, asString?]

theorem equalMembers_of_forall₂ {all xs ys : List (String × Json)}
    (h : List.Forall₂ (fun x y => x.1 = y.1 ∧ equal x.2 y.2 = true) xs ys)
    (hfound : ∀ y ∈ ys, Assoc.get? all y.1 = some y.2) : equalMembers xs all = true := by
  induction h with
  | nil => rfl
  | @cons x y xs ys hxy _ ih =>
    obtain ⟨hy, hys⟩ := List.forall_mem_cons.mp hfound
    rw [equalMembers, hxy.1, hy, ih hys]
    simp [hxy.2]

theorem keys_eq_of_forall₂ {xs ys : Object}
    (h : List.Forall₂ (fun x y => x.1 = y.1 ∧ equal x.2 y.2 = true) xs ys) :
    Assoc.keys xs = Assoc.keys ys := by
  induction h with
  | nil => rfl
  | cons hxy _ ih =>
    rw [Assoc.keys, List.map_cons, hxy.1]
    exact congrArg _ ih

/-- Objects are equal when they list equal members under the same keys in the same order. -/
theorem equal_object_of_forall₂ {xs ys : Object} (hxs : (Assoc.keys xs).Nodup)
    (h : List.Forall₂ (fun x y => x.1 = y.1 ∧ equal x.2 y.2 = true) xs ys) :
    equal (object xs) (object ys) = true := by
  rw [keys_eq_of_forall₂ h] at hxs
  have hmembers := equalMembers_of_forall₂ h fun y hy => Assoc.get?_eq_some_of_mem hxs hy
  rw [equal, h.length_eq, hmembers, beq_self_eq_true, Bool.and_true]

end Json

end GraphClient
