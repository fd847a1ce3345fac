/-!
# Sets of strings

A `KeySet` holds its members in increasing order, each once, so two sets with the same members are
equal (`KeySet.ext`) and listing a set needs no sorting. Strings are ordered by code points.

The field keys that a response depends on and those that a write changed are such sets.
-/

namespace GraphClient

/-- Strings in strictly increasing order. -/
structure KeySet where
  /-- The members, in increasing order of code points. -/
  toList : List String
  increasing : toList.Pairwise (· < ·)

namespace KeySet

/-- Puts a string into an increasing list, unless it is there. -/
def place (key : String) : List String → List String
  | [] => [key]
  | k :: ks => if key < k then key :: k :: ks else if key = k then k :: ks else k :: place key ks

theorem mem_place (key x : String) (ks : List String) : x ∈ place key ks ↔ x = key ∨ x ∈ ks := by
  induction ks with
  | nil => simp [place]
  | cons k ks ih =>
    rw [place]
    split
    · simp
    · split
      · next h => subst h; simp
      · simp only [List.mem_cons, ih]
        constructor
        · rintro (h | h | h) <;> simp [h]
        · rintro (h | h | h) <;> simp [h]

theorem lt_of_not_lt_of_ne {a b : String} (h : ¬ a < b) (hne : a ≠ b) : b < a :=
  String.not_le.mp fun hle => hne (String.le_antisymm hle (String.not_lt.mp h))

theorem pairwise_place {key : String} {ks : List String} (h : ks.Pairwise (· < ·)) :
    (place key ks).Pairwise (· < ·) := by
  induction ks with
  | nil => simp [place]
  | cons k ks ih =>
    rw [List.pairwise_cons] at h
    rw [place]
    split
    · next hlt =>
      refine List.pairwise_cons.mpr ⟨?_, List.pairwise_cons.mpr h⟩
      intro x hx
      rcases List.mem_cons.mp hx with rfl | hx
      · exact hlt
      · exact String.lt_trans hlt (h.1 x hx)
    · split
      · exact List.pairwise_cons.mpr h
      · next hnlt hne =>
        refine List.pairwise_cons.mpr ⟨?_, ih h.2⟩
        intro x hx
        rcases (mem_place key x ks).mp hx with rfl | hx
        · exact lt_of_not_lt_of_ne hnlt hne
        · exact h.1 x hx

def empty : KeySet := ⟨[], List.Pairwise.nil⟩

instance : EmptyCollection KeySet := ⟨empty⟩

instance : Inhabited KeySet := ⟨∅⟩

instance : Membership String KeySet := ⟨fun s key => key ∈ s.toList⟩

instance : DecidableEq KeySet := fun a b =>
  decidable_of_iff (a.toList = b.toList)
    ⟨fun h => by cases a; cases b; cases h; rfl, fun h => by rw [h]⟩

instance (key : String) (s : KeySet) : Decidable (key ∈ s) :=
  inferInstanceAs (Decidable (key ∈ s.toList))

def insert (s : KeySet) (key : String) : KeySet := ⟨place key s.toList, pairwise_place s.increasing⟩

def insertAll (s : KeySet) (keys : List String) : KeySet := keys.foldl insert s

def ofList (keys : List String) : KeySet := insertAll ∅ keys

def union (s t : KeySet) : KeySet := insertAll s t.toList

instance : Union KeySet := ⟨union⟩

def isEmpty (s : KeySet) : Bool := s.toList.isEmpty

def intersects (s t : KeySet) : Bool := s.toList.any fun key => decide (key ∈ t)

theorem mem_def {s : KeySet} {key : String} : key ∈ s ↔ key ∈ s.toList := Iff.rfl

@[simp] theorem not_mem_empty (key : String) : ¬ key ∈ (∅ : KeySet) :=
  show ¬ key ∈ ([] : List String) from List.not_mem_nil

@[simp] theorem mem_insert {s : KeySet} {key x : String} : x ∈ s.insert key ↔ x = key ∨ x ∈ s :=
  mem_place key x s.toList

theorem mem_insertAll {keys : List String} {s : KeySet} {x : String} :
    x ∈ s.insertAll keys ↔ x ∈ s ∨ x ∈ keys := by
  induction keys generalizing s with
  | nil => simp [insertAll]
  | cons key keys ih =>
    have h := ih (s := s.insert key)
    simp only [insertAll] at h ⊢
    rw [List.foldl_cons, h, mem_insert, List.mem_cons]
    constructor
    · rintro ((h | h) | h) <;> simp [h]
    · rintro (h | h | h) <;> simp [h]

@[simp] theorem mem_ofList {keys : List String} {x : String} : x ∈ ofList keys ↔ x ∈ keys := by
  simp [ofList, mem_insertAll]

@[simp] theorem mem_union {s t : KeySet} {x : String} : x ∈ s ∪ t ↔ x ∈ s ∨ x ∈ t :=
  mem_insertAll

theorem intersects_iff {s t : KeySet} : s.intersects t = true ↔ ∃ key, key ∈ s ∧ key ∈ t := by
  simp [intersects, List.any_eq_true, mem_def]

/-- Sets with the same members are equal. -/
theorem ext {s t : KeySet} (h : ∀ x, x ∈ s ↔ x ∈ t) : s = t := by
  obtain ⟨xs, hx⟩ := s
  obtain ⟨ys, hy⟩ := t
  have key : ∀ (xs ys : List String), xs.Pairwise (· < ·) → ys.Pairwise (· < ·) →
      (∀ x, x ∈ xs ↔ x ∈ ys) → xs = ys := by
    intro xs
    induction xs with
    | nil =>
      intro ys _ _ h
      cases ys with
      | nil => rfl
      | cons y ys => exact absurd ((h y).mpr List.mem_cons_self) List.not_mem_nil
    | cons x xs ih =>
      intro ys hx hy h
      cases ys with
      | nil => exact absurd ((h x).mp List.mem_cons_self) List.not_mem_nil
      | cons y ys =>
        rw [List.pairwise_cons] at hx hy
        have hxy : x = y := by
          rcases List.mem_cons.mp ((h x).mp List.mem_cons_self) with rfl | hxs
          · rfl
          rcases List.mem_cons.mp ((h y).mpr List.mem_cons_self) with rfl | hys
          · rfl
          exact absurd (String.lt_trans (hy.1 x hxs) (hx.1 y hys)) (String.lt_irrefl y)
        subst hxy
        congr 1
        apply ih ys hx.2 hy.2
        intro z
        constructor
        · intro hz
          rcases List.mem_cons.mp ((h z).mp (List.mem_cons_of_mem _ hz)) with rfl | hz'
          · exact absurd (hx.1 z hz) (String.lt_irrefl z)
          · exact hz'
        · intro hz
          rcases List.mem_cons.mp ((h z).mpr (List.mem_cons_of_mem _ hz)) with rfl | hz'
          · exact absurd (hy.1 z hz) (String.lt_irrefl z)
          · exact hz'
  have := key xs ys hx hy h
  subst this
  rfl

theorem isEmpty_iff {s : KeySet} : s.isEmpty = true ↔ s = ∅ := by
  rw [isEmpty, List.isEmpty_iff]
  constructor
  · intro h
    refine ext fun x => ?_
    rw [mem_def, h]
    simp
  · rintro rfl
    rfl

end KeySet

end GraphClient
