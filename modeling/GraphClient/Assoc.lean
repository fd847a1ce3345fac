/-!
# Association lists that keep the order of first insertion

An `Assoc κ α` is a list of entries read from the front. `insert` replaces the value of a key in
place and appends a new key at the end, so the keys stay in the order in which they first came.
Objects, records and the tables of the store are all kept this way: what a lookup sees is `get?`,
and the order only shows where entries are listed.
-/

namespace GraphClient

/-- Entries in the order in which their keys were first inserted. -/
abbrev Assoc (κ α : Type) := List (κ × α)

namespace Assoc

variable {κ α : Type} [DecidableEq κ]

/-- The value of the first entry with this key. -/
def get? : Assoc κ α → κ → Option α
  | [], _ => none
  | (k, v) :: m, key => if k = key then some v else get? m key

def contains (m : Assoc κ α) (key : κ) : Bool := (get? m key).isSome

/-- Sets the value of a key: in place when the key is there, else at the end. -/
def insert : Assoc κ α → κ → α → Assoc κ α
  | [], key, value => [(key, value)]
  | (k, v) :: m, key, value =>
    if k = key then (k, value) :: m else (k, v) :: insert m key value

def erase : Assoc κ α → κ → Assoc κ α
  | [], _ => []
  | (k, v) :: m, key => if k = key then erase m key else (k, v) :: erase m key

def keys (m : Assoc κ α) : List κ := m.map Prod.fst

def values (m : Assoc κ α) : List α := m.map Prod.snd

/-- Inserts entries one after the other, the last value of a key winning. -/
def insertAll (m : Assoc κ α) (entries : List (κ × α)) : Assoc κ α :=
  entries.foldl (fun m entry => insert m entry.1 entry.2) m

/-- The table of a list of entries, the last value of a key winning at the place of its first. -/
def ofEntries (entries : List (κ × α)) : Assoc κ α := insertAll [] entries

@[simp] theorem get?_nil (key : κ) : get? ([] : Assoc κ α) key = none := rfl

theorem get?_cons (k : κ) (v : α) (m : Assoc κ α) (key : κ) :
    get? ((k, v) :: m) key = if k = key then some v else get? m key := rfl

@[simp] theorem get?_insert_self (m : Assoc κ α) (key : κ) (value : α) :
    get? (insert m key value) key = some value := by
  induction m with
  | nil => simp [insert, get?]
  | cons entry m ih =>
    obtain ⟨k, v⟩ := entry
    by_cases h : k = key <;> simp [insert, get?, h, ih]

theorem get?_insert_of_ne (m : Assoc κ α) {key other : κ} (value : α) (hne : other ≠ key) :
    get? (insert m key value) other = get? m other := by
  induction m with
  | nil => simp [insert, get?, Ne.symm hne]
  | cons entry m ih =>
    obtain ⟨k, v⟩ := entry
    by_cases h : k = key
    · subst h; simp [insert, get?, Ne.symm hne]
    · simp [insert, get?, h, ih]

theorem mem_of_mem_insert {m : Assoc κ α} {key : κ} {value : α} {entry : κ × α}
    (h : entry ∈ insert m key value) : entry ∈ m ∨ entry = (key, value) := by
  induction m with
  | nil => exact .inr (List.mem_singleton.mp h)
  | cons first m ih =>
    obtain ⟨k, v⟩ := first
    rw [insert] at h
    split at h
    · next hk =>
      subst hk
      rcases List.mem_cons.mp h with rfl | hmem
      · exact .inr rfl
      · exact .inl (List.mem_cons_of_mem _ hmem)
    · rcases List.mem_cons.mp h with rfl | hmem
      · exact .inl List.mem_cons_self
      · exact (ih hmem).imp_left (List.mem_cons_of_mem _)

/-- An entry with a new key comes last. -/
theorem insert_of_get?_eq_none {m : Assoc κ α} {key : κ} (h : get? m key = none) (value : α) :
    insert m key value = m ++ [(key, value)] := by
  induction m with
  | nil => rfl
  | cons entry m ih =>
    obtain ⟨k, v⟩ := entry
    rw [get?_cons] at h
    split at h
    · cases h
    · next hne => rw [insert, if_neg hne, ih h, List.cons_append]

theorem insert_of_get?_eq_some {m : Assoc κ α} {key : κ} {value : α}
    (h : get? m key = some value) : insert m key value = m := by
  induction m with
  | nil => cases h
  | cons entry m ih =>
    obtain ⟨k, v⟩ := entry
    rw [get?_cons] at h
    rw [insert]
    split at h
    · next hk => rw [if_pos hk, Option.some.inj h]
    · next hk => rw [if_neg hk, ih h]

/-- A new key comes last, a known one stays where it is. -/
theorem keys_insert (m : Assoc κ α) (key : κ) (value : α) :
    keys (insert m key value) = if key ∈ keys m then keys m else keys m ++ [key] := by
  induction m with
  | nil => simp [insert, keys]
  | cons entry m ih =>
    obtain ⟨k, v⟩ := entry
    simp only [keys] at ih ⊢
    by_cases h : k = key
    · simp [insert, h]
    · have h' : key ≠ k := Ne.symm h
      by_cases hmem : key ∈ m.map Prod.fst <;> simp [insert, h, h', ih, hmem]

theorem nodup_keys_insert {m : Assoc κ α} (h : (keys m).Nodup) (key : κ) (value : α) :
    (keys (insert m key value)).Nodup := by
  rw [keys_insert]
  split
  · exact h
  · next hmem =>
    rw [List.nodup_append]
    refine ⟨h, by simp, ?_⟩
    intro a ha b hb
    simp only [List.mem_singleton] at hb
    subst hb
    rintro rfl
    exact hmem ha

theorem mem_keys_iff {m : Assoc κ α} {key : κ} : key ∈ keys m ↔ (get? m key).isSome := by
  induction m with
  | nil => simp [keys]
  | cons entry m ih =>
    obtain ⟨k, v⟩ := entry
    simp only [keys] at ih ⊢
    by_cases h : k = key
    · simp [get?, h]
    · simp [get?, h, Ne.symm h, ih]

theorem mem_of_get?_eq_some {m : Assoc κ α} {key : κ} {value : α} (h : get? m key = some value) :
    (key, value) ∈ m := by
  induction m with
  | nil => cases h
  | cons entry m ih =>
    obtain ⟨k, v⟩ := entry
    rw [get?_cons] at h
    split at h
    · next hk =>
      cases h
      rw [hk]
      exact List.mem_cons_self
    · exact List.mem_cons_of_mem _ (ih h)

/-- Where no key is repeated, every entry is found under its key. -/
theorem get?_eq_some_of_mem {m : Assoc κ α} (hm : (keys m).Nodup) {key : κ} {value : α}
    (h : (key, value) ∈ m) : get? m key = some value := by
  induction m with
  | nil => cases h
  | cons entry m ih =>
    obtain ⟨k, v⟩ := entry
    obtain ⟨hk, hm⟩ := List.nodup_cons.mp hm
    rw [get?_cons]
    rcases List.mem_cons.mp h with heq | hmem
    · cases heq
      rw [if_pos rfl]
    · have hne : k ≠ key := by
        rintro rfl
        exact hk (List.mem_map.mpr ⟨(k, value), hmem, rfl⟩)
      rw [if_neg hne]
      exact ih hm hmem

theorem get?_append (m n : Assoc κ α) (key : κ) :
    get? (m ++ n) key = (get? m key).or (get? n key) := by
  induction m with
  | nil => rfl
  | cons entry m ih =>
    obtain ⟨k, v⟩ := entry
    rw [List.cons_append, get?_cons, get?_cons, ih]
    split <;> rfl

theorem get?_filter (m : Assoc κ α) (p : κ → Bool) (key : κ) :
    get? (m.filter fun entry => p entry.1) key = if p key then get? m key else none := by
  induction m with
  | nil => simp
  | cons entry m ih =>
    obtain ⟨k, v⟩ := entry
    rw [List.filter_cons, get?_cons]
    by_cases hk : k = key
    · subst hk
      cases hp : p k <;> simp [hp, ih, get?_cons]
    · cases hp : p k <;> simp [ih, get?_cons, hk]

/-- Lists of the same keys in the same order are equal when they hold the same values. -/
theorem ext_of_keys {m n : Assoc κ α} (hkeys : keys m = keys n) (hm : (keys m).Nodup)
    (h : ∀ key, get? m key = get? n key) : m = n := by
  induction m generalizing n with
  | nil =>
    cases n with
    | nil => rfl
    | cons entry n => cases hkeys
  | cons entry m ih =>
    cases n with
    | nil => cases hkeys
    | cons other n =>
      obtain ⟨k, v⟩ := entry
      obtain ⟨k', v'⟩ := other
      obtain ⟨rfl, hrest⟩ : k = k' ∧ keys m = keys n := List.cons.inj hkeys
      obtain ⟨hk, hm⟩ : k ∉ keys m ∧ (keys m).Nodup := List.nodup_cons.mp hm
      have hvalue := h k
      rw [get?_cons, get?_cons, if_pos rfl, if_pos rfl, Option.some.injEq] at hvalue
      obtain rfl := hvalue
      refine congrArg _ (ih hrest hm fun key => ?_)
      have hkey := h key
      rw [get?_cons, get?_cons] at hkey
      by_cases heq : k = key
      · subst heq
        -- neither rest has the first key
        have hn : k ∉ keys n := hrest ▸ hk
        rw [mem_keys_iff, Option.not_isSome_iff_eq_none] at hk hn
        rw [hk, hn]
      · rwa [if_neg heq, if_neg heq] at hkey

theorem get?_eq_some_iff_mem {m : Assoc κ α} (hm : (keys m).Nodup) {key : κ} {value : α} :
    get? m key = some value ↔ (key, value) ∈ m :=
  ⟨mem_of_get?_eq_some, get?_eq_some_of_mem hm⟩

/-- Where no key is repeated, a key is not found before its place. -/
theorem get?_eq_none_of_nodup {m n : Assoc κ α} {key : κ} {value : α}
    (h : (keys (m ++ (key, value) :: n)).Nodup) : get? m key = none := by
  rw [keys, List.map_append, List.nodup_append] at h
  rw [← Option.not_isSome_iff_eq_none, ← mem_keys_iff]
  intro hmem
  exact h.2.2 key hmem key List.mem_cons_self rfl

@[simp] theorem get?_erase_self (m : Assoc κ α) (key : κ) : get? (erase m key) key = none := by
  induction m with
  | nil => rfl
  | cons entry m ih =>
    obtain ⟨k, v⟩ := entry
    by_cases h : k = key <;> simp [erase, h, get?, ih]

theorem get?_erase_of_ne (m : Assoc κ α) {key other : κ} (hne : other ≠ key) :
    get? (erase m key) other = get? m other := by
  induction m with
  | nil => rfl
  | cons entry m ih =>
    obtain ⟨k, v⟩ := entry
    by_cases h : k = key
    · subst h; simp [erase, get?, Ne.symm hne, ih]
    · by_cases h' : k = other <;> simp_all [erase, get?]

theorem keys_erase (m : Assoc κ α) (key : κ) :
    keys (erase m key) = (keys m).filter fun k => k ≠ key := by
  induction m with
  | nil => rfl
  | cons entry m ih =>
    obtain ⟨k, v⟩ := entry
    simp only [keys] at ih ⊢
    by_cases h : k = key <;> simp [erase, h, ih]

theorem nodup_keys_erase {m : Assoc κ α} (h : (keys m).Nodup) (key : κ) :
    (keys (erase m key)).Nodup := by
  rw [keys_erase]
  exact h.filter _

end Assoc

end GraphClient
