import GraphClient.Record.Table

/-!
# The order in which keys are first reached

A table lists its keys in the order in which they first came. `Assoc.addKeys ks xs` is the list of
keys `ks` with those of `xs` added in this way, so it is what inserting entries and merging records do
to the keys of a table. Two walks list the same keys if they do so after any keys before,
`SameOrder xs ys`; the relation is kept by putting walks one after the other, and does not see a key
that is reached once more. Of several values of a key the last one counts, whatever place the key has
(`get?_ofEntries`).
-/

namespace GraphClient

namespace Assoc

variable {κ α : Type} [DecidableEq κ]

/-- Adds keys at the end one after the other, each unless it is there. -/
def addKeys (ks : List κ) (xs : List κ) : List κ :=
  xs.foldl (fun ks x => if x ∈ ks then ks else ks ++ [x]) ks

@[simp] theorem addKeys_nil (ks : List κ) : addKeys ks [] = ks := rfl

theorem addKeys_cons (ks : List κ) (x : κ) (xs : List κ) :
    addKeys ks (x :: xs) = addKeys (if x ∈ ks then ks else ks ++ [x]) xs := rfl

theorem addKeys_append (ks xs ys : List κ) :
    addKeys ks (xs ++ ys) = addKeys (addKeys ks xs) ys := by
  rw [addKeys, List.foldl_append, addKeys, addKeys]

theorem mem_addKeys {ks xs : List κ} {x : κ} : x ∈ addKeys ks xs ↔ x ∈ ks ∨ x ∈ xs := by
  induction xs generalizing ks with
  | nil => simp
  | cons y ys ih =>
    rw [addKeys_cons, ih, List.mem_cons]
    split
    · next hy =>
      constructor
      · rintro (hx | hx)
        · exact .inl hx
        · exact .inr (.inr hx)
      · rintro (hx | rfl | hx)
        · exact .inl hx
        · exact .inl hy
        · exact .inr hx
    · rw [List.mem_append, List.mem_singleton, or_assoc]

/-- The keys that were there stay in front. -/
theorem exists_addKeys_eq_append (ks xs : List κ) : ∃ more, addKeys ks xs = ks ++ more := by
  induction xs generalizing ks with
  | nil => exact ⟨[], (List.append_nil ks).symm⟩
  | cons x xs ih =>
    obtain ⟨more, hmore⟩ := ih (if x ∈ ks then ks else ks ++ [x])
    rw [addKeys_cons, hmore]
    split
    · exact ⟨more, rfl⟩
    · exact ⟨x :: more, List.append_assoc ks [x] more⟩

/-- Keys that were added to others are added together with them. -/
theorem addKeys_addKeys (ks xs ys : List κ) :
    addKeys ks (addKeys xs ys) = addKeys (addKeys ks xs) ys := by
  induction ys generalizing xs with
  | nil => rfl
  | cons y ys ih =>
    rw [addKeys_cons, ih, addKeys_cons]
    by_cases hy : y ∈ xs
    · rw [if_pos hy, if_pos (mem_addKeys.mpr (.inr hy))]
    · rw [if_neg hy, addKeys_append, addKeys_cons, addKeys_nil]

theorem addKeys_of_nodup (ks : List κ) {xs : List κ} (h : xs.Nodup) :
    addKeys ks xs = ks ++ xs.filter fun x => x ∉ ks := by
  induction xs generalizing ks with
  | nil => simp
  | cons x xs ih =>
    obtain ⟨hx, hxs⟩ := List.nodup_cons.mp h
    rw [addKeys_cons, ih _ hxs]
    by_cases hmem : x ∈ ks
    · simp [hmem]
    · have hne : ∀ y ∈ xs, y ≠ x := fun y hy => fun heq => hx (heq ▸ hy)
      have hrest : (xs.filter fun y => y ∉ ks ++ [x]) = xs.filter fun y => y ∉ ks :=
        List.filter_congr fun y hy => by simp [hne y hy]
      rw [if_neg hmem, hrest]
      simp [hmem]

theorem keys_insertAll (m : Assoc κ α) (entries : List (κ × α)) :
    keys (insertAll m entries) = addKeys (keys m) (entries.map Prod.fst) := by
  induction entries generalizing m with
  | nil => rfl
  | cons entry entries ih =>
    have hrest := ih (insert m entry.1 entry.2)
    rwa [keys_insert] at hrest

theorem insertAll_append (m : Assoc κ α) (entries more : List (κ × α)) :
    insertAll m (entries ++ more) = insertAll (insertAll m entries) more :=
  List.foldl_append

theorem get?_insertAll_of_notMem (m : Assoc κ α) {entries : List (κ × α)} {key : κ}
    (h : key ∉ entries.map Prod.fst) : get? (insertAll m entries) key = get? m key := by
  induction entries generalizing m with
  | nil => rfl
  | cons entry entries ih =>
    rw [List.map_cons, List.mem_cons, not_or] at h
    obtain ⟨hne, hrest⟩ := h
    have hinsert := ih (insert m entry.1 entry.2) hrest
    rwa [get?_insert_of_ne _ _ hne] at hinsert

/-- Of several values of a key the last one counts. -/
theorem get?_ofEntries {before after : List (κ × α)} {key : κ} {value : α}
    (h : key ∉ after.map Prod.fst) :
    get? (ofEntries (before ++ (key, value) :: after)) key = some value := by
  rw [ofEntries, insertAll_append]
  exact (get?_insertAll_of_notMem _ h).trans (get?_insert_self _ _ _)

theorem nodup_keys_ofEntries (entries : List (κ × α)) : (keys (ofEntries entries)).Nodup := by
  have hall : ∀ m : Assoc κ α, (keys m).Nodup → (keys (insertAll m entries)).Nodup := by
    induction entries with
    | nil => exact fun _ h => h
    | cons entry entries ih => exact fun m h => ih _ (nodup_keys_insert h entry.1 entry.2)
  exact hall [] List.nodup_nil

theorem mem_keys_ofEntries {entries : List (κ × α)} {key : κ} :
    key ∈ keys (ofEntries entries) ↔ key ∈ entries.map Prod.fst := by
  have hnil : keys ([] : Assoc κ α) = [] := rfl
  rw [ofEntries, keys_insertAll, mem_addKeys, hnil]
  exact ⟨fun h => h.resolve_left List.not_mem_nil, .inr⟩

/-- A key that entries have comes last in one of them. -/
theorem exists_last {entries : List (κ × α)} {key : κ} (h : key ∈ entries.map Prod.fst) :
    ∃ before value after, entries = before ++ (key, value) :: after ∧
      key ∉ after.map Prod.fst := by
  induction entries with
  | nil => cases h
  | cons entry entries ih =>
    by_cases hlater : key ∈ entries.map Prod.fst
    · obtain ⟨before, value, after, rfl, hafter⟩ := ih hlater
      exact ⟨entry :: before, value, after, rfl, hafter⟩
    · rcases List.mem_cons.mp h with rfl | hmem
      · exact ⟨[], entry.2, entries, rfl, hlater⟩
      · exact absurd hmem hlater

/-- Two lists add the same keys in the same order. -/
def SameOrder (xs ys : List κ) : Prop := ∀ ks, addKeys ks xs = addKeys ks ys

namespace SameOrder

theorem refl (xs : List κ) : SameOrder xs xs := fun _ => rfl

theorem append {xs xs' ys ys' : List κ} (hx : SameOrder xs xs') (hy : SameOrder ys ys') :
    SameOrder (xs ++ ys) (xs' ++ ys') := by
  intro ks
  rw [addKeys_append, addKeys_append, hx, hy]

/-- A key that comes again at the end is not added again. -/
theorem cons_concat {xs ys : List κ} (h : SameOrder xs ys) (x : κ) :
    SameOrder (x :: (xs ++ [x])) (x :: ys) := by
  intro ks
  have hfirst : x ∈ addKeys (if x ∈ ks then ks else ks ++ [x]) ys := by
    refine mem_addKeys.mpr (.inl ?_)
    split
    · assumption
    · exact List.mem_append_right ks (List.mem_singleton.mpr rfl)
  rw [addKeys_cons, addKeys_cons, addKeys_append, h, addKeys_cons, if_pos hfirst, addKeys_nil]

end SameOrder

end Assoc

namespace RecordTable

theorem keys_merge (table : RecordTable) (r : Record) :
    Assoc.keys (merge table r).1 =
      if r.key ∈ Assoc.keys table then Assoc.keys table else Assoc.keys table ++ [r.key] := by
  rw [merge]
  split
  · exact Assoc.keys_insert table r.key _
  · exact Assoc.keys_insert table r.key _

theorem keys_mergeAll (table : RecordTable) (rs : List Record) :
    Assoc.keys (mergeAll table rs).1 = Assoc.addKeys (Assoc.keys table) (rs.map Record.key) := by
  induction rs generalizing table with
  | nil => rfl
  | cons r rs ih =>
    have hrest := ih (merge table r).1
    rwa [keys_merge] at hrest

end RecordTable

end GraphClient
