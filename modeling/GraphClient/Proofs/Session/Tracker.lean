import GraphClient.Session.Tracker
import Mathlib.Data.List.Nodup

/-!
# What a tracker counts

A tracker `Accounts` for a number of guards if its count is that number and one more for each
registration, and every registration is filed once. The functions of the tracker keep accounts: `track`
and `release` for one guard more and one less, `register` and `unregister` for the same guards. No count
is taken down from zero then, for what is given back was counted.
-/

namespace GraphClient.Tracker

/-- A registration begins the one that it names, and leaves all others as they are. -/
theorem mem_watchersOf_register (t : Tracker) (name : String) (id : WatcherId) (other : String)
    (watcher : WatcherId) : watcher ∈ (t.register name id).watchersOf other ↔
      watcher ∈ t.watchersOf other ∨ (watcher = id ∧ other = name) := by
  rw [register]
  split
  · next hmem =>
    refine ⟨.inl, ?_⟩
    rintro (hother | ⟨rfl, rfl⟩)
    · exact hother
    · exact hmem
  · rw [watchersOf]
    by_cases hname : other = name
    · subst hname
      rw [Assoc.get?_insert_self, Option.getD_some, List.mem_append, List.mem_singleton]
      exact or_congr_right (and_iff_left rfl).symm
    · rw [Assoc.get?_insert_of_ne _ _ hname]
      exact (or_iff_left fun h => hname h.2).symm

theorem get?_withoutWatcher (t : Tracker) (name : String) (id : WatcherId) (other : String) :
    (Assoc.get? (t.withoutWatcher name id) other).getD [] =
      if other = name then (t.watchersOf name).filter (· ≠ id) else t.watchersOf other := by
  rw [withoutWatcher]
  split
  · next hnone =>
    split
    · next hname =>
      subst hname
      rw [Assoc.get?_erase_self, hnone, Option.getD_none]
    · next hname => rw [Assoc.get?_erase_of_ne _ hname, watchersOf]
  · split
    · next hname =>
      subst hname
      rw [Assoc.get?_insert_self, Option.getD_some]
    · next hname => rw [Assoc.get?_insert_of_ne _ _ hname, watchersOf]

/-- The end of a registration ends the one that it names, and leaves all others as they are. -/
theorem mem_watchersOf_unregister (t : Tracker) (name : String) (id : WatcherId) (other : String)
    (watcher : WatcherId) : watcher ∈ (t.unregister name id).watchersOf other ↔
      watcher ∈ t.watchersOf other ∧ ¬ (watcher = id ∧ other = name) := by
  rw [unregister]
  split
  · rw [watchersOf, watchers_settleIdle, get?_withoutWatcher]
    split
    · next hname =>
      subst hname
      rw [List.mem_filter, decide_eq_true_iff]
      exact and_congr_right fun _ => not_congr (and_iff_left rfl).symm
    · next hname => exact (and_iff_left fun h => hname h.2).symm
  · next hmem =>
    refine (and_iff_left_of_imp ?_).symm
    rintro hother ⟨rfl, rfl⟩
    exact hmem hother

/-- A name with its watchers in place of those that it had. -/
theorem length_flatMap_insert (m : Assoc String (List WatcherId)) (name : String)
    (ids : List WatcherId) :
    ((Assoc.insert m name ids).flatMap Prod.snd).length + ((Assoc.get? m name).getD []).length =
      (m.flatMap Prod.snd).length + ids.length := by
  induction m with
  | nil => simp [Assoc.insert]
  | cons entry m ih =>
    obtain ⟨key, value⟩ := entry
    rw [Assoc.insert, Assoc.get?_cons]
    split <;> simp only [List.flatMap_cons, List.length_append, Option.getD_some] <;> omega

theorem length_flatMap_erase {m : Assoc String (List WatcherId)} (hm : (Assoc.keys m).Nodup)
    (name : String) :
    ((Assoc.erase m name).flatMap Prod.snd).length + ((Assoc.get? m name).getD []).length =
      (m.flatMap Prod.snd).length := by
  induction m with
  | nil => rfl
  | cons entry m ih =>
    obtain ⟨key, value⟩ := entry
    obtain ⟨hkey, hm⟩ := List.nodup_cons.mp hm
    have hrest := ih hm
    rw [Assoc.erase, Assoc.get?_cons]
    split
    · next heq =>
      subst heq
      have hnone : Assoc.get? m key = none :=
        Option.not_isSome_iff_eq_none.mp fun h => hkey (Assoc.mem_keys_iff.mpr h)
      rw [hnone] at hrest
      simp only [List.flatMap_cons, List.length_append, Option.getD_some, Option.getD_none,
        List.length_nil] at hrest ⊢
      omega
    · simp only [List.flatMap_cons, List.length_append]
      omega

/-- The count is that of the guards and the registrations, and every registration is filed once. -/
structure Accounts (t : Tracker) (guards : Nat) : Prop where
  names : (Assoc.keys t.watchers).Nodup
  once : ∀ name, (t.watchersOf name).Nodup
  active : t.active = guards + t.allWatchers.length

theorem accounts_new : ({} : Tracker).Accounts 0 where
  names := List.nodup_nil
  once _ := List.nodup_nil
  active := rfl

namespace Accounts

variable {t : Tracker} {guards : Nat}

theorem mem_allWatchers_iff (h : t.Accounts guards) {watcher : WatcherId} :
    watcher ∈ t.allWatchers ↔ ∃ name, watcher ∈ t.watchersOf name := by
  rw [allWatchers, List.mem_flatMap]
  constructor
  · rintro ⟨⟨name, ids⟩, hentry, hmem⟩
    refine ⟨name, ?_⟩
    rwa [watchersOf, Assoc.get?_eq_some_of_mem h.names hentry, Option.getD_some]
  · rintro ⟨name, hmem⟩
    rw [watchersOf] at hmem
    cases hget : Assoc.get? t.watchers name with
    | none =>
      rw [hget] at hmem
      cases hmem
    | some ids =>
      rw [hget] at hmem
      exact ⟨(name, ids), Assoc.mem_of_get?_eq_some hget, hmem⟩

theorem not_mem_allWatchers (h : t.Accounts guards) {watcher : WatcherId}
    (hout : ∀ name, watcher ∉ t.watchersOf name) : watcher ∉ t.allWatchers := by
  intro hmem
  obtain ⟨name, hname⟩ := h.mem_allWatchers_iff.mp hmem
  exact hout name hname

theorem track (h : t.Accounts guards) : t.track.Accounts (guards + 1) where
  names := h.names
  once := h.once
  active := by
    have hactive := h.active
    change t.active + 1 = guards + 1 + t.allWatchers.length
    omega

/-- A guard that is given back was counted. -/
theorem release (h : t.Accounts (guards + 1)) : t.release.Accounts guards where
  names := by
    rw [watchers_release]
    exact h.names
  once name := by
    rw [watchersOf, watchers_release]
    exact h.once name
  active := by
    have hactive := h.active
    rw [active_release, allWatchers, watchers_release]
    change t.active - 1 = guards + t.allWatchers.length
    omega

theorem register (h : t.Accounts guards) (name : String) (id : WatcherId) :
    (t.register name id).Accounts guards := by
  rw [Tracker.register]
  split
  · exact h
  · next hnew =>
    refine ⟨Assoc.nodup_keys_insert h.names _ _, fun other => ?_, ?_⟩
    · rw [watchersOf]
      by_cases hname : other = name
      · subst hname
        rw [Assoc.get?_insert_self, Option.getD_some]
        exact List.nodup_append.mpr ⟨h.once other, List.nodup_singleton id, fun a ha b hb hab =>
          hnew (List.mem_singleton.mp hb ▸ hab ▸ ha)⟩
      · rw [Assoc.get?_insert_of_ne _ _ hname]
        exact h.once other
    · have hactive := h.active
      have hlength := length_flatMap_insert t.watchers name (t.watchersOf name ++ [id])
      rw [List.length_append, List.length_singleton] at hlength
      rw [allWatchers] at hactive ⊢
      change _ + (t.watchersOf name).length = _ at hlength
      dsimp only
      omega

theorem nodup_keys_withoutWatcher (h : t.Accounts guards) (name : String) (id : WatcherId) :
    (Assoc.keys (t.withoutWatcher name id)).Nodup := by
  rw [withoutWatcher]
  split
  · exact Assoc.nodup_keys_erase h.names name
  · exact Assoc.nodup_keys_insert h.names _ _

/-- One registration is gone, whether or not others of its name remain. -/
theorem length_withoutWatcher (h : t.Accounts guards) {name : String} {id : WatcherId}
    (hmem : id ∈ t.watchersOf name) :
    ((t.withoutWatcher name id).flatMap Prod.snd).length + 1 = t.allWatchers.length := by
  have hrest : ((t.watchersOf name).filter (· ≠ id)).length + 1 = (t.watchersOf name).length := by
    have herase : (t.watchersOf name).filter (· ≠ id) = (t.watchersOf name).erase id := by
      rw [(h.once name).erase_eq_filter]
      exact List.filter_congr fun other _ => decide_not
    rw [herase, List.length_erase_add_one hmem]
  rw [withoutWatcher]
  split
  · next hnone =>
    have herased := length_flatMap_erase h.names name
    rw [hnone, List.length_nil] at hrest
    rw [← allWatchers, ← watchersOf] at herased
    omega
  · have hinserted := length_flatMap_insert t.watchers name ((t.watchersOf name).filter (· ≠ id))
    rw [← allWatchers, ← watchersOf] at hinserted
    omega

theorem unregister (h : t.Accounts guards) (name : String) (id : WatcherId) :
    (t.unregister name id).Accounts guards := by
  rw [Tracker.unregister]
  split
  · next hmem =>
    refine ⟨?_, fun other => ?_, ?_⟩
    · rw [watchers_settleIdle]
      exact h.nodup_keys_withoutWatcher name id
    · rw [watchersOf, watchers_settleIdle, get?_withoutWatcher]
      split
      · exact (h.once name).filter _
      · exact h.once other
    · have hactive := h.active
      have hlength := h.length_withoutWatcher hmem
      rw [active_settleIdle, allWatchers, watchers_settleIdle]
      dsimp only
      omega
  · exact h

end Accounts

end GraphClient.Tracker
