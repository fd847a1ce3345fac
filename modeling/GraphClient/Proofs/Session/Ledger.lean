import GraphClient.Proofs.Session.Tracker
import Mathlib.Data.Finset.Card

/-!
# A tracker and a ledger of what is done to it

A `Ledger` notes down what is done to a tracker: which guards of calls were given out and not dropped,
and which watchers are registered under which names. It takes no part in the counting. A guard can be
dropped once; registrations may be made and ended in any order, also again and in vain.

Whatever is done, the tracker tallies with its ledger, and every step counts as it should
(`tallies_performAll`): what is taken down was counted, so no count is taken down from zero, and the
idle callback is called by the steps from one to zero and by no others. Behind this is that the tracker
`Mirrors` the ledger, which a step keeps.
-/

namespace GraphClient.Tracker

/-- What is done to a tracker. -/
inductive Action where
  | track
  /-- The guard of this number is dropped. -/
  | drop (guard : Nat)
  | register (name : String) (id : WatcherId)
  | unregister (name : String) (id : WatcherId)

def perform (t : Tracker) : Action → Tracker
  | .track => t.track
  | .drop _ => t.release
  | .register name id => t.register name id
  | .unregister name id => t.unregister name id

def performAll (t : Tracker) (actions : List Action) : Tracker := actions.foldl perform t

/-- The guards and the registrations that are there. -/
structure Ledger where
  /-- How many guards were given out; they are numbered in this order. -/
  issued : Nat := 0
  guards : Finset Nat := ∅
  registrations : Finset (String × WatcherId) := ∅

namespace Ledger

def note (l : Ledger) : Action → Ledger
  | .track => { l with issued := l.issued + 1, guards := insert l.issued l.guards }
  | .drop guard => { l with guards := l.guards.erase guard }
  | .register name id => { l with registrations := insert (name, id) l.registrations }
  | .unregister name id => { l with registrations := l.registrations.erase (name, id) }

def noteAll (l : Ledger) (actions : List Action) : Ledger := actions.foldl note l

/-- A guard can be dropped if it is there, and anything else can be done at any time. -/
def Allows (l : Ledger) : Action → Prop
  | .drop guard => guard ∈ l.guards
  | _ => True

/-- No guard is dropped that was not given out, and none is dropped twice. -/
def AllowsAll (l : Ledger) : List Action → Prop
  | [] => True
  | action :: actions => l.Allows action ∧ (l.note action).AllowsAll actions

instance (l : Ledger) : (action : Action) → Decidable (l.Allows action)
  | .drop guard => inferInstanceAs (Decidable (guard ∈ l.guards))
  | .track => isTrue trivial
  | .register _ _ => isTrue trivial
  | .unregister _ _ => isTrue trivial

instance decidableAllowsAll : (l : Ledger) → (actions : List Action) →
    Decidable (l.AllowsAll actions)
  | _, [] => isTrue trivial
  | l, action :: actions =>
    have := decidableAllowsAll (l.note action) actions
    inferInstanceAs (Decidable (l.Allows action ∧ (l.note action).AllowsAll actions))

theorem AllowsAll.of_append {l : Ledger} {before : List Action} {action : Action}
    {after : List Action} (h : l.AllowsAll (before ++ action :: after)) :
    l.AllowsAll before ∧ (l.noteAll before).Allows action := by
  induction before generalizing l with
  | nil => exact ⟨trivial, h.1⟩
  | cons first before ih =>
    obtain ⟨hfirst, hrest⟩ := h
    obtain ⟨hbefore, haction⟩ := ih hrest
    exact ⟨⟨hfirst, hbefore⟩, haction⟩

end Ledger

/-- The registrations, each with its name. -/
def registrations (t : Tracker) : List (String × WatcherId) :=
  t.watchers.flatMap fun entry => entry.2.map fun id => (entry.1, id)

theorem map_snd_registrations (t : Tracker) : t.registrations.map Prod.snd = t.allWatchers := by
  rw [registrations, allWatchers, List.map_flatMap]
  refine congrArg (t.watchers.flatMap ·) (funext fun entry => ?_)
  rw [List.map_map]
  exact List.map_id _

namespace Accounts

variable {t : Tracker} {guards : Nat}

theorem mem_registrations_iff (h : t.Accounts guards) {name : String} {id : WatcherId} :
    (name, id) ∈ t.registrations ↔ id ∈ t.watchersOf name := by
  rw [registrations, List.mem_flatMap, watchersOf]
  constructor
  · rintro ⟨⟨key, ids⟩, hentry, hmem⟩
    obtain ⟨id', hid, heq⟩ := List.mem_map.mp hmem
    cases heq
    rwa [Assoc.get?_eq_some_of_mem h.names hentry, Option.getD_some]
  · intro hmem
    cases hget : Assoc.get? t.watchers name with
    | none =>
      rw [hget] at hmem
      cases hmem
    | some ids =>
      rw [hget] at hmem
      exact ⟨(name, ids), Assoc.mem_of_get?_eq_some hget, List.mem_map.mpr ⟨id, hmem, rfl⟩⟩

theorem nodup_registrations (h : t.Accounts guards) : t.registrations.Nodup := by
  refine List.nodup_flatMap.mpr ⟨fun entry hentry => ?_, ?_⟩
  · have honce := h.once entry.1
    rw [watchersOf, Assoc.get?_eq_some_of_mem h.names hentry, Option.getD_some] at honce
    exact honce.map fun id id' heq => (Prod.mk.inj heq).2
  · refine (List.pairwise_map.mp h.names).imp fun {entry other} hne => ?_
    intro registration hentry hother
    obtain ⟨id, -, rfl⟩ := List.mem_map.mp hentry
    obtain ⟨id', -, heq⟩ := List.mem_map.mp hother
    exact hne (Prod.mk.inj heq).1.symm

end Accounts

/-- The tracker has filed what the ledger has noted down. -/
structure Mirrors (t : Tracker) (l : Ledger) : Prop where
  accounts : t.Accounts l.guards.card
  filed : ∀ name ids, Assoc.get? t.watchers name = some ids → ids ≠ []
  registered : ∀ name id, id ∈ t.watchersOf name ↔ (name, id) ∈ l.registrations
  issued : ∀ guard ∈ l.guards, guard < l.issued

theorem ne_nil_of_get?_register {t : Tracker} {name : String} {id : WatcherId}
    (h : ∀ name ids, Assoc.get? t.watchers name = some ids → ids ≠ []) (other : String)
    (ids : List WatcherId) (hids : Assoc.get? (t.register name id).watchers other = some ids) :
    ids ≠ [] := by
  rw [register] at hids
  split at hids
  · exact h other ids hids
  · by_cases hname : other = name
    · subst hname
      rw [Assoc.get?_insert_self, Option.some.injEq] at hids
      exact hids ▸ List.concat_ne_nil id _
    · rw [Assoc.get?_insert_of_ne _ _ hname] at hids
      exact h other ids hids

theorem ne_nil_of_get?_unregister {t : Tracker} {name : String} {id : WatcherId}
    (h : ∀ name ids, Assoc.get? t.watchers name = some ids → ids ≠ []) (other : String)
    (ids : List WatcherId) (hids : Assoc.get? (t.unregister name id).watchers other = some ids) :
    ids ≠ [] := by
  rw [unregister] at hids
  split at hids
  · rw [watchers_settleIdle, withoutWatcher] at hids
    by_cases hname : other = name
    · subst hname
      split at hids
      · rw [Assoc.get?_erase_self] at hids
        cases hids
      · next hrest =>
        rw [Assoc.get?_insert_self, Option.some.injEq] at hids
        exact hids ▸ hrest
    · split at hids
      · rw [Assoc.get?_erase_of_ne _ hname] at hids
        exact h other ids hids
      · rw [Assoc.get?_insert_of_ne _ _ hname] at hids
        exact h other ids hids
  · exact h other ids hids

theorem mirrors_new (hasIdleCallback : Bool) :
    ({ hasIdleCallback := hasIdleCallback } : Tracker).Mirrors {} where
  accounts := ⟨List.nodup_nil, fun _ => List.nodup_nil, rfl⟩
  filed _ _ h := nomatch h
  registered _ _ := iff_of_false List.not_mem_nil (Finset.notMem_empty _)
  issued _ h := absurd h (Finset.notMem_empty _)

namespace Mirrors

variable {t : Tracker} {l : Ledger}

theorem perform (h : t.Mirrors l) {action : Action} (hallowed : l.Allows action) :
    (t.perform action).Mirrors (l.note action) := by
  cases action with
  | track =>
    have hnew : l.issued ∉ l.guards := fun hmem => Nat.lt_irrefl _ (h.issued _ hmem)
    refine ⟨?_, h.filed, h.registered, fun guard hguard => ?_⟩
    · rw [Ledger.note, Finset.card_insert_of_notMem hnew]
      exact h.accounts.track
    · rcases Finset.mem_insert.mp hguard with rfl | hguard
      · exact Nat.lt_succ_self l.issued
      · exact Nat.lt_succ_of_lt (h.issued guard hguard)
  | drop guard =>
    have hcard := Finset.card_erase_add_one (show guard ∈ l.guards from hallowed)
    refine ⟨Accounts.release (hcard ▸ h.accounts), ?_, fun name id => ?_, fun other hother => ?_⟩
    · rw [Tracker.perform, watchers_release]
      exact h.filed
    · rw [Tracker.perform, watchersOf, watchers_release]
      exact h.registered name id
    · exact h.issued other (Finset.mem_of_mem_erase hother)
  | register name id =>
    refine ⟨h.accounts.register name id, ne_nil_of_get?_register h.filed, fun other watcher => ?_,
      h.issued⟩
    rw [Tracker.perform, mem_watchersOf_register, h.registered, Ledger.note, Finset.mem_insert,
      Prod.mk.injEq, or_comm, and_comm]
  | unregister name id =>
    refine ⟨h.accounts.unregister name id, ne_nil_of_get?_unregister h.filed,
      fun other watcher => ?_, h.issued⟩
    rw [Tracker.perform, mem_watchersOf_unregister, h.registered, Ledger.note, Finset.mem_erase,
      ne_eq, Prod.mk.injEq, and_comm, and_comm (a := other = name)]

theorem performAll (h : t.Mirrors l) {actions : List Action} (hallowed : l.AllowsAll actions) :
    (t.performAll actions).Mirrors (l.noteAll actions) := by
  induction actions generalizing t l with
  | nil => exact h
  | cons action actions ih => exact ih (h.perform hallowed.1) hallowed.2

end Mirrors

/-- What a tracker tells agrees with its ledger. What is registered is a watcher under a name, so a
watcher that is registered under two names is registered twice. -/
structure Tallies (t : Tracker) (l : Ledger) : Prop where
  active : t.active = l.guards.card + l.registrations.card
  filed : ∀ name ids, Assoc.get? t.watchers name = some ids → ids ≠ []
  /-- The watchers of a name are those registered under it; each has one registration there, so it
  comes once. -/
  activeWatchers : ∀ name, (t.activeWatchers [name]).Nodup ∧
    ∀ id, id ∈ t.activeWatchers [name] ↔ (name, id) ∈ l.registrations
  /-- Among all watchers there is one for every registration: a watcher comes as often as it has names
  that it is registered under. -/
  allWatchers : (t.allWatchers : Multiset WatcherId) = l.registrations.val.map Prod.snd
  /-- So no watcher comes twice, unless it is registered under several names. -/
  nodup : (∀ name other id, (name, id) ∈ l.registrations → (other, id) ∈ l.registrations →
    name = other) → t.allWatchers.Nodup

theorem Mirrors.tallies {t : Tracker} {l : Ledger} (h : t.Mirrors l) : t.Tallies l := by
  have hsame : (t.registrations : Multiset (String × WatcherId)) = l.registrations.val := by
    refine (Multiset.Nodup.ext (Multiset.coe_nodup.mpr h.accounts.nodup_registrations)
      l.registrations.nodup).mpr fun registration => ?_
    rw [Multiset.mem_coe, Finset.mem_val, ← h.registered]
    exact h.accounts.mem_registrations_iff
  have hall : (t.allWatchers : Multiset WatcherId) = l.registrations.val.map Prod.snd := by
    rw [← hsame, Multiset.map_coe, map_snd_registrations]
  have hcard : t.allWatchers.length = l.registrations.card := by
    rw [← Multiset.coe_card, hall, Multiset.card_map, Finset.card_val]
  refine ⟨?_, h.filed, fun name => ?_, hall, fun hnames => ?_⟩
  · rw [h.accounts.active, hcard]
  · rw [Tracker.activeWatchers, List.flatMap_singleton]
    exact ⟨h.accounts.once name, h.registered name⟩
  · rw [← Multiset.coe_nodup, hall]
    refine l.registrations.nodup.map_on ?_
    rintro ⟨name, id⟩ hname ⟨other, id'⟩ hother rfl
    rw [hnames name other id hname hother]

/-- The count is taken down: a guard is dropped, or a registration that is there is ended. -/
def TakesDown (t : Tracker) : Action → Prop
  | .drop _ => True
  | .unregister name id => id ∈ t.watchersOf name
  | _ => False

/-- A step counts as it should. -/
structure Counts (t : Tracker) (action : Action) : Prop where
  /-- What is taken down was not zero. -/
  down : t.TakesDown action → (t.perform action).active + 1 = t.active
  /-- The idle callback is called exactly when the count goes from one to zero. -/
  idle : (t.perform action).idleCalls = t.idleCalls +
    if t.active = 1 ∧ (t.perform action).active = 0 ∧ t.hasIdleCallback = true then 1 else 0

theorem idleCalls_settleIdle (t : Tracker) : t.settleIdle.idleCalls =
    t.idleCalls + if t.active = 0 ∧ t.hasIdleCallback = true then 1 else 0 := by
  rw [settleIdle]
  by_cases h : t.active = 0 ∧ t.hasIdleCallback = true
  · rw [if_pos h, if_pos h]
  · rw [if_neg h, if_neg h, Nat.add_zero]

/-- Taking a positive count down makes the client idle exactly if it was one. -/
theorem counts_of_settleIdle {t : Tracker} {action : Action} {watchers}
    (h : t.perform action = { t with active := t.active - 1, watchers }.settleIdle)
    (hpos : 0 < t.active) : t.Counts action := by
  have hactive : (t.perform action).active = t.active - 1 := by rw [h, active_settleIdle]
  refine ⟨fun _ => by omega, ?_⟩
  rw [hactive, h, idleCalls_settleIdle]
  have hone : (t.active = 1 ∧ t.active - 1 = 0 ∧ t.hasIdleCallback = true) ↔
      (t.active - 1 = 0 ∧ t.hasIdleCallback = true) :=
    and_iff_right_of_imp fun hzero => by omega
  exact congrArg (t.idleCalls + ·) (if_congr hone.symm rfl rfl)

/-- A step that takes nothing down calls nobody. -/
theorem counts_of_le {t : Tracker} {action : Action} (hdown : ¬ t.TakesDown action)
    (hactive : t.active ≤ (t.perform action).active)
    (hidle : (t.perform action).idleCalls = t.idleCalls) : t.Counts action := by
  refine ⟨fun h => absurd h hdown, ?_⟩
  rw [hidle, if_neg fun h => by omega, Nat.add_zero]

theorem Mirrors.counts {t : Tracker} {l : Ledger} (h : t.Mirrors l) {action : Action}
    (hallowed : l.Allows action) : t.Counts action := by
  have hactive := h.accounts.active
  cases action with
  | track => exact counts_of_le not_false (Nat.le_succ t.active) rfl
  | drop guard =>
    have hguards : 0 < l.guards.card := Finset.card_pos.mpr ⟨guard, hallowed⟩
    exact counts_of_settleIdle rfl (by omega)
  | register name id =>
    by_cases hmem : id ∈ t.watchersOf name
    · have hsame : t.perform (.register name id) = t := if_pos hmem
      exact counts_of_le not_false (by rw [hsame]) (by rw [hsame])
    · have hnew : t.perform (.register name id) = { t with
          active := t.active + 1
          watchers := Assoc.insert t.watchers name (t.watchersOf name ++ [id]) } := if_neg hmem
      exact counts_of_le not_false (by rw [hnew]; exact Nat.le_succ _) (by rw [hnew])
  | unregister name id =>
    by_cases hmem : id ∈ t.watchersOf name
    · have hsome : 0 < t.allWatchers.length :=
        List.length_pos_of_mem (h.accounts.mem_allWatchers_iff.mpr ⟨name, hmem⟩)
      exact counts_of_settleIdle (if_pos hmem) (by omega)
    · have hsame : t.perform (.unregister name id) = t := if_neg hmem
      exact counts_of_le hmem (by rw [hsame]) (by rw [hsame])

/-- After everything that was done to a new tracker it tallies with the ledger, and every step on the
way counted as it should. -/
theorem tallies_performAll (hasIdleCallback : Bool) {actions : List Action}
    (h : ({} : Ledger).AllowsAll actions) :
    (({ hasIdleCallback := hasIdleCallback } : Tracker).performAll actions).Tallies
        (({} : Ledger).noteAll actions) ∧
      ∀ before action after, actions = before ++ action :: after →
        (({ hasIdleCallback := hasIdleCallback } : Tracker).performAll before).Counts action := by
  have hnew := mirrors_new hasIdleCallback
  refine ⟨(hnew.performAll h).tallies, ?_⟩
  rintro before action after rfl
  obtain ⟨hbefore, haction⟩ := h.of_append
  exact (hnew.performAll hbefore).counts haction

/-- Two calls and a watcher that is registered under two names, once in vain; twice the client is
busy and becomes idle. -/
private def busyTwice : List Action :=
  [.track, .register "Hero" ⟨0⟩, .register "Hero" ⟨0⟩, .track, .drop 0, .unregister "Crew" ⟨0⟩,
    .register "Crew" ⟨0⟩, .unregister "Hero" ⟨0⟩, .unregister "Hero" ⟨0⟩, .drop 1,
    .unregister "Crew" ⟨0⟩, .track, .drop 2, .register "Hero" ⟨1⟩]

theorem tallies_performAll_busyTwice :
    ({} : Ledger).AllowsAll busyTwice ∧
      (({} : Tracker).performAll busyTwice).Tallies (({} : Ledger).noteAll busyTwice) ∧
      (∀ before action after, busyTwice = before ++ action :: after →
        (({} : Tracker).performAll before).Counts action) ∧
      (({} : Tracker).performAll busyTwice).active = 1 ∧
      (({} : Tracker).performAll busyTwice).idleCalls = 2 := by
  have hallowed : ({} : Ledger).AllowsAll busyTwice := by decide +kernel
  have htallies := tallies_performAll true hallowed
  exact ⟨hallowed, htallies.1, htallies.2, by decide +kernel, by decide +kernel⟩

end GraphClient.Tracker
