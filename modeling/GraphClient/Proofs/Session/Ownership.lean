import GraphClient.Proofs.Session.Sections
import Mathlib.Data.List.Nodup

/-!
# Who owns the subscriptions

A watcher gets its subscription while it accepts a response, with its state locked. A cancellation
takes the subscription out of the state of the watcher under the same lock, but the store is told only
in a later section, and any thread may run in between. Until then the cancellation owes the store the
end of the subscription. So a subscription is either the one in the state of its watcher, or it is
owed, and no watcher has both: this is `Owned`, which every act keeps.

What a cancellation owes is in its own thread and in no other (`Cancels`), so with its return the
watcher has retired, and has no subscription ever after.
-/

namespace GraphClient

/-- The subscription that a section ends, and whose it is. -/
def Section.unsubscribes? : Section → Option (WatcherId × SubscriptionId)
  | unsubscribe watcher subscription => some (watcher, subscription)
  | _ => none

theorem Section.unsubscribes?_of_opens {sec : Section} (h : sec.opens = true) :
    sec.unsubscribes? = none := by
  cases sec <;> first | rfl | cases h

/-- Of what a cancellation leaves to do, one section at most ends a subscription. -/
theorem WatcherState.Cancellation.filterMap_unsubscribes? (canceled : WatcherState.Cancellation)
    (watcher : WatcherId) :
    (canceled.sections watcher).filterMap Section.unsubscribes? =
      (canceled.subscription.map (Prod.mk watcher)).toList := by
  rw [sections]
  cases canceled.subscription <;> cases canceled.started <;> cases canceled.inFlight <;> rfl

namespace Session

variable {σ τ α : Type}

/-- The entries of the store that belong to a watcher. -/
def subscriptionsOf (s : Session σ τ α) (watcher : WatcherId) :
    Assoc SubscriptionId (Subscription WatcherId) :=
  s.store.subscriptions.filter fun entry => entry.2.subscriber = watcher

/-- What a section does to the store and its subscriptions. -/
theorem perform_cases (s : Session σ τ α) (sec : Section) :
    (SameStanding s (s.perform sec).1 ∧ sec.unsubscribes? = none ∧
        (s.perform sec).2.filterMap Section.unsubscribes? = []) ∨
      (∃ watcher held, sec = .cancel watcher ∧ s.standing watcher = some (false, held) ∧
        (s.perform sec).1.standing watcher = some (true, none) ∧
        (∀ other, other ≠ watcher → (s.perform sec).1.standing other = s.standing other) ∧
        (s.perform sec).1.store = s.store ∧
        (s.perform sec).2.filterMap Section.unsubscribes? =
          (held.map (Prod.mk watcher)).toList) ∨
      ∃ watcher id, sec = .unsubscribe watcher id := by
  cases hsec : sec.unsubscribes? with
  | some owed =>
    cases sec <;> cases hsec
    exact .inr (.inr ⟨_, _, rfl⟩)
  | none =>
    have hperforms := s.performs_perform sec
    generalize s.perform sec = performed at hperforms ⊢
    cases hperforms with
    | rests => exact .inl ⟨.refl s, rfl, rfl⟩
    | @starts _ watcher hget =>
      refine .inl ⟨sameStanding_setWatcherState hget rfl rfl, rfl, ?_⟩
      cases watcher.state.canceled <;> rfl
    | registers => exact .inl ⟨.of_eq rfl rfl, rfl, rfl⟩
    | fetches => exact .inl ⟨s.sameStanding_fetch _ _, rfl, rfl⟩
    | refuses => exact .inl ⟨.of_eq rfl rfl, rfl, rfl⟩
    | refetches => exact .inl ⟨s.sameStanding_refetch _, rfl, rfl⟩
    | @cancels id watcher hget hlive =>
      refine .inr (.inl ⟨id, watcher.state.subscription, rfl, ?_, ?_, ?_, ?_, ?_⟩)
      · rw [standing, hget, Option.map_some, hlive]
      · exact standing_setWatcherState_self hget _
      · exact fun other hother => standing_setWatcherState_of_ne s hother _
      · exact store_setWatcherState s id _
      · exact WatcherState.Cancellation.filterMap_unsubscribes? _ id
    | unsubscribes => cases hsec
    | unregisters => exact .inl ⟨.of_eq rfl rfl, rfl, rfl⟩
    | halts => exact .inl ⟨.of_eq rfl rfl, rfl, rfl⟩

/-- Only the section that marks a watcher as canceled leaves its subscription to be ended. -/
theorem exists_standing_of_mem_perform {s : Session σ τ α} {sec : Section} {watcher : WatcherId}
    {id : SubscriptionId} (h : .unsubscribe watcher id ∈ (s.perform sec).2) :
    ∃ held, s.standing watcher = some (false, held) := by
  have hmem : (watcher, id) ∈ (s.perform sec).2.filterMap Section.unsubscribes? :=
    List.mem_filterMap.mpr ⟨_, h, rfl⟩
  rcases s.perform_cases sec with
    ⟨-, -, hleft⟩ | ⟨other, held, -, hlive, -, -, -, hleft⟩ | ⟨other, ended, rfl⟩
  · rw [hleft] at hmem
    cases hmem
  · rw [hleft] at hmem
    obtain ⟨id, -, heq⟩ := Option.map_eq_some_iff.mp (Option.mem_toList.mp hmem)
    cases heq
    exact ⟨held, hlive⟩
  · cases hmem

end Session

namespace Concurrent

variable {σ τ α : Type}

/-- The subscriptions whose end operations under way owe the store. -/
def owing (s : Concurrent σ τ α) : List (WatcherId × SubscriptionId) :=
  s.pending.filterMap Section.unsubscribes?

/-- The last response that a watcher has accepted. -/
def lastAccepted? (s : Concurrent σ τ α) (watcher : WatcherId) : Option Answer :=
  (s.accepted.filter fun answer => answer.watcher = watcher).getLast?

/-- What an act does to the subscriptions: nothing; a watcher accepts a response; a watcher is marked
as canceled, and its subscription is owed; or a subscription that is owed is ended. -/
inductive Shifts (s s' : Concurrent σ τ α) : Prop
  | keeps : s.tasks.session.SameStanding s'.tasks.session → s'.owing.Perm s.owing →
      s'.accepted = s.accepted → Shifts s s'
  | accepts (answer : Answer) (id : SubscriptionId) :
      s.tasks.session.Accepts s'.tasks.session answer.watcher answer.dependentKeys id →
      s'.owing.Perm s.owing → s'.accepted = s.accepted ++ [answer] → Shifts s s'
  | marks (watcher : WatcherId) (held : Option SubscriptionId) :
      s.tasks.session.standing watcher = some (false, held) →
      s'.tasks.session.standing watcher = some (true, none) →
      (∀ other, other ≠ watcher →
        s'.tasks.session.standing other = s.tasks.session.standing other) →
      s'.tasks.session.store = s.tasks.session.store →
      s'.owing.Perm ((held.map (Prod.mk watcher)).toList ++ s.owing) →
      s'.accepted = s.accepted → Shifts s s'
  | ends (watcher : WatcherId) (id : SubscriptionId) :
      s'.tasks.session = { s.tasks.session with
        store := (s.tasks.session.store.unsubscribe id).2 } →
      s.owing.Perm ((watcher, id) :: s'.owing) → s'.accepted = s.accepted → Shifts s s'

/-- A response that a watcher accepts is the last one of this watcher. -/
theorem lastAccepted?_concat {s s' : Concurrent σ τ α} {answer : Answer}
    (h : s'.accepted = s.accepted ++ [answer]) (watcher : WatcherId) :
    s'.lastAccepted? watcher =
      if answer.watcher = watcher then some answer else s.lastAccepted? watcher := by
  rw [lastAccepted?, h, List.filter_append, List.filter_cons, List.filter_nil]
  by_cases hown : answer.watcher = watcher
  · rw [decide_eq_true hown, if_pos rfl, if_pos hown, List.getLast?_concat]
  · rw [decide_eq_false hown, if_neg Bool.false_ne_true, if_neg hown, List.append_nil,
      lastAccepted?]

/-- Every subscription in the store is the one in the state of its watcher, or is owed, and no watcher
has both. A watcher that is not canceled depends on the last response that it has accepted. -/
structure Owned (s : Concurrent σ τ α) : Prop where
  consistent : s.tasks.session.Consistent
  nodup : (Assoc.keys s.tasks.session.store.subscriptions).Nodup
  held : ∀ id subscription,
    Assoc.get? s.tasks.session.store.subscriptions id = some subscription →
      (∃ canceled, s.tasks.session.standing subscription.subscriber = some (canceled, some id)) ∨
        (subscription.subscriber, id) ∈ s.owing
  owed : ∀ watcher id, (watcher, id) ∈ s.owing →
    s.tasks.session.standing watcher = some (true, none) ∧
      ∃ keys, Assoc.get? s.tasks.session.store.subscriptions id = some ⟨keys, watcher⟩
  once : (s.owing.map Prod.fst).Nodup
  live : ∀ watcher canceled id, s.tasks.session.standing watcher = some (canceled, some id) →
    canceled = false
  last : ∀ watcher answer, s.lastAccepted? watcher = some answer →
    s.tasks.DependsUnlessCanceled watcher answer.dependentKeys

/-- Before anyone watches no subscriptions are there, and no operation is under way. -/
structure Unsubscribed (s : Concurrent σ τ α) : Prop where
  subscriptions : s.tasks.session.store.subscriptions = []
  standing : ∀ watcher canceled id, s.tasks.session.standing watcher ≠ some (canceled, some id)
  threads : s.threads = []
  accepted : s.accepted = []

theorem Unsubscribed.owned {s : Concurrent σ τ α} (hs : s.Unsubscribed) : s.Owned where
  consistent := Session.consistent_of_unsubscribed hs.subscriptions hs.standing
  nodup := by
    rw [hs.subscriptions]
    exact List.nodup_nil
  held id subscription hget := by
    rw [hs.subscriptions] at hget
    cases hget
  owed watcher id hmem := by
    rw [owing, pending, hs.threads] at hmem
    cases hmem
  once := by
    rw [owing, pending, hs.threads]
    exact List.nodup_nil
  live watcher canceled id hstanding := absurd hstanding (hs.standing watcher canceled id)
  last watcher answer hlast := by
    rw [lastAccepted?, hs.accepted] at hlast
    cases hlast

namespace Owned

variable {s s' : Concurrent σ τ α}

theorem keeps (h : s.Owned) (hsame : s.tasks.session.SameStanding s'.tasks.session)
    (howing : s'.owing.Perm s.owing) (haccepted : s'.accepted = s.accepted) : s'.Owned where
  consistent := hsame.consistent h.consistent
  nodup := by
    rw [hsame.store.subscriptions]
    exact h.nodup
  held id subscription hget := by
    rw [hsame.store.subscriptions] at hget
    rw [hsame.standing, howing.mem_iff]
    exact h.held id subscription hget
  owed watcher id hmem := by
    rw [hsame.standing, hsame.store.subscriptions]
    exact h.owed watcher id (howing.mem_iff.mp hmem)
  once := (howing.map Prod.fst).nodup_iff.mpr h.once
  live watcher canceled id hstanding := by
    rw [hsame.standing] at hstanding
    exact h.live watcher canceled id hstanding
  last watcher answer hlast := by
    rw [lastAccepted?, haccepted] at hlast
    refine (h.last watcher answer hlast).imp hsame.dependsOn ?_
    rintro ⟨held, hstanding⟩
    exact ⟨held, (hsame.standing watcher).trans hstanding⟩

theorem accepts (h : s.Owned) {answer : Answer} {id : SubscriptionId}
    (haccepts : s.tasks.session.Accepts s'.tasks.session answer.watcher answer.dependentKeys id)
    (howing : s'.owing.Perm s.owing) (haccepted : s'.accepted = s.accepted ++ [answer]) :
    s'.Owned where
  consistent := haccepts.consistent h.consistent
  nodup := by
    rw [haccepts.subscriptions]
    exact Assoc.nodup_keys_insert h.nodup _ _
  held other subscription hget := by
    rw [haccepts.subscriptions] at hget
    by_cases hother : other = id
    · subst hother
      rw [Assoc.get?_insert_self] at hget
      cases hget
      exact .inl ⟨false, haccepts.standing⟩
    · rw [Assoc.get?_insert_of_ne _ _ hother] at hget
      rw [howing.mem_iff]
      rcases h.held other subscription hget with ⟨canceled, hstanding⟩ | hmem
      · refine .inl ⟨canceled, ?_⟩
        rw [haccepts.others, hstanding]
        -- the watcher has no other subscription than the one that is replaced
        intro hwatcher
        rw [hwatcher] at hstanding
        rcases haccepts.origin with horigin | ⟨horigin, -⟩
        · rw [horigin] at hstanding
          cases hstanding
          exact hother rfl
        · rw [horigin] at hstanding
          cases hstanding
      · exact .inr hmem
  owed watcher other hmem := by
    obtain ⟨hstanding, keys, hget⟩ := h.owed watcher other (howing.mem_iff.mp hmem)
    have hne : watcher ≠ answer.watcher := by
      rintro rfl
      obtain ⟨held, hlive⟩ := haccepts.exists_standing
      rw [hlive] at hstanding
      cases hstanding
    exact ⟨(haccepts.others watcher hne).trans hstanding, keys, haccepts.get?_other hne hget⟩
  once := (howing.map Prod.fst).nodup_iff.mpr h.once
  live watcher canceled other hstanding := by
    by_cases hwatcher : watcher = answer.watcher
    · subst hwatcher
      rw [haccepts.standing] at hstanding
      cases hstanding
      rfl
    · rw [haccepts.others watcher hwatcher] at hstanding
      exact h.live watcher canceled other hstanding
  last watcher later hlast := by
    rw [lastAccepted?_concat haccepted] at hlast
    by_cases hwatcher : answer.watcher = watcher
    · rw [if_pos hwatcher] at hlast
      cases hlast
      subst hwatcher
      exact .inl haccepts.dependsOn
    · rw [if_neg hwatcher] at hlast
      have hne : watcher ≠ answer.watcher := Ne.symm hwatcher
      refine (h.last watcher later hlast).imp (haccepts.dependsOn_other hne) ?_
      rintro ⟨held, hstanding⟩
      exact ⟨held, (haccepts.others watcher hne).trans hstanding⟩

theorem marks (h : s.Owned) {watcher : WatcherId} {held : Option SubscriptionId}
    (hlive : s.tasks.session.standing watcher = some (false, held))
    (hmarked : s'.tasks.session.standing watcher = some (true, none))
    (hothers : ∀ other, other ≠ watcher →
      s'.tasks.session.standing other = s.tasks.session.standing other)
    (hstore : s'.tasks.session.store = s.tasks.session.store)
    (howing : s'.owing.Perm ((held.map (Prod.mk watcher)).toList ++ s.owing))
    (haccepted : s'.accepted = s.accepted) : s'.Owned where
  consistent := {
    fresh := by
      rw [hstore]
      exact h.consistent.fresh
    owned := by
      intro other canceled id hstanding
      rw [hstore]
      by_cases hother : other = watcher
      · subst hother
        rw [hmarked] at hstanding
        cases hstanding
      · rw [hothers other hother] at hstanding
        exact h.consistent.owned other canceled id hstanding }
  nodup := by
    rw [hstore]
    exact h.nodup
  held id subscription hget := by
    rw [hstore] at hget
    rw [howing.mem_iff, List.mem_append]
    rcases h.held id subscription hget with ⟨canceled, hstanding⟩ | hmem
    · by_cases hwatcher : subscription.subscriber = watcher
      · -- what the watcher had is now owed
        rw [hwatcher, hlive] at hstanding
        cases hstanding
        rw [hwatcher]
        exact .inr (.inl List.mem_cons_self)
      · exact .inl ⟨canceled, (hothers _ hwatcher).trans hstanding⟩
    · exact .inr (.inr hmem)
  owed other id hmem := by
    rw [hstore]
    rcases List.mem_append.mp (howing.mem_iff.mp hmem) with hnew | hold
    · obtain ⟨id, rfl, heq⟩ := Option.map_eq_some_iff.mp (Option.mem_toList.mp hnew)
      cases heq
      exact ⟨hmarked, h.consistent.owned watcher false id hlive⟩
    · obtain ⟨hstanding, hget⟩ := h.owed other id hold
      refine ⟨?_, hget⟩
      by_cases hother : other = watcher
      · subst hother
        exact hmarked
      · exact (hothers other hother).trans hstanding
  once := by
    refine (howing.map Prod.fst).nodup_iff.mpr ?_
    cases held with
    | none => exact h.once
    | some id =>
      refine List.nodup_cons.mpr ⟨fun htwice => ?_, h.once⟩
      obtain ⟨⟨other, owed⟩, hmem, heq⟩ := List.mem_map.mp htwice
      obtain rfl : other = watcher := heq
      rw [(h.owed other owed hmem).1] at hlive
      cases hlive
  live other canceled id hstanding := by
    by_cases hother : other = watcher
    · subst hother
      rw [hmarked] at hstanding
      cases hstanding
    · rw [hothers other hother] at hstanding
      exact h.live other canceled id hstanding
  last other answer hlast := by
    rw [lastAccepted?, haccepted] at hlast
    by_cases hother : other = watcher
    · subst hother
      exact .inr ⟨none, hmarked⟩
    · refine (h.last other answer hlast).imp ?_ ?_
      · rintro ⟨canceled, id, hstanding, hget⟩
        exact ⟨canceled, id, (hothers other hother).trans hstanding, hstore ▸ hget⟩
      · rintro ⟨held, hstanding⟩
        exact ⟨held, (hothers other hother).trans hstanding⟩

theorem ends (h : s.Owned) {watcher : WatcherId} {id : SubscriptionId}
    (hsession : s'.tasks.session = { s.tasks.session with
      store := (s.tasks.session.store.unsubscribe id).2 })
    (howing : s.owing.Perm ((watcher, id) :: s'.owing)) (haccepted : s'.accepted = s.accepted) :
    s'.Owned := by
  have hstanding : ∀ other, s'.tasks.session.standing other = s.tasks.session.standing other :=
    fun other => by rw [hsession]; rfl
  have hsubscriptions : s'.tasks.session.store.subscriptions =
      Assoc.erase s.tasks.session.store.subscriptions id := by rw [hsession]; rfl
  obtain ⟨hcanceled, keys, hid⟩ := h.owed watcher id (howing.mem_iff.mpr List.mem_cons_self)
  obtain ⟨hnotMem, honce⟩ := List.nodup_cons.mp ((howing.map Prod.fst).nodup_iff.mp h.once)
  -- a watcher that has a subscription has another one
  have hne : ∀ other canceled own,
      s.tasks.session.standing other = some (canceled, some own) → own ≠ id := by
    rintro other canceled own hown rfl
    obtain ⟨otherKeys, hget⟩ := h.consistent.owned other canceled own hown
    rw [hid] at hget
    cases hget
    rw [hcanceled] at hown
    cases hown
  exact {
    consistent := {
      fresh := by
        intro other subscription hget
        rw [hsubscriptions] at hget
        by_cases hother : other = id
        · subst hother
          rw [Assoc.get?_erase_self] at hget
          cases hget
        · rw [Assoc.get?_erase_of_ne _ hother] at hget
          rw [hsession]
          exact h.consistent.fresh other subscription hget
      owned := by
        intro other canceled own hown
        rw [hstanding] at hown
        rw [hsubscriptions, Assoc.get?_erase_of_ne _ (hne other canceled own hown)]
        exact h.consistent.owned other canceled own hown }
    nodup := by
      rw [hsubscriptions]
      exact Assoc.nodup_keys_erase h.nodup id
    held := by
      intro other subscription hget
      rw [hsubscriptions] at hget
      by_cases hother : other = id
      · subst hother
        rw [Assoc.get?_erase_self] at hget
        cases hget
      · rw [Assoc.get?_erase_of_ne _ hother] at hget
        rw [hstanding]
        refine (h.held other subscription hget).imp_right fun hmem => ?_
        rcases List.mem_cons.mp (howing.mem_iff.mp hmem) with heq | hmem
        · cases heq
          exact absurd rfl hother
        · exact hmem
    owed := by
      intro other own hmem
      obtain ⟨hown, otherKeys, hget⟩ :=
        h.owed other own (howing.mem_iff.mpr (List.mem_cons_of_mem _ hmem))
      rw [hstanding, hsubscriptions]
      refine ⟨hown, otherKeys, ?_⟩
      rw [Assoc.get?_erase_of_ne, hget]
      rintro rfl
      rw [hid] at hget
      cases hget
      exact hnotMem (List.mem_map.mpr ⟨_, hmem, rfl⟩)
    once := honce
    live := by
      intro other canceled own hown
      rw [hstanding] at hown
      exact h.live other canceled own hown
    last := by
      intro other answer hlast
      rw [lastAccepted?, haccepted] at hlast
      refine (h.last other answer hlast).imp ?_ ?_
      · rintro ⟨canceled, own, hown, hget⟩
        refine ⟨canceled, own, (hstanding other).trans hown, ?_⟩
        rw [hsubscriptions, Assoc.get?_erase_of_ne _ (hne other canceled own hown), hget]
      · rintro ⟨held, hown⟩
        exact ⟨held, (hstanding other).trans hown⟩ }

theorem shifts (h : s.Owned) (hs : s.Shifts s') : s'.Owned := by
  cases hs with
  | keeps hsame howing haccepted => exact h.keeps hsame howing haccepted
  | accepts answer id haccepts howing haccepted => exact h.accepts haccepts howing haccepted
  | marks watcher held hlive hmarked hothers hstore howing haccepted =>
    exact h.marks hlive hmarked hothers hstore howing haccepted
  | ends watcher id hsession howing haccepted => exact h.ends hsession howing haccepted

end Owned

/-- The entries of a watcher in the store are those that a look-up finds under its name. -/
theorem Owned.mem_subscriptionsOf_iff {s : Concurrent σ τ α} (h : s.Owned) {watcher : WatcherId}
    {entry : SubscriptionId × Subscription WatcherId} :
    entry ∈ s.tasks.session.subscriptionsOf watcher ↔
      Assoc.get? s.tasks.session.store.subscriptions entry.1 = some entry.2 ∧
        entry.2.subscriber = watcher := by
  rw [Session.subscriptionsOf, List.mem_filter, decide_eq_true_iff,
    Assoc.get?_eq_some_iff_mem h.nodup]

/-- The entry of a watcher is the one in its state, or the one that is owed. -/
theorem Owned.eq_of_mem {s : Concurrent σ τ α} (h : s.Owned) {watcher : WatcherId}
    {first second : SubscriptionId × Subscription WatcherId}
    (hfirst : first ∈ s.tasks.session.subscriptionsOf watcher)
    (hsecond : second ∈ s.tasks.session.subscriptionsOf watcher) : first = second := by
  obtain ⟨id, subscription⟩ := first
  obtain ⟨other, otherSubscription⟩ := second
  obtain ⟨hget, rfl⟩ := h.mem_subscriptionsOf_iff.mp hfirst
  obtain ⟨hgetOther, hwatcher⟩ := h.mem_subscriptionsOf_iff.mp hsecond
  have hheld := h.held id subscription hget
  have hheldOther := h.held other otherSubscription hgetOther
  rw [hwatcher] at hheldOther
  have hid : id = other := by
    rcases hheld with ⟨canceled, hstanding⟩ | hmem
    · rcases hheldOther with ⟨canceledOther, hstandingOther⟩ | hmemOther
      · rw [hstanding] at hstandingOther
        cases hstandingOther
        rfl
      · rw [(h.owed _ _ hmemOther).1] at hstanding
        cases hstanding
    · rcases hheldOther with ⟨canceledOther, hstandingOther⟩ | hmemOther
      · rw [(h.owed _ _ hmem).1] at hstandingOther
        cases hstandingOther
      · exact congrArg Prod.snd (List.inj_on_of_nodup_map h.once hmem hmemOther rfl)
  subst hid
  rw [hget] at hgetOther
  cases hgetOther
  rfl

/-- Nothing is left that could give a watcher a subscription or that has to end one: it is canceled,
and the cancellation has told the store. That is so once the cancellation has returned
(`Owned.retired_of_returned`). -/
structure Retired (s : Concurrent σ τ α) (watcher : WatcherId) : Prop where
  canceled : ∃ held, s.tasks.session.standing watcher = some (true, held)
  told : ∀ id, .unsubscribe watcher id ∉ s.pending

theorem mem_owing_iff {s : Concurrent σ τ α} {watcher : WatcherId} {id : SubscriptionId} :
    (watcher, id) ∈ s.owing ↔ .unsubscribe watcher id ∈ s.pending := by
  rw [owing, List.mem_filterMap]
  constructor
  · rintro ⟨sec, hmem, hsec⟩
    cases sec with
    | unsubscribe => cases hsec; exact hmem
    | _ => cases hsec
  · exact fun hmem => ⟨_, hmem, rfl⟩

/-- A watcher that is canceled stays so. -/
theorem Shifts.standing_eq_of_canceled {s s' : Concurrent σ τ α} (hs : s.Shifts s')
    {watcher : WatcherId} {held : Option SubscriptionId}
    (h : s.tasks.session.standing watcher = some (true, held)) :
    s'.tasks.session.standing watcher = some (true, held) := by
  cases hs with
  | keeps hsame => exact (hsame.standing watcher).trans h
  | accepts answer id haccepts =>
    refine (haccepts.others watcher ?_).trans h
    rintro rfl
    obtain ⟨own, hlive⟩ := haccepts.exists_standing
    rw [hlive] at h
    cases h
  | marks other own hlive hmarked hothers =>
    refine (hothers watcher ?_).trans h
    rintro rfl
    rw [hlive] at h
    cases h
  | ends other id hsession =>
    rw [hsession]
    exact h

theorem Retired.shifts {s s' : Concurrent σ τ α} {watcher : WatcherId} (h : s.Retired watcher)
    (hs : s.Shifts s') : s'.Retired watcher := by
  obtain ⟨⟨held, hcanceled⟩, htold⟩ := h
  simp only [← mem_owing_iff] at htold
  refine ⟨⟨held, hs.standing_eq_of_canceled hcanceled⟩, fun id hmem => ?_⟩
  rw [← mem_owing_iff] at hmem
  cases hs with
  | keeps hsame howing => exact htold id (howing.mem_iff.mp hmem)
  | accepts answer other haccepts howing => exact htold id (howing.mem_iff.mp hmem)
  | marks other own hlive hmarked hothers hstore howing =>
    rcases List.mem_append.mp (howing.mem_iff.mp hmem) with hnew | hold
    · obtain ⟨id, -, heq⟩ := Option.map_eq_some_iff.mp (Option.mem_toList.mp hnew)
      cases heq
      rw [hlive] at hcanceled
      cases hcanceled
    · exact htold id hold
  | ends other ended hsession howing =>
    exact htold id (howing.mem_iff.mpr (List.mem_cons_of_mem _ hmem))

/-- A watcher is canceled, and of all operations at most this one has still to end a subscription of
the watcher. -/
structure Cancels (s : Concurrent σ τ α) (watcher : WatcherId) (thread : Nat) : Prop where
  canceled : ∃ held, s.tasks.session.standing watcher = some (true, held)
  alone : ∀ other sections id, s.threads[other]? = some sections →
    .unsubscribe watcher id ∈ sections → other = thread

theorem Cancels.retired {s : Concurrent σ τ α} {watcher : WatcherId} {thread : Nat}
    (h : s.Cancels watcher thread) (hreturned : s.threads[thread]? = some []) :
    s.Retired watcher := by
  refine ⟨h.canceled, fun id hmem => ?_⟩
  obtain ⟨sections, hsections, hmem⟩ := List.mem_flatten.mp hmem
  obtain ⟨other, hother⟩ := List.mem_iff_getElem?.mp hsections
  obtain rfl := h.alone other sections id hother hmem
  rw [hreturned] at hother
  cases hother
  cases hmem

/-- A watcher that has retired has no subscription. -/
theorem Owned.subscriptionsOf_eq_nil {s : Concurrent σ τ α} (h : s.Owned) {watcher : WatcherId}
    (hretired : s.Retired watcher) : s.tasks.session.subscriptionsOf watcher = [] := by
  obtain ⟨⟨held, hcanceled⟩, htold⟩ := hretired
  refine List.eq_nil_iff_forall_not_mem.mpr fun ⟨id, subscription⟩ hmem => ?_
  obtain ⟨hget, rfl⟩ := h.mem_subscriptionsOf_iff.mp hmem
  rcases h.held id subscription hget with ⟨canceled, hstanding⟩ | howed
  · obtain rfl := h.live _ canceled id hstanding
    rw [hcanceled] at hstanding
    cases hstanding
  · exact htold id (mem_owing_iff.mp howed)

theorem Owned.length_subscriptionsOf_le {s : Concurrent σ τ α} (h : s.Owned) (watcher : WatcherId) :
    (s.tasks.session.subscriptionsOf watcher).length ≤ 1 := by
  have hnodup : (s.tasks.session.subscriptionsOf watcher).Nodup :=
    .filter _ (.of_map Prod.fst h.nodup)
  match heq : s.tasks.session.subscriptionsOf watcher with
  | [] => exact Nat.zero_le 1
  | [entry] => exact Nat.le_refl 1
  | first :: second :: rest =>
    rw [heq] at hnodup
    have hfirst : first ∈ s.tasks.session.subscriptionsOf watcher := heq ▸ List.mem_cons_self
    have hsecond : second ∈ s.tasks.session.subscriptionsOf watcher :=
      heq ▸ List.mem_cons_of_mem _ List.mem_cons_self
    cases h.eq_of_mem hfirst hsecond
    exact absurd List.mem_cons_self (List.nodup_cons.mp hnodup).1

/-- A watcher that is not canceled has the subscription of the last response that it accepted. -/
theorem Owned.exists_subscriptionsOf_eq {s : Concurrent σ τ α} (h : s.Owned) {watcher : WatcherId}
    {answer : Answer} (hlast : s.lastAccepted? watcher = some answer)
    (hlive : ∀ held, s.tasks.session.standing watcher ≠ some (true, held)) :
    ∃ id, s.tasks.session.subscriptionsOf watcher = [(id, ⟨answer.dependentKeys, watcher⟩)] := by
  rcases h.last watcher answer hlast with ⟨canceled, id, hstanding, hget⟩ | ⟨held, hcanceled⟩
  · have hmem : (id, ⟨answer.dependentKeys, watcher⟩) ∈
        s.tasks.session.subscriptionsOf watcher := h.mem_subscriptionsOf_iff.mpr ⟨hget, rfl⟩
    obtain ⟨entry, hentry⟩ := List.length_eq_one_iff.mp
      (Nat.le_antisymm (h.length_subscriptionsOf_le watcher) (List.length_pos_of_mem hmem))
    rw [hentry] at hmem
    obtain rfl := List.mem_singleton.mp hmem
    exact ⟨id, hentry⟩
  · exact absurd hcanceled (hlive held)

section Runs

variable [Storage σ]

theorem Acts.shifts {client : Client τ} {s s' : Concurrent σ τ α}
    (hs : s.tasks.session.Consistent) (h : s.Acts client s') : s.Shifts s' := by
  cases h with
  | rests => exact .keeps (.refl _) (.refl _) rfl
  | @moves move hopens =>
    rcases Interleaved.step_cases client hs move with
      ⟨haccepted, hsame⟩ | ⟨answer, id, haccepted, haccepts⟩ | ⟨watcher, rfl, -⟩
    · refine .keeps hsame (.refl _) ?_
      rw [haccepted]
      exact List.append_nil _
    · refine .accepts answer id haccepts (.refl _) ?_
      rw [haccepted]
      rfl
    · cases hopens
  | @begins tasks sections hwithdraws hbegin =>
    have hsame : s.tasks.session.SameStanding tasks.session := by
      rcases hwithdraws with rfl | ⟨index, changed, -, rfl⟩
      · exact .refl _
      · exact .of_eq rfl rfl
    have hnone : sections.filterMap Section.unsubscribes? = [] :=
      List.filterMap_eq_nil_iff.mpr fun sec hsec =>
        Section.unsubscribes?_of_opens (hbegin sec hsec)
    refine .keeps hsame ?_ rfl
    rw [owing, pending_begins, List.filterMap_append, hnone, List.append_nil, owing]
  | @proceeds before sec rest after hthreads =>
    obtain ⟨others, howing, hafter⟩ :=
      exists_filterMap_proceeds Section.unsubscribes? hthreads
    have howing' := hafter (s.tasks.session.perform sec).2
    rcases s.tasks.session.perform_cases sec with
      ⟨hsame, hsec, hleft⟩ | ⟨watcher, held, rfl, hlive, hmarked, hothers, hstore, hleft⟩ |
        ⟨watcher, id, rfl⟩
    · rw [hsec] at howing
      rw [hleft] at howing'
      exact .keeps hsame (howing'.trans howing.symm) rfl
    · rw [hleft] at howing'
      refine .marks watcher held hlive hmarked hothers hstore ?_ rfl
      exact howing'.trans (.append_left _ howing.symm)
    · exact .ends watcher id rfl (howing.trans (.cons _ howing'.symm)) rfl

theorem Owned.acts {client : Client τ} {s s' : Concurrent σ τ α} (h : s.Owned)
    (hacts : s.Acts client s') : s'.Owned :=
  h.shifts (hacts.shifts h.consistent)

theorem owned_run (client : Client τ) {s : Concurrent σ τ α} (hs : s.Unsubscribed)
    (acts : List Act) : (s.run client acts).Owned :=
  run_induction Owned.acts hs.owned acts

/-- What the acts keep while all subscriptions are owned holds after a run. -/
theorem Owned.run_keeps {client : Client τ} {motive : Concurrent σ τ α → Prop}
    (hstep : ∀ {s s'}, s.Owned → motive s → s.Acts client s' → motive s')
    {s : Concurrent σ τ α} (hs : s.Owned) (h : motive s) (acts : List Act) :
    (s.run client acts).Owned ∧ motive (s.run client acts) :=
  run_induction (motive := fun now => now.Owned ∧ motive now)
    (fun hnow hacts => ⟨hnow.1.acts hacts, hstep hnow.1 hnow.2 hacts⟩) ⟨hs, h⟩ acts

/-- While the operation goes on, nobody else gets the end of a subscription to tell. -/
theorem Cancels.acts {client : Client τ} {s s' : Concurrent σ τ α} {watcher : WatcherId}
    {thread : Nat} (h : s.Cancels watcher thread) (hs : s.tasks.session.Consistent)
    (hacts : s.Acts client s') : s'.Cancels watcher thread := by
  obtain ⟨⟨held, hcanceled⟩, halone⟩ := h
  refine ⟨⟨held, (hacts.shifts hs).standing_eq_of_canceled hcanceled⟩, ?_⟩
  intro other found id hfound hmem
  cases hacts with
  | rests => exact halone other found id hfound hmem
  | moves => exact halone other found id hfound hmem
  | @begins tasks sections hwithdraws hopens =>
    dsimp only at hfound
    rw [List.getElem?_append] at hfound
    split at hfound
    · exact halone other found id hfound hmem
    · obtain rfl := List.mem_singleton.mp (List.mem_of_getElem? hfound)
      cases hopens _ hmem
  | proceeds hthreads =>
    rcases mem_of_proceeds hthreads hfound hmem with hnew | ⟨old, hold, hmem⟩
    · obtain ⟨own, hlive⟩ := Session.exists_standing_of_mem_perform hnew
      rw [hcanceled] at hlive
      cases hlive
    · exact halone other old id hold hmem

/-- Marking a watcher as canceled, which nobody has done before. -/
theorem Owned.cancels_proceed (client : Client τ) {s : Concurrent σ τ α} (hs : s.Owned)
    {watcher : WatcherId} {thread : Nat} {rest : List Section} {held : Option SubscriptionId}
    (hnext : s.threads[thread]? = some (.cancel watcher :: rest))
    (hlive : s.tasks.session.standing watcher = some (false, held)) :
    (s.act client (.proceed thread)).Cancels watcher thread := by
  rw [act, hnext]
  constructor
  case canceled =>
    obtain ⟨found, hget, hfound⟩ := Option.map_eq_some_iff.mp hlive
    refine ⟨none, ?_⟩
    dsimp only
    rw [Session.perform_cancel hget, WatcherState.cancel_of_live (Prod.mk.inj hfound).1]
    exact Session.standing_setWatcherState_self hget _
  case alone =>
    intro other sections id hother hmem
    by_contra hne
    dsimp only at hother
    rw [List.getElem?_set_ne (Ne.symm hne)] at hother
    have howed : (watcher, id) ∈ s.owing :=
      mem_owing_iff.mpr (List.mem_flatten.mpr ⟨sections, List.mem_of_getElem? hother, hmem⟩)
    rw [(hs.owed watcher id howed).1] at hlive
    cases hlive

/-- The operation that marks a watcher as canceled has told the store of it when it returns. -/
theorem Owned.retired_of_returned (client : Client τ) {s : Concurrent σ τ α} (hs : s.Owned)
    {watcher : WatcherId} {thread : Nat} {rest : List Section} {held : Option SubscriptionId}
    (hnext : s.threads[thread]? = some (.cancel watcher :: rest))
    (hlive : s.tasks.session.standing watcher = some (false, held)) {acts : List Act}
    (hreturned : ((s.act client (.proceed thread)).run client acts).threads[thread]? = some []) :
    ((s.act client (.proceed thread)).run client acts).Retired watcher := by
  have howned := hs.acts (s.acts_act client (.proceed thread))
  have hcancels := hs.cancels_proceed client hnext hlive
  obtain ⟨-, hlater⟩ := howned.run_keeps (motive := fun now => now.Cancels watcher thread)
    (fun hnow h hacts => h.acts hnow.consistent hacts) hcancels acts
  exact hlater.retired hreturned

/-- Which subscriptions a watcher owns. -/
structure Owns (client : Client τ) (s : Concurrent σ τ α) (watcher : WatcherId) : Prop where
  atMostOne : (s.tasks.session.subscriptionsOf watcher).length ≤ 1
  /-- As long as it is not canceled it has one from its first response on, with the field keys of the
  last, told or not. -/
  newest : ∀ answer, s.lastAccepted? watcher = some answer →
    (∀ held, s.tasks.session.standing watcher ≠ some (true, held)) →
      ∃ id, s.tasks.session.subscriptionsOf watcher = [(id, ⟨answer.dependentKeys, watcher⟩)]
  /-- Once its cancellation has returned it never has one again. -/
  retired : s.Retired watcher → ∀ acts,
    (s.run client acts).tasks.session.subscriptionsOf watcher = []

/-- However the threads interleave, no watcher has two subscriptions, none that was canceled keeps
one, and none that was not canceled loses its own. -/
theorem owns_run (client : Client τ) {s : Concurrent σ τ α} (hs : s.Unsubscribed)
    (acts : List Act) (watcher : WatcherId) : (s.run client acts).Owns client watcher := by
  have howned := owned_run client hs acts
  refine ⟨howned.length_subscriptionsOf_le watcher,
    fun answer hlast hlive => howned.exists_subscriptionsOf_eq hlast hlive,
    fun hretired more => ?_⟩
  obtain ⟨hlater, hstays⟩ :=
    howned.run_keeps (motive := fun now => now.Retired watcher)
      (fun hnow h hacts => h.shifts (hacts.shifts hnow.consistent)) hretired more
  exact hlater.subscriptionsOf_eq_nil hstays

end Runs

section Harbor

private def harborQuery : Operation :=
  { name := "Harbor", document := "", id := "harbor", selections := [
    .field { responseName := "harbor", name := "harbor" }
      (.object [.field { responseName := "name", name := "name" } .leaf])] }

/-- No request is sent, for all responses are read from the store. -/
private def harborClient : Client Unit :=
  { server := { url := "" }, transport := ⟨fun _ s => ({ result := .error "" }, s)⟩ }

/-- The harbor is known, and two are about to watch it. -/
private def harbor : Concurrent MemoryContents Unit Json where
  tasks :=
    { session :=
      { store := (({ resolver := .byTypeAndId, contents := .empty } :
          Store MemoryContents WatcherId).write harborQuery
            [("harbor", .object [("name", .string "Leith")])]).2
        transport := ()
        watchers := [
          (⟨0⟩, { options := { operation := harborQuery }, decoder := some }),
          (⟨1⟩, { options := { operation := harborQuery }, decoder := some })] } }

/-- Both watchers accept a response. The first one accepts it once more, while it is canceled by one
thread and another thread has it fetch again. -/
private def harborActs : List Act :=
  [.move (.watch ⟨0⟩), .move (.watch ⟨1⟩), .proceed 0, .proceed 1, .proceed 1, .proceed 0,
    .proceed 0, .proceed 1, .move (.advance 0), .move (.handOver 0), .move (.advance 0),
    .move (.refetch ⟨0⟩), .move (.cancelWatcher ⟨0⟩), .move (.handOver 0), .proceed 2,
    .move (.advance 0), .move (.handOver 0), .proceed 3, .proceed 3, .proceed 3]

private theorem unsubscribed_harbor : harbor.Unsubscribed where
  subscriptions := by decide +kernel
  standing := by
    intro watcher canceled id hstanding
    obtain ⟨state, hget, hstate⟩ := Option.map_eq_some_iff.mp hstanding
    have hmem := Assoc.mem_of_get?_eq_some hget
    rw [harbor, List.mem_cons, List.mem_singleton] at hmem
    rcases hmem with hmem | hmem <;> cases hmem <;> cases hstate
  threads := rfl
  accepted := rfl

private def harborNow (acts : Nat) : Concurrent MemoryContents Unit Json :=
  harbor.run harborClient (harborActs.take acts)

private def harborKeys : KeySet := KeySet.ofList ["QUERY_ROOT.harbor", "QUERY_ROOT.harbor.name"]

/-- The third response that is accepted is told to nobody, and yet the subscription is kept. -/
theorem owns_run_harbor :
    harbor.Unsubscribed ∧
      (harborNow 17).lastAccepted? ⟨0⟩ = some ⟨⟨0⟩, 2, harborKeys⟩ ∧
      ((harborNow 17).accepted.length, (harborNow 17).tasks.session.events.length) = (3, 2) ∧
      (∃ id, (harborNow 17).tasks.session.subscriptionsOf ⟨0⟩ = [(id, ⟨harborKeys, ⟨0⟩⟩)]) ∧
      (harborNow 20).Retired ⟨0⟩ ∧
      ∀ acts, ((harborNow 20).run harborClient acts).tasks.session.subscriptionsOf ⟨0⟩ = [] := by
  have hlast : (harborNow 17).lastAccepted? ⟨0⟩ = some ⟨⟨0⟩, 2, harborKeys⟩ := by decide +kernel
  have hstanding : (harborNow 17).tasks.session.standing ⟨0⟩ = some (false, some ⟨0⟩) := by
    decide +kernel
  have hpending : (harborNow 20).pending = [] := by decide +kernel
  have hretired : (harborNow 20).Retired ⟨0⟩ := by
    refine ⟨⟨none, by decide +kernel⟩, fun id hmem => ?_⟩
    rw [hpending] at hmem
    cases hmem
  refine ⟨unsubscribed_harbor, hlast, by decide +kernel, ?_, hretired, ?_⟩
  · refine (owns_run harborClient unsubscribed_harbor _ ⟨0⟩).newest _ hlast fun held hheld => ?_
    have hclash := hstanding.symm.trans hheld
    cases hclash
  · exact (owns_run harborClient unsubscribed_harbor _ ⟨0⟩).retired hretired

end Harbor

end Concurrent

end GraphClient
