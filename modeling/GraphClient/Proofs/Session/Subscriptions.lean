import GraphClient.Proofs.Session.Standing

/-!
# The subscriptions of watchers

In a `Consistent` session the subscription of a watcher is in the store and belongs to that watcher,
and numbers of subscriptions are given out once. Then a response that a watcher accepts sets what
this watcher depends on and nothing else: it replaces the field keys of a subscription that no other
watcher has. Cancelling a watcher ends its subscription and no other.
-/

namespace GraphClient

/-- The response of a fetch: whose fetch it is, and the field keys that the response depends on. -/
structure Answer where
  watcher : WatcherId
  generation : Nat
  dependentKeys : KeySet
deriving DecidableEq

/-- The response of a fetch, if an execution is a fetch and ended with one. -/
def answer? (execution : Execution) (ending : Ending Json) : Option Answer :=
  match execution.purpose, ending with
  | .watch id generation, .ok response => some ⟨id, generation, response.dependentKeys⟩
  | _, _ => none

theorem answer?_eq_some_iff {execution : Execution} {ending : Ending Json} {answer : Answer} :
    answer? execution ending = some answer ↔
      execution.purpose = .watch answer.watcher answer.generation ∧
        ∃ response, ending = .ok response ∧ response.dependentKeys = answer.dependentKeys := by
  obtain ⟨watcher, generation, keys⟩ := answer
  obtain ⟨purpose, options, token⟩ := execution
  cases purpose <;> cases ending <;> simp [answer?, and_assoc]

namespace Session

variable {σ τ α : Type}

/-- Whether a watcher waits for the fetch of a generation. -/
def awaits (s : Session σ τ α) (id : WatcherId) (generation : Nat) : Bool :=
  match Assoc.get? s.watchers id with
  | none => false
  | some watcher => !watcher.state.canceled && watcher.state.generation == generation

/-- The response that a watcher accepts when an execution is ended. -/
def accepted? (s : Session σ τ α) (execution : Execution) (ending : Ending Json) : Option Answer :=
  (answer? execution ending).filter fun answer => s.awaits answer.watcher answer.generation

/-- The subscriptions of watchers are in the store, each under the watcher that has it. -/
structure Consistent (s : Session σ τ α) : Prop where
  fresh : ∀ id subscription, Assoc.get? s.store.subscriptions id = some subscription →
    id.number < s.store.nextSubscription
  owned : ∀ watcher canceled id, s.standing watcher = some (canceled, some id) →
    ∃ keys, Assoc.get? s.store.subscriptions id = some ⟨keys, watcher⟩

/-- The store wakes a watcher when one of these field keys changes. -/
def DependsOn (s : Session σ τ α) (watcher : WatcherId) (keys : KeySet) : Prop :=
  ∃ canceled id, s.standing watcher = some (canceled, some id) ∧
    Assoc.get? s.store.subscriptions id = some ⟨keys, watcher⟩

/-- Before anyone watches there are no subscriptions. -/
theorem consistent_of_unsubscribed {s : Session σ τ α} (hstore : s.store.subscriptions = [])
    (hwatchers : ∀ watcher canceled id, s.standing watcher ≠ some (canceled, some id)) :
    s.Consistent where
  fresh id subscription hget := by
    rw [hstore] at hget
    cases hget
  owned watcher canceled id hstanding := absurd hstanding (hwatchers watcher canceled id)

theorem SameStanding.consistent {s s' : Session σ τ α} (h : SameStanding s s')
    (hs : s.Consistent) : s'.Consistent where
  fresh id subscription hget := by
    rw [h.store.subscriptions] at hget
    rw [h.store.nextSubscription]
    exact hs.fresh id subscription hget
  owned watcher canceled id hstanding := by
    rw [h.standing] at hstanding
    rw [h.store.subscriptions]
    exact hs.owned watcher canceled id hstanding

theorem SameStanding.dependsOn {s s' : Session σ τ α} (h : SameStanding s s') {watcher : WatcherId}
    {keys : KeySet} (hs : s.DependsOn watcher keys) : s'.DependsOn watcher keys := by
  obtain ⟨canceled, id, hstanding, hget⟩ := hs
  exact ⟨canceled, id, (h.standing watcher).trans hstanding, h.store.subscriptions ▸ hget⟩

/-- A watcher accepts a response with these field keys: its subscription, which was its own or is
new, gets them, and nothing else changes. -/
structure Accepts (s s' : Session σ τ α) (watcher : WatcherId) (keys : KeySet)
    (id : SubscriptionId) : Prop where
  subscriptions : s'.store.subscriptions = Assoc.insert s.store.subscriptions id ⟨keys, watcher⟩
  nextSubscription : s.store.nextSubscription ≤ s'.store.nextSubscription
  fresh : id.number < s'.store.nextSubscription
  standing : s'.standing watcher = some (false, some id)
  others : ∀ other, other ≠ watcher → s'.standing other = s.standing other
  own : ∀ subscription, Assoc.get? s.store.subscriptions id = some subscription →
    subscription.subscriber = watcher
  origin : s.standing watcher = some (false, some id) ∨
    (s.standing watcher = some (false, none) ∧ id = ⟨s.store.nextSubscription⟩)

namespace Accepts

variable {s s' : Session σ τ α} {watcher : WatcherId} {keys : KeySet} {id : SubscriptionId}

/-- Only a watcher that is not canceled accepts a response. -/
theorem exists_standing (h : Accepts s s' watcher keys id) :
    ∃ held, s.standing watcher = some (false, held) := by
  rcases h.origin with hstanding | ⟨hstanding, -⟩
  · exact ⟨some id, hstanding⟩
  · exact ⟨none, hstanding⟩

theorem dependsOn (h : Accepts s s' watcher keys id) : s'.DependsOn watcher keys := by
  refine ⟨false, id, h.standing, ?_⟩
  rw [h.subscriptions, Assoc.get?_insert_self]

/-- A subscription of another watcher is another subscription. -/
theorem get?_other (h : Accepts s s' watcher keys id) {other : WatcherId} (hother : other ≠ watcher)
    {otherId : SubscriptionId} {otherKeys : KeySet}
    (hget : Assoc.get? s.store.subscriptions otherId = some ⟨otherKeys, other⟩) :
    Assoc.get? s'.store.subscriptions otherId = some ⟨otherKeys, other⟩ := by
  have hne : otherId ≠ id := by
    rintro rfl
    exact hother (h.own _ hget)
  rw [h.subscriptions, Assoc.get?_insert_of_ne _ _ hne, hget]

theorem dependsOn_other (h : Accepts s s' watcher keys id) {other : WatcherId}
    (hother : other ≠ watcher) {otherKeys : KeySet} (hs : s.DependsOn other otherKeys) :
    s'.DependsOn other otherKeys := by
  obtain ⟨canceled, otherId, hstanding, hget⟩ := hs
  exact ⟨canceled, otherId, (h.others other hother).trans hstanding, h.get?_other hother hget⟩

theorem consistent (h : Accepts s s' watcher keys id) (hs : s.Consistent) : s'.Consistent where
  fresh other subscription hget := by
    by_cases hother : other = id
    · subst hother
      exact h.fresh
    · rw [h.subscriptions, Assoc.get?_insert_of_ne _ _ hother] at hget
      exact Nat.lt_of_lt_of_le (hs.fresh other subscription hget) h.nextSubscription
  owned other canceled otherId hstanding := by
    by_cases hother : other = watcher
    · subst hother
      rw [h.standing, Option.some.injEq, Prod.mk.injEq, Option.some.injEq] at hstanding
      obtain ⟨-, rfl⟩ := hstanding
      exact ⟨keys, by rw [h.subscriptions, Assoc.get?_insert_self]⟩
    · rw [h.others other hother] at hstanding
      obtain ⟨otherKeys, hget⟩ := hs.owned other canceled otherId hstanding
      exact ⟨otherKeys, h.get?_other hother hget⟩

end Accepts

end Session

/-- A watcher that has a subscription keeps it, any other gets a new one. -/
theorem WatcherState.trackDependencies_eq {σ : Type} {w : WatcherState} {watcher : WatcherId}
    {store : Store σ WatcherId}
    (hown : ∀ id, w.subscription = some id →
      ∃ keys, Assoc.get? store.subscriptions id = some ⟨keys, watcher⟩) (keys : KeySet) :
    ∃ id next, w.trackDependencies watcher keys store =
        ({ w with subscription := some id },
          { store with
            subscriptions := Assoc.insert store.subscriptions id ⟨keys, watcher⟩
            nextSubscription := next }) ∧
      ((w.subscription = some id ∧ next = store.nextSubscription) ∨
        (w.subscription = none ∧ id = ⟨store.nextSubscription⟩ ∧
          next = store.nextSubscription + 1)) := by
  cases hsubscription : w.subscription with
  | none =>
    refine ⟨⟨store.nextSubscription⟩, store.nextSubscription + 1, ?_, .inr ⟨rfl, rfl, rfl⟩⟩
    rw [trackDependencies, hsubscription]
    rfl
  | some id =>
    obtain ⟨before, hget⟩ := hown id hsubscription
    refine ⟨id, store.nextSubscription, ?_, .inl ⟨rfl, rfl⟩⟩
    rw [trackDependencies, hsubscription]
    simp only [Store.updateSubscription, hget]
    rw [← hsubscription]

/-- An end that is not an accepted response leaves the standing of the watcher alone. -/
theorem WatcherState.accept_keeps {σ : Type} {w : WatcherState} (watcher : WatcherId)
    (store : Store σ WatcherId) {generation : Nat} {ending : Ending Json}
    (h : ∀ response, ending = .ok response → w.canceled = true ∨ w.generation ≠ generation) :
    (w.accept watcher store generation ending).store = store ∧
      (w.accept watcher store generation ending).state.canceled = w.canceled ∧
      (w.accept watcher store generation ending).state.subscription = w.subscription := by
  rw [accept]
  split
  · exact ⟨rfl, rfl, rfl⟩
  · next hlive =>
    cases ending with
    | ok response =>
      refine absurd ?_ hlive
      rcases h response rfl with hcanceled | hgeneration
      · rw [hcanceled, Bool.true_or]
      · simp [hgeneration]
    | error failure => cases failure <;> exact ⟨rfl, rfl, rfl⟩

theorem WatcherState.accept_ok {σ : Type} {w : WatcherState} (watcher : WatcherId)
    (store : Store σ WatcherId) {generation : Nat} (hcanceled : w.canceled = false)
    (hgeneration : w.generation = generation) (response : Response Json) :
    let tracked := { w with active := none }.trackDependencies watcher response.dependentKeys store
    (w.accept watcher store generation (.ok response)).store = tracked.2 ∧
      (w.accept watcher store generation (.ok response)).state.canceled = tracked.1.canceled ∧
      (w.accept watcher store generation (.ok response)).state.subscription =
        tracked.1.subscription := by
  have hlive : ¬ (w.canceled || w.generation != generation) = true := by
    simp [hcanceled, hgeneration]
  rw [accept, if_neg hlive]
  dsimp only
  split
  · exact ⟨rfl, rfl, rfl⟩
  · exact ⟨rfl, rfl, rfl⟩

namespace Session

variable {σ τ α : Type}

/-- Ending a fetch leaves the store and the watcher as the watcher makes them of it. -/
theorem finishFetch_eq {s : Session σ τ α} {id : WatcherId} {watcher : Watcher α}
    (h : Assoc.get? s.watchers id = some watcher) (generation : Nat) (ending : Ending Json) :
    let accepted := watcher.state.accept id s.store generation ending
    (s.finishFetch id generation ending).store = accepted.store ∧
      (s.finishFetch id generation ending).watchers =
        (s.setWatcherState id accepted.state).watchers := by
  rw [finishFetch, h]
  simp only [setWatcherState, h]
  split
  · exact ⟨rfl, rfl⟩
  · exact ⟨rfl, rfl⟩

theorem sameStanding_finishFetch {s : Session σ τ α} {id : WatcherId} {generation : Nat}
    {ending : Ending Json}
    (h : ∀ response, ending = .ok response → s.awaits id generation = false) :
    SameStanding s (s.finishFetch id generation ending) := by
  cases hwatcher : Assoc.get? s.watchers id with
  | none =>
    rw [finishFetch, hwatcher]
    exact .of_eq rfl rfl
  | some watcher =>
    have hkeeps : ∀ response, ending = .ok response →
        watcher.state.canceled = true ∨ watcher.state.generation ≠ generation := by
      intro response hending
      have hawaits := h response hending
      rw [awaits, hwatcher] at hawaits
      cases hcanceled : watcher.state.canceled with
      | true => exact .inl rfl
      | false => exact .inr (by simpa [hcanceled] using hawaits)
    obtain ⟨hstore, hcanceled, hsubscription⟩ :=
      watcher.state.accept_keeps id s.store hkeeps
    obtain ⟨hfinished, hwatchers⟩ := finishFetch_eq hwatcher generation ending
    rw [hstore] at hfinished
    have hset : SameStanding s (s.setWatcherState id
        (watcher.state.accept id s.store generation ending).state) :=
      sameStanding_setWatcherState hwatcher hcanceled hsubscription
    refine hset.trans (.of_eq ?_ hwatchers)
    rw [hfinished, store_setWatcherState]

/-- Ending an execution without an accepted response changes the standing of no watcher. -/
theorem sameStanding_of_accepted?_eq_none {s : Session σ τ α} {execution : Execution}
    {ending : Ending Json} (h : s.accepted? execution ending = none) :
    SameStanding s (s.finish execution ending) := by
  cases hpurpose : execution.purpose with
  | watch id generation =>
    have hawaits : ∀ response, ending = .ok response → s.awaits id generation = false := by
      rintro response rfl
      have hanswer : answer? execution (.ok response) =
          some ⟨id, generation, response.dependentKeys⟩ :=
        answer?_eq_some_iff.mpr ⟨hpurpose, response, rfl, rfl⟩
      rw [accepted?, hanswer] at h
      simpa using h
    rw [finish, hpurpose]
    exact sameStanding_finishFetch hawaits
  | execute call => exact sameStanding_finish (by simp [hpurpose]) ending
  | enqueue call => exact sameStanding_finish (by simp [hpurpose]) ending
  | refetch => exact sameStanding_finish (by simp [hpurpose]) ending

/-- The fetch that a watcher waits for ends with a response. -/
theorem accepts_finishFetch {s : Session σ τ α} (hs : s.Consistent) {watcher : WatcherId}
    {holder : Watcher α} (hholder : Assoc.get? s.watchers watcher = some holder)
    (hcanceled : holder.state.canceled = false) (response : Response Json) :
    ∃ id, Accepts s (s.finishFetch watcher holder.state.generation (.ok response)) watcher
      response.dependentKeys id := by
  have hstanding : s.standing watcher = some (false, holder.state.subscription) := by
    rw [standing, hholder, Option.map_some, hcanceled]
  have hown : ∀ id, holder.state.subscription = some id →
      ∃ keys, Assoc.get? s.store.subscriptions id = some ⟨keys, watcher⟩ := by
    intro id hid
    rw [hid] at hstanding
    exact hs.owned _ _ _ hstanding
  obtain ⟨id, next, htracked, hnext⟩ := WatcherState.trackDependencies_eq
    (w := { holder.state with active := none }) hown response.dependentKeys
  obtain ⟨hstore, haccepted, hsubscription⟩ :=
    WatcherState.accept_ok watcher s.store hcanceled rfl response
  obtain ⟨hfinished, hwatchers⟩ := finishFetch_eq hholder holder.state.generation (.ok response)
  rw [htracked] at hstore haccepted hsubscription
  rw [hstore] at hfinished
  refine ⟨id, ?_, ?_, ?_, ?_, ?_, ?_, ?_⟩
  · rw [hfinished]
  · rw [hfinished]
    rcases hnext with ⟨-, rfl⟩ | ⟨-, -, rfl⟩ <;> simp
  · rw [hfinished]
    rcases hnext with ⟨hid, rfl⟩ | ⟨-, rfl, rfl⟩
    · obtain ⟨keys, hget⟩ := hown id hid
      exact hs.fresh id _ hget
    · exact Nat.lt_succ_self _
  · rw [standing, hwatchers, get?_setWatcherState_self hholder, Option.map_some, haccepted,
      hsubscription, hcanceled]
  · intro other hother
    rw [standing, hwatchers, get?_setWatcherState_of_ne _ hother, standing]
  · intro subscription hget
    rcases hnext with ⟨hid, -⟩ | ⟨-, rfl, -⟩
    · obtain ⟨keys, hown⟩ := hown id hid
      rw [hget, Option.some.injEq] at hown
      rw [hown]
    · exact absurd (hs.fresh _ _ hget) (Nat.lt_irrefl _)
  · rcases hnext with ⟨hid, -⟩ | ⟨hnone, hid, -⟩
    · exact .inl (hstanding.trans (congrArg (fun held => some (false, held)) hid))
    · exact .inr ⟨hstanding.trans (congrArg (fun held => some (false, held)) hnone), hid⟩

theorem awaits_eq_true_iff {s : Session σ τ α} {watcher : WatcherId} {generation : Nat} :
    s.awaits watcher generation = true ↔ ∃ holder, Assoc.get? s.watchers watcher = some holder ∧
      holder.state.canceled = false ∧ holder.state.generation = generation := by
  cases h : Assoc.get? s.watchers watcher <;> simp [awaits, h]

/-- Ending an execution with an accepted response sets what the watcher depends on. -/
theorem accepts_of_accepted?_eq_some {s : Session σ τ α} (hs : s.Consistent)
    {execution : Execution} {ending : Ending Json} {answer : Answer}
    (h : s.accepted? execution ending = some answer) :
    ∃ id, Accepts s (s.finish execution ending) answer.watcher answer.dependentKeys id := by
  obtain ⟨hanswer, hawaits⟩ := Option.filter_eq_some_iff.mp h
  obtain ⟨hpurpose, response, rfl, hkeys⟩ := answer?_eq_some_iff.mp hanswer
  obtain ⟨holder, hholder, hcanceled, hgeneration⟩ := awaits_eq_true_iff.mp hawaits
  rw [finish, hpurpose, ← hkeys, ← hgeneration]
  exact accepts_finishFetch hs hholder hcanceled response

/-- A watcher is canceled: its subscription ends, and nothing else changes. -/
structure Cancels (s s' : Session σ τ α) (watcher : WatcherId) : Prop where
  standing : s'.standing watcher = some (true, none)
  others : ∀ other, other ≠ watcher → s'.standing other = s.standing other
  nextSubscription : s'.store.nextSubscription = s.store.nextSubscription
  subscriptions : ∀ id subscription, Assoc.get? s'.store.subscriptions id = some subscription →
    Assoc.get? s.store.subscriptions id = some subscription
  foreign : ∀ id subscription, Assoc.get? s.store.subscriptions id = some subscription →
    subscription.subscriber ≠ watcher → Assoc.get? s'.store.subscriptions id = some subscription

namespace Cancels

variable {s s' : Session σ τ α} {watcher : WatcherId}

theorem consistent (h : Cancels s s' watcher) (hs : s.Consistent) : s'.Consistent where
  fresh id subscription hget := by
    rw [h.nextSubscription]
    exact hs.fresh id subscription (h.subscriptions id subscription hget)
  owned other canceled id hstanding := by
    by_cases hother : other = watcher
    · subst hother
      rw [h.standing] at hstanding
      cases hstanding
    · rw [h.others other hother] at hstanding
      obtain ⟨keys, hget⟩ := hs.owned other canceled id hstanding
      exact ⟨keys, h.foreign id _ hget hother⟩

theorem dependsOn_other (h : Cancels s s' watcher) {other : WatcherId} (hother : other ≠ watcher)
    {keys : KeySet} (hs : s.DependsOn other keys) : s'.DependsOn other keys := by
  obtain ⟨canceled, id, hstanding, hget⟩ := hs
  exact ⟨canceled, id, (h.others other hother).trans hstanding, h.foreign id _ hget hother⟩

end Cancels

/-- Cancelling leaves the store without the subscription of the watcher. -/
theorem cancelWatcher_eq {s : Session σ τ α} {id : WatcherId} {watcher : Watcher α}
    (h : Assoc.get? s.watchers id = some watcher) (hlive : watcher.state.canceled = false) :
    (s.cancelWatcher id).store =
        (match watcher.state.subscription with
          | none => s.store
          | some subscription => (s.store.unsubscribe subscription).2) ∧
      (s.cancelWatcher id).watchers = (s.setWatcherState id { watcher.state with
        canceled := true, active := none, subscription := none }).watchers := by
  rw [cancelWatcher, h]
  simp only [WatcherState.cancel, hlive, setWatcherState, h, unregister]
  cases watcher.state.subscription <;> cases watcher.state.started <;>
    cases watcher.state.active <;> exact ⟨rfl, rfl⟩

theorem cancels_cancelWatcher {s : Session σ τ α} (hs : s.Consistent) {id : WatcherId}
    {watcher : Watcher α} (h : Assoc.get? s.watchers id = some watcher)
    (hlive : watcher.state.canceled = false) : Cancels s (s.cancelWatcher id) id := by
  obtain ⟨hstore, hwatchers⟩ := cancelWatcher_eq h hlive
  have hstanding : s.standing id = some (false, watcher.state.subscription) := by
    rw [standing, h, Option.map_some, hlive]
  refine ⟨?_, ?_, ?_, ?_, ?_⟩
  · rw [standing, hwatchers, get?_setWatcherState_self h, Option.map_some]
  · intro other hother
    rw [standing, hwatchers, s.get?_setWatcherState_of_ne hother, standing]
  · rw [hstore]
    split <;> rfl
  · intro other subscription hget
    rw [hstore] at hget
    split at hget
    · exact hget
    · next own _ =>
      by_cases hother : other = own
      · subst hother
        rw [Store.unsubscribe, Assoc.get?_erase_self] at hget
        cases hget
      · rwa [Store.unsubscribe, Assoc.get?_erase_of_ne _ hother] at hget
  · intro other subscription hget hforeign
    rw [hstore]
    split
    · exact hget
    · next own hown =>
      have hother : other ≠ own := by
        rintro rfl
        rw [hown] at hstanding
        obtain ⟨keys, howned⟩ := hs.owned _ _ _ hstanding
        rw [hget, Option.some.injEq] at howned
        exact hforeign (by rw [howned])
      rw [Store.unsubscribe, Assoc.get?_erase_of_ne _ hother, hget]

theorem cancelWatcher_cases {s : Session σ τ α} (hs : s.Consistent) (id : WatcherId) :
    SameStanding s (s.cancelWatcher id) ∨ Cancels s (s.cancelWatcher id) id := by
  cases hwatcher : Assoc.get? s.watchers id with
  | none =>
    rw [cancelWatcher, hwatcher]
    exact .inl (.refl s)
  | some watcher =>
    cases hlive : watcher.state.canceled with
    | true =>
      rw [cancelWatcher, hwatcher]
      simp only [WatcherState.cancel_of_canceled hlive]
      exact .inl (.refl s)
    | false => exact .inr (cancels_cancelWatcher hs hwatcher hlive)

end Session

end GraphClient
