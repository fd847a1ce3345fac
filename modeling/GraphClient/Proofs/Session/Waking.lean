import GraphClient.Proofs.Session.Subscriptions

/-!
# How a notification wakes watchers

A notification has every watcher fetch again that depends on one of its field keys. A fetch begins
when the generation of the watcher rises and a task for the new generation is ready (`BeginsFetch`).
The watchers are woken one after the other; waking another watcher does not undo a fetch that has
begun, and waking the same one again replaces it by a newer.
-/

namespace GraphClient.Session

variable {σ τ α : Type}

/-- A watcher is started and not canceled. -/
def Live (s : Session σ τ α) (id : WatcherId) : Prop :=
  ∃ watcher, Assoc.get? s.watchers id = some watcher ∧ watcher.state.started = true ∧
    watcher.state.canceled = false

instance (s : Session σ τ α) (id : WatcherId) : Decidable (s.Live id) :=
  decidable_of_iff ((Assoc.get? s.watchers id).any fun watcher =>
    watcher.state.started && !watcher.state.canceled) (by
      cases h : Assoc.get? s.watchers id <;> simp [Live, h])

/-- The number of the latest fetch of a watcher. -/
def generation (s : Session σ τ α) (id : WatcherId) : Option Nat :=
  (Assoc.get? s.watchers id).map fun watcher => watcher.state.generation

/-- A new fetch of a watcher is ready. -/
def BeginsFetch (s s' : Session σ τ α) (id : WatcherId) : Prop :=
  ∃ watcher, Assoc.get? s'.watchers id = some watcher ∧
    (∀ before, Assoc.get? s.watchers id = some before →
      before.state.generation < watcher.state.generation) ∧
    ∃ options token, .start ⟨.watch id watcher.state.generation, options, token⟩ ∈ s'.ready

theorem BeginsFetch.generation_ne {s s' : Session σ τ α} {id : WatcherId}
    (h : BeginsFetch s s' id) : s.generation id ≠ s'.generation id := by
  intro hsame
  obtain ⟨watcher, hwatcher, hnewer, -⟩ := h
  rw [generation, generation, hwatcher, Option.map_some, Option.map_eq_some_iff] at hsame
  obtain ⟨before, hbefore, hgeneration⟩ := hsame
  exact Nat.ne_of_lt (hnewer before hbefore) hgeneration

theorem ready_setWatcherState (s : Session σ τ α) (id : WatcherId) (state : WatcherState) :
    (s.setWatcherState id state).ready = s.ready := by
  rw [setWatcherState]
  split <;> rfl

theorem ready_subset_fetchBegun (s : Session σ τ α) (id : WatcherId) (watcher : Watcher α)
    (control : CacheControl) : s.ready ⊆ (s.fetchBegun id watcher control).ready := by
  intro task htask
  refine List.mem_append_left _ ?_
  cases watcher.state.active with
  | none =>
    change task ∈ (setWatcherState _ _ _).ready
    rwa [ready_setWatcherState]
  | some superseded =>
    refine List.mem_append_left _ ?_
    change task ∈ (setWatcherState _ _ _).ready
    rwa [ready_setWatcherState]

theorem watchers_fetchBegun (s : Session σ τ α) (id : WatcherId) (watcher : Watcher α)
    (control : CacheControl) :
    (s.fetchBegun id watcher control).watchers = (s.setWatcherState id { watcher.state with
      generation := watcher.state.generation + 1, active := some s.tokens.fresh.1 }).watchers := by
  rw [fetchBegun, setWatcherState, setWatcherState]
  cases watcher.state.active <;> cases Assoc.get? s.watchers id <;> rfl

theorem refetch_eq {s : Session σ τ α} {id : WatcherId} {watcher : Watcher α}
    (h : Assoc.get? s.watchers id = some watcher) (hstarted : watcher.state.started = true)
    (hcanceled : watcher.state.canceled = false) :
    s.refetch id = s.fetchBegun id watcher watcher.state.refetchControl := by
  rw [refetch, h]
  simp only [fetch_eq h, hstarted, hcanceled]
  rfl

theorem get?_fetchBegun_self {s : Session σ τ α} {id : WatcherId} {watcher : Watcher α}
    (h : Assoc.get? s.watchers id = some watcher) (control : CacheControl) :
    Assoc.get? (s.fetchBegun id watcher control).watchers id =
      some { watcher with state := { watcher.state with
        generation := watcher.state.generation + 1, active := some s.tokens.fresh.1 } } := by
  rw [watchers_fetchBegun, get?_setWatcherState_self h]

/-- Having a live watcher fetch again begins a fetch. -/
theorem beginsFetch_refetch {s : Session σ τ α} {id : WatcherId} (h : s.Live id) :
    BeginsFetch s (s.refetch id) id := by
  obtain ⟨watcher, hwatcher, hstarted, hcanceled⟩ := h
  rw [refetch_eq hwatcher hstarted hcanceled]
  refine ⟨_, get?_fetchBegun_self hwatcher _, fun before hbefore => ?_, _, _,
    List.mem_append_right _ List.mem_cons_self⟩
  rw [hwatcher, Option.some.injEq] at hbefore
  rw [← hbefore]
  exact Nat.lt_succ_self _

/-- A watcher that fetches again leaves every other watcher, and every ready task. -/
theorem refetch_other (s : Session σ τ α) {id other : WatcherId} (h : id ≠ other) :
    Assoc.get? (s.refetch other).watchers id = Assoc.get? s.watchers id ∧
      s.ready ⊆ (s.refetch other).ready := by
  rw [refetch]
  cases hwatcher : Assoc.get? s.watchers other with
  | none => exact ⟨rfl, fun _ htask => htask⟩
  | some watcher =>
    simp only [fetch_eq hwatcher]
    split
    · rw [watchers_fetchBegun, s.get?_setWatcherState_of_ne h]
      exact ⟨rfl, s.ready_subset_fetchBegun other watcher _⟩
    · exact ⟨rfl, fun _ htask => htask⟩

theorem Live.refetch {s : Session σ τ α} {id : WatcherId} (h : s.Live id) (other : WatcherId) :
    (s.refetch other).Live id := by
  obtain ⟨watcher, hwatcher, hstarted, hcanceled⟩ := h
  by_cases hother : id = other
  · subst hother
    rw [refetch_eq hwatcher hstarted hcanceled]
    exact ⟨_, get?_fetchBegun_self hwatcher _, hstarted, hcanceled⟩
  · exact ⟨watcher, (s.refetch_other hother).1.trans hwatcher, hstarted, hcanceled⟩

/-- A fetch that has begun stays begun while watchers fetch again. -/
theorem BeginsFetch.refetch {s s' : Session σ τ α} {id : WatcherId} (h : BeginsFetch s s' id)
    (hlive : s'.Live id) (other : WatcherId) : BeginsFetch s (s'.refetch other) id := by
  obtain ⟨watcher, hwatcher, hnewer, options, token, htask⟩ := h
  by_cases hother : id = other
  · subst hother
    obtain ⟨newest, hnewest, hrises, hready⟩ := beginsFetch_refetch hlive
    refine ⟨newest, hnewest, fun before hbefore => ?_, hready⟩
    exact Nat.lt_trans (hnewer before hbefore) (hrises watcher hwatcher)
  · obtain ⟨hsame, hsub⟩ := s'.refetch_other hother
    exact ⟨watcher, hsame.trans hwatcher, hnewer, options, token, hsub htask⟩

theorem beginsFetch_foldl_of_begun {s s' : Session σ τ α} {id : WatcherId}
    (h : BeginsFetch s s' id) (hlive : s'.Live id) (notices : List (Store.Notice WatcherId)) :
    BeginsFetch s (notices.foldl (fun s notice => s.refetch notice.subscriber) s') id := by
  induction notices generalizing s' with
  | nil => exact h
  | cons notice notices ih => exact ih (h.refetch hlive _) (hlive.refetch _)

theorem beginsFetch_foldl {s : Session σ τ α} {id : WatcherId} (hlive : s.Live id)
    {notices : List (Store.Notice WatcherId)} (h : ∃ notice ∈ notices, notice.subscriber = id) :
    BeginsFetch s (notices.foldl (fun s notice => s.refetch notice.subscriber) s) id := by
  induction notices generalizing s with
  | nil =>
    obtain ⟨notice, hmem, -⟩ := h
    cases hmem
  | cons first notices ih =>
    rw [List.foldl_cons]
    by_cases hfirst : id = first.subscriber
    · rw [← hfirst]
      exact beginsFetch_foldl_of_begun (beginsFetch_refetch hlive) (hlive.refetch id) notices
    · obtain ⟨notice, hmem, hnotice⟩ := h
      have hrest : notice ∈ notices := by
        refine (List.mem_cons.mp hmem).resolve_left ?_
        rintro rfl
        exact hfirst hnotice.symm
      obtain ⟨watcher, hwatcher, hnewer, hready⟩ :=
        ih (hlive.refetch first.subscriber) ⟨notice, hrest, hnotice⟩
      refine ⟨watcher, hwatcher, fun before hbefore => hnewer before ?_, hready⟩
      rw [(s.refetch_other hfirst).1, hbefore]

/-- A notification begins a fetch of every live watcher that depends on one of its field keys. -/
theorem beginsFetch_notify {s : Session σ τ α} {id : WatcherId} (hlive : s.Live id) {keys : KeySet}
    (hdepends : s.DependsOn id keys) {changed : KeySet}
    (hintersects : keys.intersects changed = true) : BeginsFetch s (s.notify changed) id := by
  obtain ⟨canceled, subscription, -, hget⟩ := hdepends
  rw [notify]
  refine beginsFetch_foldl hlive ⟨⟨subscription, id, changed⟩, ?_, rfl⟩
  rw [Store.notices, List.mem_map]
  refine ⟨(subscription, ⟨keys, id⟩), ?_, rfl⟩
  exact List.mem_filter.mpr ⟨Assoc.mem_of_get?_eq_some hget, hintersects⟩

end GraphClient.Session
