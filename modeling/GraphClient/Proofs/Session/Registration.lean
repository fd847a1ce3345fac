import GraphClient.Proofs.Session.Counting
import Mathlib.Data.List.Induction

/-!
# Watchers that were canceled while they are started

Starting a watcher marks it as started in one section, and registers it in a later one. Cancelling a
watcher finds out in its first section whether there is a registration to be ended, and ends it in a
later one. Under several threads the second section of either may come first. A registration that comes
after its end is made for a watcher that is canceled, and nobody will end it (`Overtaken`): the client
never becomes idle again. In any other order the watcher leaves nothing behind.
-/

namespace GraphClient

/-- Whether the last of these sections that registers a watcher, or ends its registration, registers
it. -/
def entered (watcher : WatcherId) (performed : List Section) : Bool :=
  performed.foldl (fun before sec =>
    if sec = .register watcher then true else if sec = .unregister watcher then false else before)
    false

theorem entered_concat (watcher : WatcherId) (performed : List Section) (sec : Section) :
    entered watcher (performed ++ [sec]) =
      if sec = .register watcher then true
      else if sec = .unregister watcher then false
      else entered watcher performed :=
  List.foldl_concat _ _ _ _

/-- A watcher is registered if the end of its registration does not follow. -/
theorem entered_iff {watcher : WatcherId} {performed : List Section} :
    entered watcher performed = true ↔ ∃ before after,
      performed = before ++ .register watcher :: after ∧ .unregister watcher ∉ after := by
  induction performed using List.reverseRecOn with
  | nil =>
    refine ⟨fun h => Bool.noConfusion h, ?_⟩
    rintro ⟨before, after, heq, -⟩
    exact absurd heq.symm (List.append_ne_nil_of_right_ne_nil _ (List.cons_ne_nil _ _))
  | append_singleton performed sec ih =>
    rw [entered_concat]
    split
    · next hsec =>
      subst hsec
      exact ⟨fun _ => ⟨performed, [], rfl, List.not_mem_nil⟩, fun _ => rfl⟩
    · next hregister =>
      constructor
      · intro h
        split at h
        · cases h
        · next hunregister =>
          obtain ⟨before, after, rfl, hafter⟩ := ih.mp h
          refine ⟨before, after ++ [sec], by rw [List.append_assoc, List.cons_append], ?_⟩
          rw [List.mem_append, List.mem_singleton]
          exact fun hmem => hmem.elim hafter fun heq => hunregister heq.symm
      · rintro ⟨before, after, heq, hafter⟩
        -- the section that registers is not the last one
        rcases List.eq_nil_or_concat after with rfl | ⟨after, last, rfl⟩
        · exact absurd (List.append_inj' heq rfl).2 fun h => hregister (List.cons.inj h).1
        · rw [List.concat_eq_append] at heq hafter
          rw [← List.cons_append, ← List.append_assoc] at heq
          obtain ⟨rfl, hlast⟩ := List.append_inj' heq rfl
          obtain rfl := (List.cons.inj hlast).1
          rw [List.mem_append, List.mem_singleton, not_or] at hafter
          rw [if_neg fun h => hafter.2 h.symm]
          exact ih.mpr ⟨before, after, rfl, hafter.1⟩

/-- How often a watcher is registered, and how often its registration is ended, by the sections that
were carried out and those that are left to do: once if it was started before it was canceled. -/
structure Marked (started canceled : Bool) (registers unregisters : Nat) : Prop where
  once : registers ≤ 1
  unstarted : started = false → registers = 0
  live : started = true → canceled = false → registers = 1
  ended : unregisters = if canceled then registers else 0

/-- What a section does to the two marks of a watcher, and how often what it leaves to do registers
the watcher and ends its registration. -/
inductive Marking (watcher : WatcherId) (left : List Section) : Bool → Bool → Bool → Bool → Prop
  | keeps {started canceled : Bool} : left.count (.register watcher) = 0 →
      left.count (.unregister watcher) = 0 →
      Marking watcher left started canceled started canceled
  | starts {canceled : Bool} : left.count (.register watcher) = (if canceled then 0 else 1) →
      left.count (.unregister watcher) = 0 → Marking watcher left false canceled true canceled
  | cancels {started : Bool} : left.count (.register watcher) = 0 →
      left.count (.unregister watcher) = (if started then 1 else 0) →
      Marking watcher left started false started true

theorem Marked.marking {watcher : WatcherId} {left : List Section}
    {started canceled started' canceled' : Bool} {registers unregisters : Nat}
    (h : Marked started canceled registers unregisters)
    (hmarking : Marking watcher left started canceled started' canceled') :
    Marked started' canceled' (registers + left.count (.register watcher))
      (unregisters + left.count (.unregister watcher)) := by
  obtain ⟨honce, hunstarted, hlive, hended⟩ := h
  cases hmarking with
  | keeps hregister hunregister =>
    rw [hregister, hunregister]
    exact ⟨honce, hunstarted, hlive, hended⟩
  | starts hregister hunregister =>
    obtain rfl := hunstarted rfl
    rw [hregister, hunregister, hended]
    cases canceled
    · exact ⟨Nat.le_refl 1, fun h => Bool.noConfusion h, fun _ _ => rfl, rfl⟩
    · exact ⟨Nat.zero_le 1, fun h => Bool.noConfusion h, fun _ h => Bool.noConfusion h, rfl⟩
  | cancels hregister hunregister =>
    rw [hregister, hunregister, hended]
    cases started with
    | true =>
      rw [hlive rfl rfl]
      exact ⟨Nat.le_refl 1, fun h => Bool.noConfusion h, fun _ h => Bool.noConfusion h, rfl⟩
    | false =>
      rw [hunstarted rfl]
      exact ⟨Nat.zero_le 1, fun _ => rfl, fun _ h => Bool.noConfusion h, rfl⟩

theorem WatcherState.Cancellation.count_sections (canceled : WatcherState.Cancellation)
    (id watcher : WatcherId) :
    (canceled.sections id).count (.register watcher) = 0 ∧
      (canceled.sections id).count (.unregister watcher) =
        if canceled.started = true ∧ id = watcher then 1 else 0 := by
  rw [sections]
  cases canceled.subscription <;> cases canceled.started <;> cases canceled.inFlight <;>
    by_cases hid : id = watcher <;> simp [hid]

namespace Session

variable {σ τ α : Type}

/-- A watcher is registered by the section that does so, until the section that ends it. -/
theorem mem_watchersOf_perform {s : Session σ τ α} {watcher : WatcherId} {name : String}
    {started canceled : Bool} (h : s.outline.profile watcher = some (name, started, canceled))
    (sec : Section) (other : String) :
    watcher ∈ (s.perform sec).1.tracker.watchersOf other ↔
      (watcher ∈ s.tracker.watchersOf other ∧ ¬ (sec = .unregister watcher ∧ other = name)) ∨
        (sec = .register watcher ∧ other = name) := by
  obtain ⟨found, hfound, hmarks⟩ := Option.map_eq_some_iff.mp h
  obtain ⟨rfl, -⟩ := Prod.mk.inj hmarks
  have hkept : ∀ {after : Session σ τ α}, after.tracker.watchers = s.tracker.watchers →
      sec ≠ .register watcher → sec ≠ .unregister watcher →
      (watcher ∈ after.tracker.watchersOf other ↔
        (watcher ∈ s.tracker.watchersOf other ∧
          ¬ (sec = .unregister watcher ∧ other = found.options.operation.name)) ∨
          (sec = .register watcher ∧ other = found.options.operation.name)) := by
    intro after hwatchers hregister hunregister
    rw [Tracker.watchersOf, hwatchers, Tracker.watchersOf]
    simp [hregister, hunregister]
  have hperforms := s.performs_perform sec
  generalize s.perform sec = performed at hperforms ⊢
  cases hperforms with
  | rests hopens =>
    refine hkept rfl ?_ ?_
    · rintro rfl
      cases hopens found hfound
    · rintro rfl
      cases hopens found hfound
  | @registers id _ hget =>
    rw [Tracker.mem_watchersOf_register]
    by_cases hid : id = watcher
    · subst hid
      obtain rfl := Option.some.inj (hfound.symm.trans hget)
      simp
    · simp [hid, Ne.symm hid]
  | @unregisters id _ hget =>
    rw [Tracker.mem_watchersOf_unregister]
    by_cases hid : id = watcher
    · subst hid
      obtain rfl := Option.some.inj (hfound.symm.trans hget)
      simp
    · simp [hid, Ne.symm hid]
  | starts => exact hkept (by rw [tracker_setWatcherState]) (by simp) (by simp)
  | cancels => exact hkept (by rw [tracker_setWatcherState]) (by simp) (by simp)
  | fetches => exact hkept (s.tracked_fetch _ _).watchers (by simp) (by simp)
  | refetches => exact hkept (s.tracked_refetch _).watchers (by simp) (by simp)
  | refuses => exact hkept rfl (by simp) (by simp)
  | unsubscribes => exact hkept rfl (by simp) (by simp)
  | halts => exact hkept rfl (by simp) (by simp)

/-- A section keeps the marks of a watcher, or starts or cancels it. -/
theorem exists_marking_perform {s : Session σ τ α} {watcher : WatcherId} {name : String}
    {started canceled : Bool} (h : s.outline.profile watcher = some (name, started, canceled))
    (sec : Section) : ∃ started' canceled',
      (s.perform sec).1.outline.profile watcher = some (name, started', canceled') ∧
        Marking watcher (s.perform sec).2 started canceled started' canceled' := by
  have hkept : ∀ {after : Session σ τ α}, after.outline.profile watcher = s.outline.profile watcher →
      ∃ started' canceled', after.outline.profile watcher = some (name, started', canceled') ∧
        Marking watcher [] started canceled started' canceled' :=
    fun hprofile => ⟨started, canceled, hprofile.trans h, .keeps rfl rfl⟩
  have hperforms := s.performs_perform sec
  generalize s.perform sec = performed at hperforms ⊢
  cases hperforms with
  | @starts id found hget hstarted =>
    rw [profile_setWatcherState hget]
    by_cases hid : watcher = id
    · subst hid
      rw [profile_of_get? hget, hstarted, Option.some.injEq, Prod.mk.injEq, Prod.mk.injEq] at h
      obtain ⟨rfl, rfl, rfl⟩ := h
      refine ⟨true, found.state.canceled, if_pos rfl, .starts ?_ ?_⟩
      · cases found.state.canceled <;> simp
      · cases found.state.canceled <;> simp
    · refine ⟨started, canceled, (if_neg hid).trans h, .keeps ?_ ?_⟩
      · cases found.state.canceled <;> simp [Ne.symm hid]
      · cases found.state.canceled <;> simp
  | @cancels id found hget hlive =>
    obtain ⟨hregister, hunregister⟩ := found.state.cancellation.count_sections id watcher
    rw [profile_setWatcherState hget]
    by_cases hid : watcher = id
    · subst hid
      rw [profile_of_get? hget, hlive, Option.some.injEq, Prod.mk.injEq, Prod.mk.injEq] at h
      obtain ⟨rfl, rfl, rfl⟩ := h
      refine ⟨found.state.started, true, if_pos rfl, .cancels hregister ?_⟩
      rw [hunregister]
      exact if_congr (and_iff_left rfl) rfl rfl
    · refine ⟨started, canceled, (if_neg hid).trans h, .keeps hregister ?_⟩
      rw [hunregister, if_neg fun h => hid h.2.symm]
  | rests => exact hkept rfl
  | registers => exact hkept rfl
  | fetches => exact hkept ((s.tracked_fetch _ _).profile watcher)
  | refuses => exact hkept rfl
  | refetches => exact hkept ((s.tracked_refetch _).profile watcher)
  | unsubscribes => exact hkept rfl
  | unregisters => exact hkept rfl
  | halts => exact hkept (((s.tracked_cancelToken _).trans (tracked_report _ _)).profile watcher)

end Session

namespace Concurrent

variable {σ τ α : Type}

/-- The sections that were carried out, and those that are left to do. -/
def sections (s : Concurrent σ τ α) : List Section := s.performed ++ s.pending

/-- A watcher of an operation with this name is registered as the sections say that were carried out,
and as its marks say there are sections that do so. -/
structure Ordered (s : Concurrent σ τ α) (watcher : WatcherId) (name : String) : Prop where
  marked : ∃ started canceled,
    s.tasks.session.outline.profile watcher = some (name, started, canceled) ∧
      Marked started canceled (s.sections.count (.register watcher))
        (s.sections.count (.unregister watcher))
  filed : ∀ other, watcher ∈ s.tasks.session.tracker.watchersOf other ↔
    entered watcher s.performed = true ∧ other = name

/-- A section that is carried out is no more to be done, and what it leaves to do is added. -/
theorem count_proceeds {s : Concurrent σ τ α} {before after : List (List Section)} {sec : Section}
    {rest : List Section} (h : s.threads = before ++ (sec :: rest) :: after)
    (left : List Section) (other : Section) :
    ((s.performed ++ [sec]) ++ (before ++ (left ++ rest) :: after).flatten).count other =
      s.sections.count other + left.count other := by
  obtain ⟨others, hbefore, hafter⟩ := exists_pending_proceeds h
  have hpending : s.pending.count other = _ := hbefore.count_eq other
  have hpending' := (hafter left).count_eq other
  simp only [sections, List.count_append, List.count_cons, List.count_nil] at hpending hpending' ⊢
  omega

theorem Ordered.of_tracked {s s' : Concurrent σ τ α} {watcher : WatcherId} {name : String}
    (h : s.Ordered watcher name) (htracked : s.tasks.Tracked s'.tasks)
    (hperformed : s'.performed = s.performed)
    (hregister : s'.pending.count (.register watcher) = s.pending.count (.register watcher))
    (hunregister : s'.pending.count (.unregister watcher) =
      s.pending.count (.unregister watcher)) : s'.Ordered watcher name where
  marked := by
    rw [htracked.profile, sections, hperformed, List.count_append, List.count_append, hregister,
      hunregister, ← List.count_append, ← List.count_append]
    exact h.marked
  filed other := by
    rw [Tracker.watchersOf, htracked.watchers, hperformed]
    exact h.filed other

theorem Ordered.acts [Storage σ] {client : Client τ} {s s' : Concurrent σ τ α}
    {watcher : WatcherId} {name : String} (h : s.Ordered watcher name) (hacts : s.Acts client s') :
    s'.Ordered watcher name := by
  cases hacts with
  | rests => exact h
  | moves hopens => exact h.of_tracked (Interleaved.tracked_step client hopens) rfl rfl rfl
  | @begins tasks sections hwithdraws hbegin =>
    have hnone : ∀ sec : Section, sec.opens = false → sections.count sec = 0 := by
      intro sec hsec
      refine List.count_eq_zero.mpr fun hmem => ?_
      rw [hbegin sec hmem] at hsec
      cases hsec
    refine h.of_tracked (Interleaved.tracked_of_withdraws hwithdraws) rfl ?_ ?_
    · rw [pending_begins, List.count_append, hnone (.register watcher) rfl, Nat.add_zero]
    · rw [pending_begins, List.count_append, hnone (.unregister watcher) rfl, Nat.add_zero]
  | @proceeds before sec rest after hthreads =>
    obtain ⟨started, canceled, hprofile, hmarked⟩ := h.marked
    obtain ⟨started', canceled', hprofile', hmarking⟩ :=
      s.tasks.session.exists_marking_perform hprofile sec
    refine ⟨⟨started', canceled', hprofile', ?_⟩, fun other => ?_⟩
    · have hafterwards := hmarked.marking hmarking
      rw [← count_proceeds hthreads, ← count_proceeds hthreads] at hafterwards
      exact hafterwards
    · rw [Session.mem_watchersOf_perform hprofile, h.filed other, entered_concat]
      by_cases hregister : sec = .register watcher
      · simp [hregister]
      · by_cases hunregister : sec = .unregister watcher
        · simp [hunregister]
        · simp [hregister, hunregister]

/-- The fetches of a watcher have ended. -/
structure Fetchless (s : Concurrent σ τ α) (watcher : WatcherId) : Prop where
  tasks : ∀ task ∈ s.tasks.session.outline.tasks, task.owner? ≠ some (.watcher watcher)
  arrived : ∀ arrival ∈ s.tasks.arrived, arrival.1.purpose.owner? ≠ some (.watcher watcher)

/-- A watcher that was made, and nothing else. -/
structure Untouched (s : Concurrent σ τ α) (watcher : WatcherId) (name : String) : Prop where
  profile : s.tasks.session.outline.profile watcher = some (name, false, false)
  unregistered : ∀ other, watcher ∉ s.tasks.session.tracker.watchersOf other
  sections : ∀ sec ∈ s.sections, sec.watcher ≠ watcher
  fetchless : s.Fetchless watcher

/-- A watcher is canceled, and all operations on it have returned that have begun. -/
structure Returned (s : Concurrent σ τ α) (watcher : WatcherId) : Prop where
  canceled : ∃ name started, s.tasks.session.outline.profile watcher = some (name, started, true)
  pending : ∀ sec ∈ s.pending, sec.watcher = watcher → sec.opens = true

/-- The registration of a watcher has come after its end. -/
def Overtaken (s : Concurrent σ τ α) (watcher : WatcherId) : Prop :=
  [.unregister watcher, .register watcher].Sublist s.performed

instance (s : Concurrent σ τ α) (watcher : WatcherId) : Decidable (s.Overtaken watcher) :=
  inferInstanceAs (Decidable (List.Sublist _ _))

/-- What is counted that has nothing to do with a watcher. -/
def elsewhere (s : Concurrent σ τ α) (watcher : WatcherId) : Nat :=
  (s.tasks.arrived.countP fun arrival => arrival.1.purpose.owner? ≠ some (.watcher watcher)) +
    (s.tasks.session.outline.tasks.countP fun task =>
      task.begins?.isNone = true ∧ task.owner? ≠ some (.watcher watcher)) +
    s.tasks.session.tracker.allWatchers.countP (· ≠ watcher)

/-- A watcher has left nothing behind since an earlier moment. -/
structure Forgotten (before now : Concurrent σ τ α) (watcher : WatcherId) : Prop where
  entry : watcher ∉ now.tasks.session.tracker.allWatchers
  reached : ∀ names, watcher ∉ now.tasks.session.tracker.activeWatchers names
  /-- The count has changed by what has nothing to do with the watcher. -/
  active : now.tasks.session.tracker.active + before.elsewhere watcher =
    before.tasks.session.tracker.active + now.elsewhere watcher

variable {watcher : WatcherId} {name : String}

theorem active_eq_elsewhere {s : Concurrent σ τ α} (hs : s.tasks.Accounted)
    (hfetchless : s.Fetchless watcher)
    (hentry : watcher ∉ s.tasks.session.tracker.allWatchers) :
    s.tasks.session.tracker.active = s.elsewhere watcher := by
  have harrived : (s.tasks.arrived.countP fun arrival =>
      arrival.1.purpose.owner? ≠ some (.watcher watcher)) = s.tasks.arrived.length :=
    List.countP_eq_length.mpr fun arrival harrival =>
      decide_eq_true (hfetchless.arrived arrival harrival)
  have htasks : (s.tasks.session.outline.tasks.countP fun task =>
      task.begins?.isNone = true ∧ task.owner? ≠ some (.watcher watcher)) =
        s.tasks.session.outline.guards :=
    Multiset.countP_congr rfl fun task htask =>
      propext (and_iff_left (hfetchless.tasks task htask))
  have hwatchers : s.tasks.session.tracker.allWatchers.countP (· ≠ watcher) =
      s.tasks.session.tracker.allWatchers.length := by
    refine List.countP_eq_length.mpr fun other hother => decide_eq_true ?_
    rintro rfl
    exact hentry hother
  rw [elsewhere, harrived, htasks, hwatchers]
  exact hs.accounts.active

theorem Untouched.ordered {s : Concurrent σ τ α} (h : s.Untouched watcher name) :
    s.Ordered watcher name where
  marked := by
    have hnone : ∀ sec : Section, sec.watcher = watcher → s.sections.count sec = 0 :=
      fun sec hsec => List.count_eq_zero.mpr fun hmem => h.sections sec hmem hsec
    rw [hnone _ rfl, hnone _ rfl]
    exact ⟨false, false, h.profile, Nat.zero_le 1, fun _ => rfl, fun h => Bool.noConfusion h, rfl⟩
  filed other := by
    refine iff_of_false (h.unregistered other) fun hentered => ?_
    obtain ⟨before, after, hperformed, -⟩ := entered_iff.mp hentered.1
    refine h.sections (.register watcher) (List.mem_append_left _ ?_) rfl
    rw [hperformed]
    exact List.mem_append_right _ List.mem_cons_self

/-- If the registration of a watcher has not ended, it has come too late. -/
theorem Ordered.entered_eq_false {s : Concurrent σ τ α} (h : s.Ordered watcher name)
    (hreturned : s.Returned watcher) (hinTime : ¬ s.Overtaken watcher) :
    entered watcher s.performed = false := by
  refine Bool.eq_false_iff.mpr fun hentered => hinTime ?_
  obtain ⟨before, after, hperformed, hafter⟩ := entered_iff.mp hentered
  obtain ⟨started, canceled, hprofile, hmarked⟩ := h.marked
  obtain ⟨_, _, hcanceled⟩ := hreturned.canceled
  rw [hprofile, Option.some.injEq, Prod.mk.injEq, Prod.mk.injEq] at hcanceled
  obtain ⟨-, -, rfl⟩ := hcanceled
  have hcount : ∀ sec : Section, sec.watcher = watcher → sec.opens = false →
      s.sections.count sec = s.performed.count sec := by
    intro sec hwatcher hopens
    have hnone : s.pending.count sec = 0 := List.count_eq_zero.mpr fun hmem => by
      rw [hreturned.pending sec hmem hwatcher] at hopens
      cases hopens
    rw [sections, List.count_append, hnone, Nat.add_zero]
  have hended := hmarked.ended
  rw [hcount _ rfl rfl, hcount _ rfl rfl, if_pos rfl] at hended
  have hregister : 0 < s.performed.count (.register watcher) := by
    rw [hperformed]
    exact List.count_pos_iff.mpr (List.mem_append_right _ List.mem_cons_self)
  have hunregister : .unregister watcher ∈ s.performed := by
    rw [← hended] at hregister
    exact List.count_pos_iff.mp hregister
  rw [hperformed] at hunregister
  refine List.cons_sublist_iff.mpr
    ⟨before, _, hperformed, ?_, List.singleton_sublist.mpr List.mem_cons_self⟩
  rcases List.mem_append.mp hunregister with hbefore | hmem
  · exact hbefore
  · rcases List.mem_cons.mp hmem with heq | hmem
    · cases heq
    · exact absurd hmem hafter

/-- The registration that comes after its end does not end, for there is one end only. -/
theorem Ordered.entered_of_overtaken {s : Concurrent σ τ α} (h : s.Ordered watcher name)
    (hovertaken : s.Overtaken watcher) : entered watcher s.performed = true := by
  obtain ⟨early, late, hperformed, hearly, hlate⟩ := List.cons_sublist_iff.mp hovertaken
  obtain ⟨before, after, rfl⟩ := List.append_of_mem (List.singleton_sublist.mp hlate)
  rw [← List.append_assoc] at hperformed
  obtain ⟨started, canceled, -, hmarked⟩ := h.marked
  refine entered_iff.mpr ⟨_, after, hperformed, fun hafter => ?_⟩
  have hended : s.sections.count (.unregister watcher) ≤ 1 := by
    rw [hmarked.ended]
    split
    · exact hmarked.once
    · exact Nat.zero_le 1
  have hfirst := List.count_pos_iff.mpr hearly
  have hsecond := List.count_pos_iff.mpr hafter
  rw [sections, hperformed] at hended
  simp only [List.count_append, List.count_cons] at hended
  omega

section Runs

variable [Storage σ] {client : Client τ} {s s' : Concurrent σ τ α}

theorem Ordered.run (client : Client τ) (h : s.Ordered watcher name) (acts : List Act) :
    (s.run client acts).Ordered watcher name :=
  run_induction (motive := fun now => now.Ordered watcher name) (fun h hacts => h.acts hacts) h acts

theorem Overtaken.acts (h : s.Overtaken watcher) (hacts : s.Acts client s') :
    s'.Overtaken watcher := by
  cases hacts with
  | proceeds => exact h.trans (List.sublist_append_left _ _)
  | _ => exact h

theorem Overtaken.run (client : Client τ) (h : s.Overtaken watcher) (acts : List Act) :
    (s.run client acts).Overtaken watcher :=
  run_induction (motive := fun now => now.Overtaken watcher) (fun h hacts => h.acts hacts) h acts

/-- Once a watcher is canceled, all operations on it have returned and its fetches have ended, it has
left nothing behind, unless its registration has come after its end. If that is so it stays registered
for ever, and the client never becomes idle. -/
theorem forgotten_run (hs : s.tasks.Accounted) (hnew : s.Untouched watcher name)
    (acts : List Act) (hreturned : (s.run client acts).Returned watcher)
    (hfetchless : (s.run client acts).Fetchless watcher) :
    (¬ (s.run client acts).Overtaken watcher → s.Forgotten (s.run client acts) watcher) ∧
      ((s.run client acts).Overtaken watcher → ∀ more,
        watcher ∈ ((s.run client acts).run client more).tasks.session.tracker.watchersOf name ∧
          0 < ((s.run client acts).run client more).tasks.session.tracker.active) := by
  have haccounted := accounted_run client hs acts
  have hnow := hnew.ordered.run client acts
  refine ⟨fun hinTime => ?_, fun hovertaken more => ?_⟩
  · have hout : ∀ other, watcher ∉ (s.run client acts).tasks.session.tracker.watchersOf other := by
      intro other hmem
      rw [hnow.filed, hnow.entered_eq_false hreturned hinTime] at hmem
      cases hmem.1
    have hentry := haccounted.accounts.not_mem_allWatchers hout
    have hentryBefore := hs.accounts.not_mem_allWatchers hnew.unregistered
    refine ⟨hentry, fun names hmem => ?_, ?_⟩
    · obtain ⟨other, -, hother⟩ := List.mem_flatMap.mp hmem
      exact hout other hother
    · rw [active_eq_elsewhere haccounted hfetchless hentry,
        active_eq_elsewhere hs hnew.fetchless hentryBefore, Nat.add_comm]
  · have hlater := hnow.run client more
    have hmem := (hlater.filed name).mpr
      ⟨hlater.entered_of_overtaken (hovertaken.run client more), rfl⟩
    have hcounts := (accounted_run client haccounted more).accounts
    have hall := List.length_pos_of_mem (hcounts.mem_allWatchers_iff.mpr ⟨name, hmem⟩)
    refine ⟨hmem, ?_⟩
    rw [hcounts.active]
    omega

end Runs

section Beacon

private def beaconQuery : Operation :=
  { name := "Beacon", document := "", id := "beacon", selections := [
    .field { responseName := "beacon", name := "beacon" } .leaf] }

private def beaconClient : Client Unit :=
  { server := { url := "" }, transport := ⟨fun _ s => ({ result := .error "" }, s)⟩ }

/-- Two are about to watch the beacon. -/
private def beacon : Concurrent MemoryContents Unit Json where
  tasks :=
    { session :=
      { store := { resolver := .byTypeAndId, contents := .empty }
        transport := ()
        watchers := [
          (⟨0⟩, { options := { operation := beaconQuery }, decoder := some }),
          (⟨1⟩, { options := { operation := beaconQuery }, decoder := some })] } }

/-- The second watcher is registered and begins to fetch, and so does the first one. Only then is the
first one canceled, and its fetch comes to its end. -/
private def cancelsLate : List Act :=
  [.move (.watch ⟨1⟩), .move (.watch ⟨0⟩), .move (.cancelWatcher ⟨0⟩), .proceed 0, .proceed 0,
    .proceed 1, .proceed 1, .proceed 1, .proceed 2, .proceed 2, .proceed 0, .proceed 2,
    .move (.advance 0), .move (.handOver 0)]

/-- The first watcher is marked as started, and canceled before it is registered. -/
private def cancelsBetween : List Act :=
  [.move (.watch ⟨0⟩), .move (.cancelWatcher ⟨0⟩), .proceed 0, .proceed 1, .proceed 1, .proceed 0,
    .proceed 0]

private theorem accounted_beacon : beacon.tasks.Accounted where
  accounts := Tracker.accounts_new
  known := by
    intro task htask
    cases htask

private theorem untouched_beacon : beacon.Untouched ⟨0⟩ "Beacon" where
  profile := rfl
  unregistered _ := List.not_mem_nil
  sections _ h := absurd h List.not_mem_nil
  fetchless := ⟨by decide +kernel, by decide +kernel⟩

private theorem returned_cancelsLate : (beacon.run beaconClient cancelsLate).Returned ⟨0⟩ where
  canceled := ⟨"Beacon", true, by decide +kernel⟩
  pending := by decide +kernel

private theorem returned_cancelsBetween :
    (beacon.run beaconClient cancelsBetween).Returned ⟨0⟩ where
  canceled := ⟨"Beacon", true, by decide +kernel⟩
  pending := by decide +kernel

theorem forgotten_run_beacon :
    beacon.tasks.Accounted ∧ beacon.Untouched ⟨0⟩ "Beacon" ∧
      ((beacon.run beaconClient cancelsLate).Returned ⟨0⟩ ∧
        (beacon.run beaconClient cancelsLate).Fetchless ⟨0⟩ ∧
        beacon.Forgotten (beacon.run beaconClient cancelsLate) ⟨0⟩) ∧
      (beacon.run beaconClient cancelsBetween).Returned ⟨0⟩ ∧
        (beacon.run beaconClient cancelsBetween).Fetchless ⟨0⟩ ∧
        ∀ more, 0 < ((beacon.run beaconClient cancelsBetween).run beaconClient
          more).tasks.session.tracker.active := by
  have hlate : (beacon.run beaconClient cancelsLate).Fetchless ⟨0⟩ :=
    ⟨by decide +kernel, by decide +kernel⟩
  have hbetween : (beacon.run beaconClient cancelsBetween).Fetchless ⟨0⟩ :=
    ⟨by decide +kernel, by decide +kernel⟩
  refine ⟨accounted_beacon, untouched_beacon, ⟨returned_cancelsLate, hlate, ?_⟩,
    returned_cancelsBetween, hbetween, fun more => ?_⟩
  · exact (forgotten_run accounted_beacon untouched_beacon _ returned_cancelsLate hlate).1
      (by decide +kernel)
  · exact ((forgotten_run accounted_beacon untouched_beacon _ returned_cancelsBetween hbetween).2
      (by decide +kernel) more).2

/-- A canceled watcher stays registered: the client was idle, and is no more although nothing is under
way, and fetching again by name reaches the watcher. -/
theorem exists_canceled_registered :
    beacon.Untouched ⟨0⟩ "Beacon" ∧ beacon.tasks.session.tracker.active = 0 ∧
      (beacon.run beaconClient cancelsBetween).Returned ⟨0⟩ ∧
      (beacon.run beaconClient cancelsBetween).Fetchless ⟨0⟩ ∧
      (beacon.run beaconClient cancelsBetween).performed =
        [.start ⟨0⟩, .cancel ⟨0⟩, .unregister ⟨0⟩, .register ⟨0⟩, .fetch ⟨0⟩] ∧
      (beacon.run beaconClient cancelsBetween).tasks.session.tracker.active = 1 ∧
      (beacon.run beaconClient cancelsBetween).tasks.session.tracker.allWatchers = [⟨0⟩] ∧
      (beacon.run beaconClient cancelsBetween).tasks.session.tracker.activeWatchers ["Beacon"] =
        [⟨0⟩] :=
  ⟨untouched_beacon, rfl, returned_cancelsBetween, ⟨by decide +kernel, by decide +kernel⟩,
    by decide +kernel, by decide +kernel, by decide +kernel, by decide +kernel⟩

end Beacon

end Concurrent

end GraphClient
