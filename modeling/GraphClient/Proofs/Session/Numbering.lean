import GraphClient.Proofs.Session.Tokens

/-!
# The numbers of calls and tokens

Calls and tokens are numbered as they are made. A session is `Numbered` when nothing in it has a
number that is still to be given. A new session is, and whatever the user and the tasks do, it stays
so (`numbered_of_reachable`). So the number of a new call is one that no task and no event ever had,
and its token was never held by anybody.
-/

namespace GraphClient

namespace Outline

variable {α : Type} {o o' : Outline α}

/-- Calls and tokens have numbers below the next. -/
structure Numbered (o : Outline α) : Prop where
  calls : ∀ id call, Assoc.get? o.calls id = some call →
    id.number < o.nextCall ∧ call.token.number < o.tokens.next
  lent : ∀ n, o.Lent n → n < o.tokens.next
  canceled : ∀ n ∈ o.tokens.canceled, n < o.tokens.next
  tasks : ∀ task ∈ o.tasks, ∀ id, task.owner? = some (.call id) → id.number < o.nextCall
  told : ∀ event ∈ o.told, ∀ id, event.owner? = some (.call id) → id.number < o.nextCall

namespace Numbered

/-- Tokens are lent and canceled, and no task and no event of a call is new but those of a call that
has a number. -/
theorem of_hands (ho : o.Numbered) (h : Hands o o')
    (hleaves : ∀ id : CallId, o.nextCall ≤ id.number →
      o'.tasksOf (.call id) = o.tasksOf (.call id) ∧ o'.toldTo (.call id) = o.toldTo (.call id)) :
    o'.Numbered := by
  have hold : ∀ n, o.Lent n ∨ o.Issues o' n → n < o'.tokens.next := by
    rintro n (hlent | hissued)
    · exact Nat.lt_of_lt_of_le (ho.lent n hlent) h.next
    · exact hissued.2
  constructor
  case calls =>
    intro id call' hcall'
    obtain ⟨call, hcall, htoken⟩ := h.call id call' hcall'
    obtain ⟨hid, hnumber⟩ := ho.calls id call hcall
    rw [h.nextCall, htoken]
    exact ⟨hid, Nat.lt_of_lt_of_le hnumber h.next⟩
  case lent => exact fun n hn => hold n (h.lent n hn)
  case canceled =>
    intro n hn
    rcases h.canceled n hn with hcanceled | hnew
    · exact Nat.lt_of_lt_of_le (ho.canceled n hcanceled) h.next
    · exact hold n hnew
  case tasks =>
    intro task hmem id howner
    rw [h.nextCall]
    by_contra hunknown
    have htask : task ∈ o'.tasksOf (.call id) := Multiset.mem_filter.mpr ⟨hmem, howner⟩
    rw [(hleaves id (Nat.le_of_not_lt hunknown)).1] at htask
    exact hunknown (ho.tasks task (Multiset.mem_filter.mp htask).1 id howner)
  case told =>
    intro event hmem id howner
    rw [h.nextCall]
    by_contra hunknown
    have hevent : event ∈ o'.toldTo (.call id) :=
      List.mem_filter.mpr ⟨hmem, decide_eq_true howner⟩
    rw [(hleaves id (Nat.le_of_not_lt hunknown)).2] at hevent
    exact hunknown (ho.told event (List.mem_filter.mp hevent).1 id howner)

/-- What is changed for a call that has a number, or for somebody else, gives no other call a task or
an event. -/
theorem of_changes {who : Option Owner} (ho : o.Numbered) (h : Changes who o o')
    (hwho : ∀ id, who = some (.call id) → id.number < o.nextCall) : o'.Numbered := by
  refine ho.of_hands h.hands fun id hunknown => ?_
  have hne : who ≠ some (.call id) := fun heq => Nat.not_le_of_lt (hwho id heq) hunknown
  have hleaves := (h.aside hne).leaves_call
  exact ⟨hleaves.tasks, hleaves.told⟩

end Numbered

end Outline

namespace Session

variable {σ τ α : Type}

theorem numbered_new (store : Store σ WatcherId) (transport : τ) :
    ({ store := store, transport := transport } : Session σ τ α).outline.Numbered where
  calls _ _ h := by cases h
  lent n h := by
    cases h with
    | refetches h => cases h
    | active h => cases h
  canceled _ h := by cases h
  tasks _ h := by cases h
  told _ h := by cases h

/-- The call that was made last is lent nothing, so whoever holds a token held it before. -/
theorem lent_of_lent_newCall {s : Session σ τ α} {options : CallOptions}
    {decoder : Json → Option α} {n : Nat} (h : (s.newCall options decoder).2.outline.Lent n) :
    s.outline.Lent n := by
  cases h with
  | @refetches other call token hcall htoken =>
    by_cases hne : other = (s.newCall options decoder).1
    · have hself := Assoc.get?_insert_self s.calls (s.newCall options decoder).1
        { options := options, decoder := decoder, token := s.tokens.fresh.1 }
      rw [hne] at hcall
      cases hself.symm.trans hcall
      cases htoken
    · exact .refetches ((Assoc.get?_insert_of_ne _ _ hne).symm.trans hcall) htoken
  | active hwatcher htoken => exact .active hwatcher htoken

theorem numbered_newCall {s : Session σ τ α} (h : s.outline.Numbered) (options : CallOptions)
    (decoder : Json → Option α) : (s.newCall options decoder).2.outline.Numbered where
  calls id call hcall := by
    by_cases hid : id = (s.newCall options decoder).1
    · have hself := Assoc.get?_insert_self s.calls (s.newCall options decoder).1
        { options := options, decoder := decoder, token := s.tokens.fresh.1 }
      rw [hid] at hcall
      cases hself.symm.trans hcall
      rw [hid]
      exact ⟨Nat.lt_succ_self _, Nat.lt_succ_self _⟩
    · obtain ⟨hnumber, htoken⟩ := h.calls id call ((Assoc.get?_insert_of_ne _ _ hid).symm.trans hcall)
      exact ⟨Nat.lt_succ_of_lt hnumber, Nat.lt_succ_of_lt htoken⟩
  lent n hn := Nat.lt_succ_of_lt (h.lent n (lent_of_lent_newCall hn))
  canceled n hn := Nat.lt_succ_of_lt (h.canceled n hn)
  tasks task hmem id howner := Nat.lt_succ_of_lt (h.tasks task hmem id howner)
  told event hmem id howner := Nat.lt_succ_of_lt (h.told event hmem id howner)

theorem numbered_override {s s' : Session σ τ α} {id : CallId} {overrides : CallOverrides}
    (h : s.outline.Numbered) (hoverride : s.override id overrides = .ok s') :
    s'.outline.Numbered := by
  cases hcall : Assoc.get? s.calls id with
  | none =>
    rw [override, hcall] at hoverride
    cases hoverride
    exact h
  | some call =>
    rw [override, hcall] at hoverride
    dsimp only at hoverride
    have hset : ∀ options, (s.setCall id { call with options := options }).outline.Numbered :=
      fun options => h.of_hands ((Outline.Hands.refl _).setCall hcall rfl fun _ => .inl)
        fun _ _ => ⟨rfl, rfl⟩
    rw [Call.override] at hoverride
    split at hoverride
    · cases hoverride
      exact hset call.options
    · split at hoverride
      · cases hoverride
      · cases hoverride
        exact hset _

theorem numbered_watcher {s s' : Session σ τ α} {call : Call α} {id : WatcherId}
    (h : s.outline.Numbered) (hwatcher : s.watcher call = .ok (id, s')) : s'.outline.Numbered := by
  rw [watcher] at hwatcher
  split at hwatcher
  · cases hwatcher
    refine { h with lent := fun n hn => h.lent n ?_ }
    cases hn with
    | refetches hcall htoken => exact .refetches hcall htoken
    | @active other watcher token hfound htoken =>
      by_cases hother : other = s.tracker.allocate.1
      · have hself := Assoc.get?_insert_self s.watchers s.tracker.allocate.1
          { options := call.options, decoder := call.decoder }
        rw [hother] at hfound
        cases hself.symm.trans hfound
        cases htoken
      · exact .active ((Assoc.get?_insert_of_ne _ _ hother).symm.trans hfound) htoken
  · cases hwatcher

theorem numbered_withRefetchControl {s s' : Session σ τ α} {id : WatcherId} {control : CacheControl}
    (h : s.outline.Numbered) (hcontrol : s.withRefetchControl id control = .ok s') :
    s'.outline.Numbered := by
  cases hwatcher : Assoc.get? s.watchers id with
  | none =>
    rw [withRefetchControl, hwatcher] at hcontrol
    cases hcontrol
    exact h
  | some watcher =>
    rw [withRefetchControl, hwatcher] at hcontrol
    dsimp only at hcontrol
    rw [WatcherState.withRefetchControl] at hcontrol
    split at hcontrol
    · cases hcontrol
    · cases hcontrol
      rw [outline_setWatcherState hwatcher]
      exact h.of_hands ((Outline.Hands.refl _).setWatcher hwatcher fun _ => .inl)
        fun _ _ => ⟨rfl, rfl⟩

theorem numbered_cancelCall {s : Session σ τ α} (h : s.outline.Numbered) (id : CallId) :
    (s.cancelCall id).outline.Numbered := by
  cases hcall : Assoc.get? s.calls id with
  | none =>
    rw [cancelCall, hcall]
    exact h
  | some call =>
    rw [outline_cancelCall hcall]
    constructor
    case calls =>
      rw [Call.next_cancel]
      exact h.calls
    case lent =>
      rw [Call.next_cancel]
      exact fun n hn => h.lent n (hn.of_eq rfl rfl)
    case canceled =>
      intro n hn
      rw [Call.next_cancel]
      rcases Call.mem_canceled_cancel.mp hn with rfl | ⟨token, hrefetches, rfl⟩ | hold
      · exact (h.calls id call hcall).2
      · exact h.lent _ (.refetches hcall hrefetches)
      · exact h.canceled n hold
    case tasks => exact h.tasks
    case told => exact h.told

variable [Storage σ]

/-- A move is about a call that has a number, or nothing can be done with the call. -/
theorem number_lt_of_concerned? (client : Client τ) {s : Session σ τ α} (h : s.outline.Numbered)
    (m : Move) : (∀ id, s.concerned? m = some (.call id) → id.number < s.nextCall) ∨
      s.move client m = s := by
  cases m with
  | advance index =>
    refine .inl fun id hconcerned => ?_
    obtain ⟨task, hready, howner⟩ := Option.bind_eq_some_iff.mp hconcerned
    obtain ⟨execution, hexecution, -⟩ := Option.bind_eq_some_iff.mp howner
    refine h.tasks task ?_ id howner
    rw [outline_taking hready hexecution]
    exact Multiset.mem_cons_self task (s.taking index).outline.tasks
  | execute id =>
    cases hcall : Assoc.get? s.calls id with
    | none =>
      refine .inr ?_
      change s.execute id = s
      rw [execute, hcall]
    | some call => exact .inl fun _ hconcerned => by cases hconcerned; exact (h.calls id call hcall).1
  | enqueue id =>
    cases hcall : Assoc.get? s.calls id with
    | none =>
      refine .inr ?_
      change (s.enqueue id).toOption.getD s = s
      rw [enqueue, hcall]
      rfl
    | some call => exact .inl fun _ hconcerned => by cases hconcerned; exact (h.calls id call hcall).1
  | _ => exact .inl fun _ hconcerned => by cases hconcerned

theorem numbered_move (client : Client τ) {s : Session σ τ α} (h : s.outline.Numbered) (m : Move) :
    (s.move client m).outline.Numbered := by
  by_cases hcancels : ∃ id, m = .cancelCall id
  · obtain ⟨id, rfl⟩ := hcancels
    exact numbered_cancelCall h id
  · rw [not_exists] at hcancels
    rcases number_lt_of_concerned? client h m with hknown | hsame
    · exact h.of_changes (s.changes_move client hcancels) hknown
    · rwa [hsame]

/-- What becomes of a new session in the hands of its user. -/
inductive Reachable (client : Client τ) : Session σ τ α → Prop
  | new (store : Store σ WatcherId) (transport : τ) :
      Reachable client { store := store, transport := transport }
  | newCall {s : Session σ τ α} (options : CallOptions) (decoder : Json → Option α) :
      Reachable client s → Reachable client (s.newCall options decoder).2
  | override {s s' : Session σ τ α} {id : CallId} {overrides : CallOverrides} :
      Reachable client s → s.override id overrides = .ok s' → Reachable client s'
  | watcher {s s' : Session σ τ α} {call : Call α} {id : WatcherId} :
      Reachable client s → s.watcher call = .ok (id, s') → Reachable client s'
  | withRefetchControl {s s' : Session σ τ α} {id : WatcherId} {control : CacheControl} :
      Reachable client s → s.withRefetchControl id control = .ok s' → Reachable client s'
  | move {s : Session σ τ α} (m : Move) : Reachable client s → Reachable client (s.move client m)

theorem numbered_of_reachable {client : Client τ} {s : Session σ τ α} (h : s.Reachable client) :
    s.outline.Numbered := by
  induction h with
  | new store transport => exact numbered_new store transport
  | newCall options decoder _ ih => exact numbered_newCall ih options decoder
  | override _ hoverride ih => exact numbered_override ih hoverride
  | watcher _ hwatcher ih => exact numbered_watcher ih hwatcher
  | withRefetchControl _ hcontrol ih => exact numbered_withRefetchControl ih hcontrol
  | move m _ ih => exact numbered_move _ ih m

end Session

end GraphClient
