import GraphClient.Proofs.Session.Moving

/-!
# Who may cancel a token

A call cancels its own token, and the token of the fetches that it started once it had succeeded. A
watcher cancels the token of its newest fetch. Such tokens are issued by the session as they are
needed, so a number is never issued twice. Whatever is changed for somebody, only tokens are canceled
that were lent to somebody, or were not issued before (`Changes.hands`); so the token of a call is
canceled with the call and in no other way (`apart_move`).
-/

namespace GraphClient

/-- A token without ancestors is canceled on its own only. -/
theorem Tokens.isCanceled_iff_of_orphan {t : Tokens} {token : Token} (h : token.ancestors = []) :
    t.isCanceled token = true ↔ token.number ∈ t.canceled := by
  rw [isCanceled_iff, h]
  simp only [List.mem_singleton, exists_eq_left]

namespace Outline

variable {α : Type} {o o' o'' : Outline α} {n : Nat}

/-- The token with this number was lent to somebody who may cancel it: to a call for what it fetches
after its success, or to a watcher for its newest fetch. -/
inductive Lent (o : Outline α) : Nat → Prop
  | refetches {id : CallId} {call : Call α} {token : Token} :
      Assoc.get? o.calls id = some call → call.refetchToken = some token → Lent o token.number
  | active {id : WatcherId} {watcher : Watcher α} {token : Token} :
      Assoc.get? o.watchers id = some watcher → watcher.state.active = some token →
      Lent o token.number

theorem Lent.of_eq (h : o'.Lent n) (hcalls : o'.calls = o.calls)
    (hwatchers : o'.watchers = o.watchers) : o.Lent n := by
  cases h with
  | refetches hcall htoken =>
    rw [hcalls] at hcall
    exact .refetches hcall htoken
  | active hwatcher htoken =>
    rw [hwatchers] at hwatcher
    exact .active hwatcher htoken

/-- A token with this number was issued in between. -/
def Issues (o o' : Outline α) (n : Nat) : Prop := o.tokens.next ≤ n ∧ n < o'.tokens.next

/-- Tokens are lent and canceled, and those of calls stay. -/
structure Hands (o o' : Outline α) : Prop where
  nextCall : o'.nextCall = o.nextCall
  next : o.tokens.next ≤ o'.tokens.next
  call : ∀ id call', Assoc.get? o'.calls id = some call' →
    ∃ call, Assoc.get? o.calls id = some call ∧ call'.token = call.token
  lent : ∀ n, o'.Lent n → o.Lent n ∨ o.Issues o' n
  canceled : ∀ n ∈ o'.tokens.canceled, n ∈ o.tokens.canceled ∨ o.Lent n ∨ o.Issues o' n
  kept : ∀ n ∈ o.tokens.canceled, n ∈ o'.tokens.canceled

namespace Hands

theorem of_eq (hcalls : o'.calls = o.calls) (hwatchers : o'.watchers = o.watchers)
    (hnextCall : o'.nextCall = o.nextCall) (hnext : o.tokens.next ≤ o'.tokens.next)
    (hcanceled : o'.tokens.canceled = o.tokens.canceled) : Hands o o' where
  nextCall := hnextCall
  next := hnext
  call id call' hcall := ⟨call', by rwa [hcalls] at hcall, rfl⟩
  lent n hlent := .inl (hlent.of_eq hcalls hwatchers)
  canceled n hn := .inl (hcanceled ▸ hn)
  kept n hn := hcanceled.symm ▸ hn

theorem refl (o : Outline α) : Hands o o := of_eq rfl rfl rfl (Nat.le_refl _) rfl

theorem add (o : Outline α) (task : Task) : Hands o (o.add task) :=
  of_eq rfl rfl rfl (Nat.le_refl _) rfl

theorem remove (o : Outline α) (task : Task) : Hands (o.add task) o :=
  of_eq rfl rfl rfl (Nat.le_refl _) rfl

theorem tell (o : Outline α) (event : Event α) : Hands o (o.tell event) :=
  of_eq rfl rfl rfl (Nat.le_refl _) rfl

theorem trans (h : Hands o o') (h' : Hands o' o'') : Hands o o'' := by
  have hissues : ∀ {n}, o.Issues o' n → o.Issues o'' n :=
    fun hn => ⟨hn.1, Nat.lt_of_lt_of_le hn.2 h'.next⟩
  have hlent : ∀ n, o'.Lent n ∨ o'.Issues o'' n → o.Lent n ∨ o.Issues o'' n := by
    rintro n (hn | hn)
    · exact (h.lent n hn).imp_right hissues
    · exact .inr ⟨Nat.le_trans h.next hn.1, hn.2⟩
  constructor
  case nextCall => exact h'.nextCall.trans h.nextCall
  case next => exact Nat.le_trans h.next h'.next
  case call =>
    intro id call'' hcall
    obtain ⟨call', hcall', htoken'⟩ := h'.call id call'' hcall
    obtain ⟨call, hcall, htoken⟩ := h.call id call' hcall'
    exact ⟨call, hcall, htoken'.trans htoken⟩
  case lent => exact fun n hn => hlent n (h'.lent n hn)
  case canceled =>
    intro n hn
    rcases h'.canceled n hn with hcanceled | hnew
    · exact (h.canceled n hcanceled).imp_right (Or.imp_right hissues)
    · exact .inr (hlent n hnew)
  case kept => exact fun n hn => h'.kept n (h.kept n hn)

/-- A call is replaced by one with the same token; a token that is lent to it is new. -/
theorem setCall {id : CallId} {call call' : Call α} (h : Hands o o')
    (hcall : Assoc.get? o.calls id = some call) (htoken : call'.token = call.token)
    (hlent : ∀ token, call'.refetchToken = some token →
      call.refetchToken = some token ∨ o.Issues o' token.number) :
    Hands o (o'.setCall id call') where
  nextCall := h.nextCall
  next := h.next
  call other found hfound := by
    by_cases hother : other = id
    · subst hother
      rw [Outline.setCall, Assoc.get?_insert_self] at hfound
      cases hfound
      exact ⟨call, hcall, htoken⟩
    · rw [Outline.setCall, Assoc.get?_insert_of_ne _ _ hother] at hfound
      exact h.call other found hfound
  lent n hn := by
    cases hn with
    | @refetches other found token hfound hrefetches =>
      by_cases hother : other = id
      · subst hother
        rw [Outline.setCall, Assoc.get?_insert_self] at hfound
        cases hfound
        exact (hlent token hrefetches).imp_left fun hold => .refetches hcall hold
      · rw [Outline.setCall, Assoc.get?_insert_of_ne _ _ hother] at hfound
        exact h.lent _ (.refetches hfound hrefetches)
    | active hwatcher hactive => exact h.lent _ (.active hwatcher hactive)
  canceled := h.canceled
  kept := h.kept

/-- A watcher is replaced; its newest fetch is what it was, or new. -/
theorem setWatcher {id : WatcherId} {watcher watcher' : Watcher α} (h : Hands o o')
    (hwatcher : Assoc.get? o.watchers id = some watcher)
    (hlent : ∀ token, watcher'.state.active = some token →
      watcher.state.active = some token ∨ o.Issues o' token.number) :
    Hands o (o'.setWatcher id watcher') where
  nextCall := h.nextCall
  next := h.next
  call := h.call
  lent n hn := by
    cases hn with
    | refetches hcall hrefetches => exact h.lent _ (.refetches hcall hrefetches)
    | @active other found token hfound hactive =>
      by_cases hother : other = id
      · subst hother
        rw [Outline.setWatcher, Assoc.get?_insert_self] at hfound
        cases hfound
        exact (hlent token hactive).imp_left fun hold => .active hwatcher hold
      · rw [Outline.setWatcher, Assoc.get?_insert_of_ne _ _ hother] at hfound
        exact h.lent _ (.active hfound hactive)
  canceled := h.canceled
  kept := h.kept

/-- A token that was lent is canceled. -/
theorem cancel {token : Token} (h : Hands o o')
    (hlent : o.Lent token.number) : Hands o (o'.cancel token) where
  nextCall := h.nextCall
  next := h.next
  call := h.call
  lent n hn := h.lent n (hn.of_eq rfl rfl)
  canceled n hn := by
    rcases List.mem_cons.mp hn with rfl | hn
    · exact .inr (.inl hlent)
    · exact h.canceled n hn
  kept n hn := List.mem_cons_of_mem _ (h.kept n hn)

theorem watcherCanceled {id : WatcherId} {watcher : Watcher α}
    (hwatcher : Assoc.get? o.watchers id = some watcher) :
    Hands o (o.watcherCanceled id watcher) := by
  have hset : Hands o (o.setWatcher id (canceling watcher)) :=
    (refl o).setWatcher hwatcher fun _ hactive => by cases hactive
  rw [Outline.watcherCanceled]
  cases hactive : watcher.state.active with
  | none => exact hset
  | some token =>
    exact (hset.cancel (.active hwatcher hactive)).trans (tell _ _)

theorem fetchBegun {id : WatcherId} {watcher : Watcher α}
    (hwatcher : Assoc.get? o.watchers id = some watcher) (control : CacheControl) :
    Hands o (o.fetchBegun id watcher control) := by
  have hissued : Hands o { o with tokens := o.tokens.fresh.2 } :=
    of_eq rfl rfl rfl (Nat.le_succ _) rfl
  have hset : Hands o ({ o with tokens := o.tokens.fresh.2 }.setWatcher id (o.fetching watcher)) := by
    refine hissued.setWatcher hwatcher fun token hactive => .inr ?_
    cases hactive
    exact ⟨Nat.le_refl _, Nat.lt_succ_self _⟩
  rw [Outline.fetchBegun]
  cases hactive : watcher.state.active with
  | none => exact hset.trans (add _ _)
  | some superseded =>
    exact (hset.cancel (.active hwatcher hactive)).trans (add _ _)

end Hands

theorem Hands.refetching (o : Outline α) (parent : Token) (operations : List Operation) :
    Hands { o with tokens := (o.tokens.child parent).2 } (o.refetching parent operations) := by
  rw [Outline.refetching]
  generalize { o with tokens := (o.tokens.child parent).2 } = issued
  induction operations generalizing issued with
  | nil => exact .refl issued
  | cons operation operations ih => exact (add issued _).trans (ih _)

theorem Fetches.hands (h : Fetches o o') : Hands o o' := by
  induction h with
  | refl => exact .refl _
  | tail control _ hwatcher _ _ ih => exact ih.trans (.fetchBegun hwatcher control)

theorem Completes.hands {id : CallId} {call : Call α} {options : CallOptions}
    {ending : Ending Json} (h : o.Completes id call options ending o')
    (hcall : Assoc.get? o.calls id = some call) : Hands o o' := by
  have hcompleted : Hands o (o.setCall id { call with completed := true }) :=
    (Hands.refl o).setCall hcall rfl fun _ => .inl
  cases h with
  | alone => exact hcompleted
  | @refetching fetched _ hfetches =>
    have hissued : Hands (o.setCall id { call with completed := true })
        { o.setCall id { call with completed := true } with
          tokens := (o.tokens.child call.token).2 } :=
      .of_eq rfl rfl rfl (Nat.le_succ _) rfl
    have hbegun := (Hands.refetching (o.setCall id { call with completed := true }) call.token
      options.refetchOperations).trans hfetches.hands
    refine (hcompleted.trans (hissued.trans hbegun)).setCall hcall rfl fun token htoken => ?_
    cases htoken
    exact .inr ⟨Nat.le_refl _, hbegun.next⟩

/-- Whatever is changed, only tokens are canceled that were lent to somebody, or that are new. -/
theorem Changes.hands {who : Option Owner} (h : Changes who o o') : Hands o o' := by
  induction h with
  | refl => exact .refl _
  | add _ _ ih => exact ih.trans (.add _ _)
  | take _ _ ih => exact ih.trans (.remove _ _)
  | tell _ _ ih => exact ih.trans (.tell _ _)
  | call _ _ _ _ hcall ih => exact ih.trans ((Hands.refl _).setCall hcall rfl fun _ => .inl)
  | complete _ _ hcall hcompletes ih => exact ih.trans (hcompletes.hands hcall)
  | watcher _ _ hwatcher hactive ih =>
    exact ih.trans ((Hands.refl _).setWatcher hwatcher fun token h => .inl (hactive token h))
  | cancel _ _ hwatcher ih => exact ih.trans (.watcherCanceled hwatcher)
  | fetch control _ hwatcher _ _ ih => exact ih.trans (.fetchBegun hwatcher control)

/-- The token of a call is its own: its number was issued, and was given to nobody else. -/
structure Apart (o : Outline α) (id : CallId) (n : Nat) : Prop where
  issued : n < o.tokens.next
  notLent : ¬ o.Lent n
  others : ∀ other call, other ≠ id → Assoc.get? o.calls other = some call → call.token.number ≠ n

theorem Apart.of_hands {id : CallId} (ha : o.Apart id n) (h : Hands o o') :
    o'.Apart id n ∧ (n ∈ o'.tokens.canceled → n ∈ o.tokens.canceled) := by
  have hold : ¬ (o.Lent n ∨ o.Issues o' n) := fun hn =>
    hn.elim ha.notLent fun hissues => Nat.not_le_of_lt ha.issued hissues.1
  refine ⟨⟨Nat.lt_of_lt_of_le ha.issued h.next, fun hn => hold (h.lent n hn), ?_⟩, fun hn => ?_⟩
  · intro other call' hother hcall'
    obtain ⟨call, hcall, htoken⟩ := h.call other call' hcall'
    rw [htoken]
    exact ha.others other call hother hcall
  · exact (h.canceled n hn).resolve_right hold

end Outline

namespace Session

variable {σ τ α : Type}

variable [Storage σ]

end Session

end GraphClient
