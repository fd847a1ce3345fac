import GraphClient.Proofs.Session.Offline
import GraphClient.Proofs.Session.Tokens
import GraphClient.Proofs.Session.Turns

/-!
# The newest fetch of a watcher

The token of a fetch is made for it, so no two watchers share one, and as long as nobody is canceled
but watchers and superseded fetches, the newest fetch of a watcher is not canceled (`Unshared`). What
is changed for a watcher or for nobody keeps it that way.

A watcher that is passed aside has begun a newer fetch, or is what it was.
-/

namespace GraphClient

namespace Outline

variable {α : Type} {o o' : Outline α} {id : WatcherId} {watcher watcher' : Watcher α}

/-- The fetch that a watcher has out has a token of its own, which is not canceled. -/
structure Unshared (o : Outline α) : Prop where
  issued : ∀ n ∈ o.tokens.canceled, n < o.tokens.next
  active : ∀ id watcher token, Assoc.get? o.watchers id = some watcher →
    watcher.state.active = some token → token.ancestors = [] ∧ token.number < o.tokens.next ∧
      token.number ∉ o.tokens.canceled
  own : ∀ id id' watcher watcher' token token', Assoc.get? o.watchers id = some watcher →
    Assoc.get? o.watchers id' = some watcher' → watcher.state.active = some token →
    watcher'.state.active = some token' → token.number = token'.number → id = id'

/-- The outline once a token was issued for a fetch, and nothing canceled. -/
def fetchIssued (o : Outline α) (id : WatcherId) (watcher : Watcher α) : Outline α :=
  { o with tokens := o.tokens.fresh.2 }.setWatcher id (o.fetching watcher)

theorem active_fetchIssued {other : WatcherId} {found : Watcher α} {token : Token}
    (hfound : Assoc.get? (o.fetchIssued id watcher).watchers other = some found)
    (htoken : found.state.active = some token) :
    other = id ∧ token = o.tokens.fresh.1 ∨
      other ≠ id ∧ Assoc.get? o.watchers other = some found := by
  by_cases hother : other = id
  · subst hother
    rw [fetchIssued, Outline.setWatcher, Assoc.get?_insert_self] at hfound
    cases hfound
    cases htoken
    exact .inl ⟨rfl, rfl⟩
  · rw [fetchIssued, Outline.setWatcher, Assoc.get?_insert_of_ne _ _ hother] at hfound
    exact .inr ⟨hother, hfound⟩

namespace Unshared

/-- A watcher is replaced by one that has out the same fetch, or none. -/
theorem setWatcher (ho : o.Unshared) (hget : Assoc.get? o.watchers id = some watcher)
    (hactive : ∀ token, watcher'.state.active = some token → watcher.state.active = some token) :
    (o.setWatcher id watcher').Unshared := by
  have hold : ∀ other found token, Assoc.get? (o.setWatcher id watcher').watchers other = some found →
      found.state.active = some token →
      ∃ before, Assoc.get? o.watchers other = some before ∧ before.state.active = some token := by
    intro other found token hfound htoken
    by_cases hother : other = id
    · subst hother
      rw [Outline.setWatcher, Assoc.get?_insert_self] at hfound
      cases hfound
      exact ⟨watcher, hget, hactive token htoken⟩
    · rw [Outline.setWatcher, Assoc.get?_insert_of_ne _ _ hother] at hfound
      exact ⟨found, hfound, htoken⟩
  constructor
  case issued => exact ho.issued
  case active =>
    intro other found token hfound htoken
    obtain ⟨before, hbefore, htoken⟩ := hold other found token hfound htoken
    exact ho.active other before token hbefore htoken
  case own =>
    intro other other' found found' token token' hfound hfound' htoken htoken' hnumber
    obtain ⟨before, hbefore, htoken⟩ := hold other found token hfound htoken
    obtain ⟨before', hbefore', htoken'⟩ := hold other' found' token' hfound' htoken'
    exact ho.own other other' before before' token token' hbefore hbefore' htoken htoken' hnumber

/-- A token is canceled that no watcher needs. -/
theorem cancel (ho : o.Unshared) {token : Token} (hissued : token.number < o.tokens.next)
    (hfree : ∀ id watcher needed, Assoc.get? o.watchers id = some watcher →
      watcher.state.active = some needed → needed.number ≠ token.number) :
    (o.cancel token).Unshared where
  issued n hn := by
    rcases List.mem_cons.mp hn with rfl | hn
    · exact hissued
    · exact ho.issued n hn
  active id watcher needed hget hneeded := by
    obtain ⟨horphan, hnumber, hlive⟩ := ho.active id watcher needed hget hneeded
    refine ⟨horphan, hnumber, fun hcanceled => ?_⟩
    rcases List.mem_cons.mp hcanceled with heq | hcanceled
    · exact hfree id watcher needed hget hneeded heq
    · exact hlive hcanceled
  own := ho.own

theorem watcherCanceled (ho : o.Unshared) (hget : Assoc.get? o.watchers id = some watcher) :
    (o.watcherCanceled id watcher).Unshared := by
  have hset : (o.setWatcher id (canceling watcher)).Unshared :=
    ho.setWatcher hget fun token htoken => by cases htoken
  rw [Outline.watcherCanceled]
  cases hactive : watcher.state.active with
  | none => exact hset
  | some token =>
    have hcanceled : ((o.setWatcher id (canceling watcher)).cancel token).Unshared := by
      refine hset.cancel (ho.active id watcher token hget hactive).2.1 ?_
      intro other found needed hfound hneeded hsame
      by_cases hother : other = id
      · subst hother
        rw [Outline.setWatcher, Assoc.get?_insert_self] at hfound
        cases hfound
        cases hneeded
      · rw [Outline.setWatcher, Assoc.get?_insert_of_ne _ _ hother] at hfound
        exact hother (ho.own other id found watcher needed token hfound hget hneeded hactive hsame)
    exact ⟨hcanceled.issued, hcanceled.active, hcanceled.own⟩

theorem fetchIssued (ho : o.Unshared) : (o.fetchIssued id watcher).Unshared where
  issued n hn := Nat.lt_succ_of_lt (ho.issued n hn)
  active other found token hfound htoken := by
    rcases active_fetchIssued hfound htoken with ⟨-, rfl⟩ | ⟨-, hfound⟩
    · exact ⟨rfl, Nat.lt_succ_self _, fun hn => Nat.lt_irrefl _ (ho.issued _ hn)⟩
    · obtain ⟨horphan, hnumber, hlive⟩ := ho.active other found token hfound htoken
      exact ⟨horphan, Nat.lt_succ_of_lt hnumber, hlive⟩
  own other other' found found' token token' hfound hfound' htoken htoken' hnumber := by
    rcases active_fetchIssued hfound htoken with ⟨rfl, rfl⟩ | ⟨-, hold⟩ <;>
      rcases active_fetchIssued hfound' htoken' with ⟨rfl, rfl⟩ | ⟨-, hold'⟩
    · rfl
    · exact absurd hnumber (Nat.ne_of_gt (ho.active other' found' token' hold' htoken').2.1)
    · exact absurd hnumber (Nat.ne_of_lt (ho.active other found token hold htoken).2.1)
    · exact ho.own other other' found found' token token' hold hold' htoken htoken' hnumber

theorem fetchBegun (ho : o.Unshared) (hget : Assoc.get? o.watchers id = some watcher)
    (control : CacheControl) : (o.fetchBegun id watcher control).Unshared := by
  have hissued : (o.fetchIssued id watcher).Unshared := ho.fetchIssued
  rw [Outline.fetchBegun]
  cases hactive : watcher.state.active with
  | none => exact ⟨hissued.issued, hissued.active, hissued.own⟩
  | some superseded =>
    have hnumber := (ho.active id watcher superseded hget hactive).2.1
    have hcanceled : ((o.fetchIssued id watcher).cancel superseded).Unshared := by
      refine hissued.cancel (Nat.lt_succ_of_lt hnumber) ?_
      intro other found needed hfound hneeded hsame
      rcases active_fetchIssued hfound hneeded with ⟨-, rfl⟩ | ⟨hother, hfound⟩
      · exact Nat.ne_of_gt hnumber hsame
      · exact hother (ho.own other id found watcher needed superseded hfound hget hneeded hactive
          hsame)
    exact ⟨hcanceled.issued, hcanceled.active, hcanceled.own⟩

/-- What is changed for a watcher, or for nobody. -/
theorem of_changes {who : Option Owner} (ho : o.Unshared) (h : Changes who o o')
    (hwho : ∀ id, who ≠ some (.call id)) : o'.Unshared := by
  induction h with
  | refl => exact ho
  | add _ _ ih => exact ⟨ih.issued, ih.active, ih.own⟩
  | take _ _ ih => exact ⟨ih.issued, ih.active, ih.own⟩
  | tell _ _ ih => exact ⟨ih.issued, ih.active, ih.own⟩
  | call _ _ _ hcall _ _ => exact absurd hcall (hwho _)
  | complete _ hcall _ _ _ => exact absurd hcall (hwho _)
  | watcher _ _ hget hactive ih => exact ih.setWatcher hget hactive
  | cancel _ _ hget ih => exact ih.watcherCanceled hget
  | fetch control _ hget _ _ ih => exact ih.fetchBegun hget control

end Unshared

/-- A watcher that is passed aside begins a newer fetch, or nothing happens to it. -/
theorem Aside.same_or_fetching (h : Aside (.watcher id) o o')
    (hget : Assoc.get? o.watchers id = some watcher) :
    ∃ watcher', Assoc.get? o'.watchers id = some watcher' ∧
      (watcher' = watcher ∨ watcher'.state.active.isSome = true ∧
        watcher.state.generation < watcher'.state.generation) := by
  induction h with
  | refl => exact ⟨watcher, hget, .inl rfl⟩
  | leave _ hleaves ih =>
    obtain ⟨watcher', hget', hcases⟩ := ih
    exact ⟨watcher', (hleaves.watcher id rfl).trans hget', hcases⟩
  | @fetch o' other fetching control _ hfetching _ _ ih =>
    obtain ⟨watcher', hget', hcases⟩ := ih
    rw [watchers_fetchBegun]
    by_cases hother : id = other
    · subst hother
      cases hfetching.symm.trans hget'
      refine ⟨_, Assoc.get?_insert_self _ _ _, .inr ⟨rfl, Nat.lt_succ_of_le ?_⟩⟩
      rcases hcases with rfl | ⟨-, hnewer⟩
      · exact Nat.le_refl _
      · exact Nat.le_of_lt hnewer
    · exact ⟨watcher', (Assoc.get?_insert_of_ne _ _ hother).trans hget', hcases⟩

/-- The newest fetch of a watcher that is not canceled is not canceled either. -/
theorem Orderly.isCanceled_eq_false (ho : Orderly o id watcher) (hu : o.Unshared)
    (hlive : watcher.state.canceled = false) {token : Token}
    (hmem : (watcher.state.generation, token) ∈ o.fetchesOf id) :
    o.tokens.isCanceled token = false := by
  cases hactive : watcher.state.active with
  | none => exact absurd rfl (ho.ended hlive hactive _ hmem)
  | some newest =>
    have hnewest := (ho.newest newest hactive).2.2
    have hsame := Multiset.inj_on_of_nodup_map ho.nodup _ hmem _ hnewest rfl
    cases hsame
    obtain ⟨horphan, -, huncanceled⟩ := hu.active id watcher token ho.get hactive
    rw [← Bool.not_eq_true, Tokens.isCanceled_iff_of_orphan horphan]
    exact huncanceled

end Outline

namespace Session

variable {σ τ α : Type} [Storage σ] {client : Client τ} {s : Session σ τ α}

omit [Storage σ] in
/-- No move of a session that only asks the cache is about a call. -/
theorem Offline.concerned?_ne_call (hs : s.Offline) {m : Move} (hm : m.IsOffline) (id : CallId) :
    s.concerned? m ≠ some (.call id) := by
  intro hconcerned
  cases m with
  | advance index =>
    obtain ⟨task, hready, howner⟩ := Option.bind_eq_some_iff.mp hconcerned
    rcases hs.ready task (List.mem_of_getElem? hready) with hplanned | ⟨changed, rfl⟩
    · obtain ⟨_, _, _, _, -, -, rfl⟩ := hs.exists_eq_start hplanned
      cases howner
    · cases howner
  | execute other => exact hm.elim
  | enqueue other => exact hm.elim
  | _ => cases hconcerned

theorem unshared_move (client : Client τ) (hs : s.Offline) (ho : s.outline.Unshared) {m : Move}
    (hm : m.IsOffline) : (s.move client m).outline.Unshared := by
  have hnot : ∀ id, m ≠ .cancelCall id := by
    rintro id rfl
    exact hm
  exact ho.of_changes (s.changes_move client hnot) (hs.concerned?_ne_call hm)

end Session

end GraphClient
