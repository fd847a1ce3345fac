import GraphClient.Response.Envelope
import GraphClient.Session.Watcher

/-!
# What a watcher makes of a result

A watcher drops the result of a fetch that was superseded, and any result once it is canceled. Of the
newest fetch it takes note, and delivers what came back unless it was the same as before. The store
decides about nothing but the subscription of the watcher (`accept_eq_received`).
-/

namespace GraphClient

def Ending.isCanceled {α : Type} : Ending α → Bool
  | .error .canceled => true
  | _ => false

/-- Data that does not decode is no cancellation. -/
theorem Ending.isCanceled_decode {α : Type} {ending : Ending Json} (h : ending.isCanceled = false)
    (decoder : Json → Option α) :
    Ending.isCanceled (ending.bind (Response.decode decoder)) = false := by
  cases ending with
  | error failure => cases failure <;> first | rfl | cases h
  | ok response =>
    change Ending.isCanceled (response.decode decoder) = false
    rw [Response.decode]
    split
    · rfl
    · split <;> rfl

namespace WatcherState

/-- What a watcher makes of the end of a fetch, apart from its subscription, and whether it is
delivered. -/
def received (w : WatcherState) (generation : Nat) (ending : Ending Json) : WatcherState × Bool :=
  if w.canceled || w.generation != generation then (w, false)
  else
    match ending with
    | .error .canceled => ({ w with active := none }, false)
    | .error _ => ({ w with active := none, lastDelivered := none }, true)
    | .ok response =>
      if w.hasDelivered response.content then ({ w with active := none }, false)
      else ({ w with active := none, lastDelivered := some response.content }, true)

theorem trackDependencies_keeps {σ : Type} (w : WatcherState) (id : WatcherId) (keys : KeySet)
    (store : Store σ WatcherId) :
    ∃ subscription, (w.trackDependencies id keys store).1 =
      { w with subscription := subscription } := by
  rw [trackDependencies]
  dsimp only
  split
  · exact ⟨_, rfl⟩
  · split
    · exact ⟨w.subscription, rfl⟩
    · exact ⟨_, rfl⟩

/-- The store decides about nothing but the subscription. -/
theorem accept_eq_received {σ : Type} (w : WatcherState) (id : WatcherId)
    (store : Store σ WatcherId) (generation : Nat) (ending : Ending Json) :
    (w.accept id store generation ending).delivers = (w.received generation ending).2 ∧
      ∃ subscription, (w.accept id store generation ending).state =
        { (w.received generation ending).1 with subscription := subscription } := by
  rw [accept, received.eq_def]
  split
  · exact ⟨rfl, w.subscription, rfl⟩
  · cases ending with
    | error failure => cases failure <;> exact ⟨rfl, w.subscription, rfl⟩
    | ok response =>
      obtain ⟨subscription, htracked⟩ :=
        { w with active := none }.trackDependencies_keeps id response.dependentKeys store
      have hdelivered : ({ w with active := none, subscription := subscription } :
          WatcherState).hasDelivered response.content = w.hasDelivered response.content := rfl
      simp only [htracked, hdelivered]
      split
      · exact ⟨rfl, subscription, rfl⟩
      · exact ⟨rfl, subscription, rfl⟩

/-- What becomes of a watcher when one of its fetches ends: either nothing, for the fetch was
superseded or the watcher canceled, or its newest fetch is no longer out. -/
theorem received_cases (w : WatcherState) (generation : Nat) (ending : Ending Json) :
    (w.received generation ending = (w, false) ∧ (w.canceled = true ∨ w.generation ≠ generation)) ∨
      (w.canceled = false ∧ w.generation = generation ∧
        ∃ last, (w.received generation ending).1 =
            { w with active := none, lastDelivered := last } ∧
          ((w.received generation ending).2 = true → ending.isCanceled = false)) := by
  rw [received.eq_def]
  split
  · next hdropped =>
    rw [Bool.or_eq_true, bne_iff_ne] at hdropped
    exact .inl ⟨rfl, hdropped⟩
  · next hlive =>
    rw [Bool.or_eq_true, not_or, Bool.not_eq_true, bne_iff_ne, Decidable.not_not] at hlive
    refine .inr ⟨hlive.1, hlive.2, ?_⟩
    split
    · exact ⟨w.lastDelivered, rfl, nofun⟩
    · next failure hne => exact ⟨none, rfl, fun _ => by cases failure <;> simp_all [Ending.isCanceled]⟩
    · split
      · exact ⟨w.lastDelivered, rfl, nofun⟩
      · exact ⟨_, rfl, fun _ => rfl⟩

theorem active_received (w : WatcherState) (generation : Nat) (ending : Ending Json) (token : Token)
    (h : (w.received generation ending).1.active = some token) : w.active = some token := by
  rcases w.received_cases generation ending with ⟨hsame, -⟩ | ⟨-, -, _, hreceived, -⟩
  · rwa [hsame] at h
  · rw [hreceived] at h
    cases h

/-- What a watcher compares with stays until a result is delivered. -/
theorem lastDelivered_received {w : WatcherState} {generation : Nat} {ending : Ending Json}
    (h : (w.received generation ending).2 = false) :
    (w.received generation ending).1.lastDelivered = w.lastDelivered := by
  rw [received.eq_def] at h ⊢
  split
  · rfl
  · next hlive =>
    rw [if_neg hlive] at h
    cases ending with
    | error failure => cases failure <;> first | rfl | cases h
    | ok response =>
      dsimp only at h ⊢
      split
      · rfl
      · next hnew =>
        rw [if_neg hnew] at h
        cases h

/-- A response is delivered when it is new, and compared with from then on. -/
theorem received_ok {w : WatcherState} {generation : Nat} {response : Response Json}
    (h : (w.received generation (.ok response)).2 = true) :
    w.hasDelivered response.content = false ∧
      (w.received generation (.ok response)).1.lastDelivered = some response.content := by
  rw [received.eq_def] at h ⊢
  split
  · next hdropped =>
    rw [if_pos hdropped] at h
    cases h
  · next hlive =>
    rw [if_neg hlive] at h
    dsimp only at h ⊢
    split
    · next hold =>
      rw [if_pos hold] at h
      cases h
    · next hnew => exact ⟨Bool.eq_false_iff.mpr hnew, rfl⟩

end WatcherState

end GraphClient
