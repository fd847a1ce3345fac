import GraphClient.Pipeline.CacheStage
import GraphClient.Proofs.Store.Publication

/-!
# The policy of the cache stage

What the stage makes of a request depends on whether the store can answer it, on the cache control,
on the directives, and on what the stages below make of it. `FollowsPolicy` says all of that in terms
of a plain read of the store, `Store.readOperation`, and of a merge into its table.

The stages below may remember things, so `serveThrough` hands what they remember through. That they
are asked at most once can then be said: what they remember afterwards is what they remembered before,
or what one request has made of it.
-/

namespace GraphClient

namespace Store

variable {σ β : Type} [Storage σ]

/-- The store once an operation was read: an evicting read has removed what it was read from. -/
def afterRead (s : Store σ β) (directives : Directives) (result : ReadResult) : Store σ β :=
  if directives.evictAfterRead then
    { s with contents := Storage.removeAll s.contents (Assoc.keys result.records) }
  else s

theorem lookup_of_error {s : Store σ β} {operation : Operation} {e : ReadError}
    (h : s.readOperation operation = .error e) (directives : Directives) :
    s.lookup operation directives = (none, s) := by
  rw [lookup, readDirected, readAndEvict, h]
  cases directives.evictAfterRead <;> rfl

theorem fst_read_of_error {s : Store σ β} {operation : Operation} {e : ReadError}
    (h : s.readOperation operation = .error e) (directives : Directives) :
    (s.read operation directives).1 = .cacheMiss := by
  rw [read, lookup_of_error h]

theorem lookup_of_ok {s : Store σ β} {operation : Operation} {result : ReadResult}
    (h : s.readOperation operation = .ok result) (directives : Directives) :
    s.lookup operation directives =
      (some (responseOf result, Assoc.values result.records), s.afterRead directives result) := by
  rw [lookup, readDirected, readAndEvict, h, afterRead]
  cases directives.evictAfterRead <;> rfl

end Store

namespace Pipeline.CacheStage

variable {σ β δ : Type} [Storage σ]

/-- The reply that is made of a read. -/
def cachedReply (result : ReadResult) : Reply :=
  { response := some (Store.responseOf result), records := some (Assoc.values result.records) }

/-- The reply to an operation that must not leave the cache and is not in it. -/
def missReply : Reply := { response := some .cacheMiss }

theorem readReply_of_error {s : Store σ β} {request : Request} {e : ReadError}
    (h : s.readOperation request.operation = .error e) : readReply s request = (none, s) := by
  rw [readReply, Store.lookup_of_error h]

theorem readReply_of_ok {s : Store σ β} {request : Request} {result : ReadResult}
    (h : s.readOperation request.operation = .ok result) :
    readReply s request = (some (cachedReply result), s.afterRead request.directives result) := by
  rw [readReply, Store.lookup_of_ok h]
  rfl

/-- The stage answers a query that must not leave the cache, and one that need not. -/
def AnswersAlone (s : Store σ β) (request : Request) : Prop :=
  request.operation.isQuery = true ∧
    (request.control = .cacheOnly ∨
      request.control = .cacheFirst ∧ ∃ result, s.readOperation request.operation = .ok result)

/-- Both steps around stages below that remember things. -/
def serveThrough (below : Request → δ → Downstream × δ) (memory : δ) (s : Store σ β)
    (request : Request) : Served σ β × δ :=
  match lookup s request with
  | (some reply, s) => (⟨.ok reply, ∅, s, false⟩, memory)
  | (none, s) =>
    let (answer, memory) := below request memory
    let (outcome, changed, s) := settle s request answer.canceled answer.outcome
    (⟨outcome, changed, s, true⟩, memory)

/-- Stages below that remember nothing are the special case. -/
theorem fst_serveThrough (downstream : Request → Downstream) (memory : δ) (s : Store σ β)
    (request : Request) :
    (serveThrough (fun request memory => (downstream request, memory)) memory s request).1 =
      serve s request downstream := by
  rw [serveThrough, serve]
  rcases lookup s request with ⟨reply | _, _⟩ <;> rfl

theorem lookup_of_answersAlone {s : Store σ β} {request : Request} (h : AnswersAlone s request) :
    lookup s request =
      match s.readOperation request.operation with
      | .ok result => (some (cachedReply result), s.afterRead request.directives result)
      | .error _ => (some missReply, s) := by
  obtain ⟨hquery, hcontrol⟩ := h
  cases hread : s.readOperation request.operation with
  | ok result =>
    have hreads : request.control.readsCacheFirst = true := by
      rcases hcontrol with hcontrol | ⟨hcontrol, -⟩ <;> rw [hcontrol] <;> rfl
    rw [lookup, hquery, hreads, readReply_of_ok hread]
    rfl
  | error e =>
    have hcontrol : request.control = .cacheOnly := by
      rcases hcontrol with hcontrol | ⟨-, result, hresult⟩
      · exact hcontrol
      · rw [hread] at hresult
        cases hresult
    rw [lookup, hquery, readReply_of_error hread, hcontrol]
    rfl

theorem lookup_of_not_answersAlone {s : Store σ β} {request : Request}
    (h : ¬ AnswersAlone s request) : lookup s request = (none, s) := by
  rw [lookup]
  split
  case isFalse => rfl
  case isTrue hreads =>
    obtain ⟨hquery, hfirst⟩ := Bool.and_eq_true_iff.mp hreads
    have honly : request.control ≠ .cacheOnly := fun honly => h ⟨hquery, .inl honly⟩
    have hcontrol : request.control = .cacheFirst := by
      cases hcontrol : request.control <;> simp_all [CacheControl.readsCacheFirst]
    cases hread : s.readOperation request.operation with
    | ok result => exact absurd ⟨hquery, .inr ⟨hcontrol, result, hread⟩⟩ h
    | error e =>
      rw [readReply_of_error hread]
      exact if_neg honly

theorem lookup_eq_none {s s' : Store σ β} {request : Request} (h : lookup s request = (none, s')) :
    s' = s := by
  by_cases hanswers : AnswersAlone s request
  · rw [lookup_of_answersAlone hanswers] at h
    cases hread : s.readOperation request.operation <;> rw [hread] at h <;> cases h
  · rw [lookup_of_not_answersAlone hanswers] at h
    cases h
    rfl

theorem storeReply_of_doNotStore {s : Store MemoryContents β} {directives : Directives}
    {reply : Reply} (h : directives.doNotStore = true ∨ reply.records.getD [] = []) :
    storeReply s directives reply = (∅, s) := by
  rw [storeReply]
  split
  case h_1 => rfl
  case h_2 => rfl
  case h_3 records hne hrecords =>
    have hstore : directives.doNotStore = true := by
      refine h.resolve_right fun hnil => hne ?_
      rw [hrecords, Option.getD_some] at hnil
      rw [hnil]
    rw [Store.merge, if_pos hstore]

theorem storeReply_of_not_doNotStore {s : Store MemoryContents β} {directives : Directives}
    (h : directives.doNotStore = false) (reply : Reply) :
    storeReply s directives reply =
      let merged := RecordTable.mergeAll s.contents.table (reply.records.getD [])
      (merged.2, { s with contents := ⟨merged.1⟩ }) := by
  rw [storeReply]
  split
  case h_1 hnone => rw [hnone]; rfl
  case h_2 hnil => rw [hnil]; rfl
  case h_3 records _ hrecords =>
    rw [hrecords, Store.merge, h, if_neg Bool.false_ne_true, MemoryContents.mergeAll_eq]
    rfl

theorem settle_of_error {s : Store σ β} {request : Request}
    (h : ¬ (request.operation.isQuery = true ∧ request.control = .networkFirst)) (canceled : Bool)
    (failure : Failure) :
    settle s request canceled (.error failure) = (.error failure, ∅, s) := by
  have hfallback : ¬ (request.operation.isQuery &&
      decide (request.control = .networkFirst)) = true := by
    rwa [Bool.and_eq_true, decide_eq_true_eq]
  cases failure with
  | canceled => rfl
  | _ => exact if_neg hfallback

/-- A query whose network failed is answered from the store, unless it was canceled meanwhile. -/
theorem settle_of_networkFirst {s : Store σ β} {request : Request}
    (hquery : request.operation.isQuery = true) (hcontrol : request.control = .networkFirst)
    {failure : Failure} (hfailure : failure ≠ .canceled) (canceled : Bool) :
    settle s request canceled (.error failure) =
      if canceled then (.error .canceled, ∅, s)
      else
        match s.readOperation request.operation with
        | .ok result => (.ok (cachedReply result), ∅, s.afterRead request.directives result)
        | .error _ => (.error failure, ∅, s) := by
  have hfallback : (request.operation.isQuery &&
      decide (request.control = .networkFirst)) = true := by
    rw [Bool.and_eq_true, decide_eq_true_eq]
    exact ⟨hquery, hcontrol⟩
  have hsettle : settle s request canceled (.error failure) =
      if canceled then (.error .canceled, ∅, s)
      else
        match readReply s request with
        | (some reply, s) => (.ok reply, ∅, s)
        | (none, s) => (.error failure, ∅, s) := by
    cases failure with
    | canceled => exact absurd rfl hfailure
    | _ => exact if_pos hfallback
  rw [hsettle]
  cases hread : s.readOperation request.operation with
  | ok result => rw [readReply_of_ok hread]
  | error e => rw [readReply_of_error hread]

/-- Only a reply touches the store: its records are stored, or it was read from the store. -/
theorem settle_eq_error {s s' : Store σ β} {request : Request} {canceled : Bool} {outcome : Outcome}
    {failure : Failure} {changed : KeySet}
    (h : settle s request canceled outcome = (.error failure, changed, s')) :
    s' = s ∧ changed = ∅ := by
  match outcome with
  | .ok reply => cases h
  | .error below =>
    by_cases hfallback : (request.operation.isQuery = true ∧ request.control = .networkFirst) ∧
        below ≠ .canceled
    · obtain ⟨⟨hquery, hcontrol⟩, hbelow⟩ := hfallback
      rw [settle_of_networkFirst hquery hcontrol hbelow] at h
      split at h
      · cases h; exact ⟨rfl, rfl⟩
      · split at h
        · cases h
        · cases h; exact ⟨rfl, rfl⟩
    · have hsame : settle s request canceled (.error below) = (.error below, ∅, s) := by
        by_cases hbelow : below = .canceled
        · subst hbelow; rfl
        · exact settle_of_error (fun hcontrol => hfallback ⟨hcontrol, hbelow⟩) canceled below
      rw [hsame] at h
      cases h
      exact ⟨rfl, rfl⟩

theorem serveThrough_of_answersAlone {s : Store σ β} {request : Request}
    (h : AnswersAlone s request) (below : Request → δ → Downstream × δ) (memory : δ) :
    serveThrough below memory s request =
      (match s.readOperation request.operation with
        | .ok result =>
          ⟨.ok (cachedReply result), ∅, s.afterRead request.directives result, false⟩
        | .error _ => ⟨.ok missReply, ∅, s, false⟩, memory) := by
  rw [serveThrough, lookup_of_answersAlone h]
  cases s.readOperation request.operation <;> rfl

theorem serveThrough_of_not_answersAlone {s : Store σ β} {request : Request}
    (h : ¬ AnswersAlone s request) (below : Request → δ → Downstream × δ) (memory : δ) :
    serveThrough below memory s request =
      let answer := (below request memory).1
      let settled := settle s request answer.canceled answer.outcome
      (⟨settled.1, settled.2.1, settled.2.2, true⟩, (below request memory).2) := by
  rw [serveThrough, lookup_of_not_answersAlone h]

/-- What is served follows from the store, the request, and what the stages below made of it. -/
structure FollowsPolicy (below : Request → δ → Downstream × δ) (memory : δ)
    (s : Store MemoryContents β) (request : Request) (served : Served MemoryContents β)
    (remembered : δ) : Prop where
  forwards : served.forwarded = false ↔ AnswersAlone s request
  /-- The stages below are asked at most once. -/
  calls : remembered = if served.forwarded then (below request memory).2 else memory
  hit : served.forwarded = false → ∀ result, s.readOperation request.operation = .ok result →
    served = ⟨.ok (cachedReply result), ∅, s.afterRead request.directives result, false⟩
  miss : served.forwarded = false → ∀ e, s.readOperation request.operation = .error e →
    served = ⟨.ok missReply, ∅, s, false⟩
  stored : served.forwarded = true → ∀ reply, (below request memory).1.outcome = .ok reply →
    request.directives.doNotStore = false →
    let merged := RecordTable.mergeAll s.contents.table (reply.records.getD [])
    served = ⟨.ok reply, merged.2, { s with contents := ⟨merged.1⟩ }, true⟩
  notStored : served.forwarded = true → ∀ reply, (below request memory).1.outcome = .ok reply →
    request.directives.doNotStore = true ∨ reply.records.getD [] = [] →
    served = ⟨.ok reply, ∅, s, true⟩
  canceled : served.forwarded = true → (below request memory).1.outcome = .error .canceled →
    served = ⟨.error .canceled, ∅, s, true⟩
  failed : served.forwarded = true → ∀ failure,
    (below request memory).1.outcome = .error failure →
    ¬ (request.operation.isQuery = true ∧ request.control = .networkFirst) →
    served = ⟨.error failure, ∅, s, true⟩
  fallback : served.forwarded = true → ∀ failure,
    (below request memory).1.outcome = .error failure → failure ≠ .canceled →
    request.operation.isQuery = true → request.control = .networkFirst →
    served =
      if (below request memory).1.canceled then ⟨.error .canceled, ∅, s, true⟩
      else
        match s.readOperation request.operation with
        | .ok result =>
          ⟨.ok (cachedReply result), ∅, s.afterRead request.directives result, true⟩
        | .error _ => ⟨.error failure, ∅, s, true⟩
  /-- A failure and a miss leave the store alone, and nothing is published. -/
  unchanged : (∃ failure, served.outcome = .error failure) ∨
      (served.forwarded = false ∧ ∃ e, s.readOperation request.operation = .error e) →
    served.store = s ∧ served.changed = ∅

theorem serveThrough_followsPolicy (below : Request → δ → Downstream × δ) (memory : δ)
    (s : Store MemoryContents β) (request : Request) :
    FollowsPolicy below memory s request (serveThrough below memory s request).1
      (serveThrough below memory s request).2 := by
  by_cases h : AnswersAlone s request
  · have hserved := serveThrough_of_answersAlone h below memory
    cases hread : s.readOperation request.operation with
    | ok result =>
      rw [hread] at hserved
      rw [hserved]
      constructor
      case forwards => exact iff_of_true rfl h
      case calls => rfl
      case hit =>
        intro _ result' hresult'
        cases hread.symm.trans hresult'
        rfl
      case miss =>
        intro _ e he
        cases hread.symm.trans he
      case unchanged =>
        rintro (⟨failure, hfailure⟩ | ⟨-, e, he⟩)
        · cases hfailure
        · cases hread.symm.trans he
      all_goals exact fun hforwarded => absurd hforwarded Bool.false_ne_true
    | error e =>
      rw [hread] at hserved
      rw [hserved]
      constructor
      case forwards => exact iff_of_true rfl h
      case calls => rfl
      case hit =>
        intro _ result hresult
        cases hread.symm.trans hresult
      case miss => exact fun _ _ _ => rfl
      case unchanged => exact fun _ => ⟨rfl, rfl⟩
      all_goals exact fun hforwarded => absurd hforwarded Bool.false_ne_true
  · rw [serveThrough_of_not_answersAlone h]
    constructor
    case forwards => exact iff_of_false (fun hforwarded => Bool.false_ne_true hforwarded.symm) h
    case calls => rfl
    case hit => exact fun hforwarded => absurd hforwarded.symm Bool.false_ne_true
    case miss => exact fun hforwarded => absurd hforwarded.symm Bool.false_ne_true
    case stored =>
      intro _ reply hreply hstore
      simp only [hreply, settle, storeReply_of_not_doNotStore hstore]
    case notStored =>
      intro _ reply hreply hstore
      simp only [hreply, settle, storeReply_of_doNotStore hstore]
    case canceled =>
      intro _ hcanceled
      simp only [hcanceled, settle]
    case failed =>
      intro _ failure hfailure hcontrol
      simp only [hfailure, settle_of_error hcontrol]
    case fallback =>
      intro _ failure hfailure hne hquery hcontrol
      simp only [hfailure, settle_of_networkFirst hquery hcontrol hne]
      split
      · rfl
      · split <;> rfl
    case unchanged =>
      rintro (⟨failure, hfailure⟩ | ⟨hforwarded, -⟩)
      · exact settle_eq_error (Prod.ext hfailure rfl)
      · exact absurd hforwarded.symm Bool.false_ne_true

end Pipeline.CacheStage

end GraphClient
