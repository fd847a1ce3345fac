import GraphClient.Proofs.Reading.Dependencies
import GraphClient.Proofs.Reading.WellFormed
import GraphClient.Proofs.Session.Deliveries
import GraphClient.Proofs.Session.Lifecycle
import GraphClient.Proofs.Session.Newest

/-!
# Watchers of the cache at rest

Watchers that only ask the cache follow the store: once no task is left to run, what such a watcher
delivered last is what reading its operation gives (`quiescent_run`). The one exception is a miss. A
miss depends on nothing, so a watcher whose last response was a miss is not woken by the writes that
would make it a hit (`stale_missedQuery`).

Between two fetches a watcher is in one of three positions towards the store (`Tracks`): its last
response was a miss; or a notification is on its way that will have it fetch again; or reading again
would give what it was given. A write leads from the third to the second when it changes a field that
was read, and leaves the third as it is when it does not, for then the same is read as before. A
notification begins a fetch, and the end of the newest fetch leads to the first or to the third.
-/

namespace GraphClient

namespace Store

variable {σ β : Type} [Storage σ]

theorem snd_writeAndPublish (s : Store σ β) (operation : Operation) (data : Json.Object) :
    (s.writeAndPublish operation data).2.2 = (s.write operation data).2 := by
  rw [writeAndPublish]
  rcases s.write operation data with ⟨_ | _, after⟩ <;> rfl

theorem resolver_write (s : Store σ β) (operation : Operation) (data : Json.Object) :
    (s.write operation data).2.resolver = s.resolver := by
  rw [write]
  cases s.normalize operation data with
  | error mismatch => rfl
  | ok normalized =>
    dsimp only
    rw [merge]
    split <;> rfl

end Store

/-- What a live watcher compares with, once its newest fetch has ended with a response, has the data
of that response. -/
theorem WatcherState.lastDelivered_received_ok {w : WatcherState} (hlive : w.canceled = false)
    {response : Response Json} (hrefl : (response.data == response.data) = true) :
    ∃ last, (w.received w.generation (.ok response)).1.lastDelivered = some last ∧
      (last.1 == response.data) = true := by
  have hnewest : ¬ (w.canceled || w.generation != w.generation) = true := by
    rw [hlive, bne_self_eq_false]
    exact Bool.false_ne_true
  rw [received, if_neg hnewest]
  split
  · next hdelivered =>
    rw [hasDelivered] at hdelivered
    cases hlast : w.lastDelivered with
    | none =>
      rw [hlast] at hdelivered
      cases hdelivered
    | some last =>
      rw [hlast] at hdelivered
      exact ⟨last, rfl, (Bool.and_eq_true_iff.mp hdelivered).1⟩
  · exact ⟨response.content, rfl, hrefl⟩

/-- An error that is delivered is not compared with. -/
theorem WatcherState.lastDelivered_received_error {w : WatcherState} {generation : Nat}
    {failure : Failure} (h : (w.received generation (.error failure)).2 = true) :
    (w.received generation (.error failure)).1.lastDelivered = none := by
  rw [received.eq_def] at h ⊢
  split at h
  · cases h
  · next hnot =>
    rw [if_neg hnot]
    cases failure with
    | canceled => cases h
    | _ => rfl

namespace Outline

variable {α : Type} {id : WatcherId} {o o' : Outline α} {watcher watcher' : Watcher α}

/-- What a live watcher compares responses with is the one that its callback heard last. -/
def Remembers (o : Outline α) (id : WatcherId) (watcher : Watcher α) : Prop :=
  watcher.state.canceled = false → ∀ content, watcher.state.lastDelivered = some content →
    ∃ response : Response Json, response.content = content ∧
      (o.heardBy id).getLast? = some ((Except.ok response).bind (Response.decode watcher.decoder))

theorem Turned.remembers {turn : Turn} {completed : Option (Nat × Ending Json)}
    (h : Turned id turn completed o o' watcher watcher') (hr : o.Remembers id watcher) :
    o'.Remembers id watcher' := by
  intro hlive content hlast
  cases h with
  | aside _ _ hcontinues =>
    rw [hcontinues.canceled] at hlive
    rw [hcontinues.lastDelivered] at hlast
    rw [hcontinues.heard, hcontinues.decoder]
    exact hr hlive content hlast
  | startedCanceled _ _ _ hcanceled =>
    rw [starting, hcanceled] at hlive
    cases hlive
  | canceled => cases hlive
  | @ended generation _ ending subscription _ _ hheard =>
    rw [hheard]
    cases hdelivers : (watcher.state.received generation ending).2 with
    | false =>
      have hsame := WatcherState.lastDelivered_received hdelivers
      obtain ⟨_, _, hsettled, -⟩ := settling_eq watcher generation ending subscription
      rw [hsettled] at hlive
      exact hr hlive content (hsame.symm.trans hlast)
    | true =>
      cases ending with
      | ok response =>
        have hnew := (WatcherState.received_ok hdelivers).2
        refine ⟨response, Option.some.inj (hnew.symm.trans hlast), ?_⟩
        rw [if_pos rfl, List.getLast?_concat]
        rfl
      | error failure =>
        have hnone := WatcherState.lastDelivered_received_error hdelivers
        cases hnone.symm.trans hlast

end Outline

namespace Session

variable {τ α : Type} {s s' : Session MemoryContents τ α} {id : WatcherId}

/-- How the data that a watcher was given last stands to the store, while no fetch of it is out. -/
inductive Tracks (s : Session MemoryContents τ α) (id : WatcherId) (operation : Operation)
    (data : Option Json) : Prop
  /-- It was a miss. -/
  | missed : data = none → Tracks s id operation data
  /-- A notification is on its way that the watcher depends on. -/
  | awaited {keys changed : KeySet} : s.DependsOn id keys → keys.intersects changed = true →
      .notify changed ∈ s.ready → Tracks s id operation data
  /-- Reading again would give the same. -/
  | current {result : ReadResult} : s.store.readOperation operation = .ok result →
      s.DependsOn id result.dependentKeys → (data == some (.object result.data)) = true →
      Tracks s id operation data

/-- A watcher that rests between two fetches tracks the store with what it delivered last. -/
def UpToDate (s : Session MemoryContents τ α) (id : WatcherId) (watcher : Watcher α) : Prop :=
  watcher.state.started = true → watcher.state.canceled = false → watcher.state.active = none →
    ∃ content, watcher.state.lastDelivered = some content ∧
      s.Tracks id watcher.options.operation content.1

theorem readOperation_eq {operation : Operation}
    (hcontents : s'.store.contents = s.store.contents)
    (hresolver : s'.store.resolver = s.store.resolver) :
    s'.store.readOperation operation = s.store.readOperation operation := by
  rw [Store.readOperation, hcontents, hresolver, Store.readOperation]

namespace Tracks

variable {operation : Operation} {data : Option Json}

/-- What spares the records and leaves a watcher its subscription leaves it where it is. -/
theorem of_spares (h : s.Tracks id operation data) (hspares : Spares s s')
    (hdepends : ∀ keys, s.DependsOn id keys → s'.DependsOn id keys) :
    s'.Tracks id operation data := by
  cases h with
  | missed hnone => exact .missed hnone
  | awaited hkeys hintersects htask =>
    exact .awaited (hdepends _ hkeys) hintersects (hspares.ready htask)
  | current hread hkeys hequal =>
    exact .current ((readOperation_eq hspares.contents hspares.resolver).trans hread)
      (hdepends _ hkeys) hequal

/-- The task that is taken is not the notification that the watcher waits for. -/
theorem taking (h : s.Tracks id operation data) {index : Nat} {task : Task}
    (hready : s.ready[index]? = some task)
    (hother : ∀ keys changed, s.DependsOn id keys → keys.intersects changed = true →
      task ≠ .notify changed) : (s.taking index).Tracks id operation data := by
  cases h with
  | missed hnone => exact .missed hnone
  | current hread hkeys hequal => exact .current hread hkeys hequal
  | awaited hkeys hintersects htask =>
    obtain ⟨hindex, rfl⟩ := List.getElem?_eq_some_iff.mp hready
    have hmem := (List.getElem_cons_eraseIdx_perm hindex).mem_iff.mpr htask
    refine .awaited hkeys hintersects ((List.mem_cons.mp hmem).resolve_left fun heq => ?_)
    exact hother _ _ hkeys hintersects heq.symm

end Tracks

section Write

variable {operation : Operation}

/-- A write is a merge of records and the publication of what it changed, or it is rejected. -/
theorem writeAndPublish_cases (s : Session MemoryContents τ α) (operation : Operation)
    (data : Json.Object) :
    (s.writeAndPublish operation data).2 = s ∨
      ∃ records changed after, s.store.merge records .none = (.ok changed, after) ∧
        (s.writeAndPublish operation data).2 = { s with store := after }.publish changed := by
  rw [writeAndPublish, Store.writeAndPublish, Store.write]
  cases s.store.normalize operation data with
  | error mismatch => exact .inl rfl
  | ok normalized =>
    obtain ⟨changed, after, hmerge, -, -⟩ :=
      s.store.merge_eq_ok (Assoc.values normalized.records) .none
    refine .inr ⟨_, changed, after, hmerge, ?_⟩
    simp only [hmerge, Store.notification?]
    by_cases hempty : changed.isEmpty = true
    · rw [if_pos hempty, KeySet.isEmpty_iff.mp hempty]
      rfl
    · rw [if_neg hempty]
      rfl

/-- A write either changes nothing that was read, or has the watcher notified. -/
theorem Tracks.write {read : Option Json} (h : s.Tracks id operation read)
    (hresolver : s.store.resolver.NeverRedirects)
    (hselections : (Shape.object operation.selections).EachSet TypenameSelected)
    (written : Operation) (data : Json.Object) :
    ((s.writeAndPublish written data).2).Tracks id operation read := by
  have hdepends : ∀ keys, s.DependsOn id keys →
      ((s.writeAndPublish written data).2).DependsOn id keys :=
    fun _ => (s.sameStanding_writeAndPublish written data).dependsOn
  rcases s.writeAndPublish_cases written data with
    hsame | ⟨records, changed, after, hmerge, hwritten⟩
  · rwa [hsame]
  · let stored : Session MemoryContents τ α := { s with store := after }
    rw [hwritten] at hdepends
    rw [show (s.writeAndPublish written data).2 = stored.publish changed from hwritten]
    cases h with
    | missed hnone => exact .missed hnone
    | awaited hkeys hintersects htask =>
      exact .awaited (hdepends _ hkeys) hintersects (stored.ready_subset_publish changed htask)
    | @current result hread hkeys hequal =>
      cases hintersects : changed.intersects result.dependentKeys with
      | false =>
        obtain ⟨_, _, hmerged, hagain⟩ :=
          s.store.readOperation_merge_of_disjoint hresolver hselections hread records .none
        cases hmerge.symm.trans hmerged
        obtain ⟨again, hreread, hdata, hsamekeys⟩ := hagain hintersects
        have hread' : (stored.publish changed).store.readOperation operation = .ok again := by
          rw [store_publish]
          exact hreread
        refine .current hread' ?_ ?_
        · rw [hsamekeys]
          exact hdepends _ hkeys
        · rwa [hdata]
      | true =>
        obtain ⟨key, hchanged, hlooked⟩ := KeySet.intersects_iff.mp hintersects
        have htask : .notify changed ∈ (stored.publish changed).ready := by
          rcases stored.publish_cases changed with ⟨rfl, -⟩ | hspawns
          · exact absurd hchanged (KeySet.not_mem_empty key)
          · rw [hspawns]
            exact List.mem_append_right _ List.mem_cons_self
        exact .awaited (hdepends _ hkeys) (KeySet.intersects_iff.mpr ⟨key, hlooked, hchanged⟩) htask

end Write

variable {watcher watcher' : Watcher α}

/-- A watcher that is passed aside either has a new fetch out, or rests where it did. -/
theorem UpToDate.aside (h : s.UpToDate id watcher) (ho : s.outline.Orderly id watcher)
    (haside : s.outline.Aside (.watcher id) s'.outline)
    (hget : Assoc.get? s'.watchers id = some watcher')
    (htracks : ∀ data, Assoc.get? s'.watchers id = some watcher → watcher.state.started = true →
      watcher.state.canceled = false → s.Tracks id watcher.options.operation data →
      s'.Tracks id watcher.options.operation data) : s'.UpToDate id watcher' := by
  obtain ⟨after, hafter, hcases⟩ := haside.same_or_fetching ho.get
  cases hafter.symm.trans hget
  rcases hcases with rfl | ⟨hfetching, -⟩
  · intro hstarted hlive hidle
    obtain ⟨content, hlast, hbefore⟩ := h hstarted hlive hidle
    exact ⟨content, hlast, htracks content.1 hget hstarted hlive hbefore⟩
  · intro _ _ hidle
    rw [hidle] at hfetching
    cases hfetching

/-- A notification that a watcher depends on has it fetch again. -/
theorem UpToDate.notify (h : s.UpToDate id watcher) (ho : s.outline.Orderly id watcher) {index : Nat}
    {changed : KeySet} (hready : s.ready[index]? = some (.notify changed))
    (hget : Assoc.get? ((s.taking index).notify changed).watchers id = some watcher') :
    ((s.taking index).notify changed).UpToDate id watcher' := by
  have haside : s.outline.Aside (.watcher id) ((s.taking index).notify changed).outline := by
    rw [outline_taking_notify hready]
    exact ((s.taking index).fetches_notify changed).aside _
  refine h.aside ho haside hget fun data hsame hstarted hlive htracks => ?_
  have htaken : (s.taking index).Tracks id watcher.options.operation data := by
    refine htracks.taking hready fun keys told hkeys hintersects heq => ?_
    cases heq
    have hbegins := beginsFetch_notify (s := s.taking index) ⟨watcher, ho.get, hstarted, hlive⟩
      hkeys hintersects
    obtain ⟨after, hafter, hnewer, -⟩ := hbegins
    cases hafter.symm.trans hsame
    exact Nat.lt_irrefl _ (hnewer watcher ho.get)
  exact htaken.of_spares (spares_notify _ changed)
    fun _ => ((s.taking index).sameStanding_notify changed).dependsOn

/-- The end of the fetch of another watcher takes nothing away. -/
theorem dependsOn_finishFetch_of_ne (hs : s.Consistent) {other : WatcherId} (hother : id ≠ other)
    (generation : Nat) (ending : Ending Json) {keys : KeySet} (h : s.DependsOn id keys) :
    (s.finishFetch other generation ending).DependsOn id keys := by
  cases hawaits : s.awaits other generation with
  | false => exact (sameStanding_finishFetch fun _ _ => hawaits).dependsOn h
  | true =>
    obtain ⟨holder, hholder, hlive, rfl⟩ := awaits_eq_true_iff.mp hawaits
    cases ending with
    | error failure => exact (sameStanding_finishFetch fun _ heq => by cases heq).dependsOn h
    | ok response =>
      obtain ⟨_, haccepts⟩ := accepts_finishFetch hs hholder hlive response
      exact haccepts.dependsOn_other hother h

theorem mem_fetchesOf_of_ready {index : Nat} {generation : Nat} {options : CallOptions}
    {token : Token} (hready : s.ready[index]? = some (.start ⟨.watch id generation, options, token⟩)) :
    (generation, token) ∈ s.outline.fetchesOf id := by
  rw [fetchesOf_outline, Multiset.mem_coe, unfinished, List.mem_filterMap]
  refine ⟨_, List.mem_append_left _ (List.mem_filter.mpr ⟨List.mem_of_getElem? hready, rfl⟩), ?_⟩
  exact if_pos rfl

/-- What the store read was a miss, or it is what the watcher tracks from now on. -/
theorem tracks_of_read {operation : Operation} {data : Option Json}
    (hequal : (data == (s.store.read operation .none).1.data) = true)
    (hsame : s'.store.readOperation operation = s.store.readOperation operation)
    (hdepends : s'.DependsOn id (s.store.read operation .none).1.dependentKeys) :
    s'.Tracks id operation data := by
  cases hread : s.store.readOperation operation with
  | error e =>
    rw [Store.fst_read_of_error hread] at hequal
    cases data with
    | none => exact .missed rfl
    | some value => cases hequal
  | ok result =>
    rw [Store.fst_read_eq hread] at hequal hdepends
    exact .current (hsame.trans hread) hdepends hequal

/-- Data that was read is equal to itself. -/
theorem beq_read_self (hs : s.store.contents.table.WellFormed) (operation : Operation) :
    ((s.store.read operation .none).1.data == (s.store.read operation .none).1.data) = true := by
  cases hread : s.store.readOperation operation with
  | error e =>
    rw [Store.fst_read_of_error hread]
    rfl
  | ok result =>
    have hsource : RecordSource.WellFormed (Storage.load? s.store.contents) := hs.records
    rw [Store.fst_read_eq hread]
    exact Json.equal_refl _ (wellFormed_readData hsource hread)

/-- The newest fetch of a watcher was not canceled, so it obtains what the store reads now. -/
theorem readNow_of_newest (ho : s.outline.Orderly id watcher) (hu : s.outline.Unshared)
    (hlive : watcher.state.canceled = false) {token : Token}
    (hmem : (watcher.state.generation, token) ∈ s.outline.fetchesOf id) (operation : Operation) :
    s.readNow operation token = .ok (s.store.read operation .none).1 := by
  have huncanceled : s.tokens.isCanceled token = false := ho.isCanceled_eq_false hu hlive hmem
  rw [readNow, huncanceled]
  rfl

/-- The end of a fetch that its watcher drops. -/
theorem sameStanding_finishFetch_of_dropped (hholder : Assoc.get? s.watchers id = some watcher)
    {generation : Nat}
    (hdropped : watcher.state.canceled = true ∨ watcher.state.generation ≠ generation)
    (ending : Ending Json) : SameStanding s (s.finishFetch id generation ending) := by
  refine sameStanding_finishFetch fun _ _ => ?_
  rw [← Bool.not_eq_true, awaits_eq_true_iff]
  rintro ⟨holder, hfound, huncanceled, hnewest⟩
  cases hfound.symm.trans hholder
  rcases hdropped with hcanceled | hsuperseded
  · cases huncanceled.symm.trans hcanceled
  · exact hsuperseded hnewest

/-- The end of a fetch leaves its watcher up to date: the newest fetch has read the store as it is,
and any other is dropped. -/
theorem UpToDate.finishFetch (h : s.UpToDate id watcher) (ho : s.outline.Orderly id watcher)
    (hu : s.outline.Unshared) (hs : s.Consistent) (hcontents : s.store.contents.table.WellFormed)
    {index : Nat} {generation : Nat} {token : Token}
    (hready : s.ready[index]? = some (.start ⟨.watch id generation, watcher.options, token⟩))
    (crossings : List Pipeline.Crossing) :
    let polled := (s.taking index).report (crossings.map .crossed)
    let ended := polled.finishFetch id generation (s.readNow watcher.options.operation token)
    Assoc.get? ended.watchers id = some watcher' → ended.UpToDate id watcher' := by
  intro polled ended hget
  have hholder : Assoc.get? polled.watchers id = some watcher := ho.get
  have hpolled : polled.Consistent := ⟨hs.fresh, hs.owned⟩
  have hspares : Spares polled ended := spares_finishFetch _ _ _ _
  obtain ⟨-, hwatchers⟩ :=
    finishFetch_eq hholder generation (s.readNow watcher.options.operation token)
  obtain ⟨-, subscription, hstate⟩ := watcher.state.accept_eq_received id polled.store generation
    (s.readNow watcher.options.operation token)
  rw [hwatchers, get?_setWatcherState_self hholder, hstate, Option.some.injEq] at hget
  subst hget
  intro hstarted hlive hidle
  rcases watcher.state.received_cases generation (s.readNow watcher.options.operation token) with
    ⟨hsame, hdropped⟩ | ⟨huncanceled, rfl, -⟩
  · rw [hsame] at hstarted hlive hidle ⊢
    obtain ⟨content, hlast, htracks⟩ := h hstarted hlive hidle
    have htaken := htracks.taking hready fun _ _ _ _ heq => by cases heq
    have hbefore : polled.Tracks id watcher.options.operation content.1 :=
      htaken.of_spares (spares_report _ _) fun _ hkeys => hkeys
    exact ⟨content, hlast, hbefore.of_spares hspares
      fun _ => (sameStanding_finishFetch_of_dropped hholder hdropped _).dependsOn⟩
  · have hread := readNow_of_newest ho hu huncanceled (mem_fetchesOf_of_ready hready)
      watcher.options.operation
    obtain ⟨last, hlast, hequal⟩ := WatcherState.lastDelivered_received_ok huncanceled
      (beq_read_self hcontents watcher.options.operation)
    obtain ⟨_, haccepts⟩ := accepts_finishFetch hpolled hholder huncanceled
      (s.store.read watcher.options.operation .none).1
    rw [← hread] at hlast haccepts
    exact ⟨last, hlast, tracks_of_read hequal
      (readOperation_eq hspares.contents hspares.resolver) haccepts.dependsOn⟩

/-- What spares the records, passes a watcher aside and leaves it its subscription. -/
theorem UpToDate.spared (h : s.UpToDate id watcher) (ho : s.outline.Orderly id watcher)
    (haside : s.outline.Aside (.watcher id) s'.outline) (hspares : Spares s s')
    (hdepends : ∀ keys, s.DependsOn id keys → s'.DependsOn id keys)
    (hget : Assoc.get? s'.watchers id = some watcher') : s'.UpToDate id watcher' :=
  h.aside ho haside hget fun _ _ _ _ htracks => htracks.of_spares hspares hdepends

/-- A watcher that is started fetches. -/
theorem UpToDate.watch (h : s.UpToDate id watcher) (hholder : Assoc.get? s.watchers id = some watcher)
    (hget : Assoc.get? ((s.watch id).toOption.getD s).watchers id = some watcher') :
    ((s.watch id).toOption.getD s).UpToDate id watcher' := by
  have hset : Assoc.get? (s.watcherRegistered id watcher).watchers id =
      some { watcher with state := { watcher.state with started := true } } :=
    get?_setWatcherState_self hholder _
  rw [watch_eq hholder] at hget ⊢
  split at hget
  · next hstarted =>
    rw [if_pos hstarted]
    cases hholder.symm.trans hget
    exact h
  next hstarted =>
  rw [if_neg hstarted]
  split at hget
  · next hcanceled =>
    cases hset.symm.trans hget
    intro _ hlive
    cases hcanceled.symm.trans hlive
  · next hlive =>
    change Assoc.get? ((s.watcherRegistered id watcher).fetch id watcher.options.control).watchers id
      = _ at hget
    rw [Bool.not_eq_true] at hlive
    rw [fetch_eq hset, if_pos (by rw [hlive]; rfl), get?_fetchBegun_self hset] at hget
    cases hget
    intro _ _ hidle
    cases hidle

/-- What holds of a session that only asks the cache, whatever moves are made. -/
structure Sound (s : Session MemoryContents τ α) : Prop where
  offline : s.Offline
  unshared : s.outline.Unshared
  consistent : s.Consistent
  resolver : s.store.resolver.NeverRedirects
  contents : s.store.contents.table.WellFormed

variable {client : Client τ} {m : Move}

theorem consistent_move (client : Client τ) (hs : s.Consistent) (m : Move) :
    (s.move client m).Consistent := by
  obtain ⟨moves, count, hrun⟩ := exists_run_of_move client s m
  have hconsistent := Interleaved.consistent_run client (s := ⟨s, []⟩) hs moves count
  rwa [hrun] at hconsistent

theorem sound_move (hclient : ∀ i ∈ client.interceptors, i.IsTransparent) (hs : s.Sound)
    (hm : m.IsOffline) : (s.move client m).Sound := by
  have hoffline := offline_move hclient hs.offline hm
  have hunshared := unshared_move client hs.offline hs.unshared hm
  have hconsistent := consistent_move client hs.consistent m
  rcases move_cases hclient hs.offline hm with
    ⟨operation, data, rfl⟩ | ⟨index, task, rfl, -, hspares⟩ | hspares
  · have hstore : (s.move client (.write operation data)).store =
        (s.store.write operation data).2 := by
      change (Session.publish _ _).store = _
      rw [store_publish]
      exact s.store.snd_writeAndPublish operation data
    refine ⟨hoffline, hunshared, hconsistent, ?_, ?_⟩
    · rw [hstore, Store.resolver_write]
      exact hs.resolver
    · rw [hstore]
      exact Store.wellFormed_write hs.contents operation hm
  · exact ⟨hoffline, hunshared, hconsistent, hspares.resolver ▸ hs.resolver,
      hspares.contents ▸ hs.contents⟩
  · exact ⟨hoffline, hunshared, hconsistent, hspares.resolver ▸ hs.resolver,
      hspares.contents ▸ hs.contents⟩

/-- Running a task leaves a watcher up to date. -/
theorem UpToDate.advance (h : s.UpToDate id watcher)
    (hclient : ∀ i ∈ client.interceptors, i.IsTransparent) (hs : s.Sound)
    (ho : s.outline.Orderly id watcher) {index : Nat} {task : Task}
    (hready : s.ready[index]? = some task)
    (hget : Assoc.get? (s.move client (.advance index)).watchers id = some watcher') :
    (s.move client (.advance index)).UpToDate id watcher' := by
  rcases hs.offline.ready task (List.mem_of_getElem? hready) with hplanned | ⟨changed, rfl⟩
  · obtain ⟨other, options, generation, token, hplan, hoptions, rfl⟩ :=
      hs.offline.exists_eq_start hplanned
    obtain ⟨crossings, hmove⟩ := advance_of_start hclient hready hoptions
    by_cases hother : other = id
    · subst hother
      obtain ⟨rfl, -⟩ := Prod.mk.inj (Option.some.inj ((plan_eq ho.get).symm.trans hplan))
      rw [hmove] at hget ⊢
      exact h.finishFetch ho hs.unshared hs.consistent hs.contents hready crossings hget
    · have hconcerned : s.concerned? (.advance index) ≠ some (.watcher id) := by
        rw [concerned?, hready]
        exact fun heq => hother (Owner.watcher.inj (Option.some.inj heq))
      refine h.aside ho (aside_move client hconcerned) hget fun data _ _ _ htracks => ?_
      have htaken := htracks.taking hready fun _ _ _ _ heq => by cases heq
      refine htaken.of_spares (spares_advance hclient hs.offline hready) fun keys hkeys => ?_
      have hpolled : ((s.taking index).report (crossings.map .crossed)).Consistent :=
        ⟨hs.consistent.fresh, hs.consistent.owned⟩
      rw [hmove]
      exact dependsOn_finishFetch_of_ne hpolled (Ne.symm hother) generation _ hkeys
  · rw [advance_of_notify hready] at hget ⊢
    exact h.notify ho hready hget

/-- What is asked of another watcher takes nothing away. -/
theorem dependsOn_move (client : Client τ) (hs : s.Consistent) (hm : m.IsOffline)
    (hadvance : ∀ index, m ≠ .advance index) (hwrite : ∀ operation data, m ≠ .write operation data)
    (hconcerned : s.concerned? m ≠ some (.watcher id)) {keys : KeySet} (h : s.DependsOn id keys) :
    (s.move client m).DependsOn id keys := by
  cases m with
  | advance index => exact absurd rfl (hadvance index)
  | handOver index => exact h
  | write operation data => exact absurd rfl (hwrite operation data)
  | openGate gate => exact h
  | execute id => exact hm.elim
  | enqueue id => exact hm.elim
  | cancelCall id => exact hm.elim
  | watch other =>
    change ((s.watch other).toOption.getD s).DependsOn id keys
    cases hwatch : s.watch other with
    | error misuse => exact h
    | ok after => exact (sameStanding_watch hwatch).dependsOn h
  | refetch other => exact (s.sameStanding_refetch other).dependsOn h
  | cancelWatcher other =>
    have hother : id ≠ other := fun heq => hconcerned (by rw [heq]; rfl)
    rcases cancelWatcher_cases hs other with hsame | hcancels
    · exact hsame.dependsOn h
    · exact hcancels.dependsOn_other hother h
  | rest => exact h

/-- Whatever move is made, a watcher that rests tracks the store. -/
theorem UpToDate.move (h : s.UpToDate id watcher)
    (hclient : ∀ i ∈ client.interceptors, i.IsTransparent) (hs : s.Sound)
    (ho : s.outline.Orderly id watcher)
    (hselections : (Shape.object watcher.options.operation.selections).EachSet TypenameSelected)
    (hm : m.IsOffline) (hget : Assoc.get? (s.move client m).watchers id = some watcher') :
    (s.move client m).UpToDate id watcher' := by
  have hholder : Assoc.get? s.watchers id = some watcher := ho.get
  by_cases hadvance : ∃ index, m = .advance index
  · obtain ⟨index, rfl⟩ := hadvance
    cases hready : s.ready[index]? with
    | some task => exact h.advance hclient hs ho hready hget
    | none =>
      rw [Session.move, hready] at hget ⊢
      cases hholder.symm.trans hget
      exact h
  by_cases hwrite : ∃ operation data, m = .write operation data
  · obtain ⟨operation, data, rfl⟩ := hwrite
    change Assoc.get? (s.writeAndPublish operation data).2.watchers id = _ at hget
    rw [watchers_writeAndPublish] at hget
    cases hholder.symm.trans hget
    intro hstarted hlive hidle
    obtain ⟨content, hlast, htracks⟩ := h hstarted hlive hidle
    exact ⟨content, hlast, htracks.write hs.resolver hselections operation data⟩
  rw [not_exists] at hadvance
  have hwrite : ∀ operation data, m ≠ .write operation data :=
    fun operation data heq => hwrite ⟨operation, data, heq⟩
  by_cases hconcerned : s.concerned? m = some (.watcher id)
  · -- what is asked of the watcher itself
    cases m with
    | watch other =>
      cases hconcerned
      exact h.watch hholder hget
    | cancelWatcher other =>
      cases hconcerned
      obtain ⟨canceled, hcanceled, hturned⟩ := turned_cancelWatcher ho
      cases hcanceled.get.symm.trans hget
      intro _ hlive
      cases hturned.canceled_of_cancelWatcher.symm.trans hlive
    | advance index => exact absurd rfl (hadvance index)
    | _ => cases hconcerned
  · exact h.spared ho (aside_move client hconcerned) (s.spares_move client hm hadvance hwrite)
      (fun _ => dependsOn_move client hs.consistent hm hadvance hwrite hconcerned) hget

/-- A watcher follows the store, whether it rests or a fetch of it is out. -/
structure Follows (s : Session MemoryContents τ α) (id : WatcherId) (watcher : Watcher α) : Prop where
  sound : s.Sound
  orderly : s.outline.Orderly id watcher
  upToDate : s.UpToDate id watcher
  remembers : s.outline.Remembers id watcher

namespace Follows

theorem move (h : s.Follows id watcher) (hclient : ∀ i ∈ client.interceptors, i.IsTransparent)
    (hselections : (Shape.object watcher.options.operation.selections).EachSet TypenameSelected)
    (hm : m.IsOffline) :
    ∃ watcher', (s.move client m).Follows id watcher' ∧ watcher'.options = watcher.options ∧
      watcher'.decoder = watcher.decoder := by
  obtain ⟨watcher', horderly, hturned⟩ := turned_turn client h.orderly (.move m)
  have horderly : (s.move client m).outline.Orderly id watcher' := horderly
  have hplan := plan_move hclient h.sound.offline hm id
  rw [plan_eq horderly.get, plan_eq h.orderly.get, Option.some.injEq, Prod.mk.injEq] at hplan
  exact ⟨watcher', ⟨sound_move hclient h.sound hm, horderly,
    h.upToDate.move hclient h.sound h.orderly hselections hm horderly.get,
    hturned.remembers h.remembers⟩, hplan.1, hturned.decoder⟩

theorem run (h : s.Follows id watcher) (hclient : ∀ i ∈ client.interceptors, i.IsTransparent)
    (hselections : (Shape.object watcher.options.operation.selections).EachSet TypenameSelected)
    {moves : Nat → Move} (hmoves : ∀ t, (moves t).IsOffline) (t : Nat) :
    ∃ watcher', (s.run client moves t).Follows id watcher' ∧ watcher'.options = watcher.options ∧
      watcher'.decoder = watcher.decoder := by
  induction t with
  | zero => exact ⟨watcher, h, rfl, rfl⟩
  | succ t ih =>
    obtain ⟨before, hbefore, hoptions, hdecoder⟩ := ih
    rw [← hoptions] at hselections
    obtain ⟨after, hafter, hoptions', hdecoder'⟩ := hbefore.move hclient hselections (hmoves t)
    exact ⟨after, hafter, hoptions'.trans hoptions, hdecoder'.trans hdecoder⟩

/-- Without a task left no fetch is out, so what a live watcher delivered last is what is read now. -/
theorem read_of_ready_nil (h : s.Follows id watcher) (hready : s.ready = []) (hlive : s.Live id) :
    ∃ response : Response Json,
      (s.heardBy id).getLast? = some ((Except.ok response).bind (Response.decode watcher.decoder)) ∧
      (response.data = none ∨
        (response.data == (s.store.read watcher.options.operation .none).1.data) = true) := by
  obtain ⟨holder, hholder, hstarted, huncanceled⟩ := hlive
  cases hholder.symm.trans h.orderly.get
  have hidle : watcher.state.active = none := by
    by_contra hactive
    obtain ⟨token, hactive⟩ := Option.ne_none_iff_exists'.mp hactive
    have hmem := (h.orderly.newest token hactive).2.2
    rw [fetchesOf_outline, unfinished, executions, hready, h.sound.offline.waiting] at hmem
    cases hmem
  obtain ⟨content, hlast, htracks⟩ := h.upToDate hstarted huncanceled hidle
  obtain ⟨response, rfl, hheard⟩ := h.remembers huncanceled content hlast
  rw [heardBy_outline] at hheard
  refine ⟨response, hheard, ?_⟩
  cases htracks with
  | missed hnone => exact .inl hnone
  | awaited _ _ htask =>
    rw [hready] at htask
    cases htask
  | current hread _ hequal =>
    rw [Store.fst_read_eq hread]
    exact .inr hequal

end Follows

/-- Watchers that only ask the cache were made, and nothing has happened to them yet. -/
structure Unwatched (s : Session MemoryContents τ α) : Prop where
  resolver : s.store.resolver.NeverRedirects
  contents : s.store.contents.table.WellFormed
  subscriptions : s.store.subscriptions = []
  tokens : ∀ n ∈ s.tokens.canceled, n < s.tokens.next
  watchers : ∀ id watcher, Assoc.get? s.watchers id = some watcher →
    watcher.options.IsOffline ∧ watcher.state = { refetchControl := .cacheOnly }
  ready : ∀ task ∈ s.ready, ∃ changed, task = .notify changed
  waiting : s.waiting = []
  untold : ∀ id, s.heardBy id = []

theorem Unwatched.sound (h : s.Unwatched) : s.Sound where
  offline := by
    refine ⟨fun id options later hplan => ?_, fun task htask => .inr (h.ready task htask), h.waiting⟩
    obtain ⟨watcher, hget, heq⟩ := Option.map_eq_some_iff.mp hplan
    obtain ⟨hoptions, hstate⟩ := h.watchers id watcher hget
    obtain ⟨rfl, rfl⟩ := Prod.mk.inj heq
    exact ⟨hoptions, by rw [hstate]⟩
  unshared := by
    have hidle : ∀ id watcher token, Assoc.get? s.outline.watchers id = some watcher →
        watcher.state.active ≠ some token := by
      intro id watcher token hget hactive
      rw [(h.watchers id watcher hget).2] at hactive
      cases hactive
    exact ⟨h.tokens, fun id watcher token hget hactive => absurd hactive (hidle id watcher token hget),
      fun id _ watcher _ token _ hget _ hactive => absurd hactive (hidle id watcher token hget)⟩
  consistent := by
    refine consistent_of_unsubscribed h.subscriptions fun id canceled subscription hstanding => ?_
    obtain ⟨watcher, hget, heq⟩ := Option.map_eq_some_iff.mp hstanding
    rw [(h.watchers id watcher hget).2] at heq
    cases heq
  resolver := h.resolver
  contents := h.contents

theorem Unwatched.follows (h : s.Unwatched) (hget : Assoc.get? s.watchers id = some watcher) :
    s.Follows id watcher := by
  have hstate := (h.watchers id watcher hget).2
  have hunfinished : s.unfinished id = [] := by
    rw [unfinished, executions, h.waiting, List.map_nil, List.append_nil, List.filterMap_eq_nil_iff]
    intro task htask
    obtain ⟨changed, rfl⟩ := h.ready task (List.mem_of_mem_filter htask)
    rfl
  have hnew : s.IsNew id watcher := ⟨hget, ⟨.cacheOnly, hstate⟩, hunfinished, h.untold id⟩
  refine ⟨h.sound, hnew.orderly, fun hstarted => ?_, fun _ content hlast => ?_⟩
  · rw [hstate] at hstarted
    cases hstarted
  · rw [hstate] at hlast
    cases hlast

/-- When no task is left to run, what a live watcher of the cache delivered last is what the store
reads for its operation, unless it was a miss. The type has to be asked for wherever there is a
fragment, so a query without fragments will do. -/
theorem quiescent_run {client : Client τ} (hclient : ∀ i ∈ client.interceptors, i.IsTransparent)
    (hs : s.Unwatched) (hget : Assoc.get? s.watchers id = some watcher)
    (hselections : (Shape.object watcher.options.operation.selections).EachSet TypenameSelected)
    {moves : Nat → Move} (hmoves : ∀ t, (moves t).IsOffline) {t : Nat}
    (hready : (s.run client moves t).ready = []) (hlive : (s.run client moves t).Live id) :
    ∃ response : Response Json,
      ((s.run client moves t).heardBy id).getLast? =
        some ((Except.ok response).bind (Response.decode watcher.decoder)) ∧
      (response.data = none ∨
        (response.data ==
          ((s.run client moves t).store.read watcher.options.operation .none).1.data) = true) := by
  obtain ⟨after, hfollows, hoptions, hdecoder⟩ :=
    (hs.follows hget).run hclient hselections hmoves t
  rw [← hoptions, ← hdecoder]
  exact hfollows.read_of_ready_nil hready hlive

section Resting

private def restingQuery : Operation :=
  { name := "Hero", document := "", id := "hero", selections := [
    .field { responseName := "hero", name := "hero" } (.object [
      .field { responseName := "__typename", name := "__typename" } .leaf,
      .field { responseName := "id", name := "id" } .leaf,
      .field { responseName := "name", name := "name" } .leaf])] }

private def restingHero (name : String) : Json.Object :=
  [("hero", .object [("__typename", .string "Droid"), ("id", .string "1"), ("name", .string name)])]

private theorem wellFormed_restingHero (name : String) :
    (Json.object (restingHero name)).WellFormed := by
  simp [restingHero, Json.WellFormed, Json.WellFormedMembers, Assoc.keys]

private def restingWatcher : Watcher Json :=
  { options := { operation := restingQuery, control := .cacheOnly }
    decoder := some
    state := { refetchControl := .cacheOnly } }

/-- Nothing is stored, and somebody is about to watch the hero. -/
private def resting : Session MemoryContents Unit Json :=
  { store := { resolver := .byTypeAndId, contents := .empty }
    transport := ()
    watchers := [(⟨0⟩, restingWatcher)] }

private def restingClient : Client Unit :=
  { server := { url := "" }
    interceptors := [.recording "log"]
    transport := ⟨fun _ s => ({ result := .error "" }, s)⟩ }

private theorem unwatched_resting : resting.Unwatched where
  resolver := KeyResolver.neverRedirects_byTypeAndId
  contents := RecordTable.wellFormed_nil
  subscriptions := rfl
  tokens := fun _ hmem => by cases hmem
  watchers := by
    intro id watcher hget
    have hmem := Assoc.mem_of_get?_eq_some hget
    rw [resting, List.mem_singleton] at hmem
    cases hmem
    exact ⟨⟨rfl, rfl, rfl⟩, rfl⟩
  ready := fun _ hmem => by cases hmem
  waiting := rfl
  untold := fun _ => rfl

private theorem isTransparent_restingClient :
    ∀ i ∈ restingClient.interceptors, i.IsTransparent := by
  intro i hmem
  cases List.mem_singleton.mp hmem
  exact Pipeline.isTransparent_recording "log"

/-- The hero is watched once it is stored, and renamed after that. -/
private def renamedMoves (time : Nat) : Move :=
  [.write restingQuery (restingHero "R2-D2"), .advance 0, .watch ⟨0⟩, .advance 0,
    .write restingQuery (restingHero "C-3PO"), .advance 0, .advance 0].getD time .rest

/-- The hero is watched before it is stored. -/
private def missedMoves (time : Nat) : Move :=
  [.watch ⟨0⟩, .advance 0, .write restingQuery (restingHero "R2-D2"), .advance 0].getD time .rest

private theorem isOffline_renamedMoves (time : Nat) : (renamedMoves time).IsOffline := by
  match time with
  | 0 => exact wellFormed_restingHero "R2-D2"
  | 4 => exact wellFormed_restingHero "C-3PO"
  | 1 | 2 | 3 | 5 | 6 | _ + 7 => trivial

private theorem isOffline_missedMoves (time : Nat) : (missedMoves time).IsOffline := by
  match time with
  | 2 => exact wellFormed_restingHero "R2-D2"
  | 0 | 1 | 3 | _ + 4 => trivial

theorem quiescent_renamed :
    resting.Unwatched ∧ (∀ time, (renamedMoves time).IsOffline) ∧
      (resting.run restingClient renamedMoves 7).ready = [] ∧
      (resting.run restingClient renamedMoves 7).Live ⟨0⟩ ∧
      ((resting.run restingClient renamedMoves 7).heardBy ⟨0⟩).length = 2 ∧
      ∃ response : Response Json,
        ((resting.run restingClient renamedMoves 7).heardBy ⟨0⟩).getLast? =
          some ((Except.ok response).bind (Response.decode restingWatcher.decoder)) ∧
        (response.data = none ∨ (response.data ==
          ((resting.run restingClient renamedMoves 7).store.read
            restingWatcher.options.operation .none).1.data) = true) := by
  have hselections :
      (Shape.object restingWatcher.options.operation.selections).EachSet TypenameSelected := by
    simp only [restingWatcher, restingQuery, Shape.EachSet, SelectionsEachSet, Selection.EachSet,
      and_true]
    refine ⟨fun h => ?_, fun h => ?_⟩ <;> cases h
  have hready : (resting.run restingClient renamedMoves 7).ready = [] :=
    List.isEmpty_iff.mp (by decide +kernel)
  have hlive : (resting.run restingClient renamedMoves 7).Live ⟨0⟩ := by decide +kernel
  have hget : Assoc.get? resting.watchers ⟨0⟩ = some restingWatcher := rfl
  have hread := quiescent_run isTransparent_restingClient unwatched_resting hget hselections
    isOffline_renamedMoves hready hlive
  exact ⟨unwatched_resting, isOffline_renamedMoves, hready, hlive, by decide +kernel, hread⟩

/-- What is written after a miss does not reach the watcher: no task is left, and what it delivered
last is not what is read. -/
theorem stale_missedQuery :
    resting.Unwatched ∧ (∀ time, (missedMoves time).IsOffline) ∧
      (resting.run restingClient missedMoves 4).ready = [] ∧
      (resting.run restingClient missedMoves 4).Live ⟨0⟩ ∧
      (resting.run restingClient missedMoves 4).heardBy ⟨0⟩ = [.ok .cacheMiss] ∧
      ((resting.run restingClient missedMoves 4).store.read restingQuery .none).1.data =
        some (.object (restingHero "R2-D2")) :=
  ⟨unwatched_resting, isOffline_missedMoves, rfl, by decide +kernel, rfl, rfl⟩

end Resting

end Session

end GraphClient
