import GraphClient.Proofs.Session.Owners

/-!
# The fetches of a watcher

Of the fetches of a watcher that have not ended only the newest counts. `Orderly` says how the state
of the watcher and its fetches go together: fetches have different generations, none is newer than the
watcher knows, the active token is that of the newest, and every other fetch has been canceled. It also
keeps count of how often the watcher was told that it is canceled.

Four things happen to a watcher. It is passed aside, and may begin fetches; a fetch of it ends; it is
started; it is canceled. Each keeps the watcher orderly.
-/

namespace GraphClient

/-- The generation and the token of a fetch of a watcher. -/
def Execution.fetchOf? (id : WatcherId) (execution : Execution) : Option (Nat × Token) :=
  match execution.purpose with
  | .watch watcher generation => if watcher = id then some (generation, execution.token) else none
  | _ => none

def Task.fetchOf? (id : WatcherId) (task : Task) : Option (Nat × Token) :=
  task.execution?.bind (Execution.fetchOf? id)

/-- What a watcher hears with an event. -/
def Event.heardBy? {α : Type} (id : WatcherId) : Event α → Option (Ending α)
  | .watched watcher ending => if watcher = id then some ending else none
  | _ => none

theorem Execution.owner?_of_fetchOf? {id : WatcherId} {execution : Execution} {fetch : Nat × Token}
    (h : execution.fetchOf? id = some fetch) : execution.purpose.owner? = some (.watcher id) := by
  rw [fetchOf?] at h
  split at h
  · next heq =>
    split at h
    · next hid =>
      rw [heq, hid]
      rfl
    · cases h
  · cases h

theorem Task.owner?_of_fetchOf? {id : WatcherId} {task : Task} {fetch : Nat × Token}
    (h : task.fetchOf? id = some fetch) : task.owner? = some (.watcher id) := by
  obtain ⟨execution, hexecution, hfetch⟩ := Option.bind_eq_some_iff.mp h
  rw [owner?, hexecution, Option.bind_some, execution.owner?_of_fetchOf? hfetch]

theorem Event.owner?_of_heardBy? {α : Type} {id : WatcherId} {event : Event α} {ending : Ending α}
    (h : event.heardBy? id = some ending) : event.owner? = some (.watcher id) := by
  cases event with
  | watched watcher told =>
    rw [heardBy?] at h
    split at h
    · next hid => rw [hid]; rfl
    · cases h
  | _ => cases h

namespace Outline

variable {α : Type} {id : WatcherId} {o o' : Outline α} {watcher : Watcher α}

/-- The fetches of a watcher that have not ended. -/
def fetchesOf (o : Outline α) (id : WatcherId) : Multiset (Nat × Token) :=
  o.tasks.filterMap (Task.fetchOf? id)

/-- What the callback of a watcher was told. -/
def heardBy (o : Outline α) (id : WatcherId) : List (Ending α) :=
  o.told.filterMap (Event.heardBy? id)

theorem fetchesOf_eq (o : Outline α) (id : WatcherId) :
    o.fetchesOf id = (o.tasksOf (.watcher id)).filterMap (Task.fetchOf? id) := by
  have howned : (fun task : Task => if task.owner? = some (.watcher id) then task.fetchOf? id
      else none) = Task.fetchOf? id := by
    funext task
    cases hfetch : task.fetchOf? id with
    | none => exact ite_self none
    | some fetch => exact if_pos (task.owner?_of_fetchOf? hfetch)
  rw [tasksOf, Multiset.filterMap_filter, howned, fetchesOf]

theorem heardBy_eq (o : Outline α) (id : WatcherId) :
    o.heardBy id = (o.toldTo (.watcher id)).filterMap (Event.heardBy? id) := by
  have howned : (fun event : Event α => if event.owner? = some (.watcher id) then event.heardBy? id
      else none) = Event.heardBy? id := by
    funext event
    cases hheard : event.heardBy? id with
    | none => exact ite_self none
    | some ending => exact if_pos (event.owner?_of_heardBy? hheard)
  rw [toldTo, List.filterMap_filter, heardBy]
  simp only [decide_eq_true_eq, howned]

theorem Leaves.fetchesOf (h : Leaves (.watcher id) o o') : o'.fetchesOf id = o.fetchesOf id := by
  rw [fetchesOf_eq, h.tasks, fetchesOf_eq]

theorem Leaves.heardBy (h : Leaves (.watcher id) o o') : o'.heardBy id = o.heardBy id := by
  rw [heardBy_eq, h.told, heardBy_eq]

theorem fetchesOf_add {task : Task} {fetch : Nat × Token} (h : task.fetchOf? id = some fetch)
    (o : Outline α) : (o.add task).fetchesOf id = fetch ::ₘ o.fetchesOf id :=
  Multiset.filterMap_cons_some _ _ _ h

theorem heardBy_tell (o : Outline α) (id : WatcherId) (ending : Ending α) :
    (o.tell (.watched id ending)).heardBy id = o.heardBy id ++ [ending] := by
  rw [heardBy, tell, List.filterMap_append]
  exact congrArg (o.heardBy id ++ ·) (List.filterMap_cons_some (if_pos rfl))

/-- How often the callback was told that the watcher is canceled. -/
def timesCanceled (o : Outline α) (id : WatcherId) : Nat :=
  ((o.heardBy id).filter Ending.isCanceled).length

/-- The state of a watcher and its fetches go together. -/
structure Orderly (o : Outline α) (id : WatcherId) (watcher : Watcher α) : Prop where
  get : Assoc.get? o.watchers id = some watcher
  bounded : ∀ f ∈ o.fetchesOf id, f.1 ≤ watcher.state.generation
  nodup : ((o.fetchesOf id).map Prod.fst).Nodup
  /-- The active token is that of the newest fetch, which has not ended. -/
  newest : ∀ token, watcher.state.active = some token → watcher.state.started = true ∧
    watcher.state.canceled = false ∧ (watcher.state.generation, token) ∈ o.fetchesOf id
  /-- Every other fetch has been canceled. -/
  obsolete : ∀ f ∈ o.fetchesOf id, f.2.number ∈ o.tokens.canceled ∨
    (watcher.state.active = some f.2 ∧ f.1 = watcher.state.generation)
  ended : watcher.state.canceled = false → watcher.state.active = none →
    ∀ f ∈ o.fetchesOf id, f.1 ≠ watcher.state.generation
  unstarted : watcher.state.started = false → o.fetchesOf id = 0
  untold : watcher.state.canceled = false ∨ watcher.state.started = false →
    o.timesCanceled id = 0
  once : o.timesCanceled id ≤ 1

namespace Orderly

/-- What a watcher is, which fetches are out and what was heard is all that matters. -/
theorem of_eq (ho : Orderly o id watcher)
    (hwatcher : Assoc.get? o'.watchers id = Assoc.get? o.watchers id)
    (hfetches : o'.fetchesOf id = o.fetchesOf id) (hheard : o'.heardBy id = o.heardBy id)
    (hcanceled : ∀ n ∈ o.tokens.canceled, n ∈ o'.tokens.canceled) : Orderly o' id watcher where
  get := hwatcher.trans ho.get
  bounded := by rw [hfetches]; exact ho.bounded
  nodup := by rw [hfetches]; exact ho.nodup
  newest := by rw [hfetches]; exact ho.newest
  obsolete := by
    rw [hfetches]
    exact fun f hf => (ho.obsolete f hf).imp_left (hcanceled _)
  ended := by rw [hfetches]; exact ho.ended
  unstarted := by rw [hfetches]; exact ho.unstarted
  untold := by rw [timesCanceled, hheard]; exact ho.untold
  once := by rw [timesCanceled, hheard]; exact ho.once

theorem of_leaves (ho : Orderly o id watcher) (h : Leaves (.watcher id) o o') :
    Orderly o' id watcher :=
  ho.of_eq (h.watcher id rfl) h.fetchesOf h.heardBy h.canceled

end Orderly

theorem heardBy_fetchBegun (o : Outline α) (id : WatcherId) (watcher : Watcher α)
    (control : CacheControl) : (o.fetchBegun id watcher control).heardBy id = o.heardBy id := by
  rw [fetchBegun]
  cases watcher.state.active <;> rfl

theorem fetchesOf_fetchBegun (o : Outline α) (id : WatcherId) (watcher : Watcher α)
    (control : CacheControl) : (o.fetchBegun id watcher control).fetchesOf id =
      (watcher.state.generation + 1, o.tokens.fresh.1) ::ₘ o.fetchesOf id := by
  have hfetch : (Task.start ⟨.watch id (watcher.state.generation + 1),
      { watcher.options with control := control }, o.tokens.fresh.1⟩).fetchOf? id =
        some (watcher.state.generation + 1, o.tokens.fresh.1) := if_pos rfl
  rw [fetchBegun]
  cases watcher.state.active <;> exact fetchesOf_add hfetch _

theorem Orderly.fetchBegun (ho : Orderly o id watcher) (hstarted : watcher.state.started = true)
    (hcanceled : watcher.state.canceled = false) (control : CacheControl) :
    Orderly (o.fetchBegun id watcher control) id (o.fetching watcher) where
  get := by rw [watchers_fetchBegun, Assoc.get?_insert_self]
  bounded := by
    rw [fetchesOf_fetchBegun]
    intro f hf
    rcases Multiset.mem_cons.mp hf with rfl | hf
    · exact Nat.le_refl _
    · exact Nat.le_succ_of_le (ho.bounded f hf)
  nodup := by
    rw [fetchesOf_fetchBegun, Multiset.map_cons, Multiset.nodup_cons]
    refine ⟨fun hmem => ?_, ho.nodup⟩
    obtain ⟨f, hf, hgeneration⟩ := Multiset.mem_map.mp hmem
    have hbound := ho.bounded f hf
    omega
  newest token htoken := by
    cases htoken
    rw [fetchesOf_fetchBegun]
    exact ⟨hstarted, hcanceled, Multiset.mem_cons_self _ _⟩
  obsolete := by
    rw [fetchesOf_fetchBegun]
    intro f hf
    rw [canceled_fetchBegun]
    rcases Multiset.mem_cons.mp hf with rfl | hf
    · exact .inr ⟨rfl, rfl⟩
    · refine .inl ((ho.obsolete f hf).imp_right ?_)
      exact fun hactive => ⟨f.2, hactive.1, rfl⟩
  ended _ hactive := by cases hactive
  unstarted hunstarted := by
    rw [fetching, hstarted] at hunstarted
    cases hunstarted
  untold _ := by
    rw [timesCanceled, heardBy_fetchBegun]
    exact ho.untold (.inl hcanceled)
  once := by
    rw [timesCanceled, heardBy_fetchBegun]
    exact ho.once

/-- What is the same, and what may be new, while a watcher is passed aside. -/
structure Continues (id : WatcherId) (o o' : Outline α) (watcher watcher' : Watcher α) : Prop where
  heard : o'.heardBy id = o.heardBy id
  decoder : watcher'.decoder = watcher.decoder
  started : watcher.state.started = true → watcher'.state.started = true
  canceled : watcher'.state.canceled = watcher.state.canceled
  lastDelivered : watcher'.state.lastDelivered = watcher.state.lastDelivered
  generation : watcher.state.generation ≤ watcher'.state.generation
  newer : ∀ f ∈ o'.fetchesOf id, f ∈ o.fetchesOf id ∨ watcher.state.generation < f.1
  rests : watcher.state.canceled = true → watcher'.state.generation = watcher.state.generation ∧
    o'.fetchesOf id = o.fetchesOf id

namespace Continues

theorem refl (id : WatcherId) (o : Outline α) (watcher : Watcher α) :
    Continues id o o watcher watcher :=
  ⟨rfl, rfl, fun h => h, rfl, rfl, Nat.le_refl _, fun _ hf => .inl hf, fun _ => ⟨rfl, rfl⟩⟩

theorem leave {watcher' : Watcher α} {o'' : Outline α} (h : Continues id o o' watcher watcher')
    (hleaves : Leaves (.watcher id) o' o'') : Continues id o o'' watcher watcher' where
  heard := hleaves.heardBy.trans h.heard
  decoder := h.decoder
  started := h.started
  canceled := h.canceled
  lastDelivered := h.lastDelivered
  generation := h.generation
  newer := by rw [hleaves.fetchesOf]; exact h.newer
  rests := by rw [hleaves.fetchesOf]; exact h.rests

theorem fetch {watcher' : Watcher α} (h : Continues id o o' watcher watcher')
    (hcanceled : watcher'.state.canceled = false) (control : CacheControl) :
    Continues id o (o'.fetchBegun id watcher' control) watcher (o'.fetching watcher') where
  heard := (heardBy_fetchBegun _ _ _ _).trans h.heard
  decoder := h.decoder
  started := h.started
  canceled := h.canceled
  lastDelivered := h.lastDelivered
  generation := Nat.le_succ_of_le h.generation
  newer := by
    rw [fetchesOf_fetchBegun]
    intro f hf
    rcases Multiset.mem_cons.mp hf with rfl | hf
    · exact .inr (Nat.lt_succ_of_le h.generation)
    · exact h.newer f hf
  rests hwas := by
    rw [h.canceled, hwas] at hcanceled
    cases hcanceled

end Continues

/-- A watcher that is passed aside stays orderly. -/
theorem Orderly.aside (ho : Orderly o id watcher) (h : Aside (.watcher id) o o') :
    ∃ watcher', Orderly o' id watcher' ∧ Continues id o o' watcher watcher' := by
  induction h with
  | refl => exact ⟨watcher, ho, .refl id o watcher⟩
  | leave _ hleaves ih =>
    obtain ⟨watcher', horderly, hcontinues⟩ := ih
    exact ⟨watcher', horderly.of_leaves hleaves, hcontinues.leave hleaves⟩
  | @fetch o' other fetching control _ hget hstarted hcanceled ih =>
    obtain ⟨watcher', horderly, hcontinues⟩ := ih
    by_cases hother : other = id
    · subst hother
      cases hget.symm.trans horderly.get
      exact ⟨_, horderly.fetchBegun hstarted hcanceled control, hcontinues.fetch hcanceled control⟩
    · have hleaves : Leaves (.watcher id) o' (o'.fetchBegun other fetching control) :=
        .fetchBegun o' (fun heq => hother (Owner.watcher.inj heq).symm) fetching control
      exact ⟨watcher', horderly.of_leaves hleaves, hcontinues.leave hleaves⟩

theorem timesCanceled_tell (o : Outline α) (id : WatcherId) (ending : Ending α) :
    (o.tell (.watched id ending)).timesCanceled id =
      o.timesCanceled id + if ending.isCanceled then 1 else 0 := by
  rw [timesCanceled, heardBy_tell, List.filter_append, List.length_append, timesCanceled]
  cases hcanceled : ending.isCanceled with
  | true => rw [List.filter_cons_of_pos hcanceled]; rfl
  | false => rw [List.filter_cons_of_neg (by rw [hcanceled]; exact Bool.false_ne_true)]; rfl

/-- The watcher once a fetch has ended. -/
def settling (watcher : Watcher α) (generation : Nat) (ending : Ending Json)
    (subscription : Option SubscriptionId) : Watcher α :=
  { watcher with state := { (watcher.state.received generation ending).1 with
      subscription := subscription } }

/-- The end of a fetch that is dropped leaves the active token; any other clears it. -/
theorem settling_eq (watcher : Watcher α) (generation : Nat) (ending : Ending Json)
    (subscription : Option SubscriptionId) :
    ∃ active last, settling watcher generation ending subscription =
        { watcher with state := { watcher.state with
            active := active, lastDelivered := last, subscription := subscription } } ∧
      ((active = watcher.state.active ∧
          (watcher.state.canceled = true ∨ watcher.state.generation ≠ generation)) ∨
        (active = none ∧ watcher.state.canceled = false ∧
          watcher.state.generation = generation)) := by
  rcases watcher.state.received_cases generation ending with
    ⟨hsame, hdropped⟩ | ⟨hlive, hnewest, last, hreceived, -⟩
  · exact ⟨_, _, by rw [settling, hsame], .inl ⟨rfl, hdropped⟩⟩
  · exact ⟨none, last, by rw [settling, hreceived], .inr ⟨rfl, hlive, hnewest⟩⟩

/-- What the outline becomes when a fetch ends. -/
def fetchEnded (o : Outline α) (id : WatcherId) (watcher : Watcher α) (generation : Nat)
    (ending : Ending Json) (subscription : Option SubscriptionId) : Outline α :=
  let ended := o.setWatcher id (settling watcher generation ending subscription)
  if (watcher.state.received generation ending).2 then
    ended.tell (.watched id (ending.bind (Response.decode watcher.decoder)))
  else ended

theorem heardBy_fetchEnded (o : Outline α) (id : WatcherId) (watcher : Watcher α) (generation : Nat)
    (ending : Ending Json) (subscription : Option SubscriptionId) :
    (o.fetchEnded id watcher generation ending subscription).heardBy id =
      if (watcher.state.received generation ending).2 then
        o.heardBy id ++ [ending.bind (Response.decode watcher.decoder)]
      else o.heardBy id := by
  rw [fetchEnded]
  split
  · exact heardBy_tell _ _ _
  · rfl

theorem fetchesOf_fetchEnded (o : Outline α) (id : WatcherId) (watcher : Watcher α)
    (generation : Nat) (ending : Ending Json) (subscription : Option SubscriptionId) :
    (o.fetchEnded id watcher generation ending subscription).fetchesOf id = o.fetchesOf id := by
  rw [fetchEnded]
  split <;> rfl

theorem timesCanceled_fetchEnded (o : Outline α) (id : WatcherId) (watcher : Watcher α)
    (generation : Nat) (ending : Ending Json) (subscription : Option SubscriptionId) :
    (o.fetchEnded id watcher generation ending subscription).timesCanceled id =
      o.timesCanceled id := by
  rw [fetchEnded]
  split
  · next hdelivers =>
    have hending : ending.isCanceled = false := by
      rcases watcher.state.received_cases generation ending with ⟨hsame, -⟩ | ⟨-, -, _, -, hnot⟩
      · rw [hsame] at hdelivers
        cases hdelivers
      · exact hnot hdelivers
    rw [timesCanceled_tell, Ending.isCanceled_decode hending]
    rfl
  · rfl

theorem get?_fetchEnded (o : Outline α) (id : WatcherId) (watcher : Watcher α) (generation : Nat)
    (ending : Ending Json) (subscription : Option SubscriptionId) :
    Assoc.get? (o.fetchEnded id watcher generation ending subscription).watchers id =
      some (settling watcher generation ending subscription) := by
  rw [fetchEnded]
  split <;> exact Assoc.get?_insert_self _ _ _

theorem tokens_fetchEnded (o : Outline α) (id : WatcherId) (watcher : Watcher α) (generation : Nat)
    (ending : Ending Json) (subscription : Option SubscriptionId) :
    (o.fetchEnded id watcher generation ending subscription).tokens = o.tokens := by
  rw [fetchEnded]
  split <;> rfl

/-- Only a watcher that is started has fetches. -/
theorem Orderly.started_of_mem (ho : Orderly o id watcher) {f : Nat × Token}
    (hf : f ∈ o.fetchesOf id) : watcher.state.started = true := by
  by_contra hunstarted
  rw [ho.unstarted (eq_false_of_ne_true hunstarted)] at hf
  exact Multiset.notMem_zero f hf

/-- A watcher stays orderly when one of its fetches ends. -/
theorem Orderly.fetchEnded {task : Task} {generation : Nat} {token : Token}
    (ho : Orderly (o.add task) id watcher) (hfetch : task.fetchOf? id = some (generation, token))
    (ending : Ending Json) (subscription : Option SubscriptionId) :
    Orderly (o.fetchEnded id watcher generation ending subscription) id
      (settling watcher generation ending subscription) := by
  have hbefore := fetchesOf_add hfetch o
  have hget := o.get?_fetchEnded id watcher generation ending subscription
  have hmem : ∀ f ∈ o.fetchesOf id, f ∈ (o.add task).fetchesOf id := by
    rw [hbefore]
    exact fun f hf => Multiset.mem_cons_of_mem hf
  have hnodup := ho.nodup
  rw [hbefore, Multiset.map_cons, Multiset.nodup_cons] at hnodup
  have hne : ∀ f ∈ o.fetchesOf id, f.1 ≠ generation := fun f hf heq =>
    hnodup.1 (Multiset.mem_map.mpr ⟨f, hf, heq⟩)
  have hstarted : watcher.state.started = true :=
    ho.started_of_mem (hbefore ▸ Multiset.mem_cons_self (generation, token) _)
  obtain ⟨active, last, hsettled, hcases⟩ := settling_eq watcher generation ending subscription
  rw [hsettled] at hget ⊢
  constructor
  case get => exact hget
  case bounded =>
    rw [fetchesOf_fetchEnded]
    exact fun f hf => ho.bounded f (hmem f hf)
  case nodup =>
    rw [fetchesOf_fetchEnded]
    exact hnodup.2
  case newest =>
    rw [fetchesOf_fetchEnded]
    intro token hactive
    rcases hcases with ⟨rfl, hdropped⟩ | ⟨rfl, -, -⟩
    · obtain ⟨hstarted, hlive, hnewest⟩ := ho.newest token hactive
      refine ⟨hstarted, hlive, ?_⟩
      rw [hbefore] at hnewest
      refine (Multiset.mem_cons.mp hnewest).resolve_left fun heq => ?_
      rcases hdropped with hcanceled | hne
      · rw [hlive] at hcanceled
        cases hcanceled
      · exact hne (congrArg Prod.fst heq)
    · cases hactive
  case obsolete =>
    rw [fetchesOf_fetchEnded, tokens_fetchEnded]
    intro f hf
    rcases ho.obsolete f (hmem f hf) with hcanceled | ⟨hactive, hgeneration⟩
    · exact .inl hcanceled
    · rcases hcases with ⟨rfl, -⟩ | ⟨rfl, -, hnewest⟩
      · exact .inr ⟨hactive, hgeneration⟩
      · exact absurd (hgeneration.trans hnewest) (hne f hf)
  case ended =>
    rw [fetchesOf_fetchEnded]
    intro hlive hactive f hf
    rcases hcases with ⟨rfl, -⟩ | ⟨-, -, hnewest⟩
    · exact ho.ended hlive hactive f (hmem f hf)
    · exact fun hgeneration => hne f hf (hgeneration.trans hnewest)
  case unstarted =>
    intro hunstarted
    rw [hstarted] at hunstarted
    cases hunstarted
  case untold =>
    rw [timesCanceled_fetchEnded]
    exact ho.untold
  case once =>
    rw [timesCanceled_fetchEnded]
    exact ho.once

/-- A watcher without fetches is orderly. -/
theorem Orderly.of_no_fetch (hget : Assoc.get? o.watchers id = some watcher)
    (hnone : o.fetchesOf id = 0) (hactive : watcher.state.active = none)
    (huntold : watcher.state.canceled = false ∨ watcher.state.started = false →
      o.timesCanceled id = 0) (honce : o.timesCanceled id ≤ 1) : Orderly o id watcher where
  get := hget
  bounded := by rw [hnone]; exact fun f hf => absurd hf (Multiset.notMem_zero f)
  nodup := by rw [hnone]; exact Multiset.nodup_zero
  newest token htoken := by rw [hactive] at htoken; cases htoken
  obsolete := by rw [hnone]; exact fun f hf => absurd hf (Multiset.notMem_zero f)
  ended _ _ := by rw [hnone]; exact fun f hf => absurd hf (Multiset.notMem_zero f)
  unstarted _ := hnone
  untold := huntold
  once := honce

theorem Orderly.active_eq_none (ho : Orderly o id watcher)
    (hstarted : watcher.state.started = false) : watcher.state.active = none := by
  cases hactive : watcher.state.active with
  | none => rfl
  | some token =>
    have h := (ho.newest token hactive).1
    rw [hstarted] at h
    cases h

/-- The watcher once it was started. -/
def starting (watcher : Watcher α) : Watcher α :=
  { watcher with state := { watcher.state with started := true } }

theorem Orderly.start (ho : Orderly o id watcher) (hstarted : watcher.state.started = false) :
    Orderly (o.setWatcher id (starting watcher)) id (starting watcher) := by
  have htimes : o.timesCanceled id = 0 := ho.untold (.inr hstarted)
  refine .of_no_fetch (Assoc.get?_insert_self _ _ _) (ho.unstarted hstarted)
    (ho.active_eq_none hstarted) (fun _ => htimes) ?_
  exact Nat.le_trans (Nat.le_of_eq htimes) (Nat.zero_le 1)

/-- A watcher that was canceled before it is started is told so, for the first time. -/
theorem Orderly.start_canceled (ho : Orderly o id watcher)
    (hstarted : watcher.state.started = false) (hcanceled : watcher.state.canceled = true) :
    Orderly ((o.setWatcher id (starting watcher)).tell (.watched id (.error .canceled))) id
      (starting watcher) := by
  have htimes : (o.setWatcher id (starting watcher)).timesCanceled id = 0 :=
    ho.untold (.inr hstarted)
  refine .of_no_fetch (Assoc.get?_insert_self _ _ _) (ho.unstarted hstarted)
    (ho.active_eq_none hstarted) (fun h => ?_) ?_
  · rcases h with h | h
    · exact absurd (h.symm.trans hcanceled) Bool.false_ne_true
    · cases h
  · rw [timesCanceled_tell, htimes]
    exact Nat.le_refl 1

theorem fetchesOf_watcherCanceled (o : Outline α) (id : WatcherId) (watcher : Watcher α) :
    (o.watcherCanceled id watcher).fetchesOf id = o.fetchesOf id := by
  rw [watcherCanceled]
  cases watcher.state.active <;> rfl

theorem heardBy_watcherCanceled (o : Outline α) (id : WatcherId) (watcher : Watcher α) :
    (o.watcherCanceled id watcher).heardBy id =
      o.heardBy id ++ if watcher.state.active.isSome then [.error .canceled] else [] := by
  rw [watcherCanceled]
  cases watcher.state.active with
  | none => exact (List.append_nil _).symm
  | some token => exact heardBy_tell _ _ _

/-- A watcher that is canceled stays orderly: its newest fetch is canceled with it. -/
theorem Orderly.cancel (ho : Orderly o id watcher) (hlive : watcher.state.canceled = false) :
    Orderly (o.watcherCanceled id watcher) id (canceling watcher) := by
  have htimes : o.timesCanceled id = 0 := ho.untold (.inl hlive)
  constructor
  case get =>
    rw [watcherCanceled]
    cases watcher.state.active <;> exact Assoc.get?_insert_self _ _ _
  case bounded =>
    rw [fetchesOf_watcherCanceled]
    exact ho.bounded
  case nodup =>
    rw [fetchesOf_watcherCanceled]
    exact ho.nodup
  case newest => exact fun token hactive => by cases hactive
  case obsolete =>
    rw [fetchesOf_watcherCanceled]
    intro f hf
    left
    rw [watcherCanceled]
    rcases ho.obsolete f hf with hcanceled | ⟨hactive, -⟩
    · cases watcher.state.active with
      | none => exact hcanceled
      | some token => exact List.mem_cons_of_mem _ hcanceled
    · rw [hactive]
      exact List.mem_cons_self
  case ended => exact fun h => by cases h
  case unstarted =>
    rw [fetchesOf_watcherCanceled]
    exact ho.unstarted
  case untold =>
    rintro (h | h)
    · cases h
    · rw [timesCanceled, heardBy_watcherCanceled, ho.active_eq_none h]
      simpa [timesCanceled] using htimes
  case once =>
    rw [timesCanceled, heardBy_watcherCanceled, List.filter_append, List.length_append]
    rw [timesCanceled] at htimes
    rw [htimes, Nat.zero_add]
    cases watcher.state.active with
    | none => exact Nat.zero_le 1
    | some token => exact Nat.le_refl 1

end Outline

end GraphClient
