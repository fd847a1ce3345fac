import GraphClient.Proofs.Session.Interleaving

/-!
# Which updates reach a watcher

An `Update` is what a watcher should learn of: it has obtained a response, and field keys that the
response depends on are changed by a write that comes after. The watcher learns of it when it begins
another fetch after the write.

A watcher depends on the response that it accepted last. So it does learn of the update if the
notification of the write comes after the response was accepted, and the watcher has not turned to
something else in between. In two orders it does not. It may have accepted a response since that does
not depend on what was changed, and then there is nothing to learn. Or the notification has come and
gone before it accepted the first, and then the update is lost: the watcher shows what was there
before the write, and nothing will tell it.
-/

namespace GraphClient.Interleaved

variable {σ τ α : Type} [Storage σ]

section Runs

variable {client : Client τ} {s : Interleaved σ τ α} {moves : Nat → Move} {watcher : WatcherId}

/-- A move with which a watcher accepts a response sets what it depends on. -/
theorem dependsOn_of_accepted? (hs : s.session.Consistent) {move : Move} {answer : Answer}
    (h : s.accepted? move = some answer) :
    (s.step client move).session.DependsOn answer.watcher answer.dependentKeys := by
  cases move with
  | handOver index =>
    obtain ⟨⟨execution, ending⟩, harrived, haccepted⟩ := Option.bind_eq_some_iff.mp h
    obtain ⟨id, haccepts⟩ := Session.accepts_of_accepted?_eq_some hs haccepted
    rw [handOver_eq client harrived]
    exact haccepts.dependsOn
  | _ => cases h

/-- Carrying out a notification begins a fetch of every live watcher that depends on it. -/
theorem beginsFetch_of_notified? {move : Move} {changed : KeySet}
    (h : s.notified? move = some changed) (hlive : s.session.Live watcher) {keys : KeySet}
    (hdepends : s.session.DependsOn watcher keys) (hintersects : keys.intersects changed = true) :
    s.session.BeginsFetch (s.step client move).session watcher := by
  cases move with
  | advance index =>
    rw [notified?] at h
    split at h
    · next told hready =>
      cases h
      rw [advance_eq client hready]
      have hlive : (s.taking index).Live watcher := hlive
      have hdepends : (s.taking index).DependsOn watcher keys := hdepends
      exact Session.beginsFetch_notify hlive hdepends hintersects
    · cases h
  | _ => cases h

/-- A watcher depends on one of some field keys while all responses that it accepts do. -/
theorem exists_dependsUnlessCanceled_run (hs : s.session.Consistent) {first last : Nat}
    (horder : first < last) {answer : Answer}
    (haccepted : (s.run client moves first).accepted? (moves first) = some answer)
    {changed : KeySet} (hintersects : answer.dependentKeys.intersects changed = true)
    (hlater : ∀ time later, first < time → time < last →
      (s.run client moves time).accepted? (moves time) = some later →
      later.watcher = answer.watcher → later.dependentKeys.intersects changed = true) :
    ∃ keys, keys.intersects changed = true ∧
      (s.run client moves last).DependsUnlessCanceled answer.watcher keys := by
  induction horder with
  | refl =>
    have hconsistent := consistent_run client hs moves first
    exact ⟨answer.dependentKeys, hintersects, .inl (dependsOn_of_accepted? hconsistent haccepted)⟩
  | @step last horder ih =>
    have hconsistent := consistent_run client hs moves last
    obtain ⟨keys, hkeys, hdepends⟩ := ih fun time later hfirst hlast =>
      hlater time later hfirst (Nat.lt_succ_of_lt hlast)
    by_cases hown : ∃ later, (s.run client moves last).accepted? (moves last) = some later ∧
        later.watcher = answer.watcher
    · obtain ⟨later, hlaccepted, hwatcher⟩ := hown
      refine ⟨later.dependentKeys, ?_, .inl ?_⟩
      · exact hlater last later horder (Nat.lt_succ_self last) hlaccepted hwatcher
      · rw [← hwatcher]
        exact dependsOn_of_accepted? hconsistent hlaccepted
    · refine ⟨keys, hkeys, dependsUnlessCanceled_step client hconsistent ?_ hdepends⟩
      intro later hlaccepted hwatcher
      exact hown ⟨later, hlaccepted, hwatcher⟩

end Runs

/-- A watcher obtains and accepts a response, and field keys that the response depends on are changed
and published after it was obtained. -/
structure Update (client : Client τ) (s : Interleaved σ τ α) (moves : Nat → Move)
    (watcher : WatcherId) where
  /-- When the fetch obtains the response. -/
  obtains : Nat
  /-- When the watcher accepts it. -/
  accepts : Nat
  /-- When the records are merged. -/
  merges : Nat
  /-- When the notification of the merge is carried out. -/
  notifies : Nat
  answer : Answer
  changed : KeySet
  own : answer.watcher = watcher
  obtained : (s.run client moves obtains).obtained? client (moves obtains) = some answer
  accepted : (s.run client moves accepts).accepted? (moves accepts) = some answer
  merged : (s.run client moves (merges + 1)).session.published =
    (s.run client moves merges).session.published ++ [changed]
  notified : (s.run client moves notifies).notified? (moves notifies) = some changed
  obtains_lt_accepts : obtains < accepts
  obtains_lt_merges : obtains < merges
  merges_lt_notifies : merges < notifies
  intersects : answer.dependentKeys.intersects changed = true
  live : (s.run client moves notifies).session.Live watcher

namespace Update

variable {client : Client τ} {s : Interleaved σ τ α} {moves : Nat → Move} {watcher : WatcherId}

/-- The watcher begins a fetch after the merge. -/
def Seen (u : Update client s moves watcher) : Prop :=
  ∃ time, u.merges < time ∧
    (s.run client moves time).session.BeginsFetch (s.run client moves (time + 1)).session watcher

/-- An update is seen if its notification finds the watcher depending on what was changed: the
response was accepted before, and so were only responses that depend on one of the changed keys. -/
theorem seen_of_accepts_lt_notifies (hs : s.session.Consistent) (u : Update client s moves watcher)
    (horder : u.accepts < u.notifies)
    (hlater : ∀ time later, u.accepts < time → time < u.notifies →
      (s.run client moves time).accepted? (moves time) = some later →
      later.watcher = watcher → later.dependentKeys.intersects u.changed = true) : u.Seen := by
  obtain ⟨keys, hkeys, hdepends⟩ := exists_dependsUnlessCanceled_run hs horder u.accepted
    u.intersects (by rwa [u.own])
  rw [u.own] at hdepends
  refine ⟨u.notifies, u.merges_lt_notifies, ?_⟩
  rcases hdepends with hdepends | ⟨subscription, hcanceled⟩
  · exact beginsFetch_of_notified? u.notified u.live hdepends hkeys
  · obtain ⟨state, hstate, -, hlive⟩ := u.live
    rw [Session.standing, hstate, Option.map_some, hlive] at hcanceled
    cases hcanceled

/-- An update is lost if no fetch begins while anything happens after the merge. -/
theorem not_seen (u : Update client s moves watcher) {last : Nat}
    (hrests : ∀ time, last ≤ time → moves time = .rest)
    (hstays : ∀ time < last, u.merges < time →
      (s.run client moves time).session.generation watcher =
        (s.run client moves (time + 1)).session.generation watcher) : ¬ u.Seen := by
  rintro ⟨time, hafter, hbegins⟩
  refine hbegins.generation_ne ?_
  rcases Nat.lt_or_ge time last with hbefore | hpast
  · exact hstays time hbefore hafter
  · rw [run, hrests time hpast]
    rfl

end Update

section Flagship

private def shipShape : Shape := .object [
  .field { responseName := "__typename", name := "__typename" } .leaf,
  .field { responseName := "id", name := "id" } .leaf,
  .field { responseName := "name", name := "name" } .leaf]

private def flagshipQuery : Operation :=
  { name := "Flagship", document := "", id := "flagship", selections := [
    .field { responseName := "flagship", name := "flagship" } shipShape] }

private def shipQuery : Operation :=
  { name := "Ship", document := "", id := "ship", selections := [
    .field { responseName := "ship", name := "ship" } shipShape] }

private def shipAt (field id name : String) : Json.Object :=
  [(field, .object [("__typename", .string "Ship"), ("id", .string id), ("name", .string name)])]

/-- No request is sent, for all responses are read from the store. -/
private def fleetClient : Client Unit :=
  { server := { url := "" }, transport := ⟨fun _ s => ({ result := .error "" }, s)⟩ }

/-- The flagship is known, and somebody is about to watch it. -/
private def fleet : Interleaved MemoryContents Unit Json where
  session :=
    { store := (({ resolver := .byTypeAndId, contents := .empty } :
        Store MemoryContents WatcherId).write flagshipQuery (shipAt "flagship" "7" "Home One")).2
      transport := ()
      watchers := [(⟨0⟩, { options := { operation := flagshipQuery }, decoder := some })] }

private def thenRest (moves : List Move) : Nat → Move := fun time => moves.getD time .rest

private theorem thenRest_of_length_le {moves : List Move} {time : Nat}
    (h : moves.length ≤ time) : thenRest moves time = .rest := by
  rw [thenRest, List.getD_eq_getElem?_getD, List.getElem?_eq_none h, Option.getD_none]

private def rename : Move := .write shipQuery (shipAt "ship" "7" "Retired")

/-- The ship is renamed once the watcher has accepted it. -/
private def promptMoves : List Move := [.watch ⟨0⟩, .advance 0, .handOver 0, rename, .advance 0]

/-- The ship is renamed while the watcher turns to the next flagship. -/
private def supersededMoves : List Move :=
  [.watch ⟨0⟩, .advance 0, .handOver 0,
    .write flagshipQuery (shipAt "flagship" "8" "Liberty"), .advance 0, .advance 0,
    rename, .handOver 0, .advance 0]

/-- The ship is renamed, and all are told, before the watcher has accepted it. -/
private def overtakenMoves : List Move :=
  [.watch ⟨0⟩, .advance 0, rename, .advance 0, .handOver 0]

private def flagshipAnswer : Answer :=
  ⟨⟨0⟩, 1, KeySet.ofList ["QUERY_ROOT.flagship", "Ship:7.__typename", "Ship:7.id", "Ship:7.name"]⟩

private def renamed : KeySet := KeySet.ofList ["QUERY_ROOT.ship", "Ship:7.name"]

private theorem consistent_fleet : fleet.session.Consistent := by
  refine Session.consistent_of_unsubscribed (by decide +kernel) ?_
  intro watcher canceled id hstanding
  obtain ⟨state, hget, hstate⟩ := Option.map_eq_some_iff.mp hstanding
  have hmem := Assoc.mem_of_get?_eq_some hget
  rw [fleet, List.mem_singleton] at hmem
  cases hmem
  cases hstate

private def promptUpdate : Update fleetClient fleet (thenRest promptMoves) ⟨0⟩ where
  obtains := 1
  accepts := 2
  merges := 3
  notifies := 4
  answer := flagshipAnswer
  changed := renamed
  own := rfl
  obtained := by decide +kernel
  accepted := by decide +kernel
  merged := by decide +kernel
  notified := by decide +kernel
  obtains_lt_accepts := by decide
  obtains_lt_merges := by decide
  merges_lt_notifies := by decide
  intersects := by decide +kernel
  live := by decide +kernel

theorem seen_promptUpdate :
    fleet.session.Consistent ∧ promptUpdate.accepts < promptUpdate.notifies ∧
      promptUpdate.Seen := by
  refine ⟨consistent_fleet, by decide, ?_⟩
  refine promptUpdate.seen_of_accepts_lt_notifies consistent_fleet (by decide) ?_
  intro time later hafter hbefore haccepted
  change 2 < time at hafter
  change time < 4 at hbefore
  -- the one move between is the write
  obtain rfl : time = 3 := by omega
  cases haccepted

private def supersededUpdate : Update fleetClient fleet (thenRest supersededMoves) ⟨0⟩ where
  obtains := 1
  accepts := 2
  merges := 6
  notifies := 8
  answer := flagshipAnswer
  changed := renamed
  own := rfl
  obtained := by decide +kernel
  accepted := by decide +kernel
  merged := by decide +kernel
  notified := by decide +kernel
  obtains_lt_accepts := by decide
  obtains_lt_merges := by decide
  merges_lt_notifies := by decide
  intersects := by decide +kernel
  live := by decide +kernel

private def overtakenUpdate : Update fleetClient fleet (thenRest overtakenMoves) ⟨0⟩ where
  obtains := 1
  accepts := 4
  merges := 2
  notifies := 3
  answer := flagshipAnswer
  changed := renamed
  own := rfl
  obtained := by decide +kernel
  accepted := by decide +kernel
  merged := by decide +kernel
  notified := by decide +kernel
  obtains_lt_accepts := by decide
  obtains_lt_merges := by decide
  merges_lt_notifies := by decide
  intersects := by decide +kernel
  live := by decide +kernel

/-- Neither the order of the moves nor what the watcher has turned to can be left out. It is the
overtaken update that is lost; a watcher that has turned to the next flagship does not show the old
one any more. -/
theorem exists_update_not_seen :
    fleet.session.Consistent ∧
      (∃ u : Update fleetClient fleet (thenRest supersededMoves) ⟨0⟩,
        u.accepts < u.merges ∧ ¬ u.Seen) ∧
      ∃ u : Update fleetClient fleet (thenRest overtakenMoves) ⟨0⟩,
        u.notifies < u.accepts ∧ ¬ u.Seen := by
  refine ⟨consistent_fleet, ⟨supersededUpdate, by decide, ?_⟩, overtakenUpdate, by decide, ?_⟩
  · refine supersededUpdate.not_seen (fun _ => thenRest_of_length_le) ?_
    change ∀ time < 9, 6 < time → _
    decide +kernel
  · refine overtakenUpdate.not_seen (fun _ => thenRest_of_length_le) ?_
    change ∀ time < 5, 2 < time → _
    decide +kernel

end Flagship

end GraphClient.Interleaved
