import GraphClient.Storage.Guarded
import GraphClient.Store

/-!
# Refused records

A storage may refuse to merge a record. Nothing is undone then: the records before the refused one
stay merged, while the error says nothing of the field keys that they have changed.
`Storage.MergeOutcome` lists what merging records may come to, for a storage that keeps nothing of a
record it refuses.
-/

namespace GraphClient

namespace Storage

/-- A merge that is refused leaves every record as it was. -/
def KeepsOnRefusal (σ : Type) [Storage σ] : Prop :=
  ∀ (contents after : σ) (r : Record) (e : CacheError), merge contents r = (.error e, after) →
    ∀ key, load? after key = load? contents key

variable {σ : Type} [Storage σ]

/-- Records are merged one after the other, none is refused, and all changed field keys are
collected. -/
inductive Merges : σ → List Record → KeySet → σ → Prop
  | nil (contents : σ) : Merges contents [] ∅ contents
  | cons {contents next after : σ} {r : Record} {rs : List Record} {changed rest : KeySet}
      (first : merge contents r = (.ok changed, next)) (others : Merges next rs rest after) :
      Merges contents (r :: rs) (changed ∪ rest) after

/-- All records are merged, or one is refused: the contents then hold what they did before it came,
with all records before it merged and none of it or after it. -/
inductive MergeOutcome (contents : σ) : List Record → Except CacheError KeySet → σ → Prop
  | merged {records : List Record} {changed : KeySet} {after : σ}
      (all : Merges contents records changed after) :
      MergeOutcome contents records (.ok changed) after
  | refused {before rest : List Record} {r : Record} {changed : KeySet} {merged after : σ}
      {e : CacheError} (earlier : Merges contents before changed merged)
      (refusal : (merge merged r).1 = .error e) (kept : ∀ key, load? after key = load? merged key) :
      MergeOutcome contents (before ++ r :: rest) (.error e) after

theorem mergeOutcome_mergeAll (hσ : KeepsOnRefusal σ) (contents : σ) (records : List Record) :
    ∃ result after, mergeAll contents records = (result, after) ∧
      MergeOutcome contents records result after := by
  induction records generalizing contents with
  | nil => exact ⟨.ok ∅, contents, rfl, .merged (.nil contents)⟩
  | cons r rs ih =>
    obtain ⟨first, next, hfirst⟩ : ∃ first next, merge contents r = (first, next) := ⟨_, _, rfl⟩
    cases first with
    | error e =>
      have hrefused : MergeOutcome contents ([] ++ r :: rs) (.error e) next :=
        .refused (.nil contents) (congrArg Prod.fst hfirst) (hσ contents next r e hfirst)
      exact ⟨.error e, next, mergeAll_cons_eq_error hfirst, hrefused⟩
    | ok changed =>
      obtain ⟨result, after, hrs, houtcome⟩ := ih next
      cases houtcome with
      | merged all => exact ⟨_, after, mergeAll_cons_eq_ok hfirst hrs, .merged (.cons hfirst all)⟩
      | refused earlier refusal kept =>
        exact ⟨_, after, mergeAll_cons_eq_error_of_rest hfirst hrs,
          .refused (.cons hfirst earlier) refusal kept⟩

end Storage

theorem GuardedContents.keepsOnRefusal : Storage.KeepsOnRefusal GuardedContents := by
  intro guarded after r e h key
  change guarded.merge r = _ at h
  rw [merge] at h
  split at h
  · cases h
    rfl
  · cases h

namespace Store

variable {σ β : Type} [Storage σ]

/-- Merging and writing keep nothing of a refused record and of those after it, all of those before
it, and everything else of the store. Data that does not fit its operation changes nothing. -/
theorem mergeOutcome_write (hσ : Storage.KeepsOnRefusal σ) (s : Store σ β) :
    (∀ records directives, directives.doNotStore = true →
      s.merge records directives = (.ok ∅, s)) ∧
    (∀ records directives, directives.doNotStore = false →
      ∃ result after, s.merge records directives = (result, { s with contents := after }) ∧
        Storage.MergeOutcome s.contents records result after) ∧
    ∀ operation data,
      (∃ mismatch, s.normalize operation data = .error mismatch ∧
        s.write operation data = (.error (.ofMismatch mismatch), s)) ∨
      ∃ normalized result after, s.normalize operation data = .ok normalized ∧
        s.write operation data = (result, { s with contents := after }) ∧
        Storage.MergeOutcome s.contents (Assoc.values normalized.records) result after := by
  have hmerge : ∀ records directives, directives.doNotStore = false →
      ∃ result after, s.merge records directives = (result, { s with contents := after }) ∧
        Storage.MergeOutcome s.contents records result after := by
    intro records directives hstore
    obtain ⟨result, after, hall, houtcome⟩ :=
      Storage.mergeOutcome_mergeAll hσ s.contents records
    refine ⟨result, after, ?_, houtcome⟩
    rw [merge, hstore, hall]
    rfl
  refine ⟨fun records directives hstore => by rw [merge, if_pos hstore], hmerge, fun _ data => ?_⟩
  rw [write]
  cases hnormalize : s.normalize _ data with
  | error mismatch => exact .inl ⟨mismatch, rfl, rfl⟩
  | ok normalized =>
    obtain ⟨result, after, hwrite, houtcome⟩ :=
      hmerge (Assoc.values normalized.records) .none rfl
    exact .inr ⟨normalized, result, after, rfl, hwrite, houtcome⟩

section RefusedHero

private def refusedQuery : Operation :=
  { name := "Hero", document := "", id := "hero", selections := [
    .field { responseName := "hero", name := "hero" } (.object [
      .field { responseName := "__typename", name := "__typename" } .leaf,
      .field { responseName := "id", name := "id" } .leaf])] }

private def refusedData : Json.Object :=
  [("hero", .object [("__typename", .string "Droid"), ("id", .string "2001")])]

private def refusingStore : Store GuardedContents String :=
  { contents := { refused := ⟨"Droid:2001"⟩ }, resolver := .byTypeAndId,
    subscriptions := [(⟨0⟩, ⟨KeySet.ofList ["QUERY_ROOT.hero"], "hero watcher"⟩)],
    nextSubscription := 1 }

/-- The hero is refused after the root that refers to it. -/
theorem mergeOutcome_write_refusedHero :
    Storage.KeepsOnRefusal GuardedContents ∧ ∃ normalized after,
      refusingStore.normalize refusedQuery refusedData = .ok normalized ∧
      refusingStore.write refusedQuery refusedData =
        (.error (.store "Droid:2001" "refused"), { refusingStore with contents := after }) ∧
      Storage.MergeOutcome refusingStore.contents (Assoc.values normalized.records)
        (.error (.store "Droid:2001" "refused")) after := by
  obtain ⟨-, -, hwrite⟩ := mergeOutcome_write GuardedContents.keepsOnRefusal refusingStore
  have herror : (refusingStore.write refusedQuery refusedData).1 =
      .error (.store "Droid:2001" "refused") := rfl
  obtain ⟨mismatch, -, hmismatch⟩ | ⟨normalized, result, after, hnormalize, hresult, houtcome⟩ :=
    hwrite refusedQuery refusedData
  · rw [hmismatch] at herror
    cases herror
  · rw [hresult] at herror
    obtain rfl : result = _ := herror
    exact ⟨GuardedContents.keepsOnRefusal, normalized, after, hnormalize, hresult, houtcome⟩

/-- A write that is refused may have changed a record, of which no subscriber is told. -/
theorem changed_refusedHero :
    Storage.KeepsOnRefusal GuardedContents ∧ ∃ e after,
      refusingStore.writeAndPublish refusedQuery refusedData = (.error e, none, after) ∧
      refusingStore.load? .queryRoot = none ∧ (after.load? .queryRoot).isSome = true :=
  ⟨GuardedContents.keepsOnRefusal, _, _, rfl, rfl, rfl⟩

end RefusedHero

end Store

end GraphClient
