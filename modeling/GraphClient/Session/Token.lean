/-!
# Cancellation tokens

A token is canceled once and for all, and with it every token that descends from it. A token carries
its ancestors, so all that has to be remembered is which tokens were canceled themselves.
-/

namespace GraphClient

/-- A token with the numbers of its ancestors. -/
structure Token where
  number : Nat
  ancestors : List Nat := []
deriving DecidableEq, Repr

/-- Which tokens were canceled, and the number of the next token. -/
structure Tokens where
  next : Nat := 0
  canceled : List Nat := []
deriving DecidableEq, Repr

namespace Tokens

/-- A new token without ancestors. -/
def fresh (t : Tokens) : Token × Tokens := (⟨t.next, []⟩, { t with next := t.next + 1 })

/-- A new token that is canceled with its parent. -/
def child (t : Tokens) (parent : Token) : Token × Tokens :=
  (⟨t.next, parent.number :: parent.ancestors⟩, { t with next := t.next + 1 })

/-- Cancels a token and all its descendants. -/
def cancel (t : Tokens) (token : Token) : Tokens :=
  { t with canceled := token.number :: t.canceled }

/-- Whether a token or one of its ancestors was canceled. -/
def isCanceled (t : Tokens) (token : Token) : Bool :=
  (token.number :: token.ancestors).any fun number => t.canceled.contains number

theorem isCanceled_iff {t : Tokens} {token : Token} :
    t.isCanceled token = true ↔ ∃ n ∈ token.number :: token.ancestors, n ∈ t.canceled := by
  simp only [isCanceled, List.any_eq_true, List.contains_iff_mem]

@[simp] theorem isCanceled_cancel_self (t : Tokens) (token : Token) :
    (t.cancel token).isCanceled token = true := by
  simp [isCanceled, cancel]

end Tokens

end GraphClient
