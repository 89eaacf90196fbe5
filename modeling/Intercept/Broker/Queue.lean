/-!
# Intercept.Broker.Queue

A queue of bounded length between the broker and somebody who takes from it.
Putting never waits: a full queue and one whose taker is gone refuse.
-/

namespace Intercept

/-- A queue with room for `capacity` items. -/
structure BoundedQueue (α : Type) where
  capacity : Nat
  items : List α := []
  /-- Whether somebody will take what is put. -/
  isOpen : Bool := true
deriving DecidableEq, Repr

namespace BoundedQueue

variable {α : Type}

/-- Put an item at the end, or `none` if there is no room or no taker. -/
def push? (q : BoundedQueue α) (a : α) : Option (BoundedQueue α) :=
  if q.isOpen && q.items.length < q.capacity then some { q with items := q.items ++ [a] } else none

/-- The queue after its oldest `n` items have been taken. -/
def taken (q : BoundedQueue α) (n : Nat) : BoundedQueue α := { q with items := q.items.drop n }

/-- The queue after everything has been taken. -/
def drained (q : BoundedQueue α) : BoundedQueue α := { q with items := [] }

/-- The queue after its taker has gone; what it held is lost. -/
def closed (q : BoundedQueue α) : BoundedQueue α := { q with items := [], isOpen := false }

theorem push?_isSome (q : BoundedQueue α) (a : α) :
    (q.push? a).isSome = (q.isOpen && q.items.length < q.capacity) := by
  unfold push?
  split <;> simp_all

/-- There is no room, or nobody who takes. -/
theorem push?_eq_none_iff (q : BoundedQueue α) (a : α) :
    q.push? a = none ↔ q.isOpen = false ∨ q.capacity ≤ q.items.length := by
  rw [← Option.not_isSome_iff_eq_none, push?_isSome, Bool.and_eq_true, decide_eq_true_eq,
    Decidable.not_and_iff_or_not, Bool.not_eq_true, Nat.not_lt]

theorem items_of_push? {q q' : BoundedQueue α} {a : α} (h : q.push? a = some q') :
    q'.items = q.items ++ [a] := by
  unfold push? at h
  split at h
  · cases h; rfl
  · cases h

end BoundedQueue

end Intercept
