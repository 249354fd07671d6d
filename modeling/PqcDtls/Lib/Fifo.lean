/-
# The bounded FIFO

What a bounded queue does, as the events its users see: a push is accepted
while there is room and dropped when there is none, a pop takes the oldest
entry, and a pop of nothing finds the queue empty. A history of events is one
of the queue's (`FifoRun`) exactly when each event is allowed where it stands.
Whatever the history, the accepted entries are the popped ones followed by
those still held (`FifoRun.accepted_eq`).
-/
import Mathlib.Tactic

namespace Lib

/-- What happens to a bounded queue. -/
inductive FifoEv (α : Type) where
  | push (d : α)
  | drop (d : α)
  | pop (d : α)
  | empty

/-- The events a queue of capacity `cap` allows, and what each does to it. -/
inductive FifoStep {α : Type} (cap : ℕ) : List α → FifoEv α → List α → Prop where
  | push {q : List α} (d : α) : q.length < cap → FifoStep cap q (.push d) (q ++ [d])
  | drop {q : List α} (d : α) : q.length = cap → FifoStep cap q (.drop d) q
  | pop {q : List α} (d : α) : FifoStep cap (d :: q) (.pop d) q
  | empty : FifoStep cap [] .empty []

/-- A history of the queue, from empty to the entries `q`. -/
inductive FifoRun {α : Type} (cap : ℕ) : List (FifoEv α) → List α → Prop where
  | nil : FifoRun cap [] []
  | snoc {evs : List (FifoEv α)} {q q' : List α} {e : FifoEv α} :
      FifoRun cap evs q → FifoStep cap q e q' → FifoRun cap (evs ++ [e]) q'

/-- The entries accepted in a history. -/
def accepted {α : Type} (evs : List (FifoEv α)) : List α :=
  evs.filterMap fun
    | .push d => some d
    | _ => none

/-- The entries popped in a history. -/
def popped {α : Type} (evs : List (FifoEv α)) : List α :=
  evs.filterMap fun
    | .pop d => some d
    | _ => none

theorem accepted_append {α : Type} (a b : List (FifoEv α)) :
    accepted (a ++ b) = accepted a ++ accepted b := List.filterMap_append

theorem popped_append {α : Type} (a b : List (FifoEv α)) :
    popped (a ++ b) = popped a ++ popped b := List.filterMap_append

/-- **First in, first out.** The accepted entries are the popped ones, then
the held ones, in order. -/
theorem FifoRun.accepted_eq {α : Type} {cap : ℕ} {evs : List (FifoEv α)} {q : List α}
    (h : FifoRun cap evs q) : accepted evs = popped evs ++ q := by
  induction h with
  | nil => rfl
  | snoc _ hs ih =>
    rw [accepted_append, popped_append, ih]
    cases hs <;> simp [accepted, popped]

end Lib
