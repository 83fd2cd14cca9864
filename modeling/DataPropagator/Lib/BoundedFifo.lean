import Mathlib.Data.List.Basic

/-!
# Bounded queues, one operation after another

What a queue is for when nobody else uses it: items leave in the order they came in, and
there are never more of them than the bound.  A bound of 0 is no bound.

A history is a list of operations with their answers, and `History bound es q` says that
a queue can give these answers in this order and holds `q` afterwards.  An implementation
used by many threads is as good as such a queue when the operations can be put in an
order that is a history.
-/

namespace Fifo

variable {α : Type}

/-- An operation and its answer. -/
inductive Event (α : Type) where
  | inserted (a : α)
  /-- An insertion that failed. -/
  | refused (a : α)
  | removed (a : α)
  /-- A removal that found nothing. -/
  | foundEmpty
deriving DecidableEq, Repr

/-- What one operation does to the contents, oldest item first. -/
inductive Step (bound : Nat) : List α → Event α → List α → Prop where
  | insert {q : List α} {a : α} :
      (0 < bound → q.length < bound) → Step bound q (.inserted a) (q ++ [a])
  | refuse {q : List α} {a : α} : Step bound q (.refused a) q
  | remove {q : List α} {a : α} : Step bound (a :: q) (.removed a) q
  | findEmpty : Step bound [] .foundEmpty []

/-- The operations of a queue that was empty, and the contents after them. -/
inductive History (bound : Nat) : List (Event α) → List α → Prop where
  | nil : History bound [] []
  | snoc {es : List (Event α)} {e : Event α} {q q' : List α} :
      History bound es q → Step bound q e q' → History bound (es ++ [e]) q'

/-- The items inserted, oldest first. -/
def inserted (es : List (Event α)) : List α :=
  es.filterMap fun
    | .inserted a => some a
    | _ => none

/-- The items removed, oldest first. -/
def removed (es : List (Event α)) : List α :=
  es.filterMap fun
    | .removed a => some a
    | _ => none

variable {bound : Nat} {es : List (Event α)} {q q' : List α} {e : Event α}

theorem inserted_append (es es' : List (Event α)) :
    inserted (es ++ es') = inserted es ++ inserted es' := List.filterMap_append

theorem removed_append (es es' : List (Event α)) :
    removed (es ++ es') = removed es ++ removed es' := List.filterMap_append

/-- One operation neither loses an item nor makes one up, and it keeps their order. -/
theorem Step.fifo (h : Step bound q e q') : q ++ inserted [e] = removed [e] ++ q' := by
  cases h with
  | insert _ => rfl
  | refuse => exact List.append_nil q
  | remove => exact List.append_nil _
  | findEmpty => rfl

theorem Step.bounded (h : Step bound q e q') (hb : 0 < bound) (hq : q.length ≤ bound) :
    q'.length ≤ bound := by
  cases h with
  | insert hroom =>
      rw [List.length_append]
      exact hroom hb
  | refuse => exact hq
  | remove => exact Nat.le_of_succ_le hq
  | findEmpty => exact hq

/-- What was removed and what is left is what was inserted, in the same order. -/
theorem History.fifo (h : History bound es q) : inserted es = removed es ++ q := by
  induction h with
  | nil => rfl
  | snoc _ hstep ih =>
      rw [inserted_append, removed_append, ih, List.append_assoc, hstep.fifo, List.append_assoc]

/-- The bound is kept. -/
theorem History.bounded (h : History bound es q) (hb : 0 < bound) : q.length ≤ bound := by
  induction h with
  | nil => exact Nat.zero_le _
  | snoc _ hstep ih => exact hstep.bounded hb ih

end Fifo
