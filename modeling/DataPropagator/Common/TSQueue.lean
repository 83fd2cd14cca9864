import DataPropagator.Lib.Monitor
import Mathlib.Data.List.ReduceOption

/-!
# The thread-safe queue

`queue.c` and `tsqueue.c`.  An item is a pointer, and NULL is `none`.

A call that may block holds the critical section from its entry to its return, except
while it sleeps.  So it is cut into stays: one from the entry to the return or to the
first sleep, and one from every wake-up to the return or to the next sleep.  Each stay
is atomic, and all of them run the same text, since the loop tests its condition again
after a wake-up.
-/

namespace DataPropagator

open Monitor

variable {τ α : Type} [DecidableEq τ]

/-! ## The queue -/

/-- `queue_enqueue`: its result and the queue.  `alloc` says whether the node was
allocated. -/
def queueEnqueue (q : List (Option α)) (data : Option α) (alloc : Bool) :
    Int × List (Option α) :=
  if alloc then (0, q ++ [data]) else (-1, q)

/-- `queue_dequeue`: its result and the queue. -/
def queueDequeue : List (Option α) → Option α × List (Option α)
  | [] => (none, [])
  | data :: q => (data, q)

/-- `queue_is_empty`. -/
def queueIsEmpty (q : List (Option α)) : Bool := q.length == 0

/-! ## The queue with its lock -/

/-- `TSQueue`.  A capacity of 0 is no bound. -/
structure TSQueue (τ α : Type) where
  inner : List (Option α)
  capacity : Nat
  cvNotEmpty : CondVar τ
  cvNotFull : CondVar τ
deriving DecidableEq, Repr

/-- `tsqueue_create`, its allocations succeeding. -/
def tsqueueCreate (bufferSize : Nat) : TSQueue τ α where
  inner := []
  capacity := bufferSize
  cvNotEmpty := {}
  cvNotFull := {}

/-- How a stay in the critical section ends, and the queue it leaves. -/
inductive Stay (τ α ρ : Type) where
  /-- The thread sleeps. -/
  | sleeps (q : TSQueue τ α)
  /-- The call returns. -/
  | returns (r : ρ) (q : TSQueue τ α)

/-- A stay of thread `t` in `tsqueue_enqueue`.  `wakes` is the thread that its signal
wakes. -/
def tsqueueEnqueue (q : TSQueue τ α) (t : τ) (data : Option α) (alloc : Bool)
    (wakes : Option τ) : Option (Stay τ α Int) :=
  if 0 < q.capacity ∧ q.capacity ≤ q.inner.length then
    some (.sleeps { q with cvNotFull := q.cvNotFull.sleep t })
  else
    let (r, inner) := queueEnqueue q.inner data alloc
    (q.cvNotEmpty.wake wakes).map fun cv => .returns r { q with inner, cvNotEmpty := cv }

/-- A stay of thread `t` in `tsqueue_dequeue`. -/
def tsqueueDequeue (q : TSQueue τ α) (t : τ) (wakes : Option τ) :
    Option (Stay τ α (Option α)) :=
  if queueIsEmpty q.inner then
    some (.sleeps { q with cvNotEmpty := q.cvNotEmpty.sleep t })
  else
    let (data, inner) := queueDequeue q.inner
    (q.cvNotFull.wake wakes).map fun cv => .returns data { q with inner, cvNotFull := cv }

/-- A call of `tsqueue_try_dequeue`, which is one stay.  Taking NULL out signals nobody. -/
def tsqueueTryDequeue (q : TSQueue τ α) (wakes : Option τ) : Option (Stay τ α (Option α)) :=
  let (data, inner) := if queueIsEmpty q.inner then (none, q.inner) else queueDequeue q.inner
  let cv := if data.isSome then q.cvNotFull.wake wakes else some q.cvNotFull
  cv.map fun cv => .returns data { q with inner, cvNotFull := cv }

/-- The items that `tsqueue_destroy` passes to `freeFunc`. -/
def tsqueueDestroy (q : TSQueue τ α) : List α := q.inner.reduceOption

/-- A thread that was woken on `cvNotEmpty` takes the critical section again. -/
def TSQueue.resume (q : TSQueue τ α) (t : τ) : Option (TSQueue τ α) :=
  (q.cvNotEmpty.resume t).map fun cv => { q with cvNotEmpty := cv }

/-- A thread wakes on `cvNotEmpty` without a signal. -/
def TSQueue.spurious (q : TSQueue τ α) (t : τ) : Option (TSQueue τ α) :=
  (q.cvNotEmpty.spurious t).map fun cv => { q with cvNotEmpty := cv }

/-- A thread that was woken on `cvNotFull` takes the critical section again. -/
def TSQueue.resumeFull (q : TSQueue τ α) (t : τ) : Option (TSQueue τ α) :=
  (q.cvNotFull.resume t).map fun cv => { q with cvNotFull := cv }

/-- A thread wakes on `cvNotFull` without a signal. -/
def TSQueue.spuriousFull (q : TSQueue τ α) (t : τ) : Option (TSQueue τ α) :=
  (q.cvNotFull.spurious t).map fun cv => { q with cvNotFull := cv }

variable {q q' : TSQueue τ α} {t : τ} {wakes : Option τ}

/-- What a stay in `tsqueue_enqueue` of an unbounded queue does. -/
theorem tsqueueEnqueue_cases {data : Option α} {alloc : Bool} {stay : Stay τ α Int}
    (hcap : q.capacity = 0) (h : tsqueueEnqueue q t data alloc wakes = some stay) :
    ∃ cv, q.cvNotEmpty.wake wakes = some cv ∧
      stay = .returns (if alloc then 0 else -1)
        { q with inner := if alloc then q.inner ++ [data] else q.inner, cvNotEmpty := cv } := by
  rw [tsqueueEnqueue, if_neg (by omega)] at h
  obtain ⟨cv, hcv, rfl⟩ := Option.map_eq_some_iff.mp h
  refine ⟨cv, hcv, ?_⟩
  cases alloc <;> rfl

/-- What a stay in `tsqueue_dequeue` does. -/
theorem tsqueueDequeue_cases {stay : Stay τ α (Option α)}
    (h : tsqueueDequeue q t wakes = some stay) :
    (q.inner = [] ∧ stay = .sleeps { q with cvNotEmpty := q.cvNotEmpty.sleep t }) ∨
    ∃ data inner cv, q.inner = data :: inner ∧ q.cvNotFull.wake wakes = some cv ∧
      stay = .returns data { q with inner := inner, cvNotFull := cv } := by
  cases hq : q.inner with
  | nil =>
      rw [tsqueueDequeue, hq, queueIsEmpty, if_pos (by rfl), Option.some.injEq] at h
      exact Or.inl ⟨rfl, h.symm⟩
  | cons data inner =>
      rw [tsqueueDequeue, hq, queueIsEmpty, if_neg (by simp)] at h
      obtain ⟨cv, hcv, rfl⟩ := Option.map_eq_some_iff.mp h
      exact Or.inr ⟨data, inner, cv, rfl, hcv, rfl⟩

/-- A stay in `tsqueue_dequeue` can always take place when nobody waits for room. -/
theorem tsqueueDequeue_enabled (q : TSQueue τ α) (t : τ) (hfull : q.cvNotFull.sleeping = []) :
    (tsqueueDequeue q t none).isSome := by
  rw [tsqueueDequeue]
  split
  · rfl
  · simp [CondVar.wake, hfull]

/-- A stay in `tsqueue_enqueue` of an unbounded queue can always take place. -/
theorem tsqueueEnqueue_enabled (hcap : q.capacity = 0) (t : τ) (data : Option α) (alloc : Bool) :
    ∃ wakes r q', tsqueueEnqueue q t data alloc wakes = some (.returns r q') := by
  obtain ⟨pick, hpick⟩ := q.cvNotEmpty.exists_wake
  obtain ⟨cv, hcv⟩ := Option.isSome_iff_exists.mp hpick
  refine ⟨pick, (queueEnqueue q.inner data alloc).1,
    { q with inner := (queueEnqueue q.inner data alloc).2, cvNotEmpty := cv }, ?_⟩
  rw [tsqueueEnqueue, if_neg (by omega), hcv]
  rfl

end DataPropagator
