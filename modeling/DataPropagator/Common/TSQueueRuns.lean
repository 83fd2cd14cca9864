import DataPropagator.Common.TSQueue
import DataPropagator.Lib.BoundedFifo
import DataPropagator.Lib.Machine

/-!
# Many threads on one queue

Any number of threads call `tsqueue_enqueue`, `tsqueue_dequeue` and `tsqueue_try_dequeue`
with any items, NULL among them.  A step is one stay of one thread in the critical
section, or a wake-up without a signal.  A thread that sleeps inside a call keeps the
call, and its next stay runs the same text on whatever the queue is by then.

Every call that returns is put on a list, with what the queue held when its last stay
began and when it ended.  What a call inserted is read off its code, and what it removed
off the contents.  `tsqueue_linearizable` says that this list is a history of a bounded
queue that serves one call after another.
-/

namespace DataPropagator

variable {α : Type}

/-! ## The system -/

/-- A call of one of the three functions. -/
inductive QueueCall (α : Type) where
  | enqueue (data : Option α)
  | dequeue
  | tryDequeue
deriving DecidableEq, Repr

/-- What a call returns. -/
inductive QueueRet (α : Type) where
  | code (r : Int)
  | item (data : Option α)
deriving DecidableEq, Repr

/-- A call that has returned.  `before` and `after` are the contents when its last stay
began and when it ended. -/
structure QueueReturn (α : Type) where
  thread : Nat
  call : QueueCall α
  ret : QueueRet α
  before : List (Option α)
  after : List (Option α)
deriving DecidableEq, Repr

/-- A queue and its threads.  A thread is its index, and `threads` has the call it sleeps
in. -/
structure QueueUsers (α : Type) where
  queue : TSQueue Nat α
  threads : List (Option (QueueCall α))
  returns : List (QueueReturn α)
deriving DecidableEq, Repr

/-- A queue that was just created, and threads outside its functions. -/
def QueueUsers.init (capacity threadCount : Nat) : QueueUsers α where
  queue := tsqueueCreate capacity
  threads := List.replicate threadCount none
  returns := []

/-- A step of thread `t`.  `alloc` is the outcome of the allocation in `queue_enqueue`,
and `wakes` is the thread that the signal wakes. -/
inductive QueueAction (α : Type) where
  /-- It makes a call and enters the critical section. -/
  | call (t : Nat) (c : QueueCall α) (alloc : Bool) (wakes : Option Nat)
  /-- Woken, it takes the critical section again. -/
  | resume (t : Nat) (alloc : Bool) (wakes : Option Nat)
  /-- It wakes without a signal. -/
  | spurious (t : Nat)
deriving DecidableEq, Repr

/-- What a call returns, wrapped. -/
def Stay.map {τ ρ ρ' : Type} (f : ρ → ρ') : Stay τ α ρ → Stay τ α ρ'
  | .sleeps q => .sleeps q
  | .returns r q => .returns (f r) q

/-- A stay of thread `t` in a call. -/
def QueueCall.stay (q : TSQueue Nat α) (t : Nat) (alloc : Bool) (wakes : Option Nat) :
    QueueCall α → Option (Stay Nat α (QueueRet α))
  | .enqueue data => (tsqueueEnqueue q t data alloc wakes).map (Stay.map .code)
  | .dequeue => (tsqueueDequeue q t wakes).map (Stay.map .item)
  | .tryDequeue => (tsqueueTryDequeue q wakes).map (Stay.map .item)

/-- Thread `t`, woken inside a call, takes the critical section again. -/
def QueueCall.resume (q : TSQueue Nat α) (t : Nat) : QueueCall α → Option (TSQueue Nat α)
  | .enqueue _ => q.resumeFull t
  | .dequeue => q.resume t
  | .tryDequeue => none

/-- Thread `t` wakes inside a call without a signal. -/
def QueueCall.spurious (q : TSQueue Nat α) (t : Nat) : QueueCall α → Option (TSQueue Nat α)
  | .enqueue _ => q.spuriousFull t
  | .dequeue => q.spurious t
  | .tryDequeue => none

/-- Thread `t` is in the critical section of a call. -/
def QueueUsers.stay (s : QueueUsers α) (q : TSQueue Nat α) (t : Nat) (c : QueueCall α)
    (alloc : Bool) (wakes : Option Nat) : Option (QueueUsers α) :=
  (c.stay q t alloc wakes).map fun
    | .sleeps q' => { s with queue := q', threads := s.threads.set t (some c) }
    | .returns ret q' =>
        { queue := q'
          threads := s.threads.set t none
          returns := s.returns ++
            [{ thread := t, call := c, ret, before := q.inner, after := q'.inner }] }

/-- One step. -/
def QueueUsers.step (s : QueueUsers α) : QueueAction α → Option (QueueUsers α)
  | .call t c alloc wakes =>
      match s.threads[t]? with
      | some none => s.stay s.queue t c alloc wakes
      | _ => none
  | .resume t alloc wakes =>
      s.threads[t]?.join.bind fun c =>
        (c.resume s.queue t).bind fun q => s.stay q t c alloc wakes
  | .spurious t =>
      s.threads[t]?.join.bind fun c =>
        (c.spurious s.queue t).map fun q => { s with queue := q }

/-! ## What the calls did -/

/-- The item a call inserted: an enqueuing that returned 0 inserts its item. -/
def QueueReturn.inserted (e : QueueReturn α) : List (Option α) :=
  match e.call, e.ret with
  | .enqueue data, .code 0 => [data]
  | _, _ => []

/-- The items a call removed: those at the front that are not there afterwards. -/
def QueueReturn.removed (e : QueueReturn α) : List (Option α) :=
  e.before.take (e.before.length - e.after.length)

/-- What a call has to have done by its return. -/
def QueueReturn.Sound (e : QueueReturn α) : Prop :=
  match e.call, e.ret with
  | .enqueue data, .code r =>
      (r = 0 ∧ e.after = e.before ++ [data]) ∨ (r = -1 ∧ e.after = e.before)
  | .dequeue, .item data => e.before = data :: e.after
  | .tryDequeue, .item data =>
      (e.before ≠ [] ∧ e.before = data :: e.after) ∨ (e.before = [] ∧ e.after = [] ∧ data = none)
  | _, _ => False

/-- A call as an operation of a queue that serves one call after another. -/
def QueueReturn.event (e : QueueReturn α) : Fifo.Event (Option α) :=
  match e.call, e.ret with
  | .enqueue data, .code r => if r = 0 then .inserted data else .refused data
  | .tryDequeue, .item data => if e.before.isEmpty then .foundEmpty else .removed data
  | _, .item data => .removed data
  | _, .code _ => .foundEmpty

/-! ## One stay -/

variable {q q' : TSQueue Nat α} {t : Nat} {c : QueueCall α} {alloc : Bool} {wakes : Option Nat}

/-- A call that returned after a stay from `q` to `q'`. -/
def QueueCall.returned (c : QueueCall α) (t : Nat) (ret : QueueRet α) (q q' : TSQueue Nat α) :
    QueueReturn α :=
  { thread := t, call := c, ret, before := q.inner, after := q'.inner }

/-- How a stay may end: asleep with the contents as they were, or with a return that is
one operation on them. -/
inductive QueueCall.Ends (c : QueueCall α) (t : Nat) (q : TSQueue Nat α) :
    Stay Nat α (QueueRet α) → Prop where
  | sleeps {q' : TSQueue Nat α} :
      q'.capacity = q.capacity → q'.inner = q.inner → Ends c t q (.sleeps q')
  | returns {q' : TSQueue Nat α} {ret : QueueRet α} :
      q'.capacity = q.capacity → (c.returned t ret q q').Sound →
      Fifo.Step q.capacity q.inner (c.returned t ret q q').event q'.inner →
      Ends c t q (.returns ret q')

theorem QueueCall.enqueue_ends {data : Option α} {stay : Stay Nat α Int}
    (h : tsqueueEnqueue q t data alloc wakes = some stay) :
    (QueueCall.enqueue data).Ends t q (stay.map .code) := by
  rw [tsqueueEnqueue] at h
  split at h
  · rw [Option.some.injEq] at h
    exact h ▸ .sleeps rfl rfl
  next hroom =>
      obtain ⟨cv, _, rfl⟩ := Option.map_eq_some_iff.mp h
      cases alloc with
      | true => exact .returns rfl (Or.inl ⟨rfl, rfl⟩) (.insert fun hpos => by omega)
      | false => exact .returns rfl (Or.inr ⟨rfl, rfl⟩) .refuse

theorem QueueCall.dequeue_ends {stay : Stay Nat α (Option α)}
    (h : tsqueueDequeue q t wakes = some stay) :
    QueueCall.dequeue.Ends t q (stay.map .item) := by
  rcases tsqueueDequeue_cases h with ⟨_, rfl⟩ | ⟨data, inner, cv, hq, _, rfl⟩
  · exact .sleeps rfl rfl
  · refine .returns rfl hq ?_
    rw [hq]
    exact .remove

theorem QueueCall.tryDequeue_ends {stay : Stay Nat α (Option α)}
    (h : tsqueueTryDequeue q wakes = some stay) :
    QueueCall.tryDequeue.Ends t q (stay.map .item) := by
  cases hq : q.inner with
  | nil =>
      rw [tsqueueTryDequeue, hq] at h
      obtain ⟨cv, _, rfl⟩ := Option.map_eq_some_iff.mp h
      refine .returns rfl (Or.inr ⟨hq, rfl, rfl⟩) ?_
      rw [QueueCall.returned, hq]
      exact .findEmpty
  | cons data inner =>
      rw [tsqueueTryDequeue, hq] at h
      obtain ⟨cv, _, rfl⟩ := Option.map_eq_some_iff.mp h
      refine .returns rfl (Or.inl ⟨by rw [QueueCall.returned, hq]; simp, hq⟩) ?_
      rw [QueueCall.returned, hq]
      exact .remove

theorem QueueCall.stay_ends {stay : Stay Nat α (QueueRet α)}
    (h : c.stay q t alloc wakes = some stay) : c.Ends t q stay := by
  cases c with
  | enqueue data =>
      obtain ⟨stay, hstay, rfl⟩ := Option.map_eq_some_iff.mp h
      exact enqueue_ends hstay
  | dequeue =>
      obtain ⟨stay, hstay, rfl⟩ := Option.map_eq_some_iff.mp h
      exact dequeue_ends hstay
  | tryDequeue =>
      obtain ⟨stay, hstay, rfl⟩ := Option.map_eq_some_iff.mp h
      exact tryDequeue_ends hstay

/-! ## The invariant -/

/-- The calls that have returned are the history of a queue that holds what the queue
holds. -/
structure QueueUsers.Inv (capacity : Nat) (s : QueueUsers α) : Prop where
  capacity_eq : s.queue.capacity = capacity
  history : Fifo.History capacity (s.returns.map QueueReturn.event) s.queue.inner
  sound : ∀ e ∈ s.returns, e.Sound

theorem QueueUsers.init_inv (capacity threadCount : Nat) :
    (QueueUsers.init capacity threadCount : QueueUsers α).Inv capacity where
  capacity_eq := rfl
  history := .nil
  sound _ he := by cases he

variable {capacity : Nat} {s s' : QueueUsers α}

/-- Who sleeps is no part of the invariant. -/
theorem QueueUsers.Inv.of_same (h : s.Inv capacity) (hcap : q.capacity = s.queue.capacity)
    (hinner : q.inner = s.queue.inner) (threads : List (Option (QueueCall α))) :
    { s with queue := q, threads }.Inv capacity where
  capacity_eq := hcap.trans h.capacity_eq
  history := hinner ▸ h.history
  sound := h.sound

/-- A stay keeps the invariant. -/
theorem QueueUsers.Inv.stay (h : s.Inv capacity) (hcap : q.capacity = s.queue.capacity)
    (hinner : q.inner = s.queue.inner) (hs : s.stay q t c alloc wakes = some s') :
    s'.Inv capacity := by
  obtain ⟨stay, hstay, rfl⟩ := Option.map_eq_some_iff.mp hs
  cases QueueCall.stay_ends hstay with
  | sleeps hc hi => exact h.of_same (hc.trans hcap) (hi.trans hinner) _
  | returns hc hsound hstep =>
      rw [hcap, h.capacity_eq, hinner] at hstep
      refine ⟨hc.trans (hcap.trans h.capacity_eq), ?_, ?_⟩
      · rw [List.map_append]
        exact h.history.snoc hstep
      · intro e he
        cases List.mem_append.mp he with
        | inl hold => exact h.sound e hold
        | inr hnew => exact List.mem_singleton.mp hnew ▸ hsound

theorem QueueCall.resume_same (h : c.resume q t = some q') :
    q'.capacity = q.capacity ∧ q'.inner = q.inner := by
  cases c with
  | enqueue _ | dequeue =>
      obtain ⟨cv, _, rfl⟩ := Option.map_eq_some_iff.mp h
      exact ⟨rfl, rfl⟩
  | tryDequeue => cases h

theorem QueueCall.spurious_same (h : c.spurious q t = some q') :
    q'.capacity = q.capacity ∧ q'.inner = q.inner := by
  cases c with
  | enqueue _ | dequeue =>
      obtain ⟨cv, _, rfl⟩ := Option.map_eq_some_iff.mp h
      exact ⟨rfl, rfl⟩
  | tryDequeue => cases h

/-- The invariant is kept by every step. -/
theorem QueueUsers.Inv.step (h : s.Inv capacity) {a : QueueAction α} (hs : s.step a = some s') :
    s'.Inv capacity := by
  cases a with
  | call t c alloc wakes =>
      rw [QueueUsers.step] at hs
      split at hs
      · exact h.stay rfl rfl hs
      · cases hs
  | resume t alloc wakes =>
      obtain ⟨c, _, hs⟩ := Option.bind_eq_some_iff.mp hs
      obtain ⟨q, hq, hs⟩ := Option.bind_eq_some_iff.mp hs
      exact h.stay (QueueCall.resume_same hq).1 (QueueCall.resume_same hq).2 hs
  | spurious t =>
      obtain ⟨c, _, hs⟩ := Option.bind_eq_some_iff.mp hs
      obtain ⟨q, hq, rfl⟩ := Option.map_eq_some_iff.mp hs
      exact h.of_same (QueueCall.spurious_same hq).1 (QueueCall.spurious_same hq).2 _

/-! ## What the history says -/

theorem QueueReturn.inserted_event (e : QueueReturn α) : Fifo.inserted [e.event] = e.inserted := by
  obtain ⟨thread, call, ret, before, after⟩ := e
  cases call with
  | enqueue data =>
      cases ret with
      | code r =>
          by_cases hr : r = 0
          · subst hr
            rfl
          · simp [event, inserted, hr, Fifo.inserted]
      | item _ => rfl
  | dequeue => cases ret <;> rfl
  | tryDequeue => cases ret <;> cases before <;> rfl

/-- What left the front is the item that the operation removed. -/
theorem QueueReturn.Sound.removed_event {e : QueueReturn α} (h : e.Sound) :
    Fifo.removed [e.event] = e.removed := by
  have hfront : ∀ (data : Option α) (after : List (Option α)),
      (data :: after).take ((data :: after).length - after.length) = [data] := fun data after => by
    rw [List.length_cons, Nat.add_sub_cancel_left]
    rfl
  obtain ⟨thread, call, ret, before, after⟩ := e
  cases call with
  | enqueue data =>
      cases ret with
      | code r =>
          have hnone : before.take (before.length - after.length) = [] := by
            simp only [Sound] at h
            rcases h with ⟨_, rfl⟩ | ⟨_, rfl⟩ <;> simp
          rw [removed, hnone]
          by_cases hr : r = 0 <;> simp [event, hr, Fifo.removed]
      | item _ => cases h
  | dequeue =>
      cases ret with
      | code _ => cases h
      | item data =>
          simp only [Sound] at h
          subst h
          exact (hfront data after).symm
  | tryDequeue =>
      cases ret with
      | code _ => cases h
      | item data =>
          simp only [Sound] at h
          rcases h with ⟨_, rfl⟩ | ⟨rfl, rfl, _⟩
          · exact (hfront data after).symm
          · rfl

theorem inserted_events (es : List (QueueReturn α)) :
    Fifo.inserted (es.map QueueReturn.event) = es.flatMap QueueReturn.inserted := by
  induction es with
  | nil => rfl
  | cons e es ih =>
      rw [List.map_cons, List.flatMap_cons, ← ih, ← e.inserted_event, ← Fifo.inserted_append]
      rfl

theorem removed_events {es : List (QueueReturn α)} (h : ∀ e ∈ es, e.Sound) :
    Fifo.removed (es.map QueueReturn.event) = es.flatMap QueueReturn.removed := by
  induction es with
  | nil => rfl
  | cons e es ih =>
      rw [List.map_cons, List.flatMap_cons, ← ih fun e' he' => h e' (List.mem_cons_of_mem _ he'),
        ← (h e (List.mem_cons_self ..)).removed_event, ← Fifo.removed_append]
      rfl

/-- For every capacity, every number of threads and every interleaving, with wake-ups
without a signal and failing allocations: the calls that have returned are a history of
a bounded queue that serves one call after another.  What was removed and what is queued
is what the enqueuings that returned 0 inserted, in the same order.  The bound is kept.
And every call has done what it returned for. -/
theorem tsqueue_linearizable {threadCount : Nat}
    (h : Machine.Reachable QueueUsers.step (.init capacity threadCount) s) :
    Fifo.History capacity (s.returns.map QueueReturn.event) s.queue.inner ∧
    s.returns.flatMap QueueReturn.inserted =
      s.returns.flatMap QueueReturn.removed ++ s.queue.inner ∧
    (0 < capacity → s.queue.inner.length ≤ capacity) ∧
    ∀ e ∈ s.returns, e.Sound := by
  have hinv : s.Inv capacity :=
    h.invariant (QueueUsers.init_inv capacity threadCount) fun _ _ _ hi hs => hi.step hs
  refine ⟨hinv.history, ?_, hinv.history.bounded, hinv.sound⟩
  rw [← inserted_events, ← removed_events hinv.sound]
  exact hinv.history.fifo

/-- Three threads on a queue for one item.  Thread 0 dequeues before anything is there
and wakes without a signal.  Thread 1 enqueues NULL, and thread 2 sleeps on the full
queue until thread 0 has taken it. -/
def oneSlotRun : List (QueueAction Nat) :=
  [.call 0 .dequeue true none, .spurious 0, .resume 0 true none,
    .call 1 (.enqueue none) true (some 0), .call 2 (.enqueue (some 7)) true none,
    .resume 0 true (some 2), .resume 2 true none, .call 1 .tryDequeue true none,
    .call 0 .tryDequeue true none, .call 1 (.enqueue (some 8)) false none]

/-- The state that run leads to. -/
def oneSlotEnd : QueueUsers Nat where
  queue := tsqueueCreate 1
  threads := [none, none, none]
  returns :=
    [⟨1, .enqueue none, .code 0, [], [none]⟩, ⟨0, .dequeue, .item none, [none], []⟩,
      ⟨2, .enqueue (some 7), .code 0, [], [some 7]⟩,
      ⟨1, .tryDequeue, .item (some 7), [some 7], []⟩, ⟨0, .tryDequeue, .item none, [], []⟩,
      ⟨1, .enqueue (some 8), .code (-1), [], []⟩]

theorem tsqueue_linearizable_oneSlot :
    oneSlotEnd.returns.flatMap QueueReturn.inserted = [none, some 7] ∧
      oneSlotEnd.returns.flatMap QueueReturn.inserted =
        oneSlotEnd.returns.flatMap QueueReturn.removed ++ [] := by
  have hrun : Machine.exec QueueUsers.step (.init 1 3) oneSlotRun = some oneSlotEnd := by
    decide +kernel
  exact ⟨by decide, (tsqueue_linearizable (Machine.exec_reachable hrun)).2.1⟩

end DataPropagator
