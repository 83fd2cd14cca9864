import DataPropagator.Common.TSQueueRuns

/-!
# Wake-ups on a queue

Every change of the queue signals one sleeper: an insertion a consumer, a removal a
producer.  Since a woken thread may find its item or its slot taken by a newcomer, what
one signal is worth is counted.  While consumers sleep there is a woken consumer for every
item, and while producers sleep there is a woken producer for every free slot.

One removal does not signal: `tsqueue_try_dequeue` signals only if what it took is not
NULL.  So the count of the producers holds on the runs on which no call of it takes a NULL
while producers sleep and the woken ones are too few for the slots that are free then.
Past such a step the woken producers run, and the next one sleeps next to a free slot.
-/

namespace DataPropagator

open Monitor

variable {α : Type}

/-! ## What is asked of a queue -/

/-- While a thread sleeps and none is woken, there is nothing for it to do. -/
structure NoLostWakeup (capacity : Nat) (s : QueueUsers α) : Prop where
  consumers : s.queue.cvNotEmpty.sleeping ≠ [] → s.queue.cvNotEmpty.woken = [] →
    s.queue.inner = []
  producers : s.queue.cvNotFull.sleeping ≠ [] → s.queue.cvNotFull.woken = [] →
    0 < capacity ∧ capacity ≤ s.queue.inner.length

/-- The allocation of a step succeeds. -/
def QueueAction.Allocates : QueueAction α → Prop
  | .call _ _ alloc _ => alloc = true
  | .resume _ alloc _ => alloc = true
  | .spurious _ => True

/-- The free slots of a queue. -/
def TSQueue.room (q : TSQueue Nat α) : Nat := q.capacity - q.inner.length

/-- A call of `tsqueue_try_dequeue` that takes a NULL needs no signal: nobody sleeps for
room, or there is a woken producer for every slot that is free then. -/
def QueueCall.Signalled (q : TSQueue Nat α) : QueueCall α → Prop
  | .tryDequeue => q.inner.head? = some none → q.cvNotFull.Covers (q.room + 1)
  | .enqueue _ => True
  | .dequeue => True

/-- A woken thread is never in `tsqueue_try_dequeue`. -/
def QueueAction.Signalled (s : QueueUsers α) : QueueAction α → Prop
  | .call _ c _ _ => c.Signalled s.queue
  | .resume _ _ _ => True
  | .spurious _ => True

/-- A step whose allocation succeeds and that needs no missing signal. -/
def QueueUsers.Signals (s : QueueUsers α) (a : QueueAction α) : Prop :=
  a.Allocates ∧ a.Signalled s

instance (a : QueueAction α) : Decidable a.Allocates :=
  match a with
  | .call _ _ _ _ => inferInstanceAs (Decidable (_ = _))
  | .resume _ _ _ => inferInstanceAs (Decidable (_ = _))
  | .spurious _ => .isTrue trivial

instance (cv : CondVar Nat) (n : Nat) : Decidable (cv.Covers n) :=
  inferInstanceAs (Decidable (_ → _))

instance [DecidableEq α] (q : TSQueue Nat α) (c : QueueCall α) : Decidable (c.Signalled q) :=
  match c with
  | .tryDequeue => inferInstanceAs (Decidable (_ → _))
  | .enqueue _ => .isTrue trivial
  | .dequeue => .isTrue trivial

instance [DecidableEq α] (s : QueueUsers α) (a : QueueAction α) : Decidable (s.Signals a) :=
  match a with
  | .call _ c _ _ => inferInstanceAs (Decidable (_ ∧ c.Signalled s.queue))
  | .resume _ _ _ => inferInstanceAs (Decidable (_ ∧ True))
  | .spurious _ => inferInstanceAs (Decidable (True ∧ True))

/-! ## The invariant -/

/-- There is a woken consumer for every item and a woken producer for every free slot. -/
structure TSQueue.Covered (capacity : Nat) (q : TSQueue Nat α) : Prop where
  capacity_eq : q.capacity = capacity
  consumers : q.cvNotEmpty.Covers q.inner.length
  producers : q.cvNotFull.Covers q.room
  bounded : q.cvNotFull.sleeping ≠ [] → 0 < capacity

variable {capacity : Nat} {s s' : QueueUsers α} {q q' : TSQueue Nat α} {t : Nat}
  {c : QueueCall α} {alloc : Bool} {wakes : Option Nat}

theorem TSQueue.Covered.noLostWakeup (h : s.queue.Covered capacity) : NoLostWakeup capacity s := by
  constructor
  · intro hs hw
    have hn := h.consumers hs
    rw [hw, List.length_nil] at hn
    exact List.length_eq_zero_iff.mp (Nat.le_zero.mp hn)
  · intro hs hw
    have hn := h.producers hs
    rw [hw, List.length_nil, TSQueue.room, h.capacity_eq] at hn
    exact ⟨h.bounded hs, by omega⟩

theorem QueueUsers.init_covered (capacity threadCount : Nat) :
    (QueueUsers.init capacity threadCount : QueueUsers α).queue.Covered capacity where
  capacity_eq := rfl
  consumers := CondVar.covers_zero _
  producers hs := absurd rfl hs
  bounded hs := absurd rfl hs

/-! ## One stay -/

/-- The items that the other consumers have to be woken for, while a thread is in a call. -/
def QueueCall.itemsOwed (q : TSQueue Nat α) : QueueCall α → Nat
  | .dequeue => q.inner.length - 1
  | .enqueue _ => q.inner.length
  | .tryDequeue => q.inner.length

/-- The slots that the other producers have to be woken for, while a thread is in a call. -/
def QueueCall.slotsOwed (q : TSQueue Nat α) : QueueCall α → Nat
  | .enqueue _ => q.room - 1
  | .dequeue => q.room
  | .tryDequeue => q.room

/-- A thread is in the critical section of a call, newly or woken for it. -/
structure QueueCall.Enters (capacity : Nat) (q : TSQueue Nat α) (c : QueueCall α) : Prop where
  capacity_eq : q.capacity = capacity
  consumers : q.cvNotEmpty.Covers (c.itemsOwed q)
  producers : q.cvNotFull.Covers (c.slotsOwed q)
  bounded : q.cvNotFull.sleeping ≠ [] → 0 < capacity

theorem TSQueue.Covered.enters (h : q.Covered capacity) (c : QueueCall α) :
    c.Enters capacity q where
  capacity_eq := h.capacity_eq
  consumers := h.consumers.mono (by cases c <;> simp [QueueCall.itemsOwed])
  producers := h.producers.mono (by cases c <;> simp [QueueCall.slotsOwed])
  bounded := h.bounded

theorem resume_sleeping {cv cv' : CondVar Nat} (h : cv.resume t = some cv') :
    cv'.sleeping = cv.sleeping := by
  obtain ⟨_, rfl⟩ := CondVar.resume_some h
  rfl

/-- A woken thread owes what it was woken for. -/
theorem TSQueue.Covered.enters_of_resume (h : q.Covered capacity)
    (hr : c.resume q t = some q') : c.Enters capacity q' := by
  cases c with
  | enqueue data =>
      obtain ⟨cv, hcv, rfl⟩ := Option.map_eq_some_iff.mp hr
      refine ⟨h.capacity_eq, h.consumers, h.producers.resume hcv, ?_⟩
      intro hs
      exact h.bounded (resume_sleeping hcv ▸ hs)
  | dequeue =>
      obtain ⟨cv, hcv, rfl⟩ := Option.map_eq_some_iff.mp hr
      exact ⟨h.capacity_eq, h.consumers.resume hcv, h.producers, h.bounded⟩
  | tryDequeue => cases hr

theorem wake_sleeping_ne {cv cv' : CondVar Nat} {pick : Option Nat} (h : cv.wake pick = some cv')
    (hs : cv'.sleeping ≠ []) : cv.sleeping ≠ [] := by
  rcases CondVar.wake_cases h with ⟨_, rfl⟩ | ⟨t, ht, _⟩
  · exact hs
  · exact List.ne_nil_of_mem ht

/-- The queue that a stay leaves. -/
def Stay.queue {ρ : Type} : Stay Nat α ρ → TSQueue Nat α
  | .sleeps q => q
  | .returns _ q => q

theorem QueueCall.Enters.enqueue {data : Option α} {stay : Stay Nat α Int}
    (h : (QueueCall.enqueue data).Enters capacity q)
    (hs : tsqueueEnqueue q t data true wakes = some stay) : stay.queue.Covered capacity := by
  rw [tsqueueEnqueue] at hs
  split at hs
  next hfull =>
      -- the queue is full, so nobody is owed a slot
      cases hs
      have hroom : q.room = 0 := Nat.sub_eq_zero_of_le hfull.2
      refine ⟨h.capacity_eq, h.consumers, ?_, fun _ => h.capacity_eq ▸ hfull.1⟩
      exact (CondVar.covers_zero _).mono (Nat.le_of_eq hroom)
  next =>
      obtain ⟨cv, hcv, rfl⟩ := Option.map_eq_some_iff.mp hs
      refine ⟨h.capacity_eq, ?_, ?_, h.bounded⟩
      · show cv.Covers (q.inner ++ [data]).length
        rw [List.length_append]
        exact h.consumers.wake hcv
      · apply h.producers.mono
        show q.capacity - (q.inner ++ [data]).length ≤ q.room - 1
        rw [List.length_append, TSQueue.room]
        exact Nat.le_of_eq (Nat.sub_add_eq ..)

theorem QueueCall.Enters.dequeue {stay : Stay Nat α (Option α)}
    (h : QueueCall.dequeue.Enters capacity q)
    (hs : tsqueueDequeue q t wakes = some stay) : stay.queue.Covered capacity := by
  rcases tsqueueDequeue_cases hs with ⟨hempty, rfl⟩ | ⟨data, inner, cv, hq, hcv, rfl⟩
  · refine ⟨h.capacity_eq, ?_, h.producers, h.bounded⟩
    exact (CondVar.covers_zero _).mono (Nat.le_of_eq (congrArg List.length hempty))
  · have hitems : QueueCall.dequeue.itemsOwed q = inner.length := by
      rw [itemsOwed, hq, List.length_cons, Nat.add_sub_cancel]
    refine ⟨h.capacity_eq, hitems ▸ h.consumers, ?_, ?_⟩
    · apply (h.producers.wake hcv).mono
      show q.capacity - inner.length ≤ q.room + 1
      rw [TSQueue.room, hq, List.length_cons]
      omega
    · intro hs'
      exact h.bounded (wake_sleeping_ne hcv hs')

theorem QueueCall.Enters.tryDequeue {stay : Stay Nat α (Option α)}
    (h : QueueCall.tryDequeue.Enters capacity q)
    (hnull : q.inner.head? = some none → q.cvNotFull.Covers (q.room + 1))
    (hs : tsqueueTryDequeue q wakes = some stay) : stay.queue.Covered capacity := by
  cases hq : q.inner with
  | nil =>
      rw [tsqueueTryDequeue, hq] at hs
      cases hs
      exact ⟨h.capacity_eq, by rw [← hq]; exact h.consumers, by
        have hp := h.producers
        rwa [slotsOwed, TSQueue.room, hq] at hp, h.bounded⟩
  | cons data inner =>
      have hroom : q.capacity - inner.length ≤ q.room + 1 := by
        rw [TSQueue.room, hq, List.length_cons]
        omega
      have hitems : inner.length ≤ q.inner.length := by
        rw [hq]
        exact Nat.le_succ _
      rw [tsqueueTryDequeue, hq] at hs
      cases data with
      | none =>
          cases hs
          rw [hq] at hnull
          exact ⟨h.capacity_eq, h.consumers.mono hitems, (hnull rfl).mono hroom, h.bounded⟩
      | some d =>
          obtain ⟨cv, hcv, rfl⟩ := Option.map_eq_some_iff.mp hs
          refine ⟨h.capacity_eq, h.consumers.mono hitems, (h.producers.wake hcv).mono hroom, ?_⟩
          intro hs'
          exact h.bounded (wake_sleeping_ne hcv hs')

/-! ## One step -/

theorem Stay.queue_map {ρ ρ' : Type} (f : ρ → ρ') (stay : Stay Nat α ρ) :
    (stay.map f).queue = stay.queue := by
  cases stay <;> rfl

theorem QueueCall.Enters.stay (h : c.Enters capacity q) (hc : c.Signalled q)
    {stay : Stay Nat α (QueueRet α)} (hs : c.stay q t true wakes = some stay) :
    stay.queue.Covered capacity := by
  cases c with
  | enqueue data =>
      obtain ⟨stay, hstay, rfl⟩ := Option.map_eq_some_iff.mp hs
      rw [Stay.queue_map]
      exact h.enqueue hstay
  | dequeue =>
      obtain ⟨stay, hstay, rfl⟩ := Option.map_eq_some_iff.mp hs
      rw [Stay.queue_map]
      exact h.dequeue hstay
  | tryDequeue =>
      obtain ⟨stay, hstay, rfl⟩ := Option.map_eq_some_iff.mp hs
      rw [Stay.queue_map]
      exact h.tryDequeue hc hstay

theorem QueueUsers.stay_queue (hs : s.stay q t c alloc wakes = some s') :
    ∃ stay, c.stay q t alloc wakes = some stay ∧ s'.queue = stay.queue := by
  obtain ⟨stay, hstay, rfl⟩ := Option.map_eq_some_iff.mp hs
  refine ⟨stay, hstay, ?_⟩
  cases stay <;> rfl

theorem TSQueue.Covered.spurious (h : q.Covered capacity) (hs : c.spurious q t = some q') :
    q'.Covered capacity := by
  cases c with
  | enqueue data =>
      obtain ⟨cv, hcv, rfl⟩ := Option.map_eq_some_iff.mp hs
      refine ⟨h.capacity_eq, h.consumers, h.producers.spurious hcv, ?_⟩
      obtain ⟨ht, _⟩ := CondVar.spurious_some hcv
      exact fun _ => h.bounded (List.ne_nil_of_mem ht)
  | dequeue =>
      obtain ⟨cv, hcv, rfl⟩ := Option.map_eq_some_iff.mp hs
      exact ⟨h.capacity_eq, h.consumers.spurious hcv, h.producers, h.bounded⟩
  | tryDequeue => cases hs

/-- A step that needs no missing signal keeps the count. -/
theorem TSQueue.Covered.step (h : s.queue.Covered capacity) {a : QueueAction α}
    (ha : s.Signals a) (hs : s.step a = some s') : s'.queue.Covered capacity := by
  obtain ⟨halloc, hsignalled⟩ := ha
  cases a with
  | call t c alloc wakes =>
      cases halloc
      rw [QueueUsers.step] at hs
      split at hs
      next =>
          obtain ⟨stay, hstay, hq⟩ := QueueUsers.stay_queue hs
          rw [hq]
          exact (h.enters c).stay hsignalled hstay
      next => cases hs
  | resume t alloc wakes =>
      cases halloc
      obtain ⟨c, _, hs⟩ := Option.bind_eq_some_iff.mp hs
      obtain ⟨q, hr, hs⟩ := Option.bind_eq_some_iff.mp hs
      obtain ⟨stay, hstay, hq⟩ := QueueUsers.stay_queue hs
      rw [hq]
      apply (h.enters_of_resume hr).stay _ hstay
      cases c with
      | enqueue _ | dequeue => trivial
      | tryDequeue => cases hr
  | spurious t =>
      obtain ⟨c, _, hs⟩ := Option.bind_eq_some_iff.mp hs
      obtain ⟨q, hq, rfl⟩ := Option.map_eq_some_iff.mp hs
      exact h.spurious hq

theorem covered_of_run {threadCount : Nat} {as : List (QueueAction α)}
    (h : Machine.Run QueueUsers.step QueueUsers.Signals (.init capacity threadCount) as s) :
    s.queue.Covered capacity :=
  h.invariant (P := fun s => s.queue.Covered capacity)
    (QueueUsers.init_covered capacity threadCount) fun _ _ _ hc ha hs => hc.step ha hs

/-- For every capacity, every number of threads and every interleaving with allocations
succeeding on which no call of `tsqueue_try_dequeue` takes a NULL whose missing signal a
sleeping producer needs: while consumers sleep and none is woken the queue is empty, and
while producers sleep and none is woken it is full. -/
theorem no_lost_wakeup {threadCount : Nat} {as : List (QueueAction α)}
    (h : Machine.Run QueueUsers.step QueueUsers.Signals (.init capacity threadCount) as s) :
    NoLostWakeup capacity s :=
  (covered_of_run h).noLostWakeup

/-- Two producers and a consumer on a queue for one item.  The second producer sleeps until
the consumer has taken the item of the first. -/
def signalledRun : List (QueueAction Nat) :=
  [.call 0 (.enqueue (some 7)) true none, .call 1 (.enqueue (some 8)) true none,
    .call 2 .tryDequeue true (some 1)]

/-- The state that run leads to. -/
def signalledEnd : QueueUsers Nat where
  queue := { inner := [], capacity := 1, cvNotEmpty := {}, cvNotFull := { woken := [1] } }
  threads := [none, some (.enqueue (some 8)), none]
  returns :=
    [⟨0, .enqueue (some 7), .code 0, [], [some 7]⟩,
      ⟨2, .tryDequeue, .item (some 7), [some 7], []⟩]

theorem no_lost_wakeup_signalled : NoLostWakeup 1 signalledEnd := by
  have hrun : Machine.execWhere QueueUsers.step QueueUsers.Signals (.init 1 3) signalledRun =
      some signalledEnd := by decide +kernel
  exact no_lost_wakeup (Machine.execWhere_run hrun)

/-- A producer sleeps on the full queue, and a call of `tsqueue_try_dequeue` takes the NULL
out. -/
def nullRun : List (QueueAction Nat) :=
  [.call 0 (.enqueue none) true none, .call 1 (.enqueue (some 7)) true none,
    .call 2 .tryDequeue true none]

/-- The state that run leads to. -/
def nullEnd : QueueUsers Nat where
  queue := { inner := [], capacity := 1, cvNotEmpty := {}, cvNotFull := { sleeping := [1] } }
  threads := [none, some (.enqueue (some 7)), none]
  returns :=
    [⟨0, .enqueue none, .code 0, [], [none]⟩, ⟨2, .tryDequeue, .item none, [none], []⟩]

/-- The producer sleeps on an empty queue, and nobody has been woken. -/
theorem null_loses_wakeup :
    Machine.Run QueueUsers.step (fun _ a => a.Allocates) (.init 1 3) nullRun nullEnd ∧
      ¬ NoLostWakeup 1 nullEnd := by
  have hrun : Machine.execWhere QueueUsers.step (fun _ a => a.Allocates) (.init 1 3) nullRun =
      some nullEnd := by decide +kernel
  refine ⟨Machine.execWhere_run hrun, ?_⟩
  intro h
  exact absurd (h.producers (by decide) rfl).2 (by decide)

/-! ## Past a missing signal -/

/-- A producer that sleeps or was woken is in `tsqueue_enqueue`. -/
structure QueueUsers.Parked (s : QueueUsers α) : Prop where
  producers : ∀ t ∈ s.queue.cvNotFull.waiting, ∃ data, s.threads[t]? = some (some (.enqueue data))
  nodup : s.queue.cvNotFull.waiting.Nodup

theorem QueueUsers.init_parked (capacity threadCount : Nat) :
    (QueueUsers.init capacity threadCount : QueueUsers α).Parked where
  producers _ ht := nomatch ht
  nodup := List.nodup_nil

/-- Thread `t` is in the critical section: it is not parked, and the producers that are stay
where they are. -/
structure QueueUsers.Staying (s : QueueUsers α) (q : TSQueue Nat α) (t : Nat) : Prop where
  lt : t < s.threads.length
  away : t ∉ q.cvNotFull.waiting
  producers : ∀ v ∈ q.cvNotFull.waiting, ∃ data, s.threads[v]? = some (some (.enqueue data))
  nodup : q.cvNotFull.waiting.Nodup

theorem QueueUsers.Staying.other (h : s.Staying q t) {v : Nat} (hv : v ∈ q.cvNotFull.waiting)
    (x : Option (QueueCall α)) : ∃ data, (s.threads.set t x)[v]? = some (some (.enqueue data)) := by
  obtain ⟨data, hdata⟩ := h.producers v hv
  have hne : t ≠ v := fun he => h.away (he ▸ hv)
  exact ⟨data, by rw [List.getElem?_set_ne hne, hdata]⟩

/-- The producers that wait after a stay are those that waited before, and the thread itself
if it sleeps in `tsqueue_enqueue`. -/
theorem QueueCall.stay_waiting {stay : Stay Nat α (QueueRet α)}
    (h : c.stay q t alloc wakes = some stay) :
    stay.queue.cvNotFull.waiting.Perm q.cvNotFull.waiting ∨
      ∃ data q', c = .enqueue data ∧ stay = .sleeps q' ∧
        q'.cvNotFull.waiting.Perm (t :: q.cvNotFull.waiting) := by
  cases c with
  | enqueue data =>
      obtain ⟨stay, hstay, rfl⟩ := Option.map_eq_some_iff.mp h
      rw [tsqueueEnqueue] at hstay
      split at hstay
      · cases hstay
        exact Or.inr ⟨data, _, rfl, rfl, CondVar.waiting_sleep _ _⟩
      · obtain ⟨cv, _, rfl⟩ := Option.map_eq_some_iff.mp hstay
        exact Or.inl (List.Perm.refl _)
  | dequeue =>
      obtain ⟨stay, hstay, rfl⟩ := Option.map_eq_some_iff.mp h
      rcases tsqueueDequeue_cases hstay with ⟨_, rfl⟩ | ⟨data, inner, cv, _, hcv, rfl⟩
      · exact Or.inl (List.Perm.refl _)
      · exact Or.inl (CondVar.waiting_wake hcv)
  | tryDequeue =>
      obtain ⟨stay, hstay, rfl⟩ := Option.map_eq_some_iff.mp h
      rw [tsqueueTryDequeue] at hstay
      obtain ⟨cv, hcv, rfl⟩ := Option.map_eq_some_iff.mp hstay
      split at hcv
      · exact Or.inl (CondVar.waiting_wake hcv)
      · cases hcv
        exact Or.inl (List.Perm.refl _)

theorem QueueUsers.Staying.parked (h : s.Staying q t) (hs : s.stay q t c alloc wakes = some s') :
    s'.Parked := by
  obtain ⟨stay, hstay, rfl⟩ := Option.map_eq_some_iff.mp hs
  rcases QueueCall.stay_waiting hstay with hperm | ⟨data, q', rfl, rfl, hperm⟩
  · cases stay with
    | sleeps q' =>
        exact ⟨fun v hv => h.other (hperm.mem_iff.mp hv) _, hperm.nodup_iff.mpr h.nodup⟩
    | returns r q' =>
        exact ⟨fun v hv => h.other (hperm.mem_iff.mp hv) _, hperm.nodup_iff.mpr h.nodup⟩
  · refine ⟨?_, hperm.nodup_iff.mpr (List.nodup_cons.mpr ⟨h.away, h.nodup⟩)⟩
    intro v hv
    cases List.mem_cons.mp (hperm.mem_iff.mp hv) with
    | inl he =>
        subst he
        exact ⟨data, List.getElem?_set_self h.lt⟩
    | inr hold => exact h.other hold _

theorem QueueUsers.Parked.staying (h : s.Parked) (hq : q.cvNotFull = s.queue.cvNotFull)
    {x : Option (QueueCall α)} (hx : s.threads[t]? = some x) (hne : ∀ data, x ≠ some (.enqueue data)) :
    s.Staying q t := by
  refine ⟨(List.getElem?_eq_some_iff.mp hx).1, ?_, ?_, ?_⟩
  · rw [hq]
    intro ht
    obtain ⟨data, hdata⟩ := h.producers t ht
    rw [hx, Option.some.injEq] at hdata
    exact hne data hdata
  · rw [hq]
    exact h.producers
  · rw [hq]
    exact h.nodup

/-- A woken producer is parked no longer. -/
theorem QueueUsers.Parked.staying_of_resume (h : s.Parked)
    (ht : s.threads[t]? = some (some c)) (hr : c.resume s.queue t = some q) : s.Staying q t := by
  cases c with
  | enqueue data =>
      obtain ⟨cv, hcv, rfl⟩ := Option.map_eq_some_iff.mp hr
      have hperm := CondVar.waiting_resume hcv
      obtain ⟨haway, hnodup⟩ := List.nodup_cons.mp (hperm.nodup_iff.mp h.nodup)
      refine ⟨(List.getElem?_eq_some_iff.mp ht).1, haway, ?_, hnodup⟩
      intro v hv
      exact h.producers v (hperm.mem_iff.mpr (List.mem_cons_of_mem _ hv))
  | dequeue =>
      obtain ⟨cv, _, rfl⟩ := Option.map_eq_some_iff.mp hr
      exact h.staying rfl ht (by simp)
  | tryDequeue => cases hr

theorem QueueUsers.Parked.step (h : s.Parked) {a : QueueAction α} (hs : s.step a = some s') :
    s'.Parked := by
  cases a with
  | call t c alloc wakes =>
      rw [QueueUsers.step] at hs
      split at hs
      next ht => exact (h.staying rfl ht (by simp)).parked hs
      next => cases hs
  | resume t alloc wakes =>
      obtain ⟨c, ht, hs⟩ := Option.bind_eq_some_iff.mp hs
      obtain ⟨q, hr, hs⟩ := Option.bind_eq_some_iff.mp hs
      exact (h.staying_of_resume (Option.join_eq_some_iff.mp ht) hr).parked hs
  | spurious t =>
      obtain ⟨c, _, hs⟩ := Option.bind_eq_some_iff.mp hs
      obtain ⟨q, hq, rfl⟩ := Option.map_eq_some_iff.mp hs
      cases c with
      | enqueue data =>
          obtain ⟨cv, hcv, rfl⟩ := Option.map_eq_some_iff.mp hq
          obtain ⟨hmem, rfl⟩ := CondVar.spurious_some hcv
          have hperm := CondVar.waiting_rouse hmem
          exact ⟨fun v hv => h.producers v (hperm.mem_iff.mp hv), hperm.nodup_iff.mpr h.nodup⟩
      | dequeue =>
          obtain ⟨cv, _, rfl⟩ := Option.map_eq_some_iff.mp hq
          exact ⟨h.producers, h.nodup⟩
      | tryDequeue => cases hq

/-- Producers sleep, and there are more free slots than woken producers. -/
structure QueueUsers.Starved (capacity : Nat) (s : QueueUsers α) : Prop where
  capacity_eq : s.queue.capacity = capacity
  parked : s.Parked
  sleeping : s.queue.cvNotFull.sleeping ≠ []
  short : s.queue.cvNotFull.woken.length < s.queue.room

/-- A woken producer of a starved queue takes a slot, and the queue stays starved. -/
theorem QueueUsers.Starved.resume (h : s.Starved capacity) {v : Nat} {vs : List Nat}
    (hw : s.queue.cvNotFull.woken = v :: vs) :
    ∃ a s', a.Allocates ∧ s.step a = some s' ∧ s'.Starved capacity ∧
      s'.queue.cvNotFull.woken = vs := by
  have hv : v ∈ s.queue.cvNotFull.waiting := by
    rw [CondVar.waiting, hw]
    exact List.mem_append_right _ List.mem_cons_self
  obtain ⟨data, hdata⟩ := h.parked.producers v hv
  obtain ⟨pick, hpick⟩ := s.queue.cvNotEmpty.exists_wake
  obtain ⟨cv, hcv⟩ := Option.isSome_iff_exists.mp hpick
  have hroom := h.short
  rw [TSQueue.room] at hroom
  have hfree : ¬ (0 < s.queue.capacity ∧ s.queue.capacity ≤ s.queue.inner.length) := by omega
  have hresume : s.queue.cvNotFull.resume v = some { s.queue.cvNotFull with woken := vs } := by
    rw [CondVar.resume, hw, if_pos List.mem_cons_self, List.erase_cons_head]
  have hstep : s.step (.resume v true pick) = some
      { queue := { s.queue with
          inner := s.queue.inner ++ [data]
          cvNotEmpty := cv
          cvNotFull := { s.queue.cvNotFull with woken := vs } }
        threads := s.threads.set v none
        returns := s.returns ++ [⟨v, .enqueue data, .code 0, s.queue.inner,
          s.queue.inner ++ [data]⟩] } := by
    simp only [step, hdata, Option.join_some, Option.bind_some, QueueCall.resume,
      TSQueue.resumeFull, hresume, Option.map_some, stay, QueueCall.stay, tsqueueEnqueue, hfree,
      if_false, hcv, queueEnqueue, if_true, Stay.map]
  refine ⟨.resume v true pick, _, rfl, hstep, ?_, rfl⟩
  refine ⟨h.capacity_eq, h.parked.step hstep, h.sleeping, ?_⟩
  have hshort := h.short
  rw [hw, List.length_cons, TSQueue.room] at hshort
  show vs.length < s.queue.capacity - (s.queue.inner ++ [data]).length
  rw [List.length_append, List.length_singleton]
  omega

/-- A starved queue comes to lose a wake-up. -/
theorem QueueUsers.Starved.loses : ∀ (woken : List Nat) {s : QueueUsers α}, s.Starved capacity →
    s.queue.cvNotFull.woken = woken → ∃ as s',
      Machine.Run QueueUsers.step (fun _ a => a.Allocates) s as s' ∧ ¬ NoLostWakeup capacity s'
  | [], s, h, hw => by
      refine ⟨[], s, .nil, ?_⟩
      intro hlost
      have hfull := (hlost.producers h.sleeping hw).2
      have hshort := h.short
      rw [TSQueue.room, h.capacity_eq] at hshort
      omega
  | v :: vs, s, h, hw => by
      obtain ⟨a, s₁, ha, hs, h₁, hw₁⟩ := h.resume hw
      obtain ⟨as, s', hrun, hlost⟩ := QueueUsers.Starved.loses vs h₁ hw₁
      exact ⟨a :: as, s', .cons ha hs hrun, hlost⟩

/-- The condition cannot be dropped at any step: the first step that misses it leads to a
state from which a wake-up comes to be lost. -/
theorem unsignalled_loses_wakeup {threadCount : Nat} {as : List (QueueAction α)}
    (h : Machine.Run QueueUsers.step QueueUsers.Signals (.init capacity threadCount) as s)
    {a : QueueAction α} (ha : ¬ a.Signalled s) (hs : s.step a = some s') : ∃ bs s'',
      Machine.Run QueueUsers.step (fun _ a => a.Allocates) s' bs s'' ∧
        ¬ NoLostWakeup capacity s'' := by
  have hcovered := covered_of_run h
  have hinv : s.Inv capacity :=
    h.reachable.invariant (QueueUsers.init_inv capacity threadCount) fun _ _ _ hi hs => hi.step hs
  have hparked : s.Parked :=
    h.reachable.invariant (QueueUsers.init_parked capacity threadCount)
      fun _ _ _ hp hs => hp.step hs
  have hparked' := hparked.step hs
  cases a with
  | resume t alloc wakes => exact absurd trivial ha
  | spurious t => exact absurd trivial ha
  | call t c alloc wakes =>
      cases c with
      | enqueue data => exact absurd trivial ha
      | dequeue => exact absurd trivial ha
      | tryDequeue =>
          simp only [QueueAction.Signalled, QueueCall.Signalled, CondVar.Covers, not_forall] at ha
          obtain ⟨hhead, hsleeping, hshort⟩ := ha
          obtain ⟨inner, hinner⟩ : ∃ inner, s.queue.inner = none :: inner :=
            List.head?_eq_some_iff.mp hhead
          have hle := hinv.history.bounded (hcovered.bounded hsleeping)
          rw [TSQueue.room, hcovered.capacity_eq, hinner, List.length_cons] at hshort
          rw [hinner, List.length_cons] at hle
          rw [QueueUsers.step] at hs
          split at hs
          next =>
              obtain ⟨stay, hstay, hq⟩ := QueueUsers.stay_queue hs
              simp only [QueueCall.stay, tsqueueTryDequeue, hinner] at hstay
              cases hstay
              apply QueueUsers.Starved.loses s'.queue.cvNotFull.woken _ rfl
              refine ⟨by rw [hq]; exact hcovered.capacity_eq, hparked',
                by rw [hq]; exact hsleeping, ?_⟩
              rw [hq]
              show s.queue.cvNotFull.woken.length < s.queue.capacity - inner.length
              rw [hcovered.capacity_eq]
              omega
          next => cases hs

end DataPropagator
