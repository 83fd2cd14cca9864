import DataPropagator.CentralPropagator.ThreadPool
import Mathlib.Data.List.Induction

/-!
# Shutting a propagator down

`main.c` of the propagator, its listener `cp_listener_run` and the pool.  The listener
reads warnings from its connections and hands each to `cp_dispatcher_submit`.  When the
exit event is set, `main` shuts the pool down and frees the pool, the dispatcher and the
context.  It never waits for the listener, which looks at the event only between two
connections.

A warning is the number of warnings decoded before it.  A step that uses an object after
it was freed sets `misuse`.  It goes on with what the object held before.

`Orderly` is the condition on the schedule under which nothing is lost or misused, and
`shutdown_clean` says so.  `shutdown_misuse` is a run of the program outside it.
-/

namespace DataPropagator

/-! ## The system -/

/-- Where the listener is. -/
inductive ListenerPc where
  /-- At the head of the loop, before the test of the exit event. -/
  | looping
  | accepting
  /-- In `deserialize_warning`. -/
  | receiving
  /-- It has a warning and is about to print it. -/
  | decoded (w : Nat)
  /-- About to call `cp_dispatcher_submit`. -/
  | submitting (w : Nat)
  /-- In `tp_submit`, past the test of `shutting_down` and before the enqueuing. -/
  | enqueuing (w : Nat)
  | exited
deriving DecidableEq, Repr

/-- Where `main` is, from its wait for the exit event on. -/
inductive MainPc where
  | waiting
  /-- So many sentinels were enqueued, and not yet all. -/
  | sending (i : Nat)
  /-- So many workers were joined. -/
  | joining (i : Nat)
  /-- The queue of the pool has been destroyed. -/
  | queueDestroyed
  /-- The pool has been freed, and `tp_shutdown` has returned. -/
  | poolFreed
  /-- The dispatcher has been freed. -/
  | dispatcherFreed
  /-- The context has been destroyed. -/
  | contextDestroyed
deriving DecidableEq, Repr

/-- A propagator with its histories: the warnings handed to `cp_dispatcher_submit` and
those it destroyed itself. -/
structure Propagator where
  pool : Pool Nat
  exitEvent : Bool
  listener : ListenerPc
  main : MainPc
  received : Nat
  handed : List Nat
  destroyed : List Nat
  misuse : Bool
deriving DecidableEq, Repr

/-- A propagator that has just started its listener. -/
def Propagator.init (threadCount : Nat) : Propagator where
  pool := tpCreate threadCount
  exitEvent := false
  listener := .looping
  main := .waiting
  received := 0
  handed := []
  destroyed := []
  misuse := false

/-- How many of the four objects `main` has freed: the queue, the pool, the dispatcher
and the context, in this order. -/
def MainPc.freed : MainPc → Nat
  | .queueDestroyed => 1
  | .poolFreed => 2
  | .dispatcherFreed => 3
  | .contextDestroyed => 4
  | _ => 0

/-- A step of the system. -/
inductive CpAction where
  | worker (w : Nat) (k : WorkerStep)
  /-- The exit event is set. -/
  | setEvent
  /-- The listener tests the exit event. -/
  | test
  /-- `accept` returns a socket or fails. -/
  | accept (ok : Bool)
  /-- `deserialize_warning` returns a warning or NULL. -/
  | receive (ok : Bool)
  /-- The listener prints the warning, if `warning_to_string` described it. -/
  | report (desc : Bool)
  /-- `cp_dispatcher_submit`, up to the enqueuing.  The arguments say which of its two
  allocations succeed. -/
  | submit (job task : Bool)
  /-- The listener enqueues the task.  The argument says whether the node of the queue
  is allocated. -/
  | enqueue (alloc : Bool) (wakes : Option Nat)
  /-- `main` enters `tp_shutdown` and sets the flag. -/
  | shutdown
  /-- `main` enqueues a sentinel. -/
  | sentinel (alloc : Bool) (wakes : Option Nat)
  | join
  | destroyQueue
  | freePool
  | freeDispatcher
  | destroyContext
deriving DecidableEq, Repr

/-- The loop of `main` that enqueues the sentinels, at its test. -/
def MainPc.sendingAt (threadCount i : Nat) : MainPc :=
  if i < threadCount then .sending i else .joining 0

/-- One step. -/
def Propagator.step (s : Propagator) : CpAction → Option Propagator
  | .worker w k => (s.pool.worker w k).map fun pool => { s with pool }
  | .setEvent => some { s with exitEvent := true }
  | .test =>
      if s.listener = .looping then
        some { s with listener := if s.exitEvent then .exited else .accepting }
      else none
  | .accept ok =>
      if s.listener = .accepting then
        some { s with listener := if ok then .receiving else .looping }
      else none
  | .receive ok =>
      if s.listener = .receiving then
        some (if ok then { s with listener := .decoded s.received, received := s.received + 1 }
          else { s with listener := .looping })
      else none
  | .report desc =>
      match s.listener with
      | .decoded w =>
          -- prints the id of `ctx->me`
          some { s with
            listener := .submitting w
            misuse := s.misuse || (desc && 4 ≤ s.main.freed) }
      | _ => none
  | .submit job task =>
      match s.listener with
      | .submitting w =>
          let s := { s with handed := s.handed ++ [w] }
          if !job then some { s with listener := .receiving, destroyed := s.destroyed ++ [w] }
          else
            -- reads `d->ctx` and `d->pool`, then `pool->shutting_down`
            let s := { s with misuse := s.misuse || 2 ≤ s.main.freed }
            if s.pool.shuttingDown || !task then
              some { s with listener := .receiving, destroyed := s.destroyed ++ [w] }
            else some { s with listener := .enqueuing w }
      | _ => none
  | .enqueue alloc wakes =>
      match s.listener with
      | .enqueuing w =>
          -- `tp_submit` does not look at what `tsqueue_enqueue` returns
          (s.pool.enqueue (s.pool.workers.length + 1) (some w) alloc wakes).map fun pool =>
            { s with pool, listener := .receiving, misuse := s.misuse || 1 ≤ s.main.freed }
      | _ => none
  | .shutdown =>
      if s.main = .waiting ∧ s.exitEvent then
        some { s with
          pool := { s.pool with shuttingDown := true }
          main := .sendingAt s.pool.workers.length 0 }
      else none
  | .sentinel alloc wakes =>
      match s.main with
      | .sending i =>
          (s.pool.enqueue s.pool.workers.length none alloc wakes).map fun pool =>
            { s with pool, main := .sendingAt s.pool.workers.length (i + 1) }
      | _ => none
  | .join =>
      match s.main with
      | .joining i =>
          if s.pool.workers[i]? = some .exited then some { s with main := .joining (i + 1) } else none
      | _ => none
  | .destroyQueue =>
      if s.main = .joining s.pool.workers.length then some { s with main := .queueDestroyed }
      else none
  | .freePool => if s.main = .queueDestroyed then some { s with main := .poolFreed } else none
  | .freeDispatcher =>
      if s.main = .poolFreed then some { s with main := .dispatcherFreed } else none
  | .destroyContext =>
      if s.main = .dispatcherFreed then some { s with main := .contextDestroyed } else none

/-! ## What the program owes -/

/-- Nothing is lost and nothing is misused. -/
structure Propagator.Clean (threadCount : Nat) (s : Propagator) : Prop where
  /-- No warning is dispatched twice, destroyed twice, or both. -/
  once : ∀ w, s.pool.started.count w + s.destroyed.count w ≤ 1
  /-- When `tp_shutdown` has returned, every warning handed to `cp_dispatcher_submit` has
  been dispatched or destroyed by it. -/
  settled : 2 ≤ s.main.freed → ∀ w ∈ s.handed, s.pool.finished.count w + s.destroyed.count w = 1
  /-- No task is enqueued after the sentinels. -/
  no_late_task : ∀ before t after, s.pool.enqueued = before ++ some t :: after →
    before.count none < threadCount
  /-- The listener uses nothing that has been freed. -/
  no_misuse : s.misuse = false

/-- The listener has a warning in its hands. -/
def ListenerPc.busy : ListenerPc → Bool
  | .decoded _ => true
  | .submitting _ => true
  | .enqueuing _ => true
  | _ => false

/-- The listener is between the test of `shutting_down` and the enqueuing. -/
def ListenerPc.isEnqueuing : ListenerPc → Bool
  | .enqueuing _ => true
  | _ => false

/-- The schedules on which shutting down is safe.  `main` sends its last sentinel only
while the listener is not about to enqueue.  It begins to free only while the listener
has no warning in its hands, and after that the listener decodes no warning any more.
And the node of a task is allocated. -/
def Propagator.Orderly (s : Propagator) : CpAction → Prop
  | .sentinel _ _ => s.main = .sending (s.pool.workers.length - 1) → s.listener.isEnqueuing = false
  | .destroyQueue => s.listener.busy = false
  | .receive ok => ok = true → s.main.freed = 0
  | .enqueue alloc _ => alloc = true
  | _ => True

instance (s : Propagator) : (a : CpAction) → Decidable (s.Orderly a)
  | .sentinel _ _ => inferInstanceAs (Decidable (_ = _ → _ = _))
  | .destroyQueue => inferInstanceAs (Decidable (_ = _))
  | .receive _ => inferInstanceAs (Decidable (_ = _ → _ = _))
  | .enqueue _ _ => inferInstanceAs (Decidable (_ = _))
  | .worker _ _ | .setEvent | .test | .accept _ | .report _ | .submit _ _ | .shutdown | .join
  | .freePool | .freeDispatcher | .destroyContext => isTrue trivial

/-! ## The invariant -/

/-- How many sentinels `main` has tried to enqueue. -/
def MainPc.sent (threadCount : Nat) : MainPc → Nat
  | .waiting => 0
  | .sending i => i
  | _ => threadCount

/-- `main` has not tried to enqueue its last sentinel. -/
def MainPc.open : MainPc → Bool
  | .waiting => true
  | .sending _ => true
  | _ => false

/-- What holds in every state an orderly schedule leads to. -/
structure Propagator.Inv (threadCount : Nat) (s : Propagator) : Prop where
  accounts : s.pool.Accounts
  waits : s.pool.Waits
  workers_length : s.pool.workers.length = threadCount
  no_late_task : ∀ before t after, s.pool.enqueued = before ++ some t :: after →
    before.count none < threadCount
  flag : s.main ≠ .waiting → s.pool.shuttingDown = true
  sent_le : s.pool.enqueued.count none ≤ s.main.sent threadCount
  sending_lt : ∀ i, s.main = .sending i → i < threadCount
  joined : ∀ i, s.main = .joining i → i ≤ threadCount ∧
    ∀ w, w < i → s.pool.workers[w]? = some .exited
  all_exited : 1 ≤ s.main.freed → ∀ pc ∈ s.pool.workers, pc = .exited
  enqueuing_open : s.listener.isEnqueuing = true → s.main.open = true
  idle : 1 ≤ s.main.freed → s.listener.busy = false
  no_misuse : s.misuse = false
  /-- Every warning decoded has been handed over or is about to be. -/
  numbered : ∀ w, s.handed.count w +
    (if s.listener = .decoded w ∨ s.listener = .submitting w then 1 else 0) =
      if w < s.received then 1 else 0
  /-- Every warning handed over was enqueued or destroyed, or is about to be enqueued. -/
  placed : ∀ w, s.pool.enqueued.count (some w) + s.destroyed.count w +
    (if s.listener = .enqueuing w then 1 else 0) = s.handed.count w

theorem Propagator.init_inv (threadCount : Nat) : (Propagator.init threadCount).Inv threadCount where
  accounts := tpCreate_accounts threadCount
  waits := tpCreate_waits threadCount
  workers_length := List.length_replicate
  no_late_task before t after h := by simp [Propagator.init, tpCreate] at h
  flag h := absurd rfl h
  sent_le := Nat.le_refl _
  sending_lt _ h := by cases h
  joined _ h := by cases h
  all_exited h := absurd h (Nat.not_succ_le_zero 0)
  enqueuing_open h := by cases h
  idle _ := rfl
  no_misuse := rfl
  numbered w := by simp [Propagator.init]
  placed w := by simp [Propagator.init, tpCreate]

section Steps

variable {threadCount : Nat} {s s' : Propagator}

theorem Propagator.Inv.worker (h : s.Inv threadCount) {w : Nat} {k : WorkerStep} {pool : Pool Nat}
    (hs : s.pool.worker w k = some pool) : { s with pool }.Inv threadCount := by
  have hf := Pool.worker_frame h.waits hs
  exact
    { h with
      accounts := h.accounts.worker h.waits hs
      waits := h.waits.worker hs
      workers_length := hf.workers_length.trans h.workers_length
      no_late_task := by simpa only [hf.enqueued] using h.no_late_task
      flag := fun hm => hf.shuttingDown.trans (h.flag hm)
      sent_le := by simpa only [hf.enqueued] using h.sent_le
      joined := fun i hm => ⟨(h.joined i hm).1, fun v hv => hf.exited v ((h.joined i hm).2 v hv)⟩
      all_exited := fun hfreed => hf.all_exited (h.all_exited hfreed)
      placed := by simpa only [hf.enqueued] using h.placed }

/-- A step of the listener that has no warning in its hands, before it and after. -/
theorem Propagator.Inv.listener (h : s.Inv threadCount) {pc : ListenerPc}
    (hold : s.listener.busy = false) (hnew : pc.busy = false) :
    { s with listener := pc }.Inv threadCount := by
  have hpc : ∀ (p : ListenerPc) w, p.busy = false → ¬ (p = .decoded w ∨ p = .submitting w) ∧
      ¬ p = .enqueuing w := by
    intro p w hp
    cases p <;> simp_all [ListenerPc.busy]
  exact
    { h with
      enqueuing_open := fun he => by
        cases pc <;> simp_all [ListenerPc.busy, ListenerPc.isEnqueuing]
      idle := fun _ => hnew
      numbered := fun w => by
        have := h.numbered w
        rw [if_neg (hpc _ w hold).1] at this
        rwa [if_neg (hpc _ w hnew).1]
      placed := fun w => by
        have := h.placed w
        rw [if_neg (hpc _ w hold).2] at this
        rwa [if_neg (hpc _ w hnew).2] }

/-- While the listener has a warning in its hands nothing has been freed. -/
theorem Propagator.Inv.freed_eq_zero (h : s.Inv threadCount) (hb : s.listener.busy = true) :
    s.main.freed = 0 := by
  by_contra hne
  have hidle := h.idle (by omega)
  rw [hb] at hidle
  cases hidle

theorem Propagator.Inv.receive (h : s.Inv threadCount) (hpc : s.listener = .receiving)
    (hfreed : s.main.freed = 0) :
    { s with listener := .decoded s.received, received := s.received + 1 }.Inv threadCount := by
  exact
    { h with
      enqueuing_open := fun he => by cases he
      idle := fun hle => absurd hle (by show ¬ 1 ≤ s.main.freed; omega)
      numbered := fun w => by
        have := h.numbered w
        simp only [hpc, reduceCtorEq, or_self, if_false, ListenerPc.decoded.injEq, or_false] at this ⊢
        split at this <;> split <;> split <;> omega
      placed := fun w => by
        have := h.placed w
        simpa only [hpc, reduceCtorEq, if_false] using this }

theorem Propagator.Inv.report (h : s.Inv threadCount) {w : Nat} (hpc : s.listener = .decoded w)
    (desc : Bool) :
    { s with
      listener := .submitting w
      misuse := s.misuse || (desc && 4 ≤ s.main.freed) }.Inv threadCount := by
  have hfreed := h.freed_eq_zero (by rw [hpc]; rfl)
  exact
    { h with
      enqueuing_open := fun he => by cases he
      idle := fun hle => absurd hle (by show ¬ 1 ≤ s.main.freed; omega)
      no_misuse := by simp [h.no_misuse, hfreed]
      numbered := fun v => by
        have := h.numbered v
        simpa only [hpc, reduceCtorEq, or_false, false_or, ListenerPc.decoded.injEq,
          ListenerPc.submitting.injEq] using this
      placed := fun v => by
        have := h.placed v
        simpa only [hpc, reduceCtorEq, if_false] using this }

/-- The submission destroys the warning. -/
theorem Propagator.Inv.submit_destroy (h : s.Inv threadCount) {w : Nat}
    (hpc : s.listener = .submitting w) :
    { s with
      listener := .receiving
      handed := s.handed ++ [w]
      destroyed := s.destroyed ++ [w] }.Inv threadCount := by
  exact
    { h with
      enqueuing_open := fun he => by cases he
      idle := fun _ => rfl
      numbered := fun v => by
        have hv := h.numbered v
        rw [List.count_append, List.count_singleton]
        simp only [hpc, reduceCtorEq, false_or, ListenerPc.submitting.injEq, or_self, if_false,
          beq_iff_eq] at hv ⊢
        omega
      placed := fun v => by
        have hv := h.placed v
        simp only [List.count_append, List.count_singleton]
        simp only [hpc, reduceCtorEq, if_false] at hv ⊢
        omega }

/-- The submission goes on to the enqueuing. -/
theorem Propagator.Inv.submit_enqueue (h : s.Inv threadCount) {w : Nat}
    (hpc : s.listener = .submitting w) (hflag : s.pool.shuttingDown = false) :
    { s with listener := .enqueuing w, handed := s.handed ++ [w] }.Inv threadCount := by
  have hfreed := h.freed_eq_zero (by rw [hpc]; rfl)
  -- the flag was not set, so `main` has not begun to shut down
  have hmain : s.main = .waiting := by
    by_contra hne
    rw [h.flag hne] at hflag
    cases hflag
  exact
    { h with
      enqueuing_open := fun _ => by show s.main.open = true; rw [hmain]; rfl
      idle := fun hle => absurd hle (by show ¬ 1 ≤ s.main.freed; omega)
      numbered := fun v => by
        have hv := h.numbered v
        rw [List.count_append, List.count_singleton]
        simp only [hpc, reduceCtorEq, false_or, ListenerPc.submitting.injEq, or_self, if_false,
          beq_iff_eq] at hv ⊢
        omega
      placed := fun v => by
        have hv := h.placed v
        rw [List.count_append, List.count_singleton]
        simp only [hpc, reduceCtorEq, if_false, ListenerPc.enqueuing.injEq, beq_iff_eq] at hv ⊢
        omega }

theorem Propagator.Inv.submit (h : s.Inv threadCount) {job task : Bool}
    (hs : s.step (.submit job task) = some s') : s'.Inv threadCount := by
  rw [Propagator.step] at hs
  split at hs
  next w hpc =>
      have hfreed := h.freed_eq_zero (by rw [hpc]; rfl)
      have hmisuse : (s.misuse || decide (2 ≤ s.main.freed)) = s.misuse := by simp [hfreed]
      simp only [hmisuse] at hs
      split at hs
      · rw [Option.some.injEq] at hs
        exact hs ▸ h.submit_destroy hpc
      · split at hs
        · rw [Option.some.injEq] at hs
          exact hs ▸ h.submit_destroy hpc
        next hflag =>
            rw [Option.some.injEq] at hs
            simp only [Bool.or_eq_true, not_or, Bool.not_eq_true] at hflag
            exact hs ▸ h.submit_enqueue hpc hflag.1
  next => cases hs

/-- A task appended to what was enqueued comes before the last sentinel if not all
sentinels were enqueued, and a sentinel changes nothing for the tasks before it. -/
theorem no_late_append {enqueued : List (Option Nat)} {item : Option Nat}
    (h : ∀ before t after, enqueued = before ++ some t :: after → before.count none < threadCount)
    (hitem : item ≠ none → enqueued.count none < threadCount) :
    ∀ before t after, enqueued ++ [item] = before ++ some t :: after →
      before.count none < threadCount := by
  intro before t after heq
  cases after using List.reverseRecOn with
  | nil =>
      obtain ⟨rfl, he⟩ := List.append_inj' heq rfl
      rw [List.cons.injEq] at he
      exact hitem (by rw [he.1]; simp)
  | append_singleton after x =>
      rw [← List.cons_append, ← List.append_assoc] at heq
      obtain ⟨rfl, _⟩ := List.append_inj' heq rfl
      exact h before t after rfl

theorem MainPc.sent_lt (main : MainPc) (hopen : main.open = true) (hN : 1 ≤ threadCount)
    (hlt : ∀ i, main = .sending i → i < threadCount) : main.sent threadCount < threadCount := by
  cases main with
  | waiting => exact hN
  | sending i => exact hlt i rfl
  | _ => cases hopen

theorem Propagator.Inv.enqueue (h : s.Inv threadCount) (hN : 1 ≤ threadCount) {who w : Nat}
    {wakes : Option Nat} (hpc : s.listener = .enqueuing w) {pool : Pool Nat}
    (hs : s.pool.enqueue who (some w) true wakes = some pool) :
    { s with pool, listener := .receiving, misuse := s.misuse || 1 ≤ s.main.freed }.Inv
      threadCount := by
  have hfreed := h.freed_eq_zero (by rw [hpc]; rfl)
  have haccounts := h.accounts.enqueue h.waits hs
  have hwaits := h.waits.enqueue hs
  have hsent := s.main.sent_lt (h.enqueuing_open (by rw [hpc]; rfl)) hN h.sending_lt
  obtain ⟨cv, _, rfl⟩ := Pool.enqueue_cases h.waits.unbounded hs
  exact
    { h with
      accounts := haccounts
      waits := hwaits
      no_late_task := no_late_append h.no_late_task fun _ => Nat.lt_of_le_of_lt h.sent_le hsent
      sent_le := by
        have := h.sent_le
        simpa using this
      enqueuing_open := fun he => by cases he
      idle := fun _ => rfl
      no_misuse := by simp [h.no_misuse, hfreed]
      numbered := fun v => by
        have hv := h.numbered v
        simpa only [hpc, reduceCtorEq, or_self, if_false] using hv
      placed := fun v => by
        have hv := h.placed v
        simp only [if_true, List.count_append, List.count_singleton, Option.some.injEq,
          beq_iff_eq]
        simp only [hpc, reduceCtorEq, if_false, ListenerPc.enqueuing.injEq] at hv ⊢
        omega }

/-- At the test of the loop of sentinels. -/
theorem MainPc.sendingAt_cases (threadCount i : Nat) :
    (MainPc.sendingAt threadCount i = .sending i ∧ i < threadCount) ∨
      MainPc.sendingAt threadCount i = .joining 0 := by
  rw [MainPc.sendingAt]
  split
  next hi => exact Or.inl ⟨rfl, hi⟩
  next => exact Or.inr rfl

theorem MainPc.sending_at_lt {i j : Nat} (h : MainPc.sendingAt threadCount i = .sending j) :
    j < threadCount := by
  rcases MainPc.sendingAt_cases threadCount i with ⟨he, hlt⟩ | he
  · rw [he] at h
    cases h
    exact hlt
  · rw [he] at h
    cases h

/-- Nothing has been joined at the test of the loop of sentinels. -/
theorem MainPc.joining_at_sending {i j : Nat} (h : MainPc.sendingAt threadCount i = .joining j) :
    j = 0 := by
  rcases MainPc.sendingAt_cases threadCount i with ⟨he, _⟩ | he
  · rw [he] at h
    cases h
  · rw [he] at h
    cases h
    rfl

theorem MainPc.freed_sendingAt (threadCount i : Nat) :
    (MainPc.sendingAt threadCount i).freed = 0 := by
  rcases MainPc.sendingAt_cases threadCount i with ⟨he, _⟩ | he <;> rw [he] <;> rfl

theorem MainPc.le_sent_sendingAt {i : Nat} (hi : i ≤ threadCount) :
    i ≤ (MainPc.sendingAt threadCount i).sent threadCount := by
  rcases MainPc.sendingAt_cases threadCount i with ⟨he, _⟩ | he
  · rw [he]
    exact Nat.le_refl i
  · rw [he]
    exact hi

theorem MainPc.open_sendingAt {i : Nat} (hi : i < threadCount) :
    (MainPc.sendingAt threadCount i).open = true := by
  rw [MainPc.sendingAt, if_pos hi]
  rfl

/-- Sentinels appended to what was enqueued come after its tasks. -/
theorem no_late_sentinels {enqueued : List (Option Nat)}
    (h : ∀ before t after, enqueued = before ++ some t :: after → before.count none < threadCount)
    (n : Nat) : ∀ before t after, enqueued ++ List.replicate n none = before ++ some t :: after →
      before.count none < threadCount := by
  induction n with
  | zero => rwa [List.replicate_zero, List.append_nil]
  | succ n ih =>
      rw [List.replicate_succ', ← List.append_assoc]
      exact no_late_append ih fun hne => absurd rfl hne

/-- A step of `main` to the test of the loop of sentinels. -/
theorem Propagator.Inv.toSendingAt (h : s.Inv threadCount) {n i : Nat} {pool : Pool Nat}
    (hpool : s.pool.Closing n pool) (hflag : pool.shuttingDown = true)
    (hsent : s.main.sent threadCount + n ≤ i) (hi : i ≤ threadCount)
    (hopen : s.listener.isEnqueuing = true → i < threadCount) :
    { s with pool, main := .sendingAt threadCount i }.Inv threadCount := by
  have hcount : pool.enqueued.count none ≤ i := by
    rw [hpool.count_sentinel]
    exact Nat.le_trans (Nat.add_le_add_right h.sent_le n) hsent
  have hfreed : ¬ 1 ≤ (MainPc.sendingAt threadCount i).freed := by
    rw [MainPc.freed_sendingAt]
    exact Nat.not_succ_le_zero 0
  exact
    { h with
      accounts := hpool.accounts
      waits := hpool.waits
      workers_length := by
        show pool.workers.length = threadCount
        rw [hpool.workers]
        exact h.workers_length
      no_late_task := by
        show ∀ before t after, pool.enqueued = _ → _
        rw [hpool.enqueued]
        exact no_late_sentinels h.no_late_task n
      flag := fun _ => hflag
      sent_le := Nat.le_trans hcount (MainPc.le_sent_sendingAt hi)
      sending_lt := fun _ hj => MainPc.sending_at_lt hj
      joined := fun j hj => by
        rw [MainPc.joining_at_sending hj]
        exact ⟨Nat.zero_le _, fun w hw => absurd hw (Nat.not_lt_zero w)⟩
      all_exited := fun hle => absurd hle hfreed
      enqueuing_open := fun hen => MainPc.open_sendingAt (hopen hen)
      idle := fun hle => absurd hle hfreed
      placed := by simpa only [hpool.count_task] using h.placed }

theorem Propagator.Inv.shutdown (h : s.Inv threadCount) (hN : 1 ≤ threadCount)
    (hm : s.main = .waiting) :
    { s with
      pool := { s.pool with shuttingDown := true }
      main := .sendingAt threadCount 0 }.Inv threadCount := by
  refine h.toSendingAt (h.accounts.closing_flag h.waits) rfl ?_ (Nat.zero_le _) fun _ => hN
  rw [hm]
  exact Nat.le_refl 0

theorem Propagator.Inv.sentinel (h : s.Inv threadCount) {i who : Nat} (hm : s.main = .sending i)
    (hlast : s.main = .sending (threadCount - 1) → s.listener.isEnqueuing = false)
    {alloc : Bool} {wakes : Option Nat} {pool : Pool Nat}
    (hs : s.pool.enqueue who none alloc wakes = some pool) :
    { s with pool, main := .sendingAt threadCount (i + 1) }.Inv threadCount := by
  obtain ⟨hpool, hflag⟩ := h.accounts.closing_sentinel h.waits hs
  refine h.toSendingAt hpool (hflag.trans (h.flag (by rw [hm]; simp))) ?_ (h.sending_lt i hm) ?_
  · rw [hm]
    exact Nat.add_le_add_left (Bool.toNat_le alloc) i
  · -- the last sentinel is sent only while the listener is not about to enqueue
    intro hen
    have hi := h.sending_lt i hm
    by_contra hge
    have hlisten := hlast (by rw [hm, show threadCount - 1 = i by omega])
    rw [hen] at hlisten
    cases hlisten

theorem Propagator.Inv.join (h : s.Inv threadCount) {i : Nat} (hm : s.main = .joining i)
    (hexit : s.pool.workers[i]? = some .exited) :
    { s with main := .joining (i + 1) }.Inv threadCount := by
  have hlt : i < threadCount := h.workers_length ▸ (List.getElem?_eq_some_iff.mp hexit).1
  have hsent := h.sent_le
  rw [hm] at hsent
  exact
    { h with
      flag := fun _ => h.flag (by rw [hm]; simp)
      sent_le := hsent
      sending_lt := fun j hj => by cases hj
      joined := fun j hj => by
        cases hj
        exact ⟨hlt, Nat.forall_lt_succ_right.mpr ⟨(h.joined i hm).2, hexit⟩⟩
      all_exited := fun hle => absurd hle (Nat.not_succ_le_zero 0)
      enqueuing_open := fun hen => by
        have := h.enqueuing_open hen
        rw [hm] at this
        cases this
      idle := fun hle => absurd hle (Nat.not_succ_le_zero 0) }

/-- A step of `main` that frees an object. -/
theorem Propagator.Inv.free (h : s.Inv threadCount) {main : MainPc}
    (hexited : ∀ pc ∈ s.pool.workers, pc = .exited) (hidle : s.listener.busy = false)
    (hflag : s.pool.shuttingDown = true) (hnew : 1 ≤ main.freed) :
    { s with main }.Inv threadCount := by
  have hcount : s.pool.enqueued.count none ≤ threadCount := by
    have hsent := h.sent_le
    cases hm : s.main with
    | waiting =>
        rw [hm] at hsent
        exact Nat.le_trans hsent (Nat.zero_le _)
    | sending i =>
        rw [hm] at hsent
        exact Nat.le_trans hsent (Nat.le_of_lt (h.sending_lt i hm))
    | _ =>
        rw [hm] at hsent
        exact hsent
  have hlisten : s.listener.isEnqueuing = false := by
    cases hl : s.listener with
    | enqueuing w =>
        rw [hl] at hidle
        cases hidle
    | _ => rfl
  exact
    { h with
      flag := fun _ => hflag
      sent_le := by cases main <;> first | exact hcount | cases hnew
      sending_lt := fun j hj => by
        subst hj
        cases hnew
      joined := fun j hj => by
        subst hj
        cases hnew
      all_exited := fun _ => hexited
      enqueuing_open := fun hen => by
        rw [show s.listener.isEnqueuing = false from hlisten] at hen
        cases hen
      idle := fun _ => hidle }

/-- A further step of `main` that frees an object. -/
theorem Propagator.Inv.freeNext (h : s.Inv threadCount) {main : MainPc} (hle : 1 ≤ s.main.freed)
    (hnew : 1 ≤ main.freed) : { s with main }.Inv threadCount := by
  refine h.free (h.all_exited hle) (h.idle hle) (h.flag ?_) hnew
  intro hm
  rw [hm] at hle
  cases hle

/-- Every orderly step keeps the invariant. -/
theorem Propagator.Inv.step (h : s.Inv threadCount) (hN : 1 ≤ threadCount) {a : CpAction}
    (hok : s.Orderly a) (hs : s.step a = some s') : s'.Inv threadCount := by
  cases a with
  | worker w k =>
      obtain ⟨pool, hp, rfl⟩ := Option.map_eq_some_iff.mp hs
      exact h.worker hp
  | setEvent =>
      rw [Propagator.step, Option.some.injEq] at hs
      exact hs ▸ { h with }
  | test =>
      obtain ⟨hpc, rfl⟩ := Option.ite_some_none_eq_some.mp hs
      apply h.listener (by rw [hpc]; rfl)
      split <;> rfl
  | accept ok =>
      obtain ⟨hpc, rfl⟩ := Option.ite_some_none_eq_some.mp hs
      apply h.listener (by rw [hpc]; rfl)
      cases ok <;> rfl
  | receive ok =>
      obtain ⟨hpc, rfl⟩ := Option.ite_some_none_eq_some.mp hs
      cases ok with
      | true => exact h.receive hpc (hok rfl)
      | false => exact h.listener (by rw [hpc]; rfl) rfl
  | report desc =>
      rw [Propagator.step] at hs
      split at hs
      next w hpc =>
          rw [Option.some.injEq] at hs
          exact hs ▸ h.report hpc desc
      next => cases hs
  | submit job task => exact h.submit hs
  | enqueue alloc wakes =>
      rw [Propagator.step] at hs
      split at hs
      next w hpc =>
          obtain ⟨pool, hp, rfl⟩ := Option.map_eq_some_iff.mp hs
          rw [show alloc = true from hok] at hp
          exact h.enqueue hN hpc hp
      next => cases hs
  | shutdown =>
      obtain ⟨⟨hm, _⟩, rfl⟩ := Option.ite_some_none_eq_some.mp hs
      rw [h.workers_length]
      exact h.shutdown hN hm
  | sentinel alloc wakes =>
      rw [Propagator.step] at hs
      split at hs
      next i hm =>
          obtain ⟨pool, hp, rfl⟩ := Option.map_eq_some_iff.mp hs
          rw [Propagator.Orderly, h.workers_length] at hok
          rw [h.workers_length] at *
          exact h.sentinel hm hok hp
      next => cases hs
  | join =>
      rw [Propagator.step] at hs
      split at hs
      next i hm =>
          obtain ⟨he, rfl⟩ := Option.ite_some_none_eq_some.mp hs
          exact h.join hm he
      next => cases hs
  | destroyQueue =>
      obtain ⟨hm, rfl⟩ := Option.ite_some_none_eq_some.mp hs
      exact h.free (Pool.all_exited_iff.mpr (h.joined _ hm).2) hok (h.flag (by rw [hm]; simp))
        (Nat.le_refl 1)
  | freePool | freeDispatcher | destroyContext =>
      obtain ⟨hm, rfl⟩ := Option.ite_some_none_eq_some.mp hs
      exact h.freeNext (by rw [hm]; decide) (by decide)

/-- Once every worker has exited, the queue is empty. -/
theorem Propagator.Inv.inner_eq_nil (h : s.Inv threadCount) (hfreed : 1 ≤ s.main.freed) :
    s.pool.queue.inner = [] := by
  have hremoved := (h.accounts.count_removed_none (h.all_exited hfreed)).trans h.workers_length
  have hsent : s.pool.enqueued.count none ≤ threadCount := by
    have := h.sent_le
    cases hm : s.main <;> rw [hm] at this hfreed <;> first | exact this | cases hfreed
  rw [h.accounts.fifo, List.count_append, hremoved] at hsent
  cases hq : s.pool.queue.inner with
  | nil => rfl
  | cons item rest =>
      rw [hq] at hsent
      cases item with
      | none =>
          rw [List.count_cons_self] at hsent
          omega
      | some t =>
          have hfifo := h.accounts.fifo
          rw [hq] at hfifo
          have := h.no_late_task _ t rest hfifo
          omega

/-- The invariant implies that nothing is lost or misused. -/
theorem Propagator.Inv.clean (h : s.Inv threadCount) : s.Clean threadCount := by
  have hplaced : ∀ w, s.pool.enqueued.count (some w) + s.destroyed.count w ≤ s.handed.count w := by
    intro w
    have := h.placed w
    omega
  have hhanded : ∀ w, s.handed.count w ≤ 1 := by
    intro w
    have := h.numbered w
    split at this <;> split at this <;> omega
  refine ⟨?_, ?_, h.no_late_task, h.no_misuse⟩
  · intro w
    have hstarted := h.accounts.started_le w
    exact Nat.le_trans (Nat.le_trans (Nat.add_le_add_right hstarted _) (hplaced w)) (hhanded w)
  · intro hfreed w hw
    have hfreed' : 1 ≤ s.main.freed := by omega
    have hfinished := (h.accounts.of_exited (h.all_exited hfreed') w).2
    have hidle : s.listener ≠ .enqueuing w := by
      intro hl
      have := h.idle hfreed'
      rw [hl] at this
      cases this
    have hw1 := List.count_pos_iff.mpr hw
    have hle := hhanded w
    have heq := h.placed w
    rw [if_neg hidle, h.accounts.fifo, h.inner_eq_nil hfreed', List.append_nil] at heq
    omega

end Steps

/-- On every orderly schedule nothing is lost or misused. -/
theorem shutdown_clean {threadCount : Nat} {as : List CpAction} {s : Propagator}
    (hN : 1 ≤ threadCount)
    (h : Machine.Run Propagator.step Propagator.Orderly (.init threadCount) as s) :
    s.Clean threadCount := by
  have hinv : s.Inv threadCount :=
    h.invariant (Propagator.init_inv threadCount) fun _ _ _ hi hok hs => hi.step hN hok hs
  exact hinv.clean

/-- One warning is dispatched before the exit event is set, and one is destroyed after. -/
def orderlyRun : List CpAction :=
  [.worker 0 .dequeue, .test, .accept true, .receive true, .report true, .submit true true,
    .enqueue true (some 0), .worker 0 .resume, .worker 0 .start, .setEvent, .receive true,
    .report true, .shutdown, .submit true true, .sentinel true none, .worker 0 .finish,
    .worker 0 .dequeue, .join, .destroyQueue, .freePool]

/-- The state that run leads to. -/
def orderlyEnd : Propagator where
  pool :=
    { queue := tsqueueCreate 0
      shuttingDown := true
      workers := [.exited]
      enqueued := [some 0, none]
      removed := [(0, some 0), (0, none)]
      started := [0]
      finished := [0] }
  exitEvent := true
  listener := .receiving
  main := .poolFreed
  received := 2
  handed := [0, 1]
  destroyed := [1]
  misuse := false

theorem shutdown_clean_orderlyRun : orderlyEnd.Clean 1 :=
  shutdown_clean (Nat.le_refl 1)
    (Machine.execWhere_run (show Machine.execWhere Propagator.step Propagator.Orderly (.init 1)
      orderlyRun = some orderlyEnd by decide +kernel))

/-- The exit event is set while the listener is between the test of `shutting_down` and
the enqueuing.  The four workers take their sentinels, `main` joins them and destroys the
queue, and then the listener enqueues its task. -/
def misuseRun : List CpAction :=
  [.test, .accept true, .receive true, .report true, .submit true true, .setEvent, .shutdown,
    .sentinel true none, .sentinel true none, .sentinel true none, .sentinel true none,
    .worker 0 .dequeue, .worker 1 .dequeue, .worker 2 .dequeue, .worker 3 .dequeue,
    .join, .join, .join, .join, .destroyQueue, .enqueue true none, .freePool]

/-- On that run a task is enqueued after the sentinels and on a queue that was destroyed,
and its warning is neither dispatched nor destroyed. -/
theorem shutdown_misuse : ∃ s, Machine.exec Propagator.step (.init 4) misuseRun = some s ∧
    s.misuse = true ∧ s.pool.enqueued = [none, none, none, none, some 0] ∧ 2 ≤ s.main.freed ∧
    0 ∈ s.handed ∧ s.pool.finished.count 0 + s.destroyed.count 0 = 0 ∧ ¬ s.Clean 4 := by
  refine ⟨(Machine.exec Propagator.step (.init 4) misuseRun).getD (.init 4), by decide +kernel,
    by decide +kernel, by decide +kernel, by decide +kernel, by decide +kernel, by decide +kernel,
    ?_⟩
  intro hclean
  exact absurd hclean.no_misuse (by decide +kernel)

end DataPropagator
