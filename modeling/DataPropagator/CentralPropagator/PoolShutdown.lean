import DataPropagator.CentralPropagator.ThreadPool
import Mathlib.Data.List.Induction

/-!
# Shutting the pool down

Any number of threads submit tasks with `tp_submit`, the workers run them, and when
every submission has returned one thread calls `tp_shutdown`.  A submission is two
steps, since the flag `shutting_down` is read outside the critical section of the queue.
Shutting down is the setting of the flag, one sentinel for every worker, a join of every
worker in turn, and the destruction of the queue.

The invariant says that the queue was given the tasks first and the sentinels after
them.  With `Pool.Accounts` it follows that nobody exits before the last task was taken.
-/

namespace DataPropagator

/-! ## The system -/

/-- Where a thread is in `tp_submit`. -/
inductive SubmitPc where
  | idle
  /-- It read the flag, allocated the task and is about to enqueue it. -/
  | enqueuing
  | returned (ok : Bool)
deriving DecidableEq, Repr

/-- Where the thread that shuts down is. -/
inductive ShutdownPc where
  /-- `tp_shutdown` has not been called. -/
  | running
  /-- So many sentinels were enqueued, and not yet all. -/
  | sending (i : Nat)
  /-- So many workers were joined. -/
  | joining (i : Nat)
  | returned
deriving DecidableEq, Repr

/-- The pool, the submission of every task and the thread that shuts down.  A task is
its index. -/
structure PoolSystem where
  pool : Pool Nat
  submits : List SubmitPc
  main : ShutdownPc
deriving DecidableEq, Repr

/-- A pool that was just created, and tasks nobody has submitted yet. -/
def PoolSystem.init (threadCount tasks : Nat) : PoolSystem where
  pool := tpCreate threadCount
  submits := List.replicate tasks .idle
  main := .running

/-- A step of the system. -/
inductive PoolAction where
  | worker (w : Nat) (k : WorkerStep)
  /-- `tp_submit` is called for a task, up to the enqueuing. -/
  | submit (t : Nat)
  /-- `tp_submit` enqueues a task and returns. -/
  | enqueue (t : Nat) (wakes : Option Nat)
  /-- `tp_shutdown` is called and sets the flag. -/
  | shutdown
  /-- `tp_shutdown` enqueues a sentinel. -/
  | sentinel (wakes : Option Nat)
  /-- `tp_shutdown` joins the next worker. -/
  | join
  /-- `tp_shutdown` destroys the queue and returns. -/
  | destroy
deriving DecidableEq, Repr

/-- The loop that enqueues the sentinels, at its test. -/
def sendingAt (threadCount i : Nat) : ShutdownPc :=
  if i < threadCount then .sending i else .joining 0

/-- One step.  `tp_shutdown` is called only when every submission has returned. -/
def PoolSystem.step (s : PoolSystem) : PoolAction → Option PoolSystem
  | .worker w k => (s.pool.worker w k).map fun pool => { s with pool }
  | .submit t =>
      if s.submits[t]? = some .idle then
        some { s with
          submits := s.submits.set t (if s.pool.shuttingDown then .returned false else .enqueuing) }
      else none
  | .enqueue t wakes =>
      if s.submits[t]? = some .enqueuing then
        (s.pool.enqueue (s.pool.workers.length + 1 + t) (some t) true wakes).map fun pool =>
          { s with pool, submits := s.submits.set t (.returned true) }
      else none
  | .shutdown =>
      if s.main = .running ∧ ∀ c ∈ s.submits, c = .returned true ∨ c = .returned false then
        some { s with
          pool := { s.pool with shuttingDown := true }
          main := sendingAt s.pool.workers.length 0 }
      else none
  | .sentinel wakes =>
      match s.main with
      | .sending i =>
          (s.pool.enqueue s.pool.workers.length none true wakes).map fun pool =>
            { s with pool, main := sendingAt s.pool.workers.length (i + 1) }
      | _ => none
  | .join =>
      match s.main with
      | .joining i =>
          if s.pool.workers[i]? = some .exited then some { s with main := .joining (i + 1) } else none
      | _ => none
  | .destroy =>
      if s.main = .joining s.pool.workers.length then some { s with main := .returned } else none

/-! ## The invariant -/

/-- How many sentinels have been enqueued. -/
def ShutdownPc.sent (threadCount : Nat) : ShutdownPc → Nat
  | .running => 0
  | .sending i => i
  | .joining _ => threadCount
  | .returned => threadCount

/-- What holds in every state a system with these workers and tasks can reach. -/
structure PoolSystem.Inv (threadCount taskCount : Nat) (s : PoolSystem) : Prop where
  accounts : s.pool.Accounts
  waits : s.pool.Waits
  workers_length : s.pool.workers.length = threadCount
  submits_length : s.submits.length = taskCount
  /-- The tasks were enqueued before the sentinels. -/
  order : ∃ tasks : List Nat, s.pool.enqueued =
    tasks.map some ++ List.replicate (s.main.sent threadCount) none
  /-- A task was enqueued once if its submission has returned, and otherwise not. -/
  submitted : ∀ t, s.pool.enqueued.count (some t) =
    if s.submits[t]? = some (.returned true) then 1 else 0
  accepting : s.main = .running → s.pool.shuttingDown = false
  accepted : ∀ c ∈ s.submits, c ≠ .returned false
  closed : s.main ≠ .running → ∀ c ∈ s.submits, c = .returned true
  sending_lt : ∀ i, s.main = .sending i → i < threadCount
  joined : ∀ i, s.main = .joining i → i ≤ threadCount ∧
    ∀ w, w < i → s.pool.workers[w]? = some .exited

theorem PoolSystem.init_inv (threadCount taskCount : Nat) :
    (PoolSystem.init threadCount taskCount).Inv threadCount taskCount where
  accounts := tpCreate_accounts threadCount
  waits := tpCreate_waits threadCount
  workers_length := List.length_replicate
  submits_length := List.length_replicate
  order := ⟨[], rfl⟩
  submitted t := by simp [PoolSystem.init, tpCreate, List.getElem?_replicate]
  accepting _ := rfl
  accepted := by simp [PoolSystem.init]
  closed h := absurd rfl h
  sending_lt _ h := by cases h
  joined _ h := by cases h

/-! ## What a step keeps -/

section Steps

variable {threadCount taskCount : Nat} {s s' : PoolSystem}

theorem PoolSystem.Inv.worker (h : s.Inv threadCount taskCount) {w : Nat} {k : WorkerStep}
    {pool : Pool Nat} (hs : s.pool.worker w k = some pool) :
    { s with pool }.Inv threadCount taskCount := by
  have hf := Pool.worker_frame h.waits hs
  exact
    { h with
      accounts := h.accounts.worker h.waits hs
      waits := h.waits.worker hs
      workers_length := hf.workers_length.trans h.workers_length
      order := by
        obtain ⟨tasks, ht⟩ := h.order
        exact ⟨tasks, hf.enqueued.trans ht⟩
      submitted := fun t => by
        show pool.enqueued.count _ = _
        rw [hf.enqueued]
        exact h.submitted t
      accepting := fun hm => hf.shuttingDown.trans (h.accepting hm)
      joined := fun i hm => ⟨(h.joined i hm).1, fun w hw => hf.exited w ((h.joined i hm).2 w hw)⟩ }

/-- Changing one submission that has not returned. -/
theorem count_submitted {submits : List SubmitPc} {t : Nat} {a b : SubmitPc}
    (ht : submits[t]? = some a) (ha : a ≠ .returned true) (v : Nat) :
    (submits.set t b)[v]? = some (.returned true) ↔
      submits[v]? = some (.returned true) ∨ v = t ∧ b = .returned true := by
  rw [getElem?_move ht]
  by_cases hv : t = v
  · subst hv
    simp [ht, ha]
  · rw [if_neg hv]
    simp [Ne.symm hv]

theorem PoolSystem.Inv.submit (h : s.Inv threadCount taskCount) {t : Nat}
    (ht : s.submits[t]? = some .idle) :
    { s with
      submits := s.submits.set t (if s.pool.shuttingDown then .returned false
        else .enqueuing) }.Inv threadCount taskCount := by
  -- the flag is not set, since no submission is open once it is
  have hmain : s.main = .running := by
    by_contra hm
    cases h.closed hm _ (List.mem_of_getElem? ht)
  have hflag := h.accepting hmain
  rw [hflag]
  exact
    { h with
      submits_length := List.length_set.trans h.submits_length
      submitted := fun v => by
        rw [h.submitted v]
        simp only [count_submitted ht (by simp : SubmitPc.idle ≠ .returned true)]
        simp
      accepted := fun c hc => by
        cases List.mem_or_eq_of_mem_set hc with
        | inl hm => exact h.accepted c hm
        | inr he => simp [he]
      closed := fun hm => absurd hmain hm
      joined := h.joined }

theorem PoolSystem.Inv.enqueue (h : s.Inv threadCount taskCount) {who t : Nat}
    {wakes : Option Nat} (ht : s.submits[t]? = some .enqueuing) {pool : Pool Nat}
    (hs : s.pool.enqueue who (some t) true wakes = some pool) :
    { s with pool, submits := s.submits.set t (.returned true) }.Inv threadCount taskCount := by
  have hmain : s.main = .running := by
    by_contra hm
    cases h.closed hm _ (List.mem_of_getElem? ht)
  have haccounts := h.accounts.enqueue h.waits hs
  have hwaits := h.waits.enqueue hs
  obtain ⟨cv, _, rfl⟩ := Pool.enqueue_cases h.waits.unbounded hs
  exact
    { h with
      accounts := haccounts
      waits := hwaits
      submits_length := List.length_set.trans h.submits_length
      order := by
        obtain ⟨tasks, htasks⟩ := h.order
        simp only [hmain, ShutdownPc.sent, List.replicate_zero, List.append_nil] at htasks ⊢
        exact ⟨tasks ++ [t], by rw [if_true, htasks, List.map_append]; rfl⟩
      submitted := fun v => by
        simp only [if_true, List.count_append, h.submitted v, List.count_singleton, beq_iff_eq,
          Option.some.injEq,
          count_submitted ht (by simp : SubmitPc.enqueuing ≠ .returned true)]
        by_cases hv : t = v
        · subst hv
          simp [ht]
        · simp [hv, Ne.symm hv]
      accepted := fun c hc => by
        cases List.mem_or_eq_of_mem_set hc with
        | inl hm => exact h.accepted c hm
        | inr he => simp [he]
      closed := fun hm => absurd hmain hm
      joined := h.joined }

theorem sendingAt_ne_running (threadCount i : Nat) : sendingAt threadCount i ≠ .running := by
  rw [sendingAt]
  split <;> simp

theorem sendingAt_ne_returned (threadCount i : Nat) : sendingAt threadCount i ≠ .returned := by
  rw [sendingAt]
  split <;> simp

theorem sent_sendingAt {i : Nat} (hi : i ≤ threadCount) :
    (sendingAt threadCount i).sent threadCount = i := by
  rw [sendingAt]
  split
  · rfl
  · show threadCount = i
    omega

/-- At the test of the loop nothing has been joined. -/
theorem sendingAt_cases (threadCount i : Nat) :
    (sendingAt threadCount i = .sending i ∧ i < threadCount) ∨
      sendingAt threadCount i = .joining 0 := by
  rw [sendingAt]
  split
  next hi => exact Or.inl ⟨rfl, hi⟩
  next => exact Or.inr rfl

theorem sending_at_lt {threadCount i j : Nat} (h : sendingAt threadCount i = .sending j) :
    j < threadCount := by
  rcases sendingAt_cases threadCount i with ⟨he, hlt⟩ | he
  · rw [he] at h
    cases h
    exact hlt
  · rw [he] at h
    cases h

/-- Nothing has been joined at the test of the loop that sends. -/
theorem joining_at_sending {threadCount i j : Nat} (h : sendingAt threadCount i = .joining j) :
    j = 0 := by
  rcases sendingAt_cases threadCount i with ⟨he, _⟩ | he
  · rw [he] at h
    cases h
  · rw [he] at h
    cases h
    rfl

/-- A step of `tp_shutdown` to the test of the loop that sends. -/
theorem PoolSystem.Inv.toSendingAt (h : s.Inv threadCount taskCount) {n i : Nat} {pool : Pool Nat}
    (hpool : s.pool.Closing n pool) (hsent : s.main.sent threadCount + n = i)
    (hi : i ≤ threadCount) (hclosed : ∀ c ∈ s.submits, c = .returned true) :
    { s with pool, main := sendingAt threadCount i }.Inv threadCount taskCount :=
  { h with
    accounts := hpool.accounts
    waits := hpool.waits
    workers_length := by
      show pool.workers.length = threadCount
      rw [hpool.workers]
      exact h.workers_length
    order := by
      obtain ⟨tasks, ht⟩ := h.order
      refine ⟨tasks, ?_⟩
      show pool.enqueued = _
      rw [sent_sendingAt hi, hpool.enqueued, ht, List.append_assoc, List.replicate_append_replicate,
        hsent]
    submitted := fun v => (hpool.count_task v).trans (h.submitted v)
    accepting := fun hr => absurd hr (sendingAt_ne_running _ _)
    closed := fun _ => hclosed
    sending_lt := fun _ hj => sending_at_lt hj
    joined := fun j hj => by
      rw [joining_at_sending hj]
      exact ⟨Nat.zero_le _, fun w hw => absurd hw (Nat.not_lt_zero w)⟩ }

theorem PoolSystem.Inv.shutdown (h : s.Inv threadCount taskCount) (hm : s.main = .running)
    (hall : ∀ c ∈ s.submits, c = .returned true ∨ c = .returned false) :
    { s with
      pool := { s.pool with shuttingDown := true }
      main := sendingAt s.pool.workers.length 0 }.Inv threadCount taskCount := by
  rw [h.workers_length]
  refine h.toSendingAt (h.accounts.closing_flag h.waits) ?_ (Nat.zero_le _) ?_
  · rw [hm]
    rfl
  · intro c hc
    exact (hall c hc).resolve_right (h.accepted c hc)

theorem PoolSystem.Inv.sentinel (h : s.Inv threadCount taskCount) {i who : Nat}
    (hm : s.main = .sending i) {wakes : Option Nat} {pool : Pool Nat}
    (hs : s.pool.enqueue who none true wakes = some pool) :
    { s with pool, main := sendingAt s.pool.workers.length (i + 1) }.Inv
      threadCount taskCount := by
  rw [h.workers_length]
  refine h.toSendingAt (h.accounts.closing_sentinel h.waits hs).1 ?_ (h.sending_lt i hm) ?_
  · rw [hm]
    rfl
  · exact h.closed (by rw [hm]; simp)

theorem PoolSystem.Inv.join (h : s.Inv threadCount taskCount) {i : Nat}
    (hm : s.main = .joining i) (hexit : s.pool.workers[i]? = some .exited) :
    { s with main := .joining (i + 1) }.Inv threadCount taskCount := by
  have hne : s.main ≠ .running := by
    rw [hm]
    simp
  have hlt : i < threadCount := h.workers_length ▸ (List.getElem?_eq_some_iff.mp hexit).1
  exact
    { h with
      order := by
        obtain ⟨tasks, ht⟩ := h.order
        rw [hm] at ht
        exact ⟨tasks, ht⟩
      accepting := fun hr => by cases hr
      closed := fun _ => h.closed hne
      sending_lt := fun j hj => by cases hj
      joined := fun j hj => by
        cases hj
        exact ⟨hlt, Nat.forall_lt_succ_right.mpr ⟨(h.joined i hm).2, hexit⟩⟩ }

theorem PoolSystem.Inv.destroy (h : s.Inv threadCount taskCount) {i : Nat}
    (hm : s.main = .joining i) : { s with main := .returned }.Inv threadCount taskCount := by
  have hne : s.main ≠ .running := by
    rw [hm]
    simp
  exact
    { h with
      order := by
        obtain ⟨tasks, ht⟩ := h.order
        rw [hm] at ht
        exact ⟨tasks, ht⟩
      accepting := fun hr => by cases hr
      closed := fun _ => h.closed hne
      sending_lt := fun j hj => by cases hj
      joined := fun j hj => by cases hj }

/-- The invariant is kept by every step. -/
theorem PoolSystem.Inv.step (h : s.Inv threadCount taskCount) {a : PoolAction}
    (hs : s.step a = some s') : s'.Inv threadCount taskCount := by
  cases a with
  | worker w k =>
      obtain ⟨pool, hp, rfl⟩ := Option.map_eq_some_iff.mp hs
      exact h.worker hp
  | submit t =>
      obtain ⟨ht, rfl⟩ := Option.ite_some_none_eq_some.mp hs
      exact h.submit ht
  | enqueue t wakes =>
      obtain ⟨ht, hs⟩ := Option.ite_none_right_eq_some.mp hs
      obtain ⟨pool, hp, rfl⟩ := Option.map_eq_some_iff.mp hs
      exact h.enqueue ht hp
  | shutdown =>
      obtain ⟨⟨hm, hsubmits⟩, rfl⟩ := Option.ite_some_none_eq_some.mp hs
      exact h.shutdown hm hsubmits
  | sentinel wakes =>
      rw [PoolSystem.step] at hs
      split at hs
      next i hm =>
          obtain ⟨pool, hp, rfl⟩ := Option.map_eq_some_iff.mp hs
          exact h.sentinel hm hp
      next => cases hs
  | join =>
      rw [PoolSystem.step] at hs
      split at hs
      next i hm =>
          obtain ⟨he, rfl⟩ := Option.ite_some_none_eq_some.mp hs
          exact h.join hm he
      next => cases hs
  | destroy =>
      obtain ⟨hm, rfl⟩ := Option.ite_some_none_eq_some.mp hs
      exact h.destroy hm

/-- The invariant holds in every reachable state. -/
theorem PoolSystem.inv_of_reachable
    (h : Machine.Reachable PoolSystem.step (.init threadCount taskCount) s) :
    s.Inv threadCount taskCount :=
  h.invariant (PoolSystem.init_inv threadCount taskCount) fun _ _ _ hi hs => hi.step hs

/-! ## Draining -/

/-- If as many sentinels were taken from the front of a queue as stand at its end,
nothing is left. -/
theorem nil_of_sentinels_taken {α : Type} [DecidableEq α] {taken left : List (Option α)}
    {tasks : List α} {k : Nat} (h : taken ++ left = tasks.map some ++ List.replicate k none)
    (hk : 0 < k) (hcount : taken.count none = k) : left = [] := by
  have htotal := congrArg (List.count none) h
  have htasks : (tasks.map some).count none = 0 := by
    simp [List.count_eq_zero]
  rw [List.count_append, List.count_append, htasks, hcount, List.count_replicate_self] at htotal
  have hnone : none ∉ left := List.count_eq_zero.mp (by omega)
  cases left using List.reverseRecOn with
  | nil => rfl
  | append_singleton left x =>
      obtain ⟨m, rfl⟩ : ∃ m, k = m + 1 := ⟨k - 1, by omega⟩
      have hlast := congrArg List.getLast? h
      rw [← List.append_assoc, List.getLast?_concat, List.replicate_succ', ← List.append_assoc,
        List.getLast?_concat, Option.some.injEq] at hlast
      exact absurd (List.mem_append_right left (List.mem_singleton.mpr hlast.symm)) hnone

/-- Sentinels that were removed were sent. -/
theorem PoolSystem.Inv.count_removed_none (h : s.Inv threadCount taskCount) :
    (s.pool.removed.map Prod.snd).count none + s.pool.queue.inner.count none =
      s.main.sent threadCount := by
  obtain ⟨tasks, ht⟩ := h.order
  have htotal := congrArg (List.count none) ht
  have htasks : (tasks.map some).count none = 0 := by
    simp [List.count_eq_zero]
  rw [h.accounts.fifo, List.count_append, List.count_append, htasks,
    List.count_replicate_self] at htotal
  omega

/-- Once every worker has exited, the queue is empty. -/
theorem PoolSystem.Inv.inner_eq_nil (h : s.Inv threadCount taskCount) (hN : 1 ≤ threadCount)
    (hall : ∀ pc ∈ s.pool.workers, pc = .exited) : s.pool.queue.inner = [] := by
  have hremoved := (h.accounts.count_removed_none hall).trans h.workers_length
  have hcount := h.count_removed_none
  have hsent : s.main.sent threadCount ≤ threadCount := by
    cases hm : s.main with
    | running => exact Nat.zero_le _
    | sending i => exact Nat.le_of_lt (h.sending_lt i hm)
    | joining i => exact Nat.le_refl _
    | returned => exact Nat.le_refl _
  obtain ⟨tasks, ht⟩ := h.order
  rw [h.accounts.fifo] at ht
  exact nil_of_sentinels_taken ht (by omega) (by omega)

/-- While an item is queued some worker can take a step. -/
theorem PoolSystem.Inv.worker_progress (h : s.Inv threadCount taskCount) (hN : 1 ≤ threadCount)
    (hq : s.pool.queue.inner ≠ []) : ∃ v k, k ≠ .spurious ∧ (s.pool.worker v k).isSome := by
  by_cases hall : ∀ pc ∈ s.pool.workers, pc = .exited
  · exact absurd (h.inner_eq_nil hN hall) hq
  · simp only [not_forall] at hall
    obtain ⟨pc, hmem, hlive⟩ := hall
    obtain ⟨w, hw⟩ := List.mem_iff_getElem?.mp hmem
    obtain ⟨v, k, _, hstep⟩ := h.waits.progress hq hw hlive
    exact ⟨v, k, hstep⟩

/-- An enqueuing can always take place. -/
theorem Pool.Waits.enqueue_enabled {p : Pool Nat} (h : p.Waits) (who : Nat) (item : Option Nat) :
    ∃ wakes, (p.enqueue who item true wakes).isSome := by
  obtain ⟨wakes, r, q, hq⟩ := tsqueueEnqueue_enabled h.unbounded who item true
  exact ⟨wakes, by rw [Pool.enqueue, hq]; rfl⟩

/-- While not every submission has returned, the next step of one is known. -/
theorem exists_open_submit {submits : List SubmitPc}
    (h : ¬ ∀ c ∈ submits, c = .returned true ∨ c = .returned false) :
    ∃ t : Nat, submits[t]? = some .idle ∨ submits[t]? = some .enqueuing := by
  simp only [not_forall] at h
  obtain ⟨c, hc, hopen⟩ := h
  obtain ⟨t, ht⟩ := List.mem_iff_getElem?.mp hc
  cases c with
  | idle => exact ⟨t, Or.inl ht⟩
  | enqueuing => exact ⟨t, Or.inr ht⟩
  | returned ok => cases ok <;> simp at hopen

/-- Until `tp_shutdown` has returned some step is enabled that is no spurious wake-up. -/
theorem PoolSystem.Inv.progress (h : s.Inv threadCount taskCount) (hN : 1 ≤ threadCount)
    (hm : s.main ≠ .returned) : ∃ a, (∀ w, a ≠ .worker w .spurious) ∧ (s.step a).isSome := by
  have hworker : (∃ v k, k ≠ .spurious ∧ (s.pool.worker v k).isSome) →
      ∃ a, (∀ w, a ≠ .worker w .spurious) ∧ (s.step a).isSome := by
    rintro ⟨v, k, hk, hstep⟩
    refine ⟨.worker v k, ?_, ?_⟩
    · intro w he
      cases he
      exact hk rfl
    · rw [PoolSystem.step, Option.isSome_map]
      exact hstep
  cases hmain : s.main with
  | running =>
      by_cases hall : ∀ c ∈ s.submits, c = .returned true ∨ c = .returned false
      · exact ⟨.shutdown, by simp, by simp [PoolSystem.step, hmain]; exact hall⟩
      · obtain ⟨t, ht | ht⟩ := exists_open_submit hall
        · exact ⟨.submit t, by simp, by simp [PoolSystem.step, ht]⟩
        · obtain ⟨wakes, hw⟩ := h.waits.enqueue_enabled (s.pool.workers.length + 1 + t) (some t)
          exact ⟨.enqueue t wakes, by simp, by simpa [PoolSystem.step, ht] using hw⟩
  | sending i =>
      obtain ⟨wakes, hw⟩ := h.waits.enqueue_enabled s.pool.workers.length none
      exact ⟨.sentinel wakes, by simp, by simpa [PoolSystem.step, hmain] using hw⟩
  | joining i =>
      obtain ⟨hle, _⟩ := h.joined i hmain
      rcases Nat.lt_or_eq_of_le hle with hlt | rfl
      · have hpc := List.getElem?_eq_getElem (h.workers_length.symm ▸ hlt)
        by_cases hexit : s.pool.workers[i]? = some .exited
        · exact ⟨.join, by simp, by simp [PoolSystem.step, hmain, hexit]⟩
        · -- worker `i` has a sentinel to take, so the queue is not empty
          refine hworker (h.worker_progress hN fun hnil => hexit ?_)
          have hcount := h.count_removed_none
          rw [hnil, hmain, List.count_nil, ← h.accounts.exits] at hcount
          have hall := List.count_eq_length.mp (hcount.trans h.workers_length.symm)
          rw [hpc, Option.some.injEq]
          exact (hall _ (List.getElem_mem _)).symm
      · exact ⟨.destroy, by simp, by simp [PoolSystem.step, hmain, h.workers_length]⟩
  | returned => exact absurd hmain hm

end Steps

/-- For every number of workers and tasks and every interleaving: no task is run twice.
Until `tp_shutdown` has returned some step other than a spurious wake-up is enabled, and
while an item is queued it is a worker's.  When the last join completes every task has
been run once, every worker has taken one sentinel, and the queue is empty. -/
theorem tp_shutdown_drains {threadCount taskCount : Nat} {s : PoolSystem} (hN : 1 ≤ threadCount)
    (h : Machine.Reachable PoolSystem.step (.init threadCount taskCount) s) :
    (∀ t, s.pool.started.count t ≤ 1) ∧
    (s.main ≠ .returned → ∃ a, (∀ w, a ≠ .worker w .spurious) ∧ (s.step a).isSome) ∧
    (s.pool.queue.inner ≠ [] → ∃ v k, k ≠ .spurious ∧ (s.pool.worker v k).isSome) ∧
    (s.main = .joining threadCount →
      (∀ t, t < taskCount → s.pool.started.count t = 1 ∧ s.pool.finished.count t = 1) ∧
      (∀ w, w < threadCount → s.pool.removed.count (w, none) = 1) ∧
      s.pool.queue.inner = []) := by
  have hinv := PoolSystem.inv_of_reachable h
  refine ⟨?_, hinv.progress hN, hinv.worker_progress hN, ?_⟩
  · intro t
    have hle := hinv.accounts.started_le t
    have hsub := hinv.submitted t
    split at hsub <;> omega
  · intro hm
    have hexited := (hinv.joined threadCount hm).2
    have hall : ∀ pc ∈ s.pool.workers, pc = .exited :=
      Pool.all_exited_iff.mpr fun w hw => hexited w (hinv.workers_length ▸ hw)
    have hnil := hinv.inner_eq_nil hN hall
    refine ⟨fun t ht => ?_, fun w hw => ?_, hnil⟩
    · have hclosed := hinv.closed (by rw [hm]; simp)
      have hsub : s.submits[t]? = some (.returned true) := by
        have hlt : t < s.submits.length := hinv.submits_length.symm ▸ ht
        rw [List.getElem?_eq_getElem hlt, hclosed _ (List.getElem_mem hlt)]
      have hcount := hinv.submitted t
      rw [if_pos hsub, hinv.accounts.fifo, hnil, List.append_nil] at hcount
      rw [← hcount]
      exact hinv.accounts.of_exited hall t
    · rw [hinv.accounts.sentinel w, if_pos (hexited w hw)]

/-- A run with one worker and one task.  The worker sleeps before the task is there and
wakes spuriously once. -/
def oneTaskRun : List PoolAction :=
  [.worker 0 .dequeue, .worker 0 .spurious, .worker 0 .resume, .submit 0, .enqueue 0 (some 0),
    .worker 0 .resume, .worker 0 .start, .worker 0 .finish, .shutdown, .worker 0 .dequeue,
    .sentinel (some 0), .worker 0 .resume, .join]

/-- The state that run leads to. -/
def oneTaskEnd : PoolSystem where
  pool :=
    { queue := tsqueueCreate 0
      shuttingDown := true
      workers := [.exited]
      enqueued := [some 0, none]
      removed := [(0, some 0), (0, none)]
      started := [0]
      finished := [0] }
  submits := [.returned true]
  main := .joining 1

theorem tp_shutdown_drains_oneTask :
    oneTaskEnd.pool.started.count 0 = 1 ∧ oneTaskEnd.pool.queue.inner = [] := by
  have hrun : Machine.exec PoolSystem.step (.init 1 1) oneTaskRun = some oneTaskEnd := by
    decide +kernel
  have h := (tp_shutdown_drains (Nat.le_refl 1) (Machine.exec_reachable hrun)).2.2.2 rfl
  exact ⟨(h.1 0 (by decide)).1, h.2.2⟩

end DataPropagator
