import DataPropagator.CentralPropagator.ThreadPool
import DataPropagator.Common.WireCodec
import DataPropagator.Lib.Ledger

/-!
# Submitting a job

`cp_dispatcher_submit` is given a warning to destroy.  It wraps it in a job, and
`tp_submit` wraps the job in a task and enqueues the task.  Each of the three wrappings
allocates, the queue for its node, and the result `false` of `tp_submit` says that the job
was not taken.  What a submission does to the heap is a ledger of its blocks.

`tp_submit` does not look at the result of `tsqueue_enqueue`.  When the node cannot be
allocated it returns `true` with the task in no queue, and the task, the job and the warning
stay allocated with nobody left to free them.  Every other combination of failures is
handled.
-/

namespace DataPropagator

open Ledger (Event)

/-! ## The submission -/

/-- `DispatchJob`, without its context. -/
structure DispatchJob where
  w : Warning
deriving DecidableEq, Repr

/-- `Task`.  The function is always `dispatch_job_fn`. -/
structure Task where
  arg : DispatchJob
deriving DecidableEq, Repr

/-- The blocks a submission owns.  The node belongs to the queue. -/
inductive SubmitBlock where
  | warning
  | warningCity
  | warningDest
  | job
  | task
deriving DecidableEq, Repr

/-- The outcomes of the allocations in `cp_dispatcher_submit`, `tp_submit` and
`queue_enqueue`. -/
structure SubmitAlloc where
  job : Bool
  task : Bool
  node : Bool
deriving DecidableEq, Repr

/-- The sizes of a `DispatchJob` and of a `Task` in memory: two pointers. -/
def sizeofJob : Nat := 16

/-- What `tp_submit` leaves, returns and allocates. -/
structure TpSubmit where
  pool : Pool Task
  ret : Bool
  heap : List (Event SubmitBlock)
deriving DecidableEq, Repr

/-- `tp_submit` of thread `who`.  `wakes` is the worker that the signal of the queue
wakes. -/
def tpSubmit (pool : Pool Task) (who : Nat) (arg : DispatchJob) (mem : SubmitAlloc)
    (wakes : Option Nat) : Option TpSubmit :=
  if pool.shuttingDown then some { pool, ret := false, heap := [] }
  else if !mem.task then some { pool, ret := false, heap := [] }
  else
    -- the result of `tsqueue_enqueue` is not used
    (pool.enqueue who (some { arg }) mem.node wakes).map fun pool =>
      { pool, ret := true, heap := [.acquire .task sizeofJob] }

/-- `warning_destroy`. -/
def warningDestroyed : List (Event SubmitBlock) :=
  [.release .warningCity, .release .warningDest, .release .warning]

/-- What `cp_dispatcher_submit` leaves and what it does to the heap.  `accepted` is what
`tp_submit` returned, if it was called. -/
structure Submission where
  pool : Pool Task
  accepted : Option Bool
  heap : List (Event SubmitBlock)
deriving DecidableEq, Repr

/-- `cp_dispatcher_submit`. -/
def cpDispatcherSubmit (pool : Pool Task) (who : Nat) (w : Warning) (mem : SubmitAlloc)
    (wakes : Option Nat) : Option Submission :=
  if !mem.job then some { pool, accepted := none, heap := warningDestroyed }
  else
    (tpSubmit pool who { w } mem wakes).map fun r =>
      let heap := [.acquire .job sizeofJob] ++ r.heap
      if !r.ret then
        { pool := r.pool, accepted := some r.ret, heap := heap ++ warningDestroyed ++ [.release .job] }
      else { pool := r.pool, accepted := some r.ret, heap }

/-- The blocks of a warning. -/
def warningBlocks (w : Warning) : List (SubmitBlock × Nat) :=
  [(.warning, sizeofWarning), (.warningCity, strlen w.city + 1),
    (.warningDest, strlen w.destNode + 1)]

/-! ## What is asked of it -/

variable {pool : Pool Task} {who : Nat} {w : Warning} {mem : SubmitAlloc} {wakes : Option Nat}
  {r : Submission}

/-- The task of the warning has been put into the queue. -/
def Submission.Queued (pool : Pool Task) (w : Warning) (r : Submission) : Prop :=
  r.pool.queue.inner = pool.queue.inner ++ [some { arg := { w } }]

/-- The queue is what it was. -/
def Submission.NotQueued (pool : Pool Task) (r : Submission) : Prop :=
  r.pool.queue.inner = pool.queue.inner

/-- Nothing that the task leads to has been freed. -/
def Submission.Intact (r : Submission) : Prop := ∀ b, Ledger.released b r.heap = 0

/-- The warning and everything allocated for it have been freed, nothing of it twice. -/
def Submission.Freed (w : Warning) (r : Submission) : Prop :=
  Machine.exec Ledger.step (warningBlocks w) r.heap = some []

/-- Either the task is in the queue, or all that was allocated is freed, and `tp_submit`
told which. -/
structure Submission.Settled (pool : Pool Task) (w : Warning) (r : Submission) : Prop where
  owned : (r.Queued pool w ∧ r.Intact) ∨ (r.NotQueued pool ∧ r.Freed w)
  accepted : ∀ ret, r.accepted = some ret → (ret = true ↔ r.Queued pool w)

/-! ## The pool in service -/

/-- A step of a pool before it is shut down: of a worker, or of a thread that enqueues a
task. -/
inductive PoolUse where
  | worker (w : Nat) (k : WorkerStep)
  | enqueue (who : Nat) (t : Task) (alloc : Bool) (wakes : Option Nat)

/-- One step. -/
def Pool.use (p : Pool Task) : PoolUse → Option (Pool Task)
  | .worker w k => p.worker w k
  | .enqueue who t alloc wakes => p.enqueue who (some t) alloc wakes

/-- A pool that has been created and not shut down. -/
def Pool.InService (p : Pool Task) : Prop :=
  ∃ threadCount, Machine.Reachable Pool.use (tpCreate threadCount) p

theorem Pool.InService.spec (h : pool.InService) : pool.Waits ∧ pool.shuttingDown = false := by
  obtain ⟨threadCount, hreach⟩ := h
  apply hreach.invariant (P := fun p => p.Waits ∧ p.shuttingDown = false)
  · exact ⟨tpCreate_waits threadCount, rfl⟩
  · rintro p a p' ⟨hwaits, hflag⟩ hs
    cases a with
    | worker w k =>
        have hs' : p.worker w k = some p' := hs
        exact ⟨hwaits.worker hs', (Pool.worker_frame hwaits hs').shuttingDown.trans hflag⟩
    | enqueue who t alloc wakes =>
        have hs' : p.enqueue who (some t) alloc wakes = some p' := hs
        have hwaits' := hwaits.enqueue hs'
        obtain ⟨cv, _, rfl⟩ := Pool.enqueue_cases hwaits.unbounded hs'
        exact ⟨hwaits', hflag⟩

/-! ## Every way a submission can go -/

/-- What a submission to a pool in service does. -/
theorem cpDispatcherSubmit_cases (h : pool.InService)
    (hr : cpDispatcherSubmit pool who w mem wakes = some r) :
    (mem.job = false ∧ r = { pool, accepted := none, heap := warningDestroyed }) ∨
    (mem.job = true ∧ mem.task = false ∧ r =
      { pool, accepted := some false,
        heap := [.acquire .job sizeofJob] ++ warningDestroyed ++ [.release .job] }) ∨
    (mem.job = true ∧ mem.task = true ∧ ∃ pool', pool'.queue.inner =
        (if mem.node then pool.queue.inner ++ [some { arg := { w } }] else pool.queue.inner) ∧
      r = { pool := pool', accepted := some true,
            heap := [.acquire .job sizeofJob, .acquire .task sizeofJob] }) := by
  obtain ⟨hwaits, hflag⟩ := h.spec
  cases hjob : mem.job with
  | false =>
      simp only [cpDispatcherSubmit, hjob, Bool.not_false, if_true, Option.some.injEq] at hr
      exact Or.inl ⟨rfl, hr.symm⟩
  | true =>
      simp only [cpDispatcherSubmit, hjob, Bool.not_true, Bool.false_eq_true, if_false] at hr
      obtain ⟨t, ht, rfl⟩ := Option.map_eq_some_iff.mp hr
      cases htask : mem.task with
      | false =>
          simp only [tpSubmit, hflag, htask, Bool.not_false, Bool.false_eq_true, if_false, if_true,
            Option.some.injEq] at ht
          subst ht
          exact Or.inr (Or.inl ⟨rfl, rfl, rfl⟩)
      | true =>
          simp only [tpSubmit, hflag, htask, Bool.not_true, Bool.false_eq_true, if_false] at ht
          obtain ⟨pool', hp, rfl⟩ := Option.map_eq_some_iff.mp ht
          obtain ⟨cv, _, rfl⟩ := Pool.enqueue_cases hwaits.unbounded hp
          exact Or.inr (Or.inr ⟨rfl, rfl, _, rfl, rfl⟩)

theorem append_one_ne {α : Type} (l : List α) (a : α) : l ≠ l ++ [a] := by
  intro he
  have hlen := congrArg List.length he
  rw [List.length_append, List.length_singleton] at hlen
  omega

/-- In every state of the pool before it is shut down and for every outcome of the
allocations: a submission is settled if and only if it is not the node of the queue alone
that could not be allocated. -/
theorem submission_settled_iff (h : pool.InService)
    (hr : cpDispatcherSubmit pool who w mem wakes = some r) :
    r.Settled pool w ↔ ¬ (mem.job = true ∧ mem.task = true ∧ mem.node = false) := by
  rcases cpDispatcherSubmit_cases h hr with ⟨hjob, rfl⟩ | ⟨hjob, htask, rfl⟩ |
      ⟨hjob, htask, pool', hinner, rfl⟩
  · have hsettled : Submission.Settled pool w
        { pool, accepted := none, heap := warningDestroyed } :=
      { owned := Or.inr ⟨rfl, rfl⟩
        accepted := fun ret hret => nomatch hret }
    refine iff_of_true hsettled ?_
    rintro ⟨hjob', _⟩
    cases hjob.symm.trans hjob'
  · have hsettled : Submission.Settled pool w
        { pool, accepted := some false,
          heap := [.acquire .job sizeofJob] ++ warningDestroyed ++ [.release .job] } :=
      { owned := Or.inr ⟨rfl, rfl⟩
        accepted := fun ret hret => by
          cases hret
          constructor
          · intro hfalse
            cases hfalse
          · exact fun hqueued => absurd hqueued (append_one_ne _ _) }
    refine iff_of_true hsettled ?_
    rintro ⟨_, htask', _⟩
    cases htask.symm.trans htask'
  · cases hnode : mem.node with
    | true =>
        rw [hnode, if_pos rfl] at hinner
        have hsettled : Submission.Settled pool w
            { pool := pool', accepted := some true,
              heap := [.acquire .job sizeofJob, .acquire .task sizeofJob] } :=
          { owned := Or.inl ⟨hinner, fun b => rfl⟩
            accepted := fun ret hret => by
              cases hret
              exact iff_of_true rfl hinner }
        exact iff_of_true hsettled fun hbad => nomatch hbad.2.2
    | false =>
        rw [hnode, if_neg Bool.false_ne_true] at hinner
        have hstranded : ¬ Submission.Settled pool w
            { pool := pool', accepted := some true,
              heap := [.acquire .job sizeofJob, .acquire .task sizeofJob] } := by
          intro hsettled
          have hqueued := (hsettled.accepted true rfl).mp rfl
          exact append_one_ne _ _ (hinner.symm.trans hqueued)
        exact iff_of_false hstranded fun hgood => hgood ⟨hjob, htask, rfl⟩

/-- A submission to a pool with one worker when there is no memory for the task. -/
theorem submission_settled_iff_no_task :
    Submission.Settled (tpCreate 1) sampleWarning
        { pool := tpCreate 1, accepted := some false,
          heap := [.acquire .job sizeofJob] ++ warningDestroyed ++ [.release .job] } ↔
      ¬ (true = true ∧ false = true ∧ true = false) :=
  @submission_settled_iff (tpCreate 1) 1 sampleWarning { job := true, task := false, node := true }
    none _ ⟨1, Machine.Reachable.refl _ _⟩ rfl

/-- The job and the task are allocated and the node is not.  Nothing is freed, and the task
is in no queue. -/
theorem submission_stranded :
    ∃ r, cpDispatcherSubmit (tpCreate 1) 1 sampleWarning { job := true, task := true, node := false }
        none = some r ∧
      r.accepted = some true ∧ r.pool.queue.inner = [] ∧
      Machine.exec Ledger.step (warningBlocks sampleWarning) r.heap =
        some ([(.task, sizeofJob), (.job, sizeofJob)] ++ warningBlocks sampleWarning) ∧
      ¬ r.Settled (tpCreate 1) sampleWarning := by
  refine ⟨_, rfl, rfl, rfl, rfl, ?_⟩
  intro hsettled
  have hqueued := (hsettled.accepted true rfl).mp rfl
  exact append_one_ne [] _ hqueued

end DataPropagator
