import DataPropagator.Common.TSQueue
import DataPropagator.Lib.Machine

/-!
# The thread pool

`thread_pool.c`: workers take tasks from one queue until they take NULL.  The pool here
is what the workers share, with the program counter of each of them, and the steps that
change it: a worker's stay in `tsqueue_dequeue`, the call of a task's function and its
return, and the enqueuing of a task or a sentinel by some other thread.  Who enqueues,
and when, is left to the systems built on the pool.

Four histories are kept beside it.  `enqueued` and `removed` say what went through the
queue, `started` and `finished` which tasks were run.  `Accounts` ties them to the
queue and to the workers, and `Waits` ties the condition variable to the workers.
-/

namespace DataPropagator

variable {α : Type} [DecidableEq α]

/-! ## The pool -/

/-- Where a worker is in `worker_thread`. -/
inductive WorkerPc (α : Type) where
  /-- About to enter `tsqueue_dequeue`. -/
  | dequeuing
  /-- Asleep on `cvNotEmpty`, or woken and not yet back in the critical section. -/
  | waiting
  /-- About to call the function of a task. -/
  | holding (t : α)
  /-- In the function of a task. -/
  | running (t : α)
  /-- It took NULL and returned. -/
  | exited
deriving DecidableEq, Repr

/-- `ThreadPool`, its workers and the histories.  A worker is its index. -/
structure Pool (α : Type) where
  queue : TSQueue Nat α
  shuttingDown : Bool
  workers : List (WorkerPc α)
  enqueued : List (Option α)
  removed : List (Nat × Option α)
  started : List α
  finished : List α
deriving DecidableEq, Repr

/-- `tp_create`, its allocations succeeding and all threads created. -/
def tpCreate (threadCount : Nat) : Pool α where
  queue := tsqueueCreate 0
  shuttingDown := false
  workers := List.replicate threadCount .dequeuing
  enqueued := []
  removed := []
  started := []
  finished := []

/-- A step of a worker. -/
inductive WorkerStep where
  /-- It enters `tsqueue_dequeue`. -/
  | dequeue
  /-- Woken, it takes the critical section again. -/
  | resume
  /-- It wakes without a signal. -/
  | spurious
  /-- It calls the function of its task. -/
  | start
  /-- The function returns and the task is freed. -/
  | finish
deriving DecidableEq, Repr

/-- A stay of worker `w` in `tsqueue_dequeue`, and the test of what it returns.  Nobody
waits for room, so the signal on `cvNotFull` wakes nobody. -/
def Pool.take (p : Pool α) (w : Nat) : Option (Pool α) :=
  (tsqueueDequeue p.queue w none).map fun
    | .sleeps q => { p with queue := q, workers := p.workers.set w .waiting }
    | .returns none q =>
        { p with
          queue := q
          workers := p.workers.set w .exited
          removed := p.removed ++ [(w, none)] }
    | .returns (some t) q =>
        { p with
          queue := q
          workers := p.workers.set w (.holding t)
          removed := p.removed ++ [(w, some t)] }

/-- A step of worker `w`. -/
def Pool.worker (p : Pool α) (w : Nat) : WorkerStep → Option (Pool α)
  | .dequeue => if p.workers[w]? = some .dequeuing then p.take w else none
  | .resume => (p.queue.resume w).bind fun q => { p with queue := q }.take w
  | .spurious => (p.queue.spurious w).map fun q => { p with queue := q }
  | .start =>
      match p.workers[w]? with
      | some (.holding t) =>
          some { p with workers := p.workers.set w (.running t), started := p.started ++ [t] }
      | _ => none
  | .finish =>
      match p.workers[w]? with
      | some (.running t) =>
          some { p with workers := p.workers.set w .dequeuing, finished := p.finished ++ [t] }
      | _ => none

/-- Thread `who` calls `tsqueue_enqueue` on the queue of the pool.  The queue has no
bound, so the call is one stay. -/
def Pool.enqueue (p : Pool α) (who : Nat) (item : Option α) (alloc : Bool) (wakes : Option Nat) :
    Option (Pool α) :=
  (tsqueueEnqueue p.queue who item alloc wakes).bind fun
    | .sleeps _ => none
    | .returns r q =>
        some { p with
          queue := q
          enqueued := if r = 0 then p.enqueued ++ [item] else p.enqueued }

/-! ## What the histories say -/

/-- The histories agree with the queue and with the workers. -/
structure Pool.Accounts (p : Pool α) : Prop where
  /-- What was removed and what is queued is what was enqueued, in order. -/
  fifo : p.enqueued = p.removed.map Prod.snd ++ p.queue.inner
  /-- Every task removed has been started or is held. -/
  tasks : ∀ t, p.started.count t + p.workers.count (.holding t) =
    (p.removed.map Prod.snd).count (some t)
  /-- Every task started has returned or is running. -/
  runs : ∀ t, p.finished.count t + p.workers.count (.running t) = p.started.count t
  /-- As many workers have exited as sentinels were removed. -/
  exits : p.workers.count .exited = (p.removed.map Prod.snd).count none
  /-- A worker has removed a sentinel, and only one, if it has exited. -/
  sentinel : ∀ w, p.removed.count (w, none) = if p.workers[w]? = some .exited then 1 else 0

/-- The condition variables agree with the workers. -/
structure Pool.Waits (p : Pool α) : Prop where
  unbounded : p.queue.capacity = 0
  notFull : p.queue.cvNotFull.sleeping = []
  waiting : ∀ w, w ∈ p.queue.cvNotEmpty.waiting ↔ p.workers[w]? = some .waiting
  nodup : p.queue.cvNotEmpty.waiting.Nodup
  /-- No wake-up is lost. -/
  covers : p.queue.cvNotEmpty.Covers p.queue.inner.length

theorem tpCreate_accounts (threadCount : Nat) : (tpCreate threadCount : Pool α).Accounts := by
  refine ⟨rfl, ?_, ?_, ?_, ?_⟩
  · intro t
    simp [tpCreate, List.count_replicate]
  · intro t
    simp [tpCreate, List.count_replicate]
  · simp [tpCreate, List.count_replicate]
  · intro w
    simp [tpCreate, List.getElem?_replicate]

omit [DecidableEq α] in
theorem tpCreate_waits (threadCount : Nat) : (tpCreate threadCount : Pool α).Waits := by
  refine ⟨rfl, rfl, ?_, List.nodup_nil, Monitor.CondVar.covers_zero _⟩
  intro w
  simp [tpCreate, tsqueueCreate, Monitor.CondVar.waiting, List.getElem?_replicate]

/-! ## Moving one worker -/

section Move

variable {β : Type} {l : List β} {w : Nat} {a b : β}

theorem getElem?_move (h : l[w]? = some a) (v : Nat) :
    (l.set w b)[v]? = if w = v then some b else l[v]? := by
  rw [List.getElem?_set, if_pos (List.getElem?_eq_some_iff.mp h).1]

/-- Whoever is at `c` stays there when a worker from another place moves. -/
theorem getElem?_move_of_ne (h : l[w]? = some a) {c : β} (ha : a ≠ c) {v : Nat}
    (hv : l[v]? = some c) : (l.set w b)[v]? = some c := by
  have hne : w ≠ v := by
    rintro rfl
    rw [h, Option.some.injEq] at hv
    exact ha hv
  rw [List.getElem?_set_ne hne]
  exact hv

/-- Moving one worker between places other than `c` leaves who is at `c`. -/
theorem getElem?_move_ne (h : l[w]? = some a) {c : β} (ha : a ≠ c) (hb : b ≠ c) (v : Nat) :
    (l.set w b)[v]? = some c ↔ l[v]? = some c := by
  rw [getElem?_move h]
  by_cases hv : w = v
  · subst hv
    simp [h, ha, hb]
  · rw [if_neg hv]

/-- Moving one worker changes the counts of the two places. -/
theorem count_move [DecidableEq β] (h : l[w]? = some a) (c : β) :
    (l.set w b).count c + (if a = c then 1 else 0) = l.count c + if b = c then 1 else 0 := by
  induction l generalizing w with
  | nil => cases h
  | cons x l ih =>
      cases w with
      | zero =>
          rw [List.getElem?_cons_zero, Option.some.injEq] at h
          subst h
          simp only [List.set_cons_zero, List.count_cons, beq_iff_eq]
          omega
      | succ w =>
          rw [List.getElem?_cons_succ] at h
          have := ih h
          simp only [List.set_cons_succ, List.count_cons]
          omega

/-- Moving one worker between places other than `c` leaves the count at `c`. -/
theorem count_move_of_ne [DecidableEq β] (h : l[w]? = some a) {c : β} (ha : a ≠ c) (hb : b ≠ c) :
    (l.set w b).count c = l.count c := by
  have := count_move (b := b) h c
  rwa [if_neg ha, if_neg hb] at this

end Move

/-! ## What one step keeps -/

/-- A worker in the critical section of `tsqueue_dequeue`: it is nowhere else, and one
item less needs to be covered. -/
structure Pool.Taking (p : Pool α) (w : Nat) : Prop where
  pc : p.workers[w]? = some .dequeuing ∨ p.workers[w]? = some .waiting
  unbounded : p.queue.capacity = 0
  notFull : p.queue.cvNotFull.sleeping = []
  not_waiting : w ∉ p.queue.cvNotEmpty.waiting
  waiting : ∀ v, v ≠ w → (v ∈ p.queue.cvNotEmpty.waiting ↔ p.workers[v]? = some .waiting)
  nodup : p.queue.cvNotEmpty.waiting.Nodup
  covers : p.queue.cvNotEmpty.Covers (p.queue.inner.length - 1)

variable {p p' : Pool α} {w : Nat}

omit [DecidableEq α] in
theorem Pool.Waits.taking (h : p.Waits) (hw : p.workers[w]? = some .dequeuing) : p.Taking w where
  pc := Or.inl hw
  unbounded := h.unbounded
  notFull := h.notFull
  not_waiting := by
    rw [h.waiting, hw]
    intro hc
    cases hc
  waiting v _ := h.waiting v
  nodup := h.nodup
  covers := h.covers.mono (Nat.sub_le _ _)

omit [DecidableEq α] in
theorem Pool.Waits.taking_of_resume (h : p.Waits) {q : TSQueue Nat α}
    (hq : p.queue.resume w = some q) : { p with queue := q }.Taking w := by
  obtain ⟨cv, hcv, rfl⟩ := Option.map_eq_some_iff.mp hq
  have hperm := Monitor.CondVar.waiting_resume hcv
  have hnodup := hperm.nodup_iff.mp h.nodup
  have hmem : w ∈ p.queue.cvNotEmpty.waiting := hperm.mem_iff.mpr (List.mem_cons_self ..)
  refine
    { pc := Or.inr ((h.waiting w).mp hmem)
      unbounded := h.unbounded
      notFull := h.notFull
      not_waiting := (List.nodup_cons.mp hnodup).1
      waiting := fun v hv => ?_
      nodup := (List.nodup_cons.mp hnodup).2
      covers := h.covers.resume hcv }
  rw [← h.waiting v, hperm.mem_iff, List.mem_cons, or_iff_right hv]

omit [DecidableEq α] in
/-- A stay in `tsqueue_dequeue` ends with the worker asleep or with an item. -/
theorem Pool.take_cases (h : p.take w = some p') :
    (p.queue.inner = [] ∧
      p' = { p with
        queue := { p.queue with cvNotEmpty := p.queue.cvNotEmpty.sleep w }
        workers := p.workers.set w .waiting }) ∨
    ∃ item inner cv, p.queue.inner = item :: inner ∧ p.queue.cvNotFull.wake none = some cv ∧
      p' = { p with
        queue := { p.queue with inner := inner, cvNotFull := cv }
        workers := p.workers.set w (match item with
          | none => .exited
          | some t => .holding t)
        removed := p.removed ++ [(w, item)] } := by
  obtain ⟨stay, hstay, rfl⟩ := Option.map_eq_some_iff.mp h
  rcases tsqueueDequeue_cases hstay with ⟨hnil, rfl⟩ | ⟨item, inner, cv, hcons, hcv, rfl⟩
  · exact Or.inl ⟨hnil, rfl⟩
  · refine Or.inr ⟨item, inner, cv, hcons, hcv, ?_⟩
    cases item <;> rfl

omit [DecidableEq α] in
theorem Pool.Taking.waits (h : p.Taking w) (ht : p.take w = some p') : p'.Waits := by
  obtain ⟨a, hpc⟩ : ∃ a, p.workers[w]? = some a := h.pc.elim (fun h => ⟨_, h⟩) fun h => ⟨_, h⟩
  rcases Pool.take_cases ht with ⟨hnil, rfl⟩ | ⟨item, inner, cv, hcons, hcv, rfl⟩
  · have hperm := p.queue.cvNotEmpty.waiting_sleep w
    refine ⟨h.unbounded, h.notFull, ?_, ?_, ?_⟩
    · intro v
      rw [hperm.mem_iff, getElem?_move hpc, List.mem_cons]
      by_cases hv : v = w
      · simp [hv]
      · rw [if_neg (Ne.symm hv), or_iff_right hv, h.waiting v hv]
    · exact hperm.nodup_iff.mpr (List.nodup_cons.mpr ⟨h.not_waiting, h.nodup⟩)
    · simp only [hnil, List.length_nil]
      exact Monitor.CondVar.covers_zero _
  · refine ⟨h.unbounded, ?_, ?_, h.nodup, ?_⟩
    · rcases Monitor.CondVar.wake_cases hcv with ⟨_, rfl⟩ | ⟨t, ht, _⟩
      · exact h.notFull
      · rw [h.notFull] at ht
        cases ht
    · intro v
      rw [getElem?_move hpc]
      by_cases hv : v = w
      · subst hv
        cases item <;> simp [h.not_waiting]
      · rw [if_neg (Ne.symm hv), h.waiting v hv]
    · have := h.covers
      rwa [hcons, List.length_cons, Nat.add_sub_cancel] at this

theorem Pool.Taking.accounts (h : p.Taking w) (ha : p.Accounts) (ht : p.take w = some p') :
    p'.Accounts := by
  obtain ⟨a, hpc, hplace⟩ : ∃ a, p.workers[w]? = some a ∧
      (a = .dequeuing ∨ a = .waiting) := by
    cases h.pc with
    | inl hd => exact ⟨_, hd, Or.inl rfl⟩
    | inr hw => exact ⟨_, hw, Or.inr rfl⟩
  have hhold : ∀ t, a ≠ .holding t := by rintro t rfl; simp at hplace
  have hrun : ∀ t, a ≠ .running t := by rintro t rfl; simp at hplace
  have hexit : a ≠ .exited := by rintro rfl; simp at hplace
  have hnotexit : ¬ p.workers[w]? = some .exited := by
    rw [hpc, Option.some.injEq]
    exact hexit
  have hstay : ∀ b, b ≠ WorkerPc.exited → ∀ v,
      (p.workers.set w b)[v]? = some WorkerPc.exited ↔ p.workers[v]? = some WorkerPc.exited :=
    fun b hb => getElem?_move_ne hpc hexit hb
  rcases Pool.take_cases ht with ⟨_, rfl⟩ | ⟨item, inner, cv, hcons, _, rfl⟩
  · refine ⟨ha.fifo, ?_, ?_, ?_, ?_⟩
    · intro t
      rw [← ha.tasks t, count_move_of_ne hpc (hhold t) (by simp)]
    · intro t
      rw [← ha.runs t, count_move_of_ne hpc (hrun t) (by simp)]
    · rw [← ha.exits, count_move_of_ne hpc hexit (by simp)]
    · intro v
      simp only [ha.sentinel v, hstay .waiting (by simp)]
  · cases item with
    | none =>
        refine ⟨?_, ?_, ?_, ?_, ?_⟩
        · rw [ha.fifo, hcons, List.map_append, List.append_assoc]
          rfl
        · intro t
          rw [List.map_append, List.count_append, ← ha.tasks t,
            count_move_of_ne hpc (hhold t) (by simp)]
          simp
        · intro t
          rw [← ha.runs t, count_move_of_ne hpc (hrun t) (by simp)]
        · have := count_move (b := WorkerPc.exited) hpc .exited
          rw [if_neg hexit, if_pos rfl] at this
          rw [List.map_append, List.count_append, ← ha.exits]
          simpa using this
        · intro v
          rw [List.count_append, ha.sentinel v, getElem?_move hpc]
          by_cases hv : w = v
          · subst hv
            simp [hnotexit]
          · rw [if_neg hv]
            simp [hv]
    | some t' =>
        refine ⟨?_, ?_, ?_, ?_, ?_⟩
        · rw [ha.fifo, hcons, List.map_append, List.append_assoc]
          rfl
        · intro t
          have := count_move (b := WorkerPc.holding t') hpc (.holding t)
          rw [if_neg (hhold t)] at this
          rw [List.map_append, List.count_append, ← ha.tasks t]
          simp only [WorkerPc.holding.injEq] at this
          simp only [List.map_cons, List.map_nil, List.count_singleton, beq_iff_eq,
            Option.some.injEq]
          omega
        · intro t
          rw [← ha.runs t, count_move_of_ne hpc (hrun t) (by simp)]
        · rw [List.map_append, List.count_append, ← ha.exits, count_move_of_ne hpc hexit (by simp)]
          simp
        · intro v
          simp only [List.count_append, ha.sentinel v, hstay (.holding t') (by simp)]
          simp

/-- A step of a worker keeps the condition variables in agreement. -/
theorem Pool.Waits.worker (h : p.Waits) {k : WorkerStep} (hs : p.worker w k = some p') :
    p'.Waits := by
  cases k with
  | dequeue =>
      rw [Pool.worker] at hs
      split at hs
      next hpc => exact (h.taking hpc).waits hs
      next => cases hs
  | resume =>
      obtain ⟨q, hq, ht⟩ := Option.bind_eq_some_iff.mp hs
      exact (h.taking_of_resume hq).waits ht
  | spurious =>
      obtain ⟨q, hq, rfl⟩ := Option.map_eq_some_iff.mp hs
      obtain ⟨cv, hcv, rfl⟩ := Option.map_eq_some_iff.mp hq
      have hperm : cv.waiting.Perm p.queue.cvNotEmpty.waiting := by
        obtain ⟨hmem, rfl⟩ := Monitor.CondVar.spurious_some hcv
        exact Monitor.CondVar.waiting_rouse hmem
      exact
        { unbounded := h.unbounded
          notFull := h.notFull
          waiting := fun v => hperm.mem_iff.trans (h.waiting v)
          nodup := hperm.nodup_iff.mpr h.nodup
          covers := h.covers.spurious hcv }
  | start =>
      rw [Pool.worker] at hs
      split at hs
      next t hpc =>
          rw [Option.some.injEq] at hs
          subst hs
          refine ⟨h.unbounded, h.notFull, ?_, h.nodup, h.covers⟩
          intro v
          rw [h.waiting, getElem?_move_ne hpc (by simp) (by simp)]
      next => cases hs
  | finish =>
      rw [Pool.worker] at hs
      split at hs
      next t hpc =>
          rw [Option.some.injEq] at hs
          subst hs
          refine ⟨h.unbounded, h.notFull, ?_, h.nodup, h.covers⟩
          intro v
          rw [h.waiting, getElem?_move_ne hpc (by simp) (by simp)]
      next => cases hs

/-- A step of a worker keeps the histories in agreement. -/
theorem Pool.Accounts.worker (h : p.Accounts) (hw : p.Waits) {k : WorkerStep}
    (hs : p.worker w k = some p') : p'.Accounts := by
  cases k with
  | dequeue =>
      rw [Pool.worker] at hs
      split at hs
      next hpc => exact (hw.taking hpc).accounts h hs
      next => cases hs
  | resume =>
      obtain ⟨q, hq, ht⟩ := Option.bind_eq_some_iff.mp hs
      have hsame : q.inner = p.queue.inner := by
        obtain ⟨cv, _, rfl⟩ := Option.map_eq_some_iff.mp hq
        rfl
      refine (hw.taking_of_resume hq).accounts ⟨?_, h.tasks, h.runs, h.exits, h.sentinel⟩ ht
      rw [h.fifo, hsame]
  | spurious =>
      obtain ⟨q, hq, rfl⟩ := Option.map_eq_some_iff.mp hs
      obtain ⟨cv, _, rfl⟩ := Option.map_eq_some_iff.mp hq
      exact ⟨h.fifo, h.tasks, h.runs, h.exits, h.sentinel⟩
  | start =>
      rw [Pool.worker] at hs
      split at hs
      next t' hpc =>
          rw [Option.some.injEq] at hs
          subst hs
          refine ⟨h.fifo, ?_, ?_, ?_, ?_⟩
          · intro t
            have hmove := count_move (b := WorkerPc.running t') hpc (.holding t)
            rw [← h.tasks t, List.count_append, List.count_singleton]
            simp only [WorkerPc.holding.injEq, reduceCtorEq, if_false, beq_iff_eq] at hmove ⊢
            omega
          · intro t
            have hmove := count_move (b := WorkerPc.running t') hpc (.running t)
            have hruns := h.runs t
            rw [List.count_append, List.count_singleton]
            simp only [WorkerPc.running.injEq, reduceCtorEq, if_false, beq_iff_eq] at hmove ⊢
            omega
          · rw [← h.exits, count_move_of_ne hpc (by simp) (by simp)]
          · intro v
            simp only [h.sentinel v,
              getElem?_move_ne (b := WorkerPc.running t') (c := .exited) hpc (by simp) (by simp)]
      next => cases hs
  | finish =>
      rw [Pool.worker] at hs
      split at hs
      next t' hpc =>
          rw [Option.some.injEq] at hs
          subst hs
          refine ⟨h.fifo, ?_, ?_, ?_, ?_⟩
          · intro t
            rw [← h.tasks t, count_move_of_ne hpc (by simp) (by simp)]
          · intro t
            have hmove := count_move (b := WorkerPc.dequeuing) hpc (.running t)
            have hruns := h.runs t
            rw [List.count_append, List.count_singleton]
            simp only [WorkerPc.running.injEq, reduceCtorEq, if_false, beq_iff_eq] at hmove ⊢
            omega
          · rw [← h.exits, count_move_of_ne hpc (by simp) (by simp)]
          · intro v
            simp only [h.sentinel v,
              getElem?_move_ne (b := WorkerPc.dequeuing) (c := .exited) hpc (by simp) (by simp)]
      next => cases hs

/-- What a step of a worker leaves alone. -/
structure Pool.WorkerFrame {α : Type} (p p' : Pool α) : Prop where
  enqueued : p'.enqueued = p.enqueued
  shuttingDown : p'.shuttingDown = p.shuttingDown
  workers_length : p'.workers.length = p.workers.length
  exited : ∀ v : Nat, p.workers[v]? = some WorkerPc.exited → p'.workers[v]? = some WorkerPc.exited

omit [DecidableEq α] in
theorem Pool.take_frame {a : WorkerPc α} (hpc : p.workers[w]? = some a) (ha : a ≠ .exited)
    (h : p.take w = some p') : p.WorkerFrame p' := by
  rcases Pool.take_cases h with ⟨_, rfl⟩ | ⟨item, inner, cv, _, _, rfl⟩
  · exact ⟨rfl, rfl, List.length_set, fun v hv => getElem?_move_of_ne hpc ha hv⟩
  · exact ⟨rfl, rfl, List.length_set, fun v hv => getElem?_move_of_ne hpc ha hv⟩

theorem Pool.worker_frame (hw : p.Waits) {k : WorkerStep} (h : p.worker w k = some p') :
    p.WorkerFrame p' := by
  cases k with
  | dequeue =>
      rw [Pool.worker] at h
      split at h
      next hpc => exact Pool.take_frame hpc (by simp) h
      next => cases h
  | resume =>
      obtain ⟨q, hq, ht⟩ := Option.bind_eq_some_iff.mp h
      have hpc : p.workers[w]? = some .waiting := by
        obtain ⟨cv, hcv, _⟩ := Option.map_eq_some_iff.mp hq
        rw [← hw.waiting, (Monitor.CondVar.waiting_resume hcv).mem_iff]
        exact List.mem_cons_self ..
      have hf := Pool.take_frame (p := { p with queue := q }) hpc (by simp) ht
      exact ⟨hf.enqueued, hf.shuttingDown, hf.workers_length, hf.exited⟩
  | spurious =>
      obtain ⟨q, _, rfl⟩ := Option.map_eq_some_iff.mp h
      exact ⟨rfl, rfl, rfl, fun _ hv => hv⟩
  | start =>
      rw [Pool.worker] at h
      split at h
      next t hpc =>
          rw [Option.some.injEq] at h
          subst h
          exact ⟨rfl, rfl, List.length_set, fun v hv =>
            getElem?_move_of_ne hpc (by simp) hv⟩
      next => cases h
  | finish =>
      rw [Pool.worker] at h
      split at h
      next t hpc =>
          rw [Option.some.injEq] at h
          subst h
          exact ⟨rfl, rfl, List.length_set, fun v hv =>
            getElem?_move_of_ne hpc (by simp) hv⟩
      next => cases h

omit [DecidableEq α] in
/-- What an enqueuing changes. -/
theorem Pool.enqueue_cases {who : Nat} {item : Option α} {alloc : Bool} {wakes : Option Nat}
    (hcap : p.queue.capacity = 0) (h : p.enqueue who item alloc wakes = some p') :
    ∃ cv, p.queue.cvNotEmpty.wake wakes = some cv ∧
      p' = { p with
        queue := { p.queue with
          inner := if alloc then p.queue.inner ++ [item] else p.queue.inner
          cvNotEmpty := cv }
        enqueued := if alloc then p.enqueued ++ [item] else p.enqueued } := by
  obtain ⟨stay, hstay, hp⟩ := Option.bind_eq_some_iff.mp h
  obtain ⟨cv, hcv, rfl⟩ := tsqueueEnqueue_cases hcap hstay
  rw [Option.some.injEq] at hp
  refine ⟨cv, hcv, ?_⟩
  cases alloc <;> exact hp.symm

omit [DecidableEq α] in
theorem Pool.Waits.enqueue (h : p.Waits) {who : Nat} {item : Option α} {alloc : Bool}
    {wakes : Option Nat} (hs : p.enqueue who item alloc wakes = some p') : p'.Waits := by
  obtain ⟨cv, hcv, rfl⟩ := Pool.enqueue_cases h.unbounded hs
  have hperm := Monitor.CondVar.waiting_wake hcv
  refine
    { unbounded := h.unbounded
      notFull := h.notFull
      waiting := fun v => hperm.mem_iff.trans (h.waiting v)
      nodup := hperm.nodup_iff.mpr h.nodup
      covers := ?_ }
  have hcovers := h.covers.wake hcv
  cases alloc with
  | true =>
      rw [if_pos rfl, List.length_append]
      exact hcovers
  | false => exact hcovers.mono (Nat.le_succ _)

theorem Pool.Accounts.enqueue (h : p.Accounts) (hw : p.Waits) {who : Nat} {item : Option α}
    {alloc : Bool} {wakes : Option Nat} (hs : p.enqueue who item alloc wakes = some p') :
    p'.Accounts := by
  obtain ⟨cv, _, rfl⟩ := Pool.enqueue_cases hw.unbounded hs
  refine ⟨?_, h.tasks, h.runs, h.exits, h.sentinel⟩
  cases alloc with
  | true => simp only [if_true, h.fifo, List.append_assoc]
  | false => exact h.fifo

/-! ## Shutting down -/

/-- What a step of the thread that shuts the pool down changes: it sets the flag, or it
enqueues `n` sentinels. -/
structure Pool.Closing (p : Pool α) (n : Nat) (p' : Pool α) : Prop where
  accounts : p'.Accounts
  waits : p'.Waits
  workers : p'.workers = p.workers
  enqueued : p'.enqueued = p.enqueued ++ List.replicate n none

/-- The flag is read by `tp_submit` only. -/
theorem Pool.Accounts.closing_flag (h : p.Accounts) (hw : p.Waits) :
    p.Closing 0 { p with shuttingDown := true } where
  accounts := ⟨h.fifo, h.tasks, h.runs, h.exits, h.sentinel⟩
  waits := ⟨hw.unbounded, hw.notFull, hw.waiting, hw.nodup, hw.covers⟩
  workers := rfl
  enqueued := (List.append_nil _).symm

theorem Pool.Accounts.closing_sentinel (h : p.Accounts) (hw : p.Waits) {who : Nat} {alloc : Bool}
    {wakes : Option Nat} (hs : p.enqueue who none alloc wakes = some p') :
    p.Closing alloc.toNat p' ∧ p'.shuttingDown = p.shuttingDown := by
  have haccounts := h.enqueue hw hs
  have hwaits := hw.enqueue hs
  obtain ⟨cv, _, rfl⟩ := Pool.enqueue_cases hw.unbounded hs
  refine ⟨⟨haccounts, hwaits, rfl, ?_⟩, rfl⟩
  cases alloc with
  | true => rfl
  | false => exact (List.append_nil _).symm

/-- No task comes or goes. -/
theorem Pool.Closing.count_task {n : Nat} (h : p.Closing n p') (t : α) :
    p'.enqueued.count (some t) = p.enqueued.count (some t) := by
  rw [h.enqueued, List.count_append, List.count_replicate, if_neg (by simp), Nat.add_zero]

theorem Pool.Closing.count_sentinel {n : Nat} (h : p.Closing n p') :
    p'.enqueued.count none = p.enqueued.count none + n := by
  rw [h.enqueued, List.count_append, List.count_replicate_self]

omit [DecidableEq α] in
/-- Every worker has exited once each of them was joined. -/
theorem Pool.all_exited_iff : (∀ pc ∈ p.workers, pc = .exited) ↔
    ∀ w : Nat, w < p.workers.length → p.workers[w]? = some .exited := by
  constructor
  · intro h w hw
    rw [List.getElem?_eq_getElem hw, h _ (List.getElem_mem hw)]
  · intro h pc hpc
    obtain ⟨w, hw⟩ := List.mem_iff_getElem?.mp hpc
    rw [h w (List.getElem?_eq_some_iff.mp hw).1, Option.some.injEq] at hw
    exact hw.symm

omit [DecidableEq α] in
/-- A worker that has exited takes no step. -/
theorem Pool.WorkerFrame.all_exited (h : p.WorkerFrame p') (hall : ∀ pc ∈ p.workers, pc = .exited) :
    ∀ pc ∈ p'.workers, pc = .exited := by
  refine Pool.all_exited_iff.mpr fun w hw => h.exited w ?_
  exact Pool.all_exited_iff.mp hall w (h.workers_length ▸ hw)

/-- Once every worker has exited, each of them has removed a sentinel. -/
theorem Pool.Accounts.count_removed_none (h : p.Accounts) (hall : ∀ pc ∈ p.workers, pc = .exited) :
    (p.removed.map Prod.snd).count none = p.workers.length := by
  rw [← h.exits]
  exact List.count_eq_length.mpr fun pc hpc => (hall pc hpc).symm

/-! ## Consequences -/

/-- No more tasks are started than were enqueued. -/
theorem Pool.Accounts.started_le (h : p.Accounts) (t : α) :
    p.started.count t ≤ p.enqueued.count (some t) := by
  have htasks := h.tasks t
  rw [h.fifo, List.count_append]
  omega

/-- Once every worker has exited, what was removed has been run to its end. -/
theorem Pool.Accounts.of_exited (h : p.Accounts) (hall : ∀ pc ∈ p.workers, pc = .exited) (t : α) :
    p.started.count t = (p.removed.map Prod.snd).count (some t) ∧
      p.finished.count t = (p.removed.map Prod.snd).count (some t) := by
  have hnone : ∀ pc, pc ≠ .exited → p.workers.count pc = 0 := by
    intro pc hpc
    refine List.count_eq_zero.mpr fun hmem => hpc (hall pc hmem)
  have htasks := h.tasks t
  have hruns := h.runs t
  rw [hnone (.holding t) (by simp)] at htasks
  rw [hnone (.running t) (by simp)] at hruns
  omega

omit [DecidableEq α] in
/-- While an item is queued and a worker waits for one, some worker has been woken. -/
theorem Pool.Waits.exists_woken (h : p.Waits) (hq : p.queue.inner ≠ [])
    (hw : p.workers[w]? = some .waiting) : ∃ v, v ∈ p.queue.cvNotEmpty.woken := by
  have hmem := (h.waiting w).mpr hw
  rw [Monitor.CondVar.waiting, List.mem_append] at hmem
  cases hmem with
  | inr hwoken => exact ⟨w, hwoken⟩
  | inl hsleep =>
      apply List.exists_mem_of_ne_nil _
      exact h.covers.woken_ne_nil (List.ne_nil_of_mem hsleep) (List.length_pos_iff.mpr hq)

/-- While an item is queued, a worker that has not exited is the reason why some worker
can take a step: it does so itself, or it waits and another waiting one was woken.  That
step is no spurious wake-up. -/
theorem Pool.Waits.progress (h : p.Waits) (hq : p.queue.inner ≠ []) {pc : WorkerPc α}
    (hpc : p.workers[w]? = some pc) (hlive : pc ≠ .exited) :
    ∃ v k, (v = w ∨ p.workers[v]? = some .waiting) ∧ k ≠ .spurious ∧ (p.worker v k).isSome := by
  have htake : ∀ (q : TSQueue Nat α) (v : Nat), q.cvNotFull = p.queue.cvNotFull →
      ({ p with queue := q }.take v).isSome := by
    intro q v hcv
    rw [Pool.take, Option.isSome_map]
    exact tsqueueDequeue_enabled q v (hcv ▸ h.notFull)
  cases pc with
  | dequeuing =>
      refine ⟨w, .dequeue, Or.inl rfl, by simp, ?_⟩
      rw [Pool.worker, if_pos hpc]
      exact htake p.queue w rfl
  | waiting =>
      obtain ⟨v, hv⟩ := h.exists_woken hq hpc
      refine ⟨v, .resume, Or.inr ((h.waiting v).mp (List.mem_append_right _ hv)), by simp, ?_⟩
      rw [Pool.worker, TSQueue.resume, Monitor.CondVar.resume, if_pos hv]
      exact htake _ v rfl
  | holding t => exact ⟨w, .start, Or.inl rfl, by simp, by simp [Pool.worker, hpc]⟩
  | running t => exact ⟨w, .finish, Or.inl rfl, by simp, by simp [Pool.worker, hpc]⟩
  | exited => exact absurd rfl hlive

end DataPropagator
