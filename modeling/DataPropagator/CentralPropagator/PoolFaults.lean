import DataPropagator.CentralPropagator.PoolShutdown

/-!
# The pool when allocations and `CreateThread` fail

`tp_create` does not look at what `CreateThread` returns, `tp_submit` and `tp_shutdown` do not look
at what `tsqueue_enqueue` returns, and the join of a NULL handle fails at once.  So the pool goes on
with the threads it got: `created` says which.  A thread that was not created stays at its start.

`tp_shutdown` returns if and only if at least as many sentinels got into the queue as there are
threads.  Then every task that got into the queue has been run once, unless there is no thread.
-/

namespace DataPropagator

/-! ## The system -/

/-- The pool, the threads that were created, the submission of every task and the thread that shuts
down. -/
structure PartialPool where
  pool : Pool Nat
  created : List Bool
  submits : List SubmitPc
  main : ShutdownPc
deriving DecidableEq, Repr

/-- After `tp_create`. -/
def PartialPool.init (created : List Bool) (tasks : Nat) : PartialPool where
  pool := tpCreate created.length
  created := created
  submits := List.replicate tasks .idle
  main := .running

/-- A step of the system.  `alloc` says whether its allocation succeeds. -/
inductive PartialAction where
  | worker (w : Nat) (k : WorkerStep)
  | submit (t : Nat) (alloc : Bool)
  | enqueue (t : Nat) (alloc : Bool) (wakes : Option Nat)
  | shutdown
  | sentinel (alloc : Bool) (wakes : Option Nat)
  | join
  | destroy
deriving DecidableEq, Repr

/-- One step.  `tp_shutdown` is called only when every submission has returned. -/
def PartialPool.step (s : PartialPool) : PartialAction → Option PartialPool
  | .worker w k =>
      if s.created[w]? = some true then (s.pool.worker w k).map fun pool => { s with pool } else none
  | .submit t alloc =>
      if s.submits[t]? = some .idle then
        some { s with
          submits := s.submits.set t
            (if s.pool.shuttingDown || !alloc then .returned false else .enqueuing) }
      else none
  | .enqueue t alloc wakes =>
      if s.submits[t]? = some .enqueuing then
        (s.pool.enqueue (s.pool.workers.length + 1 + t) (some t) alloc wakes).map fun pool =>
          { s with pool, submits := s.submits.set t (.returned true) }
      else none
  | .shutdown =>
      if s.main = .running ∧ ∀ c ∈ s.submits, c = .returned true ∨ c = .returned false then
        some { s with
          pool := { s.pool with shuttingDown := true }
          main := sendingAt s.pool.workers.length 0 }
      else none
  | .sentinel alloc wakes =>
      match s.main with
      | .sending i =>
          (s.pool.enqueue s.pool.workers.length none alloc wakes).map fun pool =>
            { s with pool, main := sendingAt s.pool.workers.length (i + 1) }
      | _ => none
  | .join =>
      match s.main with
      | .joining i =>
          -- the wait for a NULL handle fails
          if s.created[i]? = some false ∨ s.pool.workers[i]? = some .exited then
            some { s with main := .joining (i + 1) }
          else none
      | _ => none
  | .destroy =>
      if s.main = .joining s.pool.workers.length then some { s with main := .returned } else none

/-! ## The invariant -/

/-- What holds in every state a pool with these threads and tasks can reach. -/
structure PartialPool.Inv (created : List Bool) (taskCount : Nat) (s : PartialPool) : Prop where
  accounts : s.pool.Accounts
  waits : s.pool.Waits
  created_eq : s.created = created
  workers_length : s.pool.workers.length = created.length
  submits_length : s.submits.length = taskCount
  /-- A thread that was not created takes no step. -/
  absent : ∀ w : Nat, created[w]? = some false → s.pool.workers[w]? = some WorkerPc.dequeuing
  unstarted : true ∉ created → s.pool.started = []
  /-- The tasks were enqueued before the sentinels. -/
  order : ∃ (tasks : List Nat) (sentinels : Nat), sentinels ≤ s.main.sent created.length ∧
    s.pool.enqueued = tasks.map some ++ List.replicate sentinels none
  /-- A task was enqueued at most once, and only if its submission has returned. -/
  submitted : ∀ t, s.pool.enqueued.count (some t) ≤
    if s.submits[t]? = some (.returned true) then 1 else 0
  closed : s.main ≠ .running → ∀ c ∈ s.submits, c = .returned true ∨ c = .returned false
  sending_lt : ∀ i, s.main = .sending i → i < created.length
  joining_le : ∀ i, s.main = .joining i → i ≤ created.length
  joined : ∀ i, s.main = .joining i ∨ (s.main = .returned ∧ i = created.length) →
    ∀ w : Nat, w < i → created[w]? = some true → s.pool.workers[w]? = some WorkerPc.exited

theorem PartialPool.init_inv (created : List Bool) (taskCount : Nat) :
    (PartialPool.init created taskCount).Inv created taskCount where
  accounts := tpCreate_accounts created.length
  waits := tpCreate_waits created.length
  created_eq := rfl
  workers_length := List.length_replicate
  submits_length := List.length_replicate
  absent w hw := by
    have hlt := (List.getElem?_eq_some_iff.mp hw).1
    exact List.getElem?_replicate_of_lt hlt
  unstarted _ := rfl
  order := ⟨[], 0, Nat.zero_le _, rfl⟩
  submitted t := Nat.zero_le _
  closed h := absurd rfl h
  sending_lt _ h := by cases h
  joining_le _ h := by cases h
  joined _ h := by rcases h with h | ⟨h, _⟩ <;> cases h

/-! ## What a step keeps -/

/-- A step of a worker leaves the others where they are. -/
theorem Pool.worker_elsewhere {p p' : Pool Nat} {w : Nat} {k : WorkerStep}
    (h : p.worker w k = some p') {v : Nat} (hv : v ≠ w) : p'.workers[v]? = p.workers[v]? := by
  have htake : ∀ q, { p with queue := q }.take w = some p' →
      p'.workers[v]? = p.workers[v]? := by
    intro q ht
    rcases Pool.take_cases ht with ⟨_, rfl⟩ | ⟨item, inner, cv, _, _, rfl⟩
    · exact List.getElem?_set_ne hv.symm
    · exact List.getElem?_set_ne hv.symm
  cases k with
  | dequeue =>
      rw [Pool.worker] at h
      split at h
      next => exact htake p.queue h
      next => cases h
  | resume =>
      obtain ⟨q, _, ht⟩ := Option.bind_eq_some_iff.mp h
      exact htake q ht
  | spurious =>
      obtain ⟨q, _, rfl⟩ := Option.map_eq_some_iff.mp h
      rfl
  | start =>
      rw [Pool.worker] at h
      split at h
      next =>
          cases h
          exact List.getElem?_set_ne hv.symm
      next => cases h
  | finish =>
      rw [Pool.worker] at h
      split at h
      next =>
          cases h
          exact List.getElem?_set_ne hv.symm
      next => cases h

section Steps

variable {created : List Bool} {taskCount : Nat} {s s' : PartialPool}

theorem PartialPool.Inv.worker (h : s.Inv created taskCount) {w : Nat} {k : WorkerStep}
    (hw : created[w]? = some true) {pool : Pool Nat} (hs : s.pool.worker w k = some pool) :
    { s with pool }.Inv created taskCount := by
  have hf := Pool.worker_frame h.waits hs
  exact
    { h with
      accounts := h.accounts.worker h.waits hs
      waits := h.waits.worker hs
      workers_length := hf.workers_length.trans h.workers_length
      absent := fun v hv => by
        have hne : v ≠ w := by
          rintro rfl
          rw [hw] at hv
          cases hv
        exact (Pool.worker_elsewhere hs hne).trans (h.absent v hv)
      unstarted := fun hnone => absurd (List.mem_of_getElem? hw) hnone
      order := by
        obtain ⟨tasks, sentinels, hle, ht⟩ := h.order
        exact ⟨tasks, sentinels, hle, hf.enqueued.trans ht⟩
      submitted := fun t => by
        show pool.enqueued.count _ ≤ _
        rw [hf.enqueued]
        exact h.submitted t
      joined := fun i hm v hv hcreated => hf.exited v (h.joined i hm v hv hcreated) }

/-- The submissions are open only before `tp_shutdown`. -/
theorem PartialPool.Inv.running_of_open (h : s.Inv created taskCount) {t : Nat} {c : SubmitPc}
    (ht : s.submits[t]? = some c) (hopen : ∀ ok, c ≠ .returned ok) : s.main = .running := by
  by_contra hm
  rcases h.closed hm c (List.mem_of_getElem? ht) with hc | hc
  · exact hopen true hc
  · exact hopen false hc

theorem PartialPool.Inv.submit (h : s.Inv created taskCount) {t : Nat} {c : SubmitPc}
    (ht : s.submits[t]? = some .idle) (hc : c ≠ .returned true) :
    { s with submits := s.submits.set t c }.Inv created taskCount := by
  have hmain := h.running_of_open ht (by simp)
  exact
    { h with
      submits_length := List.length_set.trans h.submits_length
      submitted := fun v => by
        have hle := h.submitted v
        simp only [count_submitted ht (by simp : SubmitPc.idle ≠ .returned true), hc, and_false,
          or_false]
        exact hle
      closed := fun hm => absurd hmain hm
      joined := h.joined }

theorem PartialPool.Inv.enqueue (h : s.Inv created taskCount) {who t : Nat} {alloc : Bool}
    {wakes : Option Nat} (ht : s.submits[t]? = some .enqueuing) {pool : Pool Nat}
    (hs : s.pool.enqueue who (some t) alloc wakes = some pool) :
    { s with pool, submits := s.submits.set t (.returned true) }.Inv created taskCount := by
  have hmain := h.running_of_open ht (by simp)
  have haccounts := h.accounts.enqueue h.waits hs
  have hwaits := h.waits.enqueue hs
  obtain ⟨cv, _, rfl⟩ := Pool.enqueue_cases h.waits.unbounded hs
  exact
    { h with
      accounts := haccounts
      waits := hwaits
      submits_length := List.length_set.trans h.submits_length
      order := by
        obtain ⟨tasks, sentinels, hle, htasks⟩ := h.order
        rw [hmain] at hle
        obtain rfl := Nat.le_zero.mp hle
        cases alloc with
        | true =>
            refine ⟨tasks ++ [t], 0, Nat.zero_le _, ?_⟩
            simp only [if_true, htasks, List.replicate_zero, List.append_nil, List.map_append]
            rfl
        | false => exact ⟨tasks, 0, Nat.zero_le _, htasks⟩
      submitted := fun v => by
        have hle := h.submitted v
        simp only [count_submitted ht (by simp : SubmitPc.enqueuing ≠ .returned true)]
        by_cases hv : v = t
        · subst hv
          rw [ht, if_neg (by simp)] at hle
          rw [if_pos (Or.inr ⟨rfl, trivial⟩)]
          cases alloc with
          | true =>
              rw [if_pos rfl, List.count_append, List.count_singleton_self]
              omega
          | false => exact Nat.le_trans hle (Nat.zero_le _)
        · have hsame : (if alloc then s.pool.enqueued ++ [some t] else s.pool.enqueued).count
              (some v) = s.pool.enqueued.count (some v) := by
            cases alloc with
            | true =>
                rw [if_pos rfl, List.count_append, List.count_singleton]
                simp [Ne.symm hv]
            | false => rfl
          simp only [hsame, hv, false_and, or_false]
          exact hle
      closed := fun hm => absurd hmain hm
      joined := h.joined }

/-- A step of `tp_shutdown` to the test of the loop that sends. -/
theorem PartialPool.Inv.toSendingAt (h : s.Inv created taskCount) {n i : Nat} {pool : Pool Nat}
    (hpool : s.pool.Closing n pool) (hstarted : pool.started = s.pool.started)
    (hsent : s.main.sent created.length + n ≤ i) (hi : i ≤ created.length)
    (hclosed : ∀ c ∈ s.submits, c = .returned true ∨ c = .returned false) :
    { s with pool, main := sendingAt created.length i }.Inv created taskCount :=
  { h with
    accounts := hpool.accounts
    waits := hpool.waits
    workers_length := by
      show pool.workers.length = created.length
      rw [hpool.workers]
      exact h.workers_length
    absent := by simpa only [hpool.workers] using h.absent
    unstarted := fun hnone => hstarted.trans (h.unstarted hnone)
    order := by
      obtain ⟨tasks, sentinels, hle, ht⟩ := h.order
      refine ⟨tasks, sentinels + n, ?_, ?_⟩
      · rw [sent_sendingAt hi]
        exact Nat.le_trans (Nat.add_le_add_right hle n) hsent
      · show pool.enqueued = _
        rw [hpool.enqueued, ht, List.append_assoc, List.replicate_append_replicate]
    submitted := fun v => Nat.le_trans (Nat.le_of_eq (hpool.count_task v)) (h.submitted v)
    closed := fun _ => hclosed
    sending_lt := fun _ hj => sending_at_lt hj
    joining_le := fun _ hj => joining_at_sending hj ▸ Nat.zero_le _
    joined := fun j hj v hv => by
      rcases hj with hj | ⟨hj, _⟩
      · rw [joining_at_sending hj] at hv
        exact absurd hv (Nat.not_lt_zero v)
      · exact absurd hj (sendingAt_ne_returned _ _) }

theorem PartialPool.Inv.shutdown (h : s.Inv created taskCount) (hm : s.main = .running)
    (hall : ∀ c ∈ s.submits, c = .returned true ∨ c = .returned false) :
    { s with
      pool := { s.pool with shuttingDown := true }
      main := sendingAt s.pool.workers.length 0 }.Inv created taskCount := by
  rw [h.workers_length]
  refine h.toSendingAt (h.accounts.closing_flag h.waits) rfl ?_ (Nat.zero_le _) hall
  rw [hm]
  exact Nat.le_refl 0

theorem PartialPool.Inv.sentinel (h : s.Inv created taskCount) {i who : Nat} {alloc : Bool}
    (hm : s.main = .sending i) {wakes : Option Nat} {pool : Pool Nat}
    (hs : s.pool.enqueue who none alloc wakes = some pool) :
    { s with pool, main := sendingAt s.pool.workers.length (i + 1) }.Inv created taskCount := by
  have hpool := (h.accounts.closing_sentinel h.waits hs).1
  rw [h.workers_length]
  refine h.toSendingAt hpool ?_ ?_ (h.sending_lt i hm) (h.closed (by rw [hm]; simp))
  · obtain ⟨cv, _, rfl⟩ := Pool.enqueue_cases h.waits.unbounded hs
    rfl
  · rw [hm]
    exact Nat.add_le_add_left (Bool.toNat_le alloc) i

theorem PartialPool.Inv.join (h : s.Inv created taskCount) {i : Nat} (hm : s.main = .joining i)
    (hpass : created[i]? = some false ∨ s.pool.workers[i]? = some .exited) :
    { s with main := .joining (i + 1) }.Inv created taskCount := by
  have hne : s.main ≠ .running := by
    rw [hm]
    simp
  have hlt : i < created.length := by
    rcases hpass with habsent | hexit
    · exact (List.getElem?_eq_some_iff.mp habsent).1
    · exact h.workers_length ▸ (List.getElem?_eq_some_iff.mp hexit).1
  exact
    { h with
      order := by
        obtain ⟨tasks, sentinels, hle, ht⟩ := h.order
        rw [hm] at hle
        exact ⟨tasks, sentinels, hle, ht⟩
      closed := fun _ => h.closed hne
      sending_lt := fun j hj => by cases hj
      joining_le := fun j hj => by
        cases hj
        exact hlt
      joined := fun j hj v hv hcreated => by
        rcases hj with hj | ⟨hj, _⟩ <;> cases hj
        refine Nat.forall_lt_succ_right.mpr ⟨h.joined i (Or.inl hm), fun hi => ?_⟩ v hv hcreated
        refine hpass.resolve_left fun habsent => ?_
        rw [hi] at habsent
        cases habsent }

theorem PartialPool.Inv.destroy (h : s.Inv created taskCount)
    (hm : s.main = .joining created.length) :
    { s with main := .returned }.Inv created taskCount := by
  have hne : s.main ≠ .running := by
    rw [hm]
    simp
  exact
    { h with
      order := by
        obtain ⟨tasks, sentinels, hle, ht⟩ := h.order
        rw [hm] at hle
        exact ⟨tasks, sentinels, hle, ht⟩
      closed := fun _ => h.closed hne
      sending_lt := fun j hj => by cases hj
      joining_le := fun j hj => by cases hj
      joined := fun j hj v hv => by
        rcases hj with hj | ⟨_, rfl⟩
        · cases hj
        · exact h.joined _ (Or.inl hm) v hv }

/-- The invariant is kept by every step. -/
theorem PartialPool.Inv.step (h : s.Inv created taskCount) {a : PartialAction}
    (hs : s.step a = some s') : s'.Inv created taskCount := by
  cases a with
  | worker w k =>
      obtain ⟨hw, hs⟩ := Option.ite_none_right_eq_some.mp hs
      obtain ⟨pool, hp, rfl⟩ := Option.map_eq_some_iff.mp hs
      exact h.worker (h.created_eq ▸ hw) hp
  | submit t alloc =>
      obtain ⟨ht, rfl⟩ := Option.ite_some_none_eq_some.mp hs
      refine h.submit ht ?_
      split <;> simp
  | enqueue t alloc wakes =>
      obtain ⟨ht, hs⟩ := Option.ite_none_right_eq_some.mp hs
      obtain ⟨pool, hp, rfl⟩ := Option.map_eq_some_iff.mp hs
      exact h.enqueue ht hp
  | shutdown =>
      obtain ⟨⟨hm, hsubmits⟩, rfl⟩ := Option.ite_some_none_eq_some.mp hs
      exact h.shutdown hm hsubmits
  | sentinel alloc wakes =>
      rw [PartialPool.step] at hs
      split at hs
      next i hm =>
          obtain ⟨pool, hp, rfl⟩ := Option.map_eq_some_iff.mp hs
          exact h.sentinel hm hp
      next => cases hs
  | join =>
      rw [PartialPool.step] at hs
      split at hs
      next i hm =>
          obtain ⟨hpass, rfl⟩ := Option.ite_some_none_eq_some.mp hs
          exact h.join hm (h.created_eq ▸ hpass)
      next => cases hs
  | destroy =>
      obtain ⟨hm, rfl⟩ := Option.ite_some_none_eq_some.mp hs
      exact h.destroy (h.workers_length ▸ hm)

theorem PartialPool.inv_of_reachable
    (h : Machine.Reachable PartialPool.step (.init created taskCount) s) :
    s.Inv created taskCount :=
  h.invariant (PartialPool.init_inv created taskCount) fun _ _ _ hi hs => hi.step hs

/-! ## Who is left -/

/-- Where every place of `a` in one list is a place of `b` in another. -/
theorem count_le_count_of_getElem? {β γ : Type} [DecidableEq β] [DecidableEq γ] {a : β} {b : γ}
    {l : List β} {l' : List γ} (h : ∀ w : Nat, l[w]? = some a → l'[w]? = some b) :
    l.count a ≤ l'.count b := by
  induction l generalizing l' with
  | nil => exact Nat.zero_le _
  | cons x l ih =>
      have hrest : l.count a ≤ l'.tail.count b := by
        apply ih
        intro w hw
        rw [List.getElem?_tail]
        exact h (w + 1) hw
      rcases eq_or_ne x a with rfl | hx
      · have hb := h 0 rfl
        cases l' with
        | nil => cases hb
        | cons y l' =>
            rw [List.getElem?_cons_zero, Option.some.injEq] at hb
            rw [hb, List.count_cons_self, List.count_cons_self]
            exact Nat.succ_le_succ hrest
      · rw [List.count_cons_of_ne hx]
        exact Nat.le_trans hrest (List.Sublist.count_le b (List.tail_sublist l'))

theorem PartialPool.Inv.created_of_ne (h : s.Inv created taskCount) {w : Nat} {pc : WorkerPc Nat}
    (hpc : s.pool.workers[w]? = some pc) (hne : pc ≠ .dequeuing) : created[w]? = some true := by
  have hlt := (List.getElem?_eq_some_iff.mp hpc).1
  rw [h.workers_length] at hlt
  have hget := List.getElem?_eq_getElem hlt
  cases hc : created[w] with
  | true => rw [hget, hc]
  | false =>
      have hstart := h.absent w (by rw [hget, hc])
      rw [hpc, Option.some.injEq] at hstart
      exact absurd hstart hne

/-- A thread that was created is somewhere. -/
theorem PartialPool.Inv.exists_pc (h : s.Inv created taskCount) {w : Nat}
    (hw : created[w]? = some true) : ∃ pc, s.pool.workers[w]? = some pc := by
  have hlt := (List.getElem?_eq_some_iff.mp hw).1
  rw [← h.workers_length] at hlt
  exact ⟨_, List.getElem?_eq_getElem hlt⟩

/-- A thread that has not exited leaves its place among those that have. -/
theorem PartialPool.Inv.exited_lt (h : s.Inv created taskCount) {w : Nat}
    (hw : created[w]? = some true) (hlive : s.pool.workers[w]? ≠ some .exited) :
    s.pool.workers.count .exited < created.count true := by
  obtain ⟨pc, hpc⟩ := h.exists_pc hw
  have hne : pc ≠ .exited := by
    rintro rfl
    exact hlive hpc
  have hmove := count_move (b := WorkerPc.exited) hpc .exited
  rw [if_neg hne, if_pos rfl] at hmove
  have hle : (s.pool.workers.set w .exited).count .exited ≤ created.count true := by
    apply count_le_count_of_getElem?
    intro v hv
    rw [getElem?_move hpc] at hv
    split at hv
    next heq => exact heq ▸ hw
    next => exact h.created_of_ne hv (by simp)
  omega

theorem PartialPool.Inv.exited_eq (h : s.Inv created taskCount)
    (hall : ∀ w : Nat, created[w]? = some true → s.pool.workers[w]? = some .exited) :
    s.pool.workers.count .exited = created.count true := by
  refine Nat.le_antisymm (count_le_count_of_getElem? fun w hw => ?_)
    (count_le_count_of_getElem? hall)
  exact h.created_of_ne hw (by simp)

/-- While an item is queued, a thread that has not exited is the reason why some thread can take a
step. -/
theorem PartialPool.Inv.worker_enabled (h : s.Inv created taskCount) {w : Nat}
    (hw : created[w]? = some true) (hlive : s.pool.workers[w]? ≠ some .exited)
    (hq : s.pool.queue.inner ≠ []) :
    ∃ a, (∀ v, a ≠ .worker v .spurious) ∧ (s.step a).isSome := by
  obtain ⟨pc, hpc⟩ := h.exists_pc hw
  obtain ⟨v, k, hv, hk, hstep⟩ := h.waits.progress hq hpc (by rintro rfl; exact hlive hpc)
  have hcreated : created[v]? = some true := by
    rcases hv with rfl | hwaiting
    · exact hw
    · exact h.created_of_ne hwaiting (by simp)
  refine ⟨.worker v k, ?_, ?_⟩
  · intro v' he
    cases he
    exact hk rfl
  · rw [PartialPool.step, h.created_eq, if_pos hcreated, Option.isSome_map]
    exact hstep

/-- With fewer sentinels than threads the joins may wait for ever; otherwise some step is enabled
until `tp_shutdown` has returned. -/
theorem PartialPool.Inv.progress (h : s.Inv created taskCount) (hm : s.main ≠ .returned) :
    (∃ a, (∀ v, a ≠ .worker v .spurious) ∧ (s.step a).isSome) ∨
      (∃ i, s.main = .joining i) ∧ s.pool.enqueued.count none < created.count true := by
  cases hmain : s.main with
  | running =>
      refine Or.inl ?_
      by_cases hall : ∀ c ∈ s.submits, c = .returned true ∨ c = .returned false
      · exact ⟨.shutdown, by simp, by simp [PartialPool.step, hmain]; exact hall⟩
      · obtain ⟨t, ht | ht⟩ := exists_open_submit hall
        · exact ⟨.submit t true, by simp, by simp [PartialPool.step, ht]⟩
        · obtain ⟨wakes, hw⟩ := h.waits.enqueue_enabled (s.pool.workers.length + 1 + t) (some t)
          exact ⟨.enqueue t true wakes, by simp, by simpa [PartialPool.step, ht] using hw⟩
  | sending i =>
      obtain ⟨wakes, hw⟩ := h.waits.enqueue_enabled s.pool.workers.length none
      exact Or.inl ⟨.sentinel true wakes, by simp, by simpa [PartialPool.step, hmain] using hw⟩
  | joining i =>
      rcases Nat.lt_or_eq_of_le (h.joining_le i hmain) with hlt | rfl
      · have hget := List.getElem?_eq_getElem hlt
        by_cases hpass : created[i]? = some false ∨ s.pool.workers[i]? = some .exited
        · exact Or.inl ⟨.join, by simp, by simp [PartialPool.step, hmain, h.created_eq, hpass]⟩
        · rw [not_or] at hpass
          have hcreated : created[i]? = some true := by
            cases hc : created[i] with
            | true => rw [hget, hc]
            | false => exact absurd (by rw [hget, hc]) hpass.1
          by_cases hq : s.pool.queue.inner = []
          · -- every sentinel was taken, and this thread took none
            have hexited := h.exited_lt hcreated hpass.2
            refine Or.inr ⟨⟨i, rfl⟩, ?_⟩
            rw [h.accounts.fifo, hq, List.append_nil, ← h.accounts.exits]
            exact hexited
          · exact Or.inl (h.worker_enabled hcreated hpass.2 hq)
      · exact Or.inl ⟨.destroy, by simp, by simp [PartialPool.step, hmain, h.workers_length]⟩
  | returned => exact absurd hmain hm

/-- Behind a sentinel that was taken only sentinels are left. -/
theorem none_of_sentinel_taken {α : Type} {taken left : List (Option α)} {tasks : List α} {k : Nat}
    (h : taken ++ left = tasks.map some ++ List.replicate k none) (hnone : none ∈ taken) :
    ∀ x ∈ left, x = none := by
  rcases List.append_eq_append_iff.mp h with ⟨rest, htasks, _⟩ | ⟨rest, _, hsentinels⟩
  · have hmem : none ∈ tasks.map some := htasks ▸ List.mem_append_left rest hnone
    simp at hmem
  · intro x hx
    exact List.eq_of_mem_replicate (hsentinels ▸ List.mem_append_right rest hx)

/-- Once every thread has exited. -/
theorem PartialPool.Inv.all_exited (h : s.Inv created taskCount)
    (hall : ∀ w : Nat, created[w]? = some true → s.pool.workers[w]? = some .exited) :
    created.count true ≤ s.pool.enqueued.count none ∧
      (true ∈ created →
        (∀ t, s.pool.started.count t = s.pool.enqueued.count (some t) ∧
          s.pool.finished.count t = s.pool.enqueued.count (some t)) ∧
        ∀ x ∈ s.pool.queue.inner, x = none) := by
  have hexits := h.accounts.exits
  rw [h.exited_eq hall] at hexits
  have hfifo := h.accounts.fifo
  refine ⟨by rw [hfifo, List.count_append, ← hexits]; exact Nat.le_add_right .., ?_⟩
  intro hsome
  have hleft : ∀ x ∈ s.pool.queue.inner, x = none := by
    obtain ⟨tasks, sentinels, _, horder⟩ := h.order
    rw [hfifo] at horder
    refine none_of_sentinel_taken horder (List.count_pos_iff.mp ?_)
    rw [← hexits]
    exact List.count_pos_iff.mpr hsome
  refine ⟨?_, hleft⟩
  intro t
  have hidle : ∀ pc : WorkerPc Nat, pc ≠ .exited → pc ≠ .dequeuing →
      s.pool.workers.count pc = 0 := by
    intro pc hexited hdequeuing
    refine List.count_eq_zero.mpr fun hmem => ?_
    obtain ⟨w, hw⟩ := List.mem_iff_getElem?.mp hmem
    have hexit := hall w (h.created_of_ne hw hdequeuing)
    rw [hw, Option.some.injEq] at hexit
    exact hexited hexit
  have hqueue : s.pool.queue.inner.count (some t) = 0 := by
    refine List.count_eq_zero.mpr fun hmem => ?_
    cases hleft _ hmem
  have htasks := h.accounts.tasks t
  have hruns := h.accounts.runs t
  rw [hidle (.holding t) (by simp) (by simp)] at htasks
  rw [hidle (.running t) (by simp) (by simp)] at hruns
  rw [hfifo, List.count_append, hqueue]
  omega

theorem PartialPool.Inv.never_returns (h : s.Inv created taskCount)
    (hm : ∃ i, s.main = .joining i) (hfew : s.pool.enqueued.count none < created.count true)
    (hr : Machine.Reachable PartialPool.step s s') : s'.main ≠ .returned := by
  have hstay : s'.Inv created taskCount ∧ (∃ i, s'.main = .joining i) ∧
      s'.pool.enqueued = s.pool.enqueued := by
    apply hr.invariant (P := fun t => t.Inv created taskCount ∧ (∃ i, t.main = .joining i) ∧
      t.pool.enqueued = s.pool.enqueued)
    · exact ⟨h, hm, rfl⟩
    · rintro t a u ⟨ht, ⟨i, hi⟩, henqueued⟩ hs
      refine ⟨ht.step hs, ?_⟩
      cases a with
      | worker w k =>
          obtain ⟨_, hs⟩ := Option.ite_none_right_eq_some.mp hs
          obtain ⟨pool, hp, rfl⟩ := Option.map_eq_some_iff.mp hs
          exact ⟨⟨i, hi⟩, (Pool.worker_frame ht.waits hp).enqueued.trans henqueued⟩
      | submit v alloc =>
          obtain ⟨hv, _⟩ := Option.ite_some_none_eq_some.mp hs
          have hrunning := ht.running_of_open hv (by simp)
          rw [hi] at hrunning
          cases hrunning
      | enqueue v alloc wakes =>
          obtain ⟨hv, _⟩ := Option.ite_none_right_eq_some.mp hs
          have hrunning := ht.running_of_open hv (by simp)
          rw [hi] at hrunning
          cases hrunning
      | shutdown =>
          obtain ⟨⟨hrunning, _⟩, _⟩ := Option.ite_some_none_eq_some.mp hs
          rw [hi] at hrunning
          cases hrunning
      | sentinel alloc wakes =>
          rw [PartialPool.step, hi] at hs
          cases hs
      | join =>
          rw [PartialPool.step, hi] at hs
          obtain ⟨_, rfl⟩ := Option.ite_some_none_eq_some.mp hs
          exact ⟨⟨i + 1, rfl⟩, henqueued⟩
      | destroy =>
          -- the last join would have found as many sentinels as threads
          obtain ⟨hlast, _⟩ := Option.ite_some_none_eq_some.mp hs
          rw [ht.workers_length] at hlast
          have hall : ∀ w : Nat, created[w]? = some true → t.pool.workers[w]? = some .exited :=
            fun w hw => ht.joined _ (Or.inl hlast) w (List.getElem?_eq_some_iff.mp hw).1 hw
          have hle := (ht.all_exited hall).1
          rw [henqueued] at hle
          omega
  obtain ⟨i, hi⟩ := hstay.2.1
  rw [hi]
  exact ShutdownPc.noConfusion

end Steps

/-- For all outcomes of `CreateThread` and of the allocations, all tasks and every interleaving: no
task is run twice or without having been enqueued.  Until `tp_shutdown` has returned some step
other than a spurious wake-up is enabled, unless fewer sentinels than threads got into the queue and
the joins have begun; from then on `tp_shutdown` never returns.  When it returns there were as many
sentinels as threads, and if there was a thread then every task that got into the queue has been run
once and only sentinels are left; if there was none, no task has been run. -/
theorem partial_pool_drains {created : List Bool} {taskCount : Nat} {s : PartialPool}
    (h : Machine.Reachable PartialPool.step (.init created taskCount) s) :
    (∀ t, s.pool.started.count t ≤ s.pool.enqueued.count (some t) ∧
      s.pool.enqueued.count (some t) ≤ 1) ∧
    (s.main ≠ .returned → (∃ a, (∀ w, a ≠ .worker w .spurious) ∧ (s.step a).isSome) ∨
      (∃ i, s.main = .joining i) ∧ s.pool.enqueued.count none < created.count true) ∧
    ((∃ i, s.main = .joining i) → s.pool.enqueued.count none < created.count true →
      ∀ s', Machine.Reachable PartialPool.step s s' → s'.main ≠ .returned) ∧
    (s.main = .returned → created.count true ≤ s.pool.enqueued.count none ∧
      (true ∈ created →
        (∀ t, s.pool.started.count t = s.pool.enqueued.count (some t) ∧
          s.pool.finished.count t = s.pool.enqueued.count (some t)) ∧
        ∀ x ∈ s.pool.queue.inner, x = none) ∧
      (true ∉ created → s.pool.started = [])) := by
  have hinv := PartialPool.inv_of_reachable h
  refine ⟨?_, hinv.progress, fun hm hfew s' => hinv.never_returns hm hfew, ?_⟩
  · intro t
    have hsubmitted := hinv.submitted t
    refine ⟨hinv.accounts.started_le t, ?_⟩
    split at hsubmitted <;> omega
  · intro hm
    obtain ⟨hsentinels, htasks⟩ := hinv.all_exited fun w hw =>
      hinv.joined _ (Or.inr ⟨hm, rfl⟩) w (List.getElem?_eq_some_iff.mp hw).1 hw
    exact ⟨hsentinels, htasks, hinv.unstarted⟩

/-- Of two threads the first is not created, one of three tasks does not get into the queue and one
is refused, and one sentinel is lost. -/
def faultyRun : List PartialAction :=
  [.submit 0 true, .enqueue 0 true none, .submit 1 true, .enqueue 1 false none, .submit 2 false,
    .shutdown, .sentinel false none, .sentinel true none, .join, .worker 1 .dequeue,
    .worker 1 .start, .worker 1 .finish, .worker 1 .dequeue, .join, .destroy]

theorem partial_pool_drains_faulty :
    ∃ s, Machine.exec PartialPool.step (.init [false, true] 3) faultyRun = some s ∧
      s.pool.started.count 0 = s.pool.enqueued.count (some 0) := by
  have hrun : (Machine.exec PartialPool.step (.init [false, true] 3) faultyRun).map
      PartialPool.main = some .returned := by decide +kernel
  obtain ⟨s, hs, hmain⟩ := Option.map_eq_some_iff.mp hrun
  have h := (partial_pool_drains (Machine.exec_reachable hs)).2.2.2 hmain
  exact ⟨s, hs, ((h.2.1 (by decide)).1 0).1⟩

end DataPropagator
