import DataPropagator.Common.TSQueue

/-!
# A queue with one reader

The source and every destination have one thread that takes warnings from an unbounded
queue until it takes NULL.  An inbox is such a queue with the lists of what was enqueued
and removed.  Nobody but the reader ever sleeps on it, so its thread needs no name, and a
signal wakes the reader if it is asleep.

A pointer to a warning is the number of warnings made before it.  What the writers
enqueue is then `numbered`: the numbers in order, and when the queue is closed NULL after
them.
-/

namespace DataPropagator

open Monitor (CondVar)

variable {α : Type}

/-! ## The inbox -/

/-- An unbounded queue with one reader, and its histories. -/
structure Inbox (α : Type) where
  queue : TSQueue Unit α
  enqueued : List (Option α)
  removed : List (Option α)
deriving DecidableEq, Repr

/-- An inbox that was just created. -/
def Inbox.create : Inbox α where
  queue := tsqueueCreate 0
  enqueued := []
  removed := []

/-- A call of `tsqueue_enqueue`. -/
def Inbox.enqueue (p : Inbox α) (item : Option α) (alloc : Bool) : Option (Inbox α) :=
  (tsqueueEnqueue p.queue () item alloc p.queue.cvNotEmpty.sleeping.head?).bind fun
    | .sleeps _ => none
    | .returns r queue =>
        some { p with queue, enqueued := if r = 0 then p.enqueued ++ [item] else p.enqueued }

/-- A stay of the reader in `tsqueue_dequeue`, and what the call returns if it does. -/
def Inbox.take (p : Inbox α) : Option (Inbox α × Option (Option α)) :=
  (tsqueueDequeue p.queue () none).map fun
    | .sleeps queue => ({ p with queue }, none)
    | .returns item queue => ({ p with queue, removed := p.removed ++ [item] }, some item)

/-- The reader, woken, takes the critical section again. -/
def Inbox.resume (p : Inbox α) : Option (Inbox α × Option (Option α)) :=
  (p.queue.resume ()).bind fun queue => { p with queue }.take

/-- The reader wakes without a signal. -/
def Inbox.spurious (p : Inbox α) : Option (Inbox α) :=
  (p.queue.spurious ()).map fun queue => { p with queue }

/-- The histories agree with the contents, and the condition variables with the reader.
`waiting` says whether it is inside a call, asleep or woken. -/
structure Inbox.Ok (p : Inbox α) (waiting : Bool) : Prop where
  unbounded : p.queue.capacity = 0
  notFull : p.queue.cvNotFull = {}
  fifo : p.enqueued = p.removed ++ p.queue.inner
  awake : waiting = false → p.queue.cvNotEmpty = {}
  /-- The reader sleeps only on an empty queue. -/
  inside : waiting = true → (p.queue.cvNotEmpty = { sleeping := [()] } ∧ p.queue.inner = []) ∨
    p.queue.cvNotEmpty = { woken := [()] }

variable {p p' : Inbox α} {waiting : Bool} {item : Option α}

theorem Inbox.create_ok : (Inbox.create : Inbox α).Ok false where
  unbounded := rfl
  notFull := rfl
  fifo := rfl
  awake _ := rfl
  inside h := by cases h

/-- What an enqueuing changes. -/
theorem Inbox.enqueue_cases {alloc : Bool} (hcap : p.queue.capacity = 0)
    (h : p.enqueue item alloc = some p') :
    ∃ cv, p.queue.cvNotEmpty.wake p.queue.cvNotEmpty.sleeping.head? = some cv ∧
      p' = { p with
        queue := { p.queue with
          inner := if alloc then p.queue.inner ++ [item] else p.queue.inner
          cvNotEmpty := cv }
        enqueued := if alloc then p.enqueued ++ [item] else p.enqueued } := by
  obtain ⟨stay, hstay, hp⟩ := Option.bind_eq_some_iff.mp h
  obtain ⟨cv, hcv, rfl⟩ := tsqueueEnqueue_cases hcap hstay
  rw [Option.some.injEq] at hp
  refine ⟨cv, hcv, ?_⟩
  cases alloc <;> exact hp.symm

theorem Inbox.Ok.enqueue {alloc : Bool} (h : p.Ok waiting) (he : p.enqueue item alloc = some p') :
    p'.Ok waiting := by
  obtain ⟨cv, hcv, rfl⟩ := Inbox.enqueue_cases h.unbounded he
  refine
    { unbounded := h.unbounded
      notFull := h.notFull
      fifo := ?_
      awake := fun hw => ?_
      inside := fun hw => Or.inr ?_ }
  · cases alloc with
    | true => simp only [if_true, h.fifo, List.append_assoc]
    | false => exact h.fifo
  · rw [h.awake hw] at hcv
    cases hcv
    rfl
  · rcases h.inside hw with ⟨hs, _⟩ | hs
    · rw [hs] at hcv
      cases hcv
      rfl
    · rw [hs] at hcv
      cases hcv
      rfl

/-- What an enqueuing that succeeds adds to the histories. -/
theorem Inbox.Ok.enqueued (h : p.Ok waiting) (he : p.enqueue item true = some p') :
    p'.enqueued = p.enqueued ++ [item] ∧ p'.removed = p.removed := by
  obtain ⟨cv, _, rfl⟩ := Inbox.enqueue_cases h.unbounded he
  exact ⟨rfl, rfl⟩

/-- An enqueuing removes nothing, and without a node it adds nothing. -/
theorem Inbox.Ok.enqueue_frame {alloc : Bool} (h : p.Ok waiting)
    (he : p.enqueue item alloc = some p') :
    p'.removed = p.removed ∧
      p'.queue.inner = if alloc then p.queue.inner ++ [item] else p.queue.inner := by
  obtain ⟨cv, _, rfl⟩ := Inbox.enqueue_cases h.unbounded he
  exact ⟨rfl, rfl⟩

/-- What a stay in `tsqueue_dequeue` changes. -/
theorem Inbox.take_cases {r : Inbox α × Option (Option α)} (h : p.take = some r) :
    (p.queue.inner = [] ∧
      r = ({ p with queue := { p.queue with cvNotEmpty := p.queue.cvNotEmpty.sleep () } }, none)) ∨
    ∃ item inner cv, p.queue.inner = item :: inner ∧ p.queue.cvNotFull.wake none = some cv ∧
      r = ({ p with
        queue := { p.queue with inner := inner, cvNotFull := cv }
        removed := p.removed ++ [item] }, some item) := by
  obtain ⟨stay, hstay, rfl⟩ := Option.map_eq_some_iff.mp h
  rcases tsqueueDequeue_cases hstay with ⟨hnil, rfl⟩ | ⟨item, inner, cv, hcons, hcv, rfl⟩
  · exact Or.inl ⟨hnil, rfl⟩
  · exact Or.inr ⟨item, inner, cv, hcons, hcv, rfl⟩

/-- What a call of the reader leaves: it sleeps on an empty queue, or it has removed the
item it returns. -/
inductive Inbox.Took (p : Inbox α) : Inbox α × Option (Option α) → Prop where
  | asleep {p' : Inbox α} : p.queue.inner = [] → p'.Ok true → p'.enqueued = p.enqueued →
      p'.removed = p.removed → p'.queue.inner = p.queue.inner → Took p (p', none)
  | item {p' : Inbox α} {data : Option α} : p.queue.inner = data :: p'.queue.inner → p'.Ok false →
      p'.enqueued = p.enqueued → p'.removed = p.removed ++ [data] → Took p (p', some data)

theorem Inbox.Ok.take {r : Inbox α × Option (Option α)} (h : p.Ok false) (ht : p.take = some r) :
    p.Took r := by
  rcases Inbox.take_cases ht with ⟨hnil, rfl⟩ | ⟨item, inner, cv, hcons, hcv, rfl⟩
  · refine .asleep hnil ⟨h.unbounded, h.notFull, h.fifo, nofun, fun _ => Or.inl ⟨?_, hnil⟩⟩
      rfl rfl rfl
    show p.queue.cvNotEmpty.sleep () = _
    rw [h.awake rfl]
    rfl
  · rw [h.notFull] at hcv
    cases hcv
    refine .item hcons ⟨h.unbounded, rfl, ?_, fun _ => h.awake rfl, nofun⟩ rfl rfl
    rw [h.fifo, hcons, List.append_assoc]
    rfl

theorem Inbox.Ok.resume {r : Inbox α × Option (Option α)} (h : p.Ok true)
    (hr : p.resume = some r) : p.Took r := by
  obtain ⟨queue, hq, ht⟩ := Option.bind_eq_some_iff.mp hr
  obtain ⟨cv, hcv, rfl⟩ := Option.map_eq_some_iff.mp hq
  rcases h.inside rfl with ⟨hs, _⟩ | hs
  · rw [hs] at hcv
    cases hcv
  · rw [hs] at hcv
    cases hcv
    have hok : { p with queue := { p.queue with cvNotEmpty := {} } }.Ok false :=
      ⟨h.unbounded, h.notFull, h.fifo, fun _ => rfl, nofun⟩
    cases hok.take ht with
    | asleep hnil hok' he hrem hin => exact .asleep hnil hok' he hrem hin
    | item hcons hok' he hrem => exact .item hcons hok' he hrem

/-- A wake-up without a signal changes only the condition variable. -/
theorem Inbox.Ok.spurious (h : p.Ok true) (hs : p.spurious = some p') :
    p'.Ok true ∧ p'.enqueued = p.enqueued ∧ p'.removed = p.removed ∧
      p'.queue.inner = p.queue.inner := by
  obtain ⟨queue, hq, rfl⟩ := Option.map_eq_some_iff.mp hs
  obtain ⟨cv, hcv, rfl⟩ := Option.map_eq_some_iff.mp hq
  refine ⟨⟨h.unbounded, h.notFull, h.fifo, nofun, fun _ => Or.inr ?_⟩, rfl, rfl, rfl⟩
  rcases h.inside rfl with ⟨hsleep, _⟩ | hsleep
  · rw [hsleep] at hcv
    cases hcv
    rfl
  · rw [hsleep] at hcv
    cases hcv

/-! ## Progress -/

theorem Inbox.Ok.enqueue_enabled (h : p.Ok waiting) (item : Option α) (alloc : Bool) :
    (p.enqueue item alloc).isSome := by
  have hwake : (p.queue.cvNotEmpty.wake p.queue.cvNotEmpty.sleeping.head?).isSome := by
    cases waiting with
    | false => rw [h.awake rfl]; rfl
    | true => rcases h.inside rfl with ⟨hs, _⟩ | hs <;> rw [hs] <;> rfl
  obtain ⟨cv, hcv⟩ := Option.isSome_iff_exists.mp hwake
  rw [Inbox.enqueue, tsqueueEnqueue, if_neg (by rw [h.unbounded]; omega), hcv]
  rfl

theorem Inbox.Ok.take_enabled (h : p.Ok waiting) : p.take.isSome := by
  rw [Inbox.take, Option.isSome_map]
  exact tsqueueDequeue_enabled p.queue () (by rw [h.notFull])

/-- The reader of a queue that is not empty has been woken. -/
theorem Inbox.Ok.resume_enabled (h : p.Ok true) (hne : p.queue.inner ≠ []) :
    p.resume.isSome := by
  rcases h.inside rfl with ⟨_, hnil⟩ | hs
  · exact absurd hnil hne
  · have hresume : p.queue.resume () = some { p.queue with cvNotEmpty := {} } := by
      rw [TSQueue.resume, hs]
      rfl
    rw [Inbox.resume, hresume, Option.bind_some, Inbox.take, Option.isSome_map]
    exact tsqueueDequeue_enabled _ () (by rw [h.notFull])

/-- A reader is woken at most once. -/
theorem Inbox.Ok.woken_le (h : p.Ok true) : p.queue.cvNotEmpty.woken.length ≤ 1 := by
  rcases h.inside rfl with ⟨hs, _⟩ | hs <;> rw [hs] <;> simp

/-- A reader that goes to sleep has not been woken. -/
theorem Inbox.Ok.take_asleep (h : p.Ok false) (ht : p.take = some (p', none)) :
    p'.queue.cvNotEmpty.woken = [] := by
  rcases Inbox.take_cases ht with ⟨_, heq⟩ | ⟨_, _, _, _, _, heq⟩
  · rw [Prod.mk.injEq] at heq
    rw [heq.1]
    show (p.queue.cvNotEmpty.sleep ()).woken = []
    rw [h.awake rfl]
    rfl
  · cases heq

/-- A reader that resumes was woken, and stays in the call anew. -/
theorem Inbox.Ok.resume_take {r : Inbox α × Option (Option α)} (h : p.Ok true)
    (hr : p.resume = some r) :
    p.queue.cvNotEmpty.woken = [()] ∧ ∃ q : Inbox α, q.Ok false ∧ q.take = some r := by
  obtain ⟨queue, hq, ht⟩ := Option.bind_eq_some_iff.mp hr
  obtain ⟨cv, hcv, rfl⟩ := Option.map_eq_some_iff.mp hq
  rcases h.inside rfl with ⟨hs, _⟩ | hs
  · rw [hs] at hcv
    cases hcv
  · rw [hs] at hcv
    cases hcv
    have hok : { p with queue := { p.queue with cvNotEmpty := {} } }.Ok false :=
      ⟨h.unbounded, h.notFull, h.fifo, fun _ => rfl, nofun⟩
    exact ⟨by rw [hs], _, hok, ht⟩

/-! ## Numbered items -/

/-- The numbers below `n` in order, and NULL after them if the queue is closed. -/
def numbered (n : Nat) (closed : Bool) : List (Option Nat) :=
  (List.range n).map some ++ if closed then [none] else []

theorem numbered_succ (n : Nat) : numbered (n + 1) false = numbered n false ++ [some n] := by
  simp [numbered, List.range_succ]

theorem numbered_close (n : Nat) : numbered n true = numbered n false ++ [none] := by
  simp [numbered]

theorem reduceOption_map_some (l : List α) : (l.map some).reduceOption = l := by
  rw [List.reduceOption, List.filterMap_map]
  exact List.filterMap_some

theorem reduceOption_numbered (n : Nat) (closed : Bool) :
    (numbered n closed).reduceOption = List.range n := by
  cases closed with
  | true =>
      rw [numbered, if_pos rfl, List.reduceOption_append, reduceOption_map_some]
      exact List.append_nil _
  | false => rw [numbered, if_neg Bool.false_ne_true, List.append_nil, reduceOption_map_some]

theorem length_numbered (n : Nat) (closed : Bool) :
    (numbered n closed).length = n + if closed then 1 else 0 := by
  cases closed <;> simp [numbered]

theorem getElem?_numbered_of_lt {n i : Nat} (h : i < n) (closed : Bool) :
    (numbered n closed)[i]? = some (some i) := by
  rw [numbered, List.getElem?_append_left (by simpa using h), List.getElem?_map,
    List.getElem?_range h]
  rfl

/-- What follows the first `d` numbers is number `d`, or the NULL of a closed queue. -/
theorem numbered_next {n d : Nat} {closed : Bool} {item : Option Nat} {rest : List (Option Nat)}
    (h : numbered n closed = numbered d false ++ item :: rest) :
    (d < n ∧ item = some d) ∨ (d = n ∧ closed = true ∧ item = none ∧ rest = []) := by
  have hd : (numbered d false).length = d := by simp [length_numbered]
  have hat : (numbered n closed)[d]? = some item := by
    rw [h, List.getElem?_append_right (Nat.le_of_eq hd), hd, Nat.sub_self, List.getElem?_cons_zero]
  have hlen := congrArg List.length h
  rw [List.length_append, hd, length_numbered, List.length_cons] at hlen
  rcases Nat.lt_or_ge d n with hlt | hge
  · rw [getElem?_numbered_of_lt hlt, Option.some.injEq] at hat
    exact Or.inl ⟨hlt, hat.symm⟩
  · cases closed with
    | false =>
        rw [if_neg Bool.false_ne_true] at hlen
        omega
    | true =>
        rw [if_pos rfl] at hlen
        have hdn : d = n := by omega
        subst hdn
        rw [numbered_close, List.append_cancel_left_eq, List.cons.injEq] at h
        exact Or.inr ⟨rfl, rfl, h.1.symm, h.2.symm⟩

/-- Once the NULL was taken, everything was. -/
theorem numbered_closed {n d : Nat} {closed : Bool} {rest : List (Option Nat)}
    (h : numbered n closed = numbered d true ++ rest) : d = n ∧ closed = true ∧ rest = [] := by
  rw [numbered_close, List.append_assoc] at h
  rcases numbered_next h with ⟨_, hitem⟩ | ⟨hd, hclosed, _, hrest⟩
  · cases hitem
  · exact ⟨hd, hclosed, hrest⟩

/-- A queue that was closed is not empty before the NULL was taken. -/
theorem numbered_left {n d : Nat} {rest : List (Option Nat)}
    (h : numbered n true = numbered d false ++ rest) : rest ≠ [] := by
  rintro rfl
  have hnone : none ∈ numbered d false ++ [] := by
    rw [← h, numbered_close]
    exact List.mem_append_right _ (List.mem_singleton.mpr rfl)
  simp [numbered] at hnone

/-- What was taken from numbered items are the first numbers. -/
theorem numbered_taken {n : Nat} {closed : Bool} {l : List Nat} {rest : List (Option Nat)}
    (h : numbered n closed = l.map some ++ rest) : l = List.range l.length := by
  have h' := congrArg List.reduceOption h
  rw [List.reduceOption_append, reduceOption_numbered, reduceOption_map_some] at h'
  have hle := congrArg List.length h'
  rw [List.length_append, List.length_range] at hle
  have hprefix := List.prefix_iff_eq_take.mp ⟨rest.reduceOption, h'.symm⟩
  rwa [List.take_range, Nat.min_eq_left (by omega)] at hprefix

/-- What was taken and what is left are all the numbers. -/
theorem numbered_split {n d : Nat} {closed closed' : Bool} {rest : List (Option Nat)}
    (h : numbered n closed = numbered d closed' ++ rest) :
    List.range n = List.range d ++ rest.reduceOption := by
  have h' := congrArg List.reduceOption h
  rwa [List.reduceOption_append, reduceOption_numbered, reduceOption_numbered] at h'

end DataPropagator
