import DataPropagator.Common.PropagatorClient
import DataPropagator.Common.QueueReader
import DataPropagator.Lib.Machine

/-!
# A destination

`listener_fn`, `processor_fn`, `dd_destroy` and `main` of the data destination.  The
listener takes one client after another, decodes its warnings and enqueues them.  The
processor takes them from the queue, counts them and destroys them, and ends when it takes
NULL.  `main` waits for the exit event, writes the count to a file and calls `dd_destroy`,
which closes the listening socket, joins the listener, enqueues NULL, joins the processor
and destroys the queue.

A pointer to a warning is the number of warnings decoded before it.  What
`deserialize_warning` returns is a parameter of the step.  Before the listener has called
`socket`, the handle in the context has no value, and closing it is taken to close
nothing.
-/

namespace DataPropagator

/-! ## The system -/

/-- The listening socket in the context. -/
inductive ListenSock where
  /-- The listener has not called `socket` yet. -/
  | unset
  | listening
  | closed
deriving DecidableEq, Repr

/-- Where the listener is. -/
inductive ReceiverPc where
  /-- Before the call of `socket`. -/
  | opening
  | accepting
  /-- In `deserialize_warning`. -/
  | receiving
  | enqueuing (w : Nat)
  | returned
deriving DecidableEq, Repr

/-- Where the processor is. -/
inductive ProcessorPc where
  | dequeuing
  /-- Asleep in `tsqueue_dequeue`, or woken and not yet back in the critical section. -/
  | waiting
  /-- It has taken a warning and not counted it yet. -/
  | counting (w : Nat)
  | destroying (w : Nat)
  | returned
deriving DecidableEq, Repr

/-- Where `main` is, from the return of `dd_create` on. -/
inductive DestinationPc where
  /-- Before the exit event is created. -/
  | starting
  | waiting
  /-- About to open the count file. -/
  | opening
  /-- About to write the count. -/
  | writing
  /-- At the start of `dd_destroy`. -/
  | closing
  | joiningListener
  /-- About to enqueue NULL. -/
  | sending
  | joiningProcessor
  | destroying
  /-- `dd_destroy` has returned. -/
  | finished
deriving DecidableEq, Repr

/-- A data destination with its histories: the warnings decoded, the pointers counted and
those destroyed.  `countFile` is what was written to the count file. -/
structure Destination where
  inbox : Inbox Nat
  listenSock : ListenSock
  exitEvent : Option Bool
  listener : ReceiverPc
  processor : ProcessorPc
  main : DestinationPc
  warningCount : UInt32
  decoded : List Warning
  counted : List Nat
  destroyed : List Nat
  countFile : Option Int
deriving DecidableEq, Repr

/-- The data destination when `dd_create` has created its threads. -/
def Destination.init : Destination where
  inbox := .create
  listenSock := .unset
  exitEvent := none
  listener := .opening
  processor := .dequeuing
  main := .starting
  warningCount := 0
  decoded := []
  counted := []
  destroyed := []
  countFile := none

/-- A step of the listener. -/
inductive ReceiverStep where
  /-- It calls `socket`, `bind` and `listen`. -/
  | socket (ok : Bool)
  | accept (ok : Bool)
  /-- `deserialize_warning` returns. -/
  | receive (w : Option Warning)
  | enqueue (alloc : Bool)
deriving DecidableEq, Repr

/-- A step of the processor. -/
inductive ProcessorStep where
  | dequeue
  | resume
  | spurious
  | count
  | destroy
deriving DecidableEq, Repr

/-- A step of `main`. -/
inductive DestinationStep where
  | createEvent (ok : Bool)
  | wake
  | openFile (ok : Bool)
  | writeCount
  | closeListener
  | joinListener
  | sentinel (alloc : Bool)
  | joinProcessor
  | destroyQueue
deriving DecidableEq, Repr

/-- A step of the data destination.  `signal` is a call of `console_handler`. -/
inductive DestinationAction where
  | signal
  | listener (k : ReceiverStep)
  | processor (k : ProcessorStep)
  | main (k : DestinationStep)
deriving DecidableEq, Repr

/-- `listener_fn`.  The result of `tsqueue_enqueue` is not looked at. -/
def Destination.listenerFn (s : Destination) : ReceiverStep → Option Destination
  | .socket ok =>
      if s.listener = .opening then
        some { s with listener := .accepting, listenSock := if ok then .listening else .closed }
      else none
  | .accept ok =>
      if s.listener = .accepting ∧ (ok = true → s.listenSock = .listening) then
        some { s with listener := if ok then .receiving else .returned }
      else none
  | .receive none => if s.listener = .receiving then some { s with listener := .accepting } else none
  | .receive (some w) =>
      if s.listener = .receiving then
        some { s with listener := .enqueuing s.decoded.length, decoded := s.decoded ++ [w] }
      else none
  | .enqueue alloc =>
      match s.listener with
      | .enqueuing w =>
          (s.inbox.enqueue (some w) alloc).map fun inbox => { s with inbox, listener := .receiving }
      | _ => none

/-- What the processor does with what a stay in `tsqueue_dequeue` gave it. -/
def Destination.takes (s : Destination) : Inbox Nat × Option (Option Nat) → Destination
  | (inbox, none) => { s with inbox, processor := .waiting }
  | (inbox, some none) => { s with inbox, processor := .returned }
  | (inbox, some (some w)) => { s with inbox, processor := .counting w }

/-- `processor_fn`. -/
def Destination.processorFn (s : Destination) : ProcessorStep → Option Destination
  | .dequeue => if s.processor = .dequeuing then s.inbox.take.map s.takes else none
  | .resume => if s.processor = .waiting then s.inbox.resume.map s.takes else none
  | .spurious =>
      if s.processor = .waiting then s.inbox.spurious.map fun inbox => { s with inbox } else none
  | .count =>
      match s.processor with
      | .counting w =>
          some { s with
            processor := .destroying w
            warningCount := s.warningCount + 1
            counted := s.counted ++ [w] }
      | _ => none
  | .destroy =>
      match s.processor with
      | .destroying w => some { s with processor := .dequeuing, destroyed := s.destroyed ++ [w] }
      | _ => none

/-- `main` and `dd_destroy`. -/
def Destination.control (s : Destination) : DestinationStep → Option Destination
  | .createEvent ok =>
      if s.main = .starting then
        some { s with
          exitEvent := if ok then some false else none
          main := if ok then .waiting else .closing }
      else none
  | .wake =>
      if s.main = .waiting ∧ s.exitEvent = some true then some { s with main := .opening } else none
  | .openFile ok =>
      if s.main = .opening then some { s with main := if ok then .writing else .closing } else none
  | .writeCount =>
      if s.main = .writing then
        some { s with main := .closing, countFile := some (intOfU32 s.warningCount) }
      else none
  | .closeListener =>
      if s.main = .closing then
        some { s with
          main := .joiningListener
          listenSock := if s.listenSock = .unset then .unset else .closed }
      else none
  | .joinListener =>
      if s.main = .joiningListener ∧ s.listener = .returned then some { s with main := .sending }
      else none
  | .sentinel alloc =>
      if s.main = .sending then
        (s.inbox.enqueue none alloc).map fun inbox => { s with inbox, main := .joiningProcessor }
      else none
  | .joinProcessor =>
      if s.main = .joiningProcessor ∧ s.processor = .returned then
        some { s with main := .destroying }
      else none
  | .destroyQueue =>
      if s.main = .destroying then
        some { s with main := .finished, destroyed := s.destroyed ++ tsqueueDestroy s.inbox.queue }
      else none

/-- One step. -/
def Destination.step (s : Destination) : DestinationAction → Option Destination
  | .signal => s.exitEvent.map fun _ => { s with exitEvent := some true }
  | .listener k => s.listenerFn k
  | .processor k => s.processorFn k
  | .main k => s.control k

/-! ## The invariant -/

/-- The processor is inside a call of `tsqueue_dequeue`. -/
def ProcessorPc.isWaiting : ProcessorPc → Bool
  | .waiting => true
  | _ => false

/-- What the processor has taken and not counted yet. -/
def ProcessorPc.uncounted : ProcessorPc → List Nat
  | .counting w => [w]
  | _ => []

/-- What the processor has counted and not destroyed yet. -/
def ProcessorPc.owed : ProcessorPc → List Nat
  | .destroying w => [w]
  | _ => []

@[simp] theorem ProcessorPc.uncounted_returned : ProcessorPc.returned.uncounted = [] := rfl

@[simp] theorem ProcessorPc.owed_returned : ProcessorPc.returned.owed = [] := rfl

/-- `main` has joined the listener. -/
def DestinationPc.joinedListener : DestinationPc → Bool
  | .sending | .joiningProcessor | .destroying | .finished => true
  | _ => false

/-- `main` has called `tsqueue_enqueue` with NULL. -/
def DestinationPc.closed : DestinationPc → Bool
  | .joiningProcessor | .destroying | .finished => true
  | _ => false

/-- `main` has joined the processor. -/
def DestinationPc.joinedProcessor : DestinationPc → Bool
  | .destroying | .finished => true
  | _ => false

/-- What holds in every reachable state. -/
structure Destination.Inv (s : Destination) : Prop where
  ok : s.inbox.Ok s.processor.isWaiting
  removed : s.inbox.removed = (s.counted ++ s.processor.uncounted).map some ++
    if s.processor = .returned then [none] else []
  count : s.warningCount = UInt32.ofNat s.counted.length
  destroyed_eq : s.destroyed ++ s.processor.owed = s.counted ++
    if s.main = .finished then tsqueueDestroy s.inbox.queue else []
  listener_joined : s.main.joinedListener = true → s.listener = .returned
  processor_joined : s.main.joinedProcessor = true → s.processor = .returned

theorem Destination.init_inv : Destination.init.Inv where
  ok := Inbox.create_ok
  removed := rfl
  count := rfl
  destroyed_eq := rfl
  listener_joined h := by cases h
  processor_joined h := by cases h

variable {s s' : Destination}

/-- `main` destroys the queue only after the processor has ended. -/
theorem Destination.Inv.main_ne (h : s.Inv) (hne : s.processor ≠ .returned) :
    s.main ≠ .finished := by
  intro hm
  exact hne (h.processor_joined (by rw [hm]; rfl))

/-- A step of the listener, which has not returned. -/
theorem Destination.Inv.listenerFn (h : s.Inv) {k : ReceiverStep}
    (hs : s.listenerFn k = some s') : s'.Inv := by
  have hjoined (hne : s.listener ≠ .returned) {pc : ReceiverPc}
      (hm : s.main.joinedListener = true) : pc = .returned :=
    absurd (h.listener_joined hm) hne
  cases k with
  | socket ok =>
      obtain ⟨hpc, rfl⟩ := Option.ite_some_none_eq_some.mp hs
      exact { h with listener_joined := hjoined (by rw [hpc]; simp) }
  | accept ok =>
      obtain ⟨⟨hpc, _⟩, rfl⟩ := Option.ite_some_none_eq_some.mp hs
      exact { h with listener_joined := hjoined (by rw [hpc]; simp) }
  | receive w =>
      cases w with
      | none =>
          obtain ⟨hpc, rfl⟩ := Option.ite_some_none_eq_some.mp hs
          exact { h with listener_joined := hjoined (by rw [hpc]; simp) }
      | some w =>
          obtain ⟨hpc, rfl⟩ := Option.ite_some_none_eq_some.mp hs
          exact { h with listener_joined := hjoined (by rw [hpc]; simp) }
  | enqueue alloc =>
      rw [Destination.listenerFn] at hs
      split at hs
      next w hpc =>
          obtain ⟨inbox, hin, rfl⟩ := Option.map_eq_some_iff.mp hs
          have hne : s.listener ≠ .returned := by rw [hpc]; simp
          have hmain : s.main ≠ .finished := by
            intro hm
            exact hne (h.listener_joined (by rw [hm]; rfl))
          have hold := h.destroyed_eq
          rw [if_neg hmain] at hold
          exact
            { h with
              ok := h.ok.enqueue hin
              removed := (h.ok.enqueue_frame hin).1.trans h.removed
              destroyed_eq := by rw [if_neg hmain]; exact hold
              listener_joined := hjoined hne }
      next => cases hs

/-- A step of the processor, which has not returned. -/
theorem Destination.Inv.processor (h : s.Inv) (hne : s.processor ≠ .returned) {inbox : Inbox Nat}
    {pc : ProcessorPc} {warningCount : UInt32} {counted destroyed : List Nat}
    (hok : inbox.Ok pc.isWaiting)
    (hremoved : inbox.removed = (counted ++ pc.uncounted).map some ++
      if pc = .returned then [none] else [])
    (hcount : warningCount = UInt32.ofNat counted.length)
    (hdestroyed : destroyed ++ pc.owed = counted) :
    { s with inbox, processor := pc, warningCount, counted, destroyed }.Inv :=
  { h with
    ok := hok
    removed := hremoved
    count := hcount
    destroyed_eq := by rw [if_neg (h.main_ne hne), List.append_nil]; exact hdestroyed
    processor_joined := fun hm => absurd (h.processor_joined hm) hne }

/-- What holds while the processor is at a place before its return. -/
theorem Destination.Inv.processor_at (h : s.Inv) {pc : ProcessorPc} (hpc : s.processor = pc)
    (hpc' : pc ≠ .returned) : s.processor ≠ .returned ∧ s.inbox.Ok pc.isWaiting ∧
      s.inbox.removed = (s.counted ++ pc.uncounted).map some ∧
      s.destroyed ++ pc.owed = s.counted := by
  subst hpc
  refine ⟨hpc', h.ok, ?_, ?_⟩
  · rw [h.removed, if_neg hpc', List.append_nil]
  · rw [h.destroyed_eq, if_neg (h.main_ne hpc'), List.append_nil]

/-- What the processor does with what it took. -/
theorem Destination.Inv.takes (h : s.Inv) (hne : s.processor ≠ .returned)
    (hremoved : s.inbox.removed = s.counted.map some) (hdestroyed : s.destroyed = s.counted)
    {r : Inbox Nat × Option (Option Nat)} (hr : s.inbox.Took r) : (s.takes r).Inv := by
  cases hr with
  | asleep _ hok _ hrem _ =>
      refine h.processor hne hok ?_ h.count ?_
      · simp [hrem, hremoved, ProcessorPc.uncounted]
      · simp [hdestroyed, ProcessorPc.owed]
  | @item inbox data _ hok _ hrem =>
      cases data with
      | none =>
          refine h.processor hne hok ?_ h.count ?_
          · simp [hrem, hremoved, ProcessorPc.uncounted]
          · simp [hdestroyed, ProcessorPc.owed]
      | some w =>
          refine h.processor hne hok ?_ h.count ?_
          · simp [hrem, hremoved, ProcessorPc.uncounted]
          · simp [hdestroyed, ProcessorPc.owed]

theorem Destination.Inv.processorFn (h : s.Inv) {k : ProcessorStep}
    (hs : s.processorFn k = some s') : s'.Inv := by
  cases k with
  | dequeue =>
      obtain ⟨hpc, hs⟩ := Option.ite_none_right_eq_some.mp hs
      obtain ⟨r, hr, rfl⟩ := Option.map_eq_some_iff.mp hs
      obtain ⟨hne, hok, hremoved, hdestroyed⟩ := h.processor_at hpc (by simp)
      simp only [ProcessorPc.uncounted, ProcessorPc.owed, List.append_nil] at hremoved hdestroyed
      exact h.takes hne hremoved hdestroyed (hok.take hr)
  | resume =>
      obtain ⟨hpc, hs⟩ := Option.ite_none_right_eq_some.mp hs
      obtain ⟨r, hr, rfl⟩ := Option.map_eq_some_iff.mp hs
      obtain ⟨hne, hok, hremoved, hdestroyed⟩ := h.processor_at hpc (by simp)
      simp only [ProcessorPc.uncounted, ProcessorPc.owed, List.append_nil] at hremoved hdestroyed
      exact h.takes hne hremoved hdestroyed (hok.resume hr)
  | spurious =>
      obtain ⟨hpc, hs⟩ := Option.ite_none_right_eq_some.mp hs
      obtain ⟨inbox, hin, rfl⟩ := Option.map_eq_some_iff.mp hs
      obtain ⟨hne, hok, hremoved, hdestroyed⟩ := h.processor_at hpc (by simp)
      obtain ⟨hok', _, hrem, _⟩ := hok.spurious hin
      rw [← hpc] at hremoved hdestroyed
      have hwaiting : inbox.Ok s.processor.isWaiting := by
        rw [hpc]
        exact hok'
      refine h.processor hne hwaiting ?_ h.count hdestroyed
      rw [hrem, if_neg hne, List.append_nil, hremoved]
  | count =>
      rw [Destination.processorFn] at hs
      split at hs
      next w hpc =>
          rw [Option.some.injEq] at hs
          subst hs
          obtain ⟨hne, hok, hremoved, hdestroyed⟩ := h.processor_at hpc (by simp)
          refine h.processor hne hok ?_ ?_ ?_
          · simpa [ProcessorPc.uncounted] using hremoved
          · rw [h.count, List.length_append, List.length_singleton, UInt32.ofNat_add]
            rfl
          · simpa [ProcessorPc.owed] using hdestroyed
      next => cases hs
  | destroy =>
      rw [Destination.processorFn] at hs
      split at hs
      next w hpc =>
          rw [Option.some.injEq] at hs
          subst hs
          obtain ⟨hne, hok, hremoved, hdestroyed⟩ := h.processor_at hpc (by simp)
          refine h.processor hne hok ?_ h.count ?_
          · simpa [ProcessorPc.uncounted] using hremoved
          · simpa [ProcessorPc.owed] using hdestroyed
      next => cases hs

/-- A step of `main` before the queue is destroyed. -/
theorem Destination.Inv.control_open (h : s.Inv) (hne : s.main ≠ .finished) {inbox : Inbox Nat}
    {pc : DestinationPc} (listenSock : ListenSock) (exitEvent : Option Bool)
    (countFile : Option Int) (hpc : pc ≠ .finished) (hok : inbox.Ok s.processor.isWaiting)
    (hremoved : inbox.removed = s.inbox.removed)
    (hlistener : pc.joinedListener = true → s.listener = .returned)
    (hprocessor : pc.joinedProcessor = true → s.processor = .returned) :
    { s with inbox, main := pc, listenSock, exitEvent, countFile }.Inv where
  ok := hok
  removed := hremoved.trans h.removed
  count := h.count
  destroyed_eq := by
    have hold := h.destroyed_eq
    rw [if_neg hne] at hold
    rw [if_neg hpc]
    exact hold
  listener_joined := hlistener
  processor_joined := hprocessor

theorem Destination.Inv.control (h : s.Inv) {k : DestinationStep}
    (hs : s.control k = some s') : s'.Inv := by
  cases k with
  | createEvent ok =>
      obtain ⟨hpc, rfl⟩ := Option.ite_some_none_eq_some.mp hs
      cases ok <;>
        exact h.control_open (by simp [hpc]) s.listenSock _ s.countFile (by simp) h.ok rfl nofun nofun
  | wake =>
      obtain ⟨⟨hpc, _⟩, rfl⟩ := Option.ite_some_none_eq_some.mp hs
      exact h.control_open (by simp [hpc]) s.listenSock s.exitEvent s.countFile (by simp) h.ok rfl
        nofun nofun
  | openFile ok =>
      obtain ⟨hpc, rfl⟩ := Option.ite_some_none_eq_some.mp hs
      cases ok <;>
        exact h.control_open (by simp [hpc]) s.listenSock s.exitEvent s.countFile (by simp) h.ok rfl
          nofun nofun
  | writeCount =>
      obtain ⟨hpc, rfl⟩ := Option.ite_some_none_eq_some.mp hs
      exact h.control_open (by simp [hpc]) s.listenSock s.exitEvent _ (by simp) h.ok rfl nofun nofun
  | closeListener =>
      obtain ⟨hpc, rfl⟩ := Option.ite_some_none_eq_some.mp hs
      exact h.control_open (by simp [hpc]) _ s.exitEvent s.countFile (by simp) h.ok rfl nofun nofun
  | joinListener =>
      obtain ⟨⟨hpc, hret⟩, rfl⟩ := Option.ite_some_none_eq_some.mp hs
      exact h.control_open (by simp [hpc]) s.listenSock s.exitEvent s.countFile (by simp) h.ok rfl
        (fun _ => hret) nofun
  | sentinel alloc =>
      obtain ⟨hpc, hs⟩ := Option.ite_none_right_eq_some.mp hs
      obtain ⟨inbox, hin, rfl⟩ := Option.map_eq_some_iff.mp hs
      exact h.control_open (by simp [hpc]) s.listenSock s.exitEvent s.countFile (by simp)
        (h.ok.enqueue hin) (h.ok.enqueue_frame hin).1
        (fun _ => h.listener_joined (by rw [hpc]; rfl)) nofun
  | joinProcessor =>
      obtain ⟨⟨hpc, hret⟩, rfl⟩ := Option.ite_some_none_eq_some.mp hs
      exact h.control_open (by simp [hpc]) s.listenSock s.exitEvent s.countFile (by simp) h.ok rfl
        (fun _ => h.listener_joined (by rw [hpc]; rfl)) (fun _ => hret)
  | destroyQueue =>
      obtain ⟨hpc, rfl⟩ := Option.ite_some_none_eq_some.mp hs
      have hret := h.processor_joined (by rw [hpc]; rfl)
      have hold := h.destroyed_eq
      rw [hpc, if_neg (by simp), hret] at hold
      refine
        { h with
          destroyed_eq := ?_
          listener_joined := fun _ => h.listener_joined (by rw [hpc]; rfl)
          processor_joined := fun _ => hret }
      show (s.destroyed ++ tsqueueDestroy s.inbox.queue) ++ s.processor.owed = _
      simpa [hret, ProcessorPc.owed] using hold

/-- Every step keeps the invariant. -/
theorem Destination.Inv.step (h : s.Inv) {a : DestinationAction} (hs : s.step a = some s') :
    s'.Inv := by
  cases a with
  | signal =>
      obtain ⟨_, _, rfl⟩ := Option.map_eq_some_iff.mp hs
      exact { h with }
  | listener k => exact h.listenerFn hs
  | processor k => exact h.processorFn hs
  | main k => exact h.control hs

/-- The invariant holds in every reachable state. -/
theorem Destination.inv_of_reachable (h : Machine.Reachable Destination.step .init s) : s.Inv :=
  h.invariant Destination.init_inv fun _ _ _ hi hs => hi.step hs

/-! ## Runs without failing allocations -/

/-- Allocations succeed, and `dd_destroy` closes a socket that the listener has made. -/
def Destination.Regular (s : Destination) : DestinationAction → Prop
  | .listener (.enqueue alloc) => alloc = true
  | .main (.sentinel alloc) => alloc = true
  | .main .closeListener => s.listenSock ≠ .unset
  | _ => True

instance (s : Destination) : (a : DestinationAction) → Decidable (s.Regular a)
  | .listener (.enqueue _) => inferInstanceAs (Decidable (_ = _))
  | .main (.sentinel _) => inferInstanceAs (Decidable (_ = _))
  | .main .closeListener => inferInstanceAs (Decidable (_ ≠ _))
  | .signal => isTrue trivial
  | .processor _ => isTrue trivial
  | .listener (.socket _) | .listener (.accept _) | .listener (.receive _) => isTrue trivial
  | .main (.createEvent _) | .main .wake | .main (.openFile _) | .main .writeCount => isTrue trivial
  | .main .joinListener | .main .joinProcessor | .main .destroyQueue => isTrue trivial

/-- How many warnings the listener has enqueued. -/
def ReceiverPc.handed (decoded : Nat) : ReceiverPc → Nat
  | .enqueuing w => w
  | _ => decoded

@[simp] theorem ReceiverPc.handed_returned (decoded : Nat) :
    ReceiverPc.returned.handed decoded = decoded := rfl

/-- `main` is in `dd_destroy`, past the closing of the socket. -/
def DestinationPc.inDestroy : DestinationPc → Bool
  | .joiningListener | .sending | .joiningProcessor | .destroying | .finished => true
  | _ => false

/-- What holds besides in every state of such a run. -/
structure Destination.Full (s : Destination) : Prop extends s.Inv where
  enqueued : s.inbox.enqueued = numbered (s.listener.handed s.decoded.length) s.main.closed
  /-- The listener enqueues the last warning it decoded. -/
  last : ∀ w, s.listener = .enqueuing w → s.decoded.length = w + 1
  opened : s.listener = .opening → s.listenSock = .unset
  owned : s.main.inDestroy = true → s.listenSock ≠ .unset

theorem Destination.init_full : Destination.init.Full where
  toInv := Destination.init_inv
  enqueued := rfl
  last w hw := by cases hw
  opened _ := rfl
  owned h := by cases h

/-- NULL is enqueued only after the listener has returned. -/
theorem Destination.Inv.closed_eq (h : s.Inv) (hne : s.listener ≠ .returned) :
    s.main.closed = false := by
  cases hm : s.main with
  | joiningProcessor | destroying | finished =>
      exact absurd (h.listener_joined (by rw [hm]; rfl)) hne
  | starting | waiting | opening | writing | closing | joiningListener | sending => rfl

theorem Destination.Full.listenerFn (h : s.Full) {k : ReceiverStep}
    (hok : s.Regular (.listener k)) (hs : s.listenerFn k = some s') : s'.Full := by
  have hinv := h.toInv.listenerFn hs
  cases k with
  | socket ok =>
      obtain ⟨hpc, rfl⟩ := Option.ite_some_none_eq_some.mp hs
      refine
        { toInv := hinv
          enqueued := by rw [h.enqueued, hpc]; rfl
          last := nofun
          opened := nofun
          owned := fun _ => by cases ok <;> simp }
  | accept ok =>
      obtain ⟨⟨hpc, _⟩, rfl⟩ := Option.ite_some_none_eq_some.mp hs
      refine
        { toInv := hinv
          enqueued := by rw [h.enqueued, hpc]; cases ok <;> rfl
          last := fun w hw => by cases ok <;> cases hw
          opened := fun hw => by cases ok <;> cases hw
          owned := h.owned }
  | receive w =>
      cases w with
      | none =>
          obtain ⟨hpc, rfl⟩ := Option.ite_some_none_eq_some.mp hs
          exact ⟨hinv, by rw [h.enqueued, hpc]; rfl, nofun, nofun, h.owned⟩
      | some w =>
          obtain ⟨hpc, rfl⟩ := Option.ite_some_none_eq_some.mp hs
          refine ⟨hinv, by rw [h.enqueued, hpc]; rfl, ?_, nofun, h.owned⟩
          intro v hv
          cases hv
          rw [List.length_append, List.length_singleton]
  | enqueue alloc =>
      cases (show alloc = true from hok)
      rw [Destination.listenerFn] at hs
      split at hs
      next w hpc =>
          obtain ⟨inbox, hin, rfl⟩ := Option.map_eq_some_iff.mp hs
          refine ⟨hinv, ?_, nofun, nofun, h.owned⟩
          rw [(h.ok.enqueued hin).1, h.enqueued, hpc, h.toInv.closed_eq (by rw [hpc]; simp)]
          show _ = numbered s.decoded.length false
          rw [h.last w hpc]
          exact (numbered_succ w).symm
      next => cases hs

/-- A call of the processor enqueues nothing. -/
theorem Inbox.Took.enqueued_eq {p : Inbox Nat} {r : Inbox Nat × Option (Option Nat)}
    (h : p.Took r) : r.1.enqueued = p.enqueued := by
  cases h with
  | asleep _ _ henq _ _ => exact henq
  | item _ _ henq _ => exact henq

/-- What a step of the processor does not change. -/
structure Destination.ProcessorFrame (s s' : Destination) : Prop where
  enqueued : s'.inbox.enqueued = s.inbox.enqueued
  listener : s'.listener = s.listener
  listenSock : s'.listenSock = s.listenSock
  main : s'.main = s.main
  decoded : s'.decoded = s.decoded
  countFile : s'.countFile = s.countFile

theorem Destination.takes_frame {r : Inbox Nat × Option (Option Nat)} (h : s.inbox.Took r) :
    s.ProcessorFrame (s.takes r) := by
  have henq := h.enqueued_eq
  match r with
  | (_, none) => exact ⟨henq, rfl, rfl, rfl, rfl, rfl⟩
  | (_, some none) => exact ⟨henq, rfl, rfl, rfl, rfl, rfl⟩
  | (_, some (some _)) => exact ⟨henq, rfl, rfl, rfl, rfl, rfl⟩

theorem Destination.Inv.processor_frame (h : s.Inv) {k : ProcessorStep}
    (hs : s.processorFn k = some s') : s.ProcessorFrame s' := by
  have hok := h.ok
  cases k with
  | dequeue =>
      obtain ⟨hpc, hs⟩ := Option.ite_none_right_eq_some.mp hs
      obtain ⟨r, hr, rfl⟩ := Option.map_eq_some_iff.mp hs
      rw [hpc] at hok
      exact Destination.takes_frame (hok.take hr)
  | resume =>
      obtain ⟨hpc, hs⟩ := Option.ite_none_right_eq_some.mp hs
      obtain ⟨r, hr, rfl⟩ := Option.map_eq_some_iff.mp hs
      rw [hpc] at hok
      exact Destination.takes_frame (hok.resume hr)
  | spurious =>
      obtain ⟨hpc, hs⟩ := Option.ite_none_right_eq_some.mp hs
      obtain ⟨inbox, hin, rfl⟩ := Option.map_eq_some_iff.mp hs
      rw [hpc] at hok
      exact ⟨(hok.spurious hin).2.1, rfl, rfl, rfl, rfl, rfl⟩
  | count =>
      rw [Destination.processorFn] at hs
      split at hs
      next =>
          rw [Option.some.injEq] at hs
          exact hs ▸ ⟨rfl, rfl, rfl, rfl, rfl, rfl⟩
      next => cases hs
  | destroy =>
      rw [Destination.processorFn] at hs
      split at hs
      next =>
          rw [Option.some.injEq] at hs
          exact hs ▸ ⟨rfl, rfl, rfl, rfl, rfl, rfl⟩
      next => cases hs

theorem Destination.Full.processorFn (h : s.Full) {k : ProcessorStep}
    (hs : s.processorFn k = some s') : s'.Full := by
  have hframe := h.toInv.processor_frame hs
  exact
    { toInv := h.toInv.processorFn hs
      enqueued := by
        rw [hframe.enqueued, hframe.listener, hframe.decoded, hframe.main]
        exact h.enqueued
      last := by rw [hframe.listener, hframe.decoded]; exact h.last
      opened := by rw [hframe.listener, hframe.listenSock]; exact h.opened
      owned := by rw [hframe.main, hframe.listenSock]; exact h.owned }

theorem Destination.Full.control (h : s.Full) {k : DestinationStep} (hok : s.Regular (.main k))
    (hs : s.control k = some s') : s'.Full := by
  have hinv := h.toInv.control hs
  cases k with
  | createEvent ok =>
      obtain ⟨hpc, rfl⟩ := Option.ite_some_none_eq_some.mp hs
      refine ⟨hinv, ?_, h.last, h.opened, ?_⟩
      · rw [h.enqueued, hpc]
        cases ok <;> rfl
      · cases ok <;> nofun
  | openFile ok =>
      obtain ⟨hpc, rfl⟩ := Option.ite_some_none_eq_some.mp hs
      refine ⟨hinv, ?_, h.last, h.opened, ?_⟩
      · rw [h.enqueued, hpc]
        cases ok <;> rfl
      · cases ok <;> nofun
  | wake =>
      obtain ⟨⟨hpc, _⟩, rfl⟩ := Option.ite_some_none_eq_some.mp hs
      exact ⟨hinv, by rw [h.enqueued, hpc]; rfl, h.last, h.opened, nofun⟩
  | writeCount =>
      obtain ⟨hpc, rfl⟩ := Option.ite_some_none_eq_some.mp hs
      exact ⟨hinv, by rw [h.enqueued, hpc]; rfl, h.last, h.opened, nofun⟩
  | closeListener =>
      obtain ⟨hpc, rfl⟩ := Option.ite_some_none_eq_some.mp hs
      have hset : s.listenSock ≠ .unset := hok
      refine ⟨hinv, by rw [h.enqueued, hpc]; rfl, h.last, fun hl => absurd (h.opened hl) hset, ?_⟩
      intro _
      rw [if_neg hset]
      simp
  | joinListener =>
      obtain ⟨⟨hpc, _⟩, rfl⟩ := Option.ite_some_none_eq_some.mp hs
      exact ⟨hinv, by rw [h.enqueued, hpc]; rfl, h.last, h.opened,
        fun _ => h.owned (by rw [hpc]; rfl)⟩
  | sentinel alloc =>
      cases (show alloc = true from hok)
      obtain ⟨hpc, hs⟩ := Option.ite_none_right_eq_some.mp hs
      obtain ⟨inbox, hin, rfl⟩ := Option.map_eq_some_iff.mp hs
      refine ⟨hinv, ?_, h.last, h.opened, fun _ => h.owned (by rw [hpc]; rfl)⟩
      rw [(h.ok.enqueued hin).1, h.enqueued, hpc]
      exact (numbered_close _).symm
  | joinProcessor =>
      obtain ⟨⟨hpc, _⟩, rfl⟩ := Option.ite_some_none_eq_some.mp hs
      exact ⟨hinv, by rw [h.enqueued, hpc]; rfl, h.last, h.opened,
        fun _ => h.owned (by rw [hpc]; rfl)⟩
  | destroyQueue =>
      obtain ⟨hpc, rfl⟩ := Option.ite_some_none_eq_some.mp hs
      exact ⟨hinv, by rw [h.enqueued, hpc]; rfl, h.last, h.opened,
        fun _ => h.owned (by rw [hpc]; rfl)⟩

/-- Every step of a regular run keeps it. -/
theorem Destination.Full.step (h : s.Full) {a : DestinationAction} (hok : s.Regular a)
    (hs : s.step a = some s') : s'.Full := by
  cases a with
  | signal =>
      obtain ⟨_, _, rfl⟩ := Option.map_eq_some_iff.mp hs
      exact { h with }
  | listener k => exact h.listenerFn hok hs
  | processor k => exact h.processorFn hs
  | main k => exact h.control hok hs

theorem Destination.full_of_run {as : List DestinationAction}
    (h : Machine.Run Destination.step Destination.Regular .init as s) : s.Full :=
  h.invariant Destination.init_full fun _ _ _ hf hok hs => hf.step hok hs

/-! ## Draining -/

/-- What the processor has taken are the first warnings decoded. -/
theorem Destination.Full.taken_eq (h : s.Full) :
    numbered (s.counted ++ s.processor.uncounted).length false =
      (s.counted ++ s.processor.uncounted).map some := by
  have hfifo := h.ok.fifo
  rw [h.enqueued, h.removed, List.append_assoc] at hfifo
  have htaken := numbered_taken hfifo
  rw [numbered, ← htaken, if_neg Bool.false_ne_true, List.append_nil]

/-- Once the processor has returned, nothing is queued. -/
theorem Destination.Full.drained (h : s.Full) (hret : s.processor = .returned) :
    s.main.closed = true ∧ s.counted.length = s.listener.handed s.decoded.length ∧
      s.inbox.queue.inner = [] := by
  have htaken := h.taken_eq
  have hfifo := h.ok.fifo
  rw [h.enqueued, h.removed, if_pos hret, ← htaken, ← numbered_close] at hfifo
  obtain ⟨hlen, hclosed, hnil⟩ := numbered_closed hfifo
  rw [hret, ProcessorPc.uncounted_returned, List.append_nil] at hlen
  exact ⟨hclosed, hlen, hnil⟩

/-- A processor that has not returned after NULL was enqueued has something to take. -/
theorem Destination.Full.inner_ne_nil (h : s.Full) (hclosed : s.main.closed = true)
    (hne : s.processor ≠ .returned) : s.inbox.queue.inner ≠ [] := by
  have hfifo := h.ok.fifo
  rw [h.enqueued, hclosed, h.removed, if_neg hne, List.append_nil, ← h.taken_eq] at hfifo
  exact numbered_left hfifo

def ReceiverPc.left : ReceiverPc → Nat
  | .returned => 0
  | .accepting => 1
  | .receiving => 2
  | .enqueuing _ => 7
  | .opening => 8

def ProcessorPc.left : ProcessorPc → Nat
  | .returned => 0
  | .dequeuing | .waiting => 1
  | .destroying _ => 2
  | .counting _ => 3

def DestinationPc.left : DestinationPc → Nat
  | .finished => 0
  | .destroying => 1
  | .joiningProcessor => 2
  | .sending => 7
  | .joiningListener => 8
  | _ => 9

/-- A bound on the steps to the return of `dd_destroy` if no warning is decoded any more. -/
def Destination.left (s : Destination) : Nat :=
  s.main.left + s.listener.left + s.processor.left + 4 * s.inbox.queue.inner.length

/-- A step that is taken in a regular run and brings `dd_destroy` nearer to its return. -/
def Destination.Advances (s : Destination) : Prop :=
  ∃ a s', s.Regular a ∧ s.step a = some s' ∧ s'.left < s.left

/-- Taking an item brings the processor nearer to its return. -/
theorem Destination.left_takes {r : Inbox Nat × Option (Option Nat)}
    (hne : s.inbox.queue.inner ≠ []) (hpc : s.processor.left = 1) (hr : s.inbox.Took r) :
    (s.takes r).left < s.left := by
  cases hr with
  | asleep hnil _ _ _ _ => exact absurd hnil hne
  | @item inbox data hcons _ _ _ =>
      have hlen := congrArg List.length hcons
      rw [List.length_cons] at hlen
      cases data with
      | none =>
          show s.main.left + s.listener.left + 0 + 4 * inbox.queue.inner.length < _
          rw [Destination.left]
          omega
      | some w =>
          show s.main.left + s.listener.left + 3 + 4 * inbox.queue.inner.length < _
          rw [Destination.left]
          omega

/-- The listener can always bring itself nearer to its return once its socket is closed. -/
theorem Destination.Full.listener_advances (h : s.Full) (hsock : s.listenSock ≠ .unset)
    (hne : s.listener ≠ .returned) : s.Advances := by
  cases hpc : s.listener with
  | opening => exact absurd (h.opened hpc) hsock
  | returned => exact absurd hpc hne
  | accepting =>
      refine ⟨.listener (.accept false), { s with listener := .returned }, trivial, ?_, ?_⟩
      · simp [Destination.step, Destination.listenerFn, hpc]
      · simp [Destination.left, hpc, ReceiverPc.left]
  | receiving =>
      refine ⟨.listener (.receive none), { s with listener := .accepting }, trivial, ?_, ?_⟩
      · simp [Destination.step, Destination.listenerFn, hpc]
      · simp [Destination.left, hpc, ReceiverPc.left]
  | enqueuing w =>
      obtain ⟨inbox, hin⟩ := Option.isSome_iff_exists.mp (h.ok.enqueue_enabled (some w) true)
      refine ⟨.listener (.enqueue true), { s with inbox, listener := .receiving }, rfl, ?_, ?_⟩
      · simp [Destination.step, Destination.listenerFn, hpc, hin]
      · simp only [Destination.left, (h.ok.enqueue_frame hin).2, hpc, ReceiverPc.left, if_true,
          List.length_append, List.length_singleton]
        omega

/-- The processor can always bring itself nearer to its return once NULL was enqueued. -/
theorem Destination.Full.processor_advances (h : s.Full) (hclosed : s.main.closed = true)
    (hret : s.processor ≠ .returned) : s.Advances := by
  have hne := h.inner_ne_nil hclosed hret
  have hok := h.ok
  cases hpc : s.processor with
  | returned => exact absurd hpc hret
  | dequeuing =>
      rw [hpc] at hok
      obtain ⟨r, hr⟩ := Option.isSome_iff_exists.mp hok.take_enabled
      refine ⟨.processor .dequeue, s.takes r, trivial, ?_, ?_⟩
      · simp [Destination.step, Destination.processorFn, hpc, hr]
      · exact Destination.left_takes hne (by rw [hpc]; rfl) (hok.take hr)
  | waiting =>
      rw [hpc] at hok
      obtain ⟨r, hr⟩ := Option.isSome_iff_exists.mp (hok.resume_enabled hne)
      refine ⟨.processor .resume, s.takes r, trivial, ?_, ?_⟩
      · simp [Destination.step, Destination.processorFn, hpc, hr]
      · exact Destination.left_takes hne (by rw [hpc]; rfl) (hok.resume hr)
  | counting w =>
      refine ⟨.processor .count, { s with
          processor := .destroying w
          warningCount := s.warningCount + 1
          counted := s.counted ++ [w] }, trivial, ?_, ?_⟩
      · simp [Destination.step, Destination.processorFn, hpc]
      · simp [Destination.left, hpc, ProcessorPc.left]
  | destroying w =>
      refine ⟨.processor .destroy,
        { s with processor := .dequeuing, destroyed := s.destroyed ++ [w] }, trivial, ?_, ?_⟩
      · simp [Destination.step, Destination.processorFn, hpc]
      · simp [Destination.left, hpc, ProcessorPc.left]

/-- `dd_destroy` is never stuck once it has closed the socket. -/
theorem Destination.Full.advances (h : s.Full) (hd : s.main.inDestroy = true)
    (hne : s.main ≠ .finished) : s.Advances := by
  cases hpc : s.main with
  | finished => exact absurd hpc hne
  | starting | waiting | opening | writing | closing =>
      rw [hpc] at hd
      cases hd
  | joiningListener =>
      by_cases hret : s.listener = .returned
      · refine ⟨.main .joinListener, { s with main := .sending }, trivial, ?_, ?_⟩
        · simp [Destination.step, Destination.control, hpc, hret]
        · simp [Destination.left, hpc, DestinationPc.left]
      · exact h.listener_advances (h.owned hd) hret
  | sending =>
      obtain ⟨inbox, hin⟩ := Option.isSome_iff_exists.mp (h.ok.enqueue_enabled none true)
      refine ⟨.main (.sentinel true), { s with inbox, main := .joiningProcessor }, rfl, ?_, ?_⟩
      · simp [Destination.step, Destination.control, hpc, hin]
      · simp only [Destination.left, (h.ok.enqueue_frame hin).2, hpc, DestinationPc.left, if_true,
          List.length_append, List.length_singleton]
        omega
  | joiningProcessor =>
      by_cases hret : s.processor = .returned
      · refine ⟨.main .joinProcessor, { s with main := .destroying }, trivial, ?_, ?_⟩
        · simp [Destination.step, Destination.control, hpc, hret]
        · simp [Destination.left, hpc, DestinationPc.left]
      · exact h.processor_advances (by rw [hpc]; rfl) hret
  | destroying =>
      refine ⟨.main .destroyQueue,
        { s with main := .finished, destroyed := s.destroyed ++ tsqueueDestroy s.inbox.queue },
        trivial, ?_, ?_⟩
      · simp [Destination.step, Destination.control, hpc]
      · simp [Destination.left, hpc, DestinationPc.left]

/-- In every run in which allocations succeed and `dd_destroy` is called once the listener
has its socket: when `dd_destroy` has returned, the processor has counted exactly the
warnings decoded, once each and in order.  The counter is their number if that is an
`int`.  Each was destroyed once.  What was ever enqueued are the warnings and one NULL
after them, and all of it was taken.  Until then `dd_destroy` can always get nearer to its
return. -/
theorem destination_drains {as : List DestinationAction}
    (h : Machine.Run Destination.step Destination.Regular .init as s) :
    (s.main = .finished →
      s.counted = List.range s.decoded.length ∧
      (s.decoded.length < 2 ^ 31 → intOfU32 s.warningCount = s.decoded.length) ∧
      s.destroyed = s.counted ∧ (∀ w, w < s.decoded.length → s.destroyed.count w = 1) ∧
      s.inbox.enqueued = s.counted.map some ++ [none] ∧
      s.inbox.removed = s.inbox.enqueued ∧ s.inbox.queue.inner = []) ∧
    (s.main.inDestroy = true → s.main ≠ .finished → s.Advances) := by
  have hfull := Destination.full_of_run h
  refine ⟨?_, hfull.advances⟩
  intro hfin
  have hret := hfull.processor_joined (by rw [hfin]; rfl)
  have hlret := hfull.listener_joined (by rw [hfin]; rfl)
  obtain ⟨_, hlen, hnil⟩ := hfull.drained hret
  rw [hlret, ReceiverPc.handed_returned] at hlen
  have hremoved := hfull.removed
  have hdestroyed := hfull.destroyed_eq
  have hcounted := hfull.taken_eq
  rw [hret, ProcessorPc.uncounted_returned, List.append_nil] at hremoved hcounted
  rw [hret, if_pos hfin, tsqueueDestroy, hnil, ProcessorPc.owed_returned, List.append_nil] at hdestroyed
  have hrange : s.counted = List.range s.decoded.length := by
    rw [← List.append_nil (s.counted.map some)] at hcounted
    rw [← hlen]
    exact numbered_taken hcounted
  have henq : s.inbox.removed = s.inbox.enqueued := by
    rw [hfull.ok.fifo, hnil, List.append_nil]
  have hdes : s.destroyed = s.counted := by simpa using hdestroyed
  refine ⟨hrange, ?_, hdes, ?_, ?_, henq, hnil⟩
  · intro hlt
    have hcount : s.warningCount.toNat = s.decoded.length := by
      rw [hfull.count, hlen]
      exact UInt32.toNat_ofNat_of_lt' (by show _ < 2 ^ 32; omega)
    rw [intOfU32_of_lt (by omega), hcount]
  · intro w hw
    rw [hdes, hrange]
    exact List.count_eq_one_of_mem List.nodup_range (List.mem_range.mpr hw)
  · rw [← henq, hremoved, if_pos rfl]

/-- A warning from the city `B` for the node `B`. -/
def warningB (timestamp : UInt64) : Warning where
  city := strdup [66, 0]
  type := 1
  value := 0x4045000000000000
  timestamp
  destNode := strdup [66, 0]

/-- A run with two clients.  The first warning is queued when `main` writes the count, and
the second is decoded after that. -/
def lateRun : List DestinationAction :=
  [.main (.createEvent true), .processor .dequeue, .listener (.socket true),
    .listener (.accept true), .listener (.receive (some (warningB 1700000000))),
    .listener (.enqueue true), .signal, .main .wake, .main (.openFile true), .main .writeCount,
    .processor .resume, .listener (.receive none), .listener (.accept true), .processor .count,
    .main .closeListener, .listener (.receive (some (warningB 1700000001))), .processor .destroy,
    .listener (.enqueue true), .listener (.receive none), .listener (.accept false),
    .main .joinListener, .main (.sentinel true), .processor .dequeue, .processor .count,
    .processor .destroy, .processor .dequeue, .main .joinProcessor, .main .destroyQueue]

/-- The state that run leads to. -/
def lateEnd : Destination where
  inbox :=
    { queue := { inner := [], capacity := 0, cvNotEmpty := {}, cvNotFull := {} }
      enqueued := [some 0, some 1, none]
      removed := [some 0, some 1, none] }
  listenSock := .closed
  exitEvent := some true
  listener := .returned
  processor := .returned
  main := .finished
  warningCount := 2
  decoded := [warningB 1700000000, warningB 1700000001]
  counted := [0, 1]
  destroyed := [0, 1]
  countFile := some 0

theorem destination_drains_late : lateEnd.counted = List.range 2 ∧ lateEnd.destroyed.count 1 = 1 := by
  have hrun : Machine.execWhere Destination.step Destination.Regular .init lateRun = some lateEnd := by
    decide +kernel
  obtain ⟨hcounted, _, _, hdestroyed, _⟩ := (destination_drains (Machine.execWhere_run hrun)).1 rfl
  exact ⟨hcounted, hdestroyed 1 (by decide)⟩

end DataPropagator
