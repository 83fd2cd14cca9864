import DataPropagator.Common.PropagatorConnections
import DataPropagator.DataDestination.Draining

/-!
# The start of the listener

`dd_create`, the first lines of `listener_fn` and `dd_destroy` with the handle in the
context.  The context comes from `malloc`, so that `listen_sock` has an arbitrary value until
the listener stores its socket there, and `dd_destroy` closes whatever it finds.

The listener creates the socket and stores it in two steps.  What it does after `listen`,
the processor and `main` are those of `Destination`, and every run here is one of
`Destination` when only the states of its parts are looked at.

The listener's socket is the only one that the model follows: as long as the field has its
first value, the process has no other.  When `dd_create` returns NULL, `main` returns, and
the run is not continued.
-/

namespace DataPropagator

open Machine

/-! ## The system -/

/-- Where `dd_create` is. -/
inductive CreatePc where
  /-- About to create the thread of the listener. -/
  | listenerThread
  | processorThread
  | returned
  /-- It has returned NULL. -/
  | failed
deriving DecidableEq, Repr

/-- Where the listener is in its first lines, with the result of `socket`. -/
inductive StartPc where
  | creating
  /-- About to store the socket in the context. -/
  | storing (h : Socket)
  | binding (h : Socket)
  /-- About to call `listen` on a socket that was bound or not. -/
  | listening (h : Socket) (bound : Bool)
  /-- In the loop. -/
  | started (h : Socket)
deriving DecidableEq, Repr

/-- What `socket` returned to the listener. -/
def StartPc.handle : StartPc → Option Socket
  | .creating => none
  | .storing h | .binding h | .listening h _ | .started h => some h

/-- The listener has stored its socket. -/
def StartPc.stored : StartPc → Bool
  | .creating | .storing _ => false
  | _ => true

/-- A data destination with the handle in its context.  `isOpen` says that the socket of the
listener is open, and `closed` is what `dd_destroy` has called `closesocket` on. -/
structure Startup where
  base : Destination
  create : CreatePc
  start : StartPc
  listenSock : Socket
  isOpen : Bool
  closed : Option Socket
deriving DecidableEq, Repr

/-- When `dd_create` is about to create its threads.  `garbage` is what the block of the
context held. -/
def Startup.init (garbage : Socket) : Startup where
  base := .init
  create := .listenerThread
  start := .creating
  listenSock := garbage
  isOpen := false
  closed := none

/-- A step of the listener up to its loop. -/
inductive StartStep where
  /-- `socket` returns a new handle or `INVALID_SOCKET`. -/
  | socket (h : Socket)
  | store
  | bind (ok : Bool)
  | listen (ok : Bool)
deriving DecidableEq, Repr

/-- A step of the data destination from `dd_create` on. -/
inductive StartupAction where
  /-- A call of `CreateThread`. -/
  | createThread (ok : Bool)
  | signal
  | start (k : StartStep)
  | listener (k : ReceiverStep)
  | processor (k : ProcessorStep)
  | main (k : DestinationStep)
deriving DecidableEq, Repr

/-- The handle in the context is the one that `socket` returned. -/
def Startup.HoldsSocket (s : Startup) : Prop := s.start.handle = some s.listenSock

instance (s : Startup) : Decidable s.HoldsSocket :=
  inferInstanceAs (Decidable (s.start.handle = some s.listenSock))

/-- `closesocket(ctx->listen_sock)`: the socket of the listener is open after it unless its
handle was closed. -/
def Startup.closesocket (s : Startup) : Bool := if s.HoldsSocket then false else s.isOpen

/-- The threads of `dd_create`. -/
def Startup.createThread (s : Startup) (ok : Bool) : Option Startup :=
  match s.create with
  | .listenerThread => some { s with create := if ok then .processorThread else .failed }
  | .processorThread =>
      if ok then some { s with create := .returned }
      else
        some { s with
          create := .failed
          isOpen := if s.listenSock ≠ invalidSocket then s.closesocket else s.isOpen }
  | _ => none

/-- `listener_fn` up to its loop.  `bind` and `listen` fail on a socket that is not open, and
`listen` on one that was not bound. -/
def Startup.startListener (s : Startup) : StartStep → Option Startup
  | .socket h =>
      if s.start = .creating then some { s with start := .storing h, isOpen := h ≠ invalidSocket }
      else none
  | .store =>
      match s.start with
      | .storing h => some { s with start := .binding h, listenSock := h }
      | _ => none
  | .bind ok =>
      match s.start with
      | .binding h => some { s with start := .listening h (ok && s.isOpen) }
      | _ => none
  | .listen ok =>
      match s.start with
      | .listening h bound =>
          (s.base.listenerFn (.socket (ok && bound && s.isOpen))).map fun base =>
            { s with base, start := .started h }
      | _ => none

/-- `listener_fn` in its loop. -/
def Startup.listenerFn (s : Startup) : ReceiverStep → Option Startup
  | .socket _ => none
  | k => (s.base.listenerFn k).map fun base => { s with base }

/-- `main` and `dd_destroy`.  Only closing the handle of the listener closes its socket. -/
def Startup.control (s : Startup) : DestinationStep → Option Startup
  | .closeListener =>
      (s.base.control .closeListener).map fun base =>
        { s with
          base := if s.HoldsSocket then base else { base with listenSock := s.base.listenSock }
          isOpen := s.closesocket
          closed := some s.listenSock }
  | k => (s.base.control k).map fun base => { s with base }

/-- One step. -/
def Startup.step (s : Startup) : StartupAction → Option Startup
  | .createThread ok => s.createThread ok
  | .signal => if s.create = .returned then (s.base.step .signal).map ({ s with base := · }) else none
  | .start k =>
      if s.create = .processorThread ∨ s.create = .returned then s.startListener k else none
  | .listener k =>
      if s.create = .processorThread ∨ s.create = .returned then s.listenerFn k else none
  | .processor k =>
      if s.create = .returned then (s.base.processorFn k).map ({ s with base := · }) else none
  | .main k => if s.create = .returned then s.control k else none

/-! ## The steps of its parts -/

/-- A step of `Destination` that neither opens the listening socket nor closes it. -/
def DestinationAction.keepsSocket : DestinationAction → Bool
  | .listener (.socket _) | .main .closeListener => false
  | _ => true

/-- What such a step leaves as it is. -/
structure Destination.KeepsSocket (s s' : Destination) : Prop where
  listenSock : s'.listenSock = s.listenSock
  inDestroy : s'.main.inDestroy = s.main.inDestroy
  opening : s.listener = .opening → s'.listener = .opening

section

variable {s s' : Destination}

theorem Destination.listenerFn_keepsSocket {k : ReceiverStep}
    (hk : (DestinationAction.listener k).keepsSocket = true) (hs : s.listenerFn k = some s') :
    s.KeepsSocket s' := by
  cases k with
  | socket ok => cases hk
  | accept ok =>
      obtain ⟨⟨hpc, _⟩, rfl⟩ := Option.ite_some_none_eq_some.mp hs
      exact ⟨rfl, rfl, fun hl => absurd (hpc.symm.trans hl) (by simp)⟩
  | receive w =>
      cases w with
      | none | some w =>
          obtain ⟨hpc, rfl⟩ := Option.ite_some_none_eq_some.mp hs
          exact ⟨rfl, rfl, fun hl => absurd (hpc.symm.trans hl) (by simp)⟩
  | enqueue alloc =>
      rw [Destination.listenerFn] at hs
      split at hs
      next w hpc =>
          obtain ⟨_, _, rfl⟩ := Option.map_eq_some_iff.mp hs
          exact ⟨rfl, rfl, fun hl => absurd (hpc.symm.trans hl) (by simp)⟩
      next => cases hs

theorem Destination.control_keepsSocket {k : DestinationStep}
    (hk : (DestinationAction.main k).keepsSocket = true) (hs : s.control k = some s') :
    s.KeepsSocket s' := by
  cases k with
  | closeListener => cases hk
  | createEvent ok | openFile ok =>
      obtain ⟨hpc, rfl⟩ := Option.ite_some_none_eq_some.mp hs
      exact ⟨rfl, by rw [hpc]; cases ok <;> rfl, id⟩
  | writeCount | destroyQueue =>
      obtain ⟨hpc, rfl⟩ := Option.ite_some_none_eq_some.mp hs
      exact ⟨rfl, by rw [hpc]; rfl, id⟩
  | wake | joinListener | joinProcessor =>
      obtain ⟨⟨hpc, _⟩, rfl⟩ := Option.ite_some_none_eq_some.mp hs
      exact ⟨rfl, by rw [hpc]; rfl, id⟩
  | sentinel alloc =>
      obtain ⟨hpc, hs⟩ := Option.ite_none_right_eq_some.mp hs
      obtain ⟨_, _, rfl⟩ := Option.map_eq_some_iff.mp hs
      exact ⟨rfl, by rw [hpc]; rfl, id⟩

theorem Destination.Inv.step_keepsSocket (h : s.Inv) {a : DestinationAction}
    (ha : a.keepsSocket = true) (hs : s.step a = some s') : s.KeepsSocket s' := by
  cases a with
  | signal =>
      obtain ⟨_, _, rfl⟩ := Option.map_eq_some_iff.mp hs
      exact ⟨rfl, rfl, id⟩
  | processor k =>
      have hframe := h.processor_frame hs
      exact ⟨hframe.listenSock, by rw [hframe.main], fun hl => hframe.listener.trans hl⟩
  | listener k => exact Destination.listenerFn_keepsSocket ha hs
  | main k => exact Destination.control_keepsSocket ha hs

end

variable {s s' : Startup} {a : StartupAction} {garbage : Socket}

theorem Startup.listenerFn_eq {k : ReceiverStep}
    (hk : (DestinationAction.listener k).keepsSocket = true) :
    s.listenerFn k = (s.base.listenerFn k).map fun base => { s with base } := by
  cases k with
  | socket ok => cases hk
  | accept | receive | enqueue => rfl

theorem Startup.control_eq {k : DestinationStep}
    (hk : (DestinationAction.main k).keepsSocket = true) :
    s.control k = (s.base.control k).map fun base => { s with base } := by
  cases k with
  | closeListener => cases hk
  | createEvent | wake | openFile | writeCount | joinListener | sentinel | joinProcessor
  | destroyQueue => rfl

/-- A step is one of `Destination` that leaves the listening socket alone, or one of those
that this module adds. -/
theorem Startup.step_cases (hs : s.step a = some s') :
    (∃ b base, b.keepsSocket = true ∧ s.base.step b = some base ∧ s' = { s with base }) ∨
      (∃ ok, s.createThread ok = some s') ∨ (∃ k, s.startListener k = some s') ∨
        (a = .main .closeListener ∧ s.control .closeListener = some s') := by
  cases a with
  | createThread ok => exact .inr (.inl ⟨ok, hs⟩)
  | signal =>
      obtain ⟨_, hs⟩ := Option.ite_none_right_eq_some.mp hs
      obtain ⟨base, hbase, rfl⟩ := Option.map_eq_some_iff.mp hs
      exact .inl ⟨.signal, base, rfl, hbase, rfl⟩
  | start k =>
      obtain ⟨_, hs⟩ := Option.ite_none_right_eq_some.mp hs
      exact .inr (.inr (.inl ⟨k, hs⟩))
  | listener k =>
      obtain ⟨_, hs⟩ := Option.ite_none_right_eq_some.mp hs
      cases hk : (DestinationAction.listener k).keepsSocket with
      | true =>
          rw [Startup.listenerFn_eq hk] at hs
          obtain ⟨base, hbase, rfl⟩ := Option.map_eq_some_iff.mp hs
          exact .inl ⟨.listener k, base, hk, hbase, rfl⟩
      | false =>
          cases k with
          | socket ok => cases hs
          | accept | receive | enqueue => cases hk
  | processor k =>
      obtain ⟨_, hs⟩ := Option.ite_none_right_eq_some.mp hs
      obtain ⟨base, hbase, rfl⟩ := Option.map_eq_some_iff.mp hs
      exact .inl ⟨.processor k, base, rfl, hbase, rfl⟩
  | main k =>
      obtain ⟨_, hs⟩ := Option.ite_none_right_eq_some.mp hs
      cases hk : (DestinationAction.main k).keepsSocket with
      | true =>
          rw [Startup.control_eq hk] at hs
          obtain ⟨base, hbase, rfl⟩ := Option.map_eq_some_iff.mp hs
          exact .inl ⟨.main k, base, hk, hbase, rfl⟩
      | false =>
          cases k with
          | closeListener => exact .inr (.inr (.inr ⟨rfl, hs⟩))
          | createEvent | wake | openFile | writeCount | joinListener | sentinel | joinProcessor
          | destroyQueue => cases hk

/-- What a call of `CreateThread` changes: a failing `dd_create` may close the socket. -/
theorem Startup.createThread_cases {ok : Bool} (hs : s.createThread ok = some s') :
    s' = { s with create := s'.create, isOpen := s'.isOpen } ∧
      (s.isOpen = false → s'.isOpen = false) ∧
        (s'.create ≠ .failed → s.create ≠ .failed ∧ s'.isOpen = s.isOpen) := by
  rw [Startup.createThread] at hs
  split at hs
  next hpc =>
      cases hs
      exact ⟨rfl, id, fun _ => ⟨by simp [hpc], rfl⟩⟩
  next hpc =>
      cases ok with
      | true =>
          cases hs
          exact ⟨rfl, id, fun _ => ⟨by simp [hpc], rfl⟩⟩
      | false =>
          cases hs
          refine ⟨rfl, ?_, fun hne => absurd rfl hne⟩
          intro hopen
          simp [Startup.closesocket, hopen]
  next => cases hs

/-- A step of the listener up to its loop. -/
inductive Startup.StartsTo (s : Startup) : Startup → Prop where
  | socket (h : Socket) : s.start = .creating →
      s.StartsTo { s with start := .storing h, isOpen := h ≠ invalidSocket }
  | store {h : Socket} : s.start = .storing h →
      s.StartsTo { s with start := .binding h, listenSock := h }
  | bind {h : Socket} (ok : Bool) : s.start = .binding h →
      s.StartsTo { s with start := .listening h (ok && s.isOpen) }
  | listen {h : Socket} {bound : Bool} {base : Destination} (ok : Bool) :
      s.start = .listening h bound →
      s.base.listenerFn (.socket (ok && bound && s.isOpen)) = some base →
      s.StartsTo { s with base, start := .started h }

theorem Startup.startListener_cases {k : StartStep} (hs : s.startListener k = some s') :
    s.StartsTo s' := by
  cases k with
  | socket h =>
      obtain ⟨hpc, rfl⟩ := Option.ite_some_none_eq_some.mp hs
      exact .socket h hpc
  | store =>
      rw [Startup.startListener] at hs
      split at hs
      next h hpc =>
          cases hs
          exact .store hpc
      next => cases hs
  | bind ok =>
      rw [Startup.startListener] at hs
      split at hs
      next h hpc =>
          cases hs
          exact .bind ok hpc
      next => cases hs
  | listen ok =>
      rw [Startup.startListener] at hs
      split at hs
      next h bound hpc =>
          obtain ⟨base, hbase, rfl⟩ := Option.map_eq_some_iff.mp hs
          exact .listen ok hpc hbase
      next => cases hs

/-! ## What a run keeps -/

/-- What holds in every reachable state. -/
structure Startup.Inv (s : Startup) : Prop where
  base : s.base.Inv
  stored : s.start.stored = true → s.HoldsSocket
  opening : (∀ v, s.start ≠ .started v) →
    s.base.listenSock = .unset ∧ s.base.listener = .opening
  closed : s.closed.isSome = s.base.main.inDestroy
  fresh : ∀ v, s.start = .storing v → v ≠ invalidSocket → s.base.main.inDestroy = false →
    s.create ≠ .failed → s.isOpen = true

theorem Startup.init_inv (garbage : Socket) : (Startup.init garbage).Inv where
  base := Destination.init_inv
  stored := nofun
  opening _ := ⟨rfl, rfl⟩
  closed := rfl
  fresh := nofun

theorem Startup.Inv.createThread (h : s.Inv) {ok : Bool} (hs : s.createThread ok = some s') :
    s'.Inv := by
  obtain ⟨heq, _, hlive⟩ := Startup.createThread_cases hs
  rw [heq]
  refine ⟨h.base, h.stored, h.opening, h.closed, ?_⟩
  intro v hv hne hd hcreate
  obtain ⟨hcreate', hopen⟩ := hlive hcreate
  exact hopen.trans (h.fresh v hv hne hd hcreate')

theorem Startup.Inv.startsTo (h : s.Inv) (hs : s.StartsTo s') : s'.Inv := by
  cases hs with
  | socket v hpc =>
      refine ⟨h.base, nofun, fun _ => h.opening (by rw [hpc]; nofun), h.closed, ?_⟩
      intro w hw hne _ _
      cases hw
      exact decide_eq_true hne
  | store hpc =>
      exact ⟨h.base, fun _ => rfl, fun _ => h.opening (by rw [hpc]; nofun), h.closed, nofun⟩
  | bind ok hpc =>
      have hholds := h.stored (by rw [hpc]; rfl)
      rw [Startup.HoldsSocket, hpc] at hholds
      exact ⟨h.base, fun _ => hholds, fun _ => h.opening (by rw [hpc]; nofun), h.closed, nofun⟩
  | @listen v bound base ok hpc hbase =>
      have hholds := h.stored (by rw [hpc]; rfl)
      rw [Startup.HoldsSocket, hpc] at hholds
      have hinv := h.base.listenerFn hbase
      obtain ⟨_, rfl⟩ := Option.ite_some_none_eq_some.mp hbase
      exact ⟨hinv, fun _ => hholds, fun hne => absurd rfl (hne v), h.closed, nofun⟩

/-- The state after `dd_destroy` has closed the handle. -/
theorem Startup.closeListener_eq (hs : s.control .closeListener = some s') :
    s.base.main = .closing ∧ s' = { s with
      base := { s.base with
        main := .joiningListener
        listenSock :=
          if s.HoldsSocket ∧ s.base.listenSock ≠ .unset then .closed else s.base.listenSock }
      isOpen := s.closesocket
      closed := some s.listenSock } := by
  obtain ⟨base, hbase, rfl⟩ := Option.map_eq_some_iff.mp hs
  obtain ⟨hpc, rfl⟩ := Option.ite_some_none_eq_some.mp hbase
  refine ⟨hpc, ?_⟩
  by_cases hholds : s.HoldsSocket
  · by_cases hunset : s.base.listenSock = .unset
    · simp [hholds, hunset]
    · simp [hholds, hunset]
  · simp [hholds]

/-- As long as the listener has not come to its loop, the socket in `Destination` is not set. -/
theorem Startup.Inv.closeListener_base (h : s.Inv) (hs : s.control .closeListener = some s') :
    s.base.control .closeListener = some s'.base := by
  obtain ⟨hpc, rfl⟩ := Startup.closeListener_eq hs
  rw [Destination.control, if_pos hpc]
  by_cases hunset : s.base.listenSock = .unset
  · simp [hunset]
  · have hholds : s.HoldsSocket := by
      apply h.stored
      cases hpc : s.start with
      | creating | storing v => exact absurd (h.opening (by simp [hpc])).1 hunset
      | binding v | listening v bound | started v => rfl
    simp [hunset, hholds]

theorem Startup.Inv.closeListener (h : s.Inv) (hs : s.control .closeListener = some s') :
    s'.Inv := by
  have hinv := h.base.control (h.closeListener_base hs)
  obtain ⟨hpc, rfl⟩ := Startup.closeListener_eq hs
  refine ⟨hinv, h.stored, ?_, rfl, nofun⟩
  intro hne
  obtain ⟨hunset, hlistener⟩ := h.opening hne
  refine ⟨?_, hlistener⟩
  show (if _ then _ else _) = _
  rw [if_neg fun hc => hc.2 hunset, hunset]

/-- Every step keeps it. -/
theorem Startup.Inv.step (h : s.Inv) (hs : s.step a = some s') : s'.Inv := by
  rcases Startup.step_cases hs with ⟨b, base, hb, hbase, rfl⟩ | ⟨ok, hs⟩ | ⟨k, hs⟩ | ⟨_, hs⟩
  · have hkeep := h.base.step_keepsSocket hb hbase
    refine ⟨h.base.step hbase, h.stored, ?_, h.closed.trans hkeep.inDestroy.symm, ?_⟩
    · intro hne
      obtain ⟨hunset, hopening⟩ := h.opening hne
      exact ⟨hkeep.listenSock.trans hunset, hkeep.opening hopening⟩
    · intro v hv hne hd
      exact h.fresh v hv hne (hkeep.inDestroy.symm.trans hd)
  · exact h.createThread hs
  · exact h.startsTo (Startup.startListener_cases hs)
  · exact h.closeListener hs

theorem Startup.inv_of_reachable (h : Reachable Startup.step (.init garbage) s) : s.Inv :=
  h.invariant (Startup.init_inv garbage) fun _ _ _ hi hs => hi.step hs

/-- A step does nothing to the parts that `Destination` has, or is a step of it. -/
theorem Startup.Inv.step_base (h : s.Inv) (hs : s.step a = some s') :
    s'.base = s.base ∨ ∃ b, s.base.step b = some s'.base := by
  rcases Startup.step_cases hs with ⟨b, base, _, hbase, rfl⟩ | ⟨ok, hs⟩ | ⟨k, hs⟩ | ⟨_, hs⟩
  · exact .inr ⟨b, hbase⟩
  · obtain ⟨heq, _⟩ := Startup.createThread_cases hs
    rw [heq]
    exact .inl rfl
  · cases Startup.startListener_cases hs with
    | socket v hpc | store hpc | bind ok hpc => exact .inl rfl
    | listen ok hpc hbase => exact .inr ⟨.listener (.socket _), hbase⟩
  · exact .inr ⟨.main .closeListener, h.closeListener_base hs⟩

/-- What a run does to those parts is a run of `Destination`. -/
theorem Startup.base_reachable (h : Reachable Startup.step (.init garbage) s) :
    Reachable Destination.step .init s.base :=
  h.map Startup.base (Startup.init_inv garbage) (fun _ _ _ hinv hs => hinv.step hs)
    fun _ _ _ hinv hs => hinv.step_base hs

/-! ## Closing the socket of the listener -/

/-- `dd_destroy` calls `closesocket` only when the listener has stored its socket, or has
created it and the context happens to hold its handle already. -/
def Startup.Ready (s : Startup) : StartupAction → Prop
  | .main .closeListener => s.start.stored = true ∨ s.start = .storing s.listenSock
  | _ => True

instance (s : Startup) : (a : StartupAction) → Decidable (s.Ready a)
  | .main .closeListener =>
      inferInstanceAs (Decidable (s.start.stored = true ∨ s.start = .storing s.listenSock))
  | .main (.createEvent _) | .main .wake | .main (.openFile _) | .main .writeCount
  | .main .joinListener | .main (.sentinel _) | .main .joinProcessor | .main .destroyQueue
  | .createThread _ | .signal | .start _ | .listener _ | .processor _ => instDecidableTrue

/-- `dd_destroy` waits for the listener, and the listener is in `accept` on a socket that is
open and listens. -/
def Startup.Stuck (s : Startup) : Prop :=
  s.base.main = .joiningListener ∧ s.base.listener = .accepting ∧
    s.base.listenSock = .listening ∧ s.isOpen = true

/-- What `dd_destroy` has closed is the socket of the listener, which is not left in
`accept`. -/
structure Startup.ReleasesListener (s : Startup) : Prop where
  own : ∀ v, s.closed = some v → s.start.handle = some v
  awake : ¬ s.Stuck

/-- What holds besides in every run whose steps are ready. -/
structure Startup.Owned (s : Startup) : Prop extends s.Inv where
  own : ∀ v, s.closed = some v → s.start.handle = some v ∧ s.isOpen = false

/-- The listener opens a socket only once, and keeps its handle. -/
theorem Startup.StartsTo.handle (h : s.StartsTo s') :
    s'.closed = s.closed ∧
      ∀ v, s.start.handle = some v → s'.start.handle = some v ∧ s'.isOpen = s.isOpen := by
  cases h with
  | socket w hpc =>
      refine ⟨rfl, ?_⟩
      intro v hv
      rw [hpc] at hv
      cases hv
  | store hpc | bind ok hpc | listen ok hpc =>
      rw [hpc]
      exact ⟨rfl, fun v hv => ⟨hv, rfl⟩⟩

theorem Startup.Owned.step (h : s.Owned) (hok : s.Ready a) (hs : s.step a = some s') :
    s'.Owned := by
  refine ⟨h.toInv.step hs, ?_⟩
  rcases Startup.step_cases hs with ⟨b, base, _, _, rfl⟩ | ⟨ok, hs⟩ | ⟨k, hs⟩ | ⟨rfl, hclose⟩
  · exact h.own
  · obtain ⟨heq, hopen, _⟩ := Startup.createThread_cases hs
    rw [heq]
    intro v hv
    obtain ⟨hhandle, hshut⟩ := h.own v hv
    exact ⟨hhandle, hopen hshut⟩
  · obtain ⟨hclosed, hkeep⟩ := (Startup.startListener_cases hs).handle
    intro v hv
    obtain ⟨hhandle, hshut⟩ := h.own v (hclosed.symm.trans hv)
    obtain ⟨hhandle', hopen⟩ := hkeep v hhandle
    exact ⟨hhandle', hopen.trans hshut⟩
  · obtain ⟨_, rfl⟩ := Startup.closeListener_eq hclose
    have hholds : s.HoldsSocket := by
      rcases hok with hstored | hpc
      · exact h.stored hstored
      · rw [Startup.HoldsSocket, hpc]
        rfl
    intro v hv
    cases hv
    exact ⟨hholds, if_pos hholds⟩

/-- A listener that is about to store an open socket can come to block in `accept`. -/
theorem Startup.Inv.storing_stuck (h : s.Inv) {v : Socket} (hstart : s.start = .storing v)
    (hopen : s.isOpen = true) (hcreate : s.create = .returned)
    (hmain : s.base.main = .joiningListener) : ∃ t, Reachable Startup.step s t ∧ t.Stuck := by
  obtain ⟨_, hopening⟩ := h.opening (by rw [hstart]; nofun)
  have hexec : exec Startup.step s [.start .store, .start (.bind true), .start (.listen true)] =
      some { s with
        base := { s.base with listener := .accepting, listenSock := .listening }
        start := .started v
        listenSock := v } := by
    simp [exec, Startup.step, Startup.startListener, Destination.listenerFn, hstart, hopen, hcreate,
      hopening]
  exact ⟨_, exec_reachable hexec, hmain, rfl, rfl, hopen⟩

/-- Where a step is not ready and `socket` does not fail, the listener can come to block in
`accept` while `dd_destroy` waits for it. -/
theorem Startup.Inv.early_close_stuck (h : s.Inv) (hready : ¬ s.Ready (.main .closeListener))
    (hsock : s.start ≠ .storing invalidSocket) (hs : s.step (.main .closeListener) = some s') :
    ∃ t, Reachable Startup.step s' t ∧ t.Stuck := by
  have hinv := h.step hs
  obtain ⟨hcreate, hclose⟩ := Option.ite_none_right_eq_some.mp hs
  obtain ⟨hmain, heq⟩ := Startup.closeListener_eq hclose
  have hcreate' : s'.create = .returned := by rw [heq]; exact hcreate
  have hmain' : s'.base.main = .joiningListener := by rw [heq]
  have hstart' : s'.start = s.start := by rw [heq]
  have hopen' : s'.isOpen = s.closesocket := by rw [heq]
  cases hpc : s.start with
  | creating =>
      -- the socket is created after the wrong handle was closed
      have hstep : s'.step (.start (.socket 4)) = some { s' with
          start := .storing 4
          isOpen := (4 : Socket) ≠ invalidSocket } :=
        (if_pos (.inr hcreate')).trans (if_pos (hstart'.trans hpc))
      obtain ⟨t, ht, hstuck⟩ := (hinv.step hstep).storing_stuck rfl rfl hcreate' hmain'
      exact ⟨t, .head hstep ht, hstuck⟩
  | storing v =>
      have hne : ¬ s.HoldsSocket := by
        intro hholds
        rw [Startup.HoldsSocket, hpc] at hholds
        cases hholds
        exact hready (.inr hpc)
      have hvalid : v ≠ invalidSocket := by
        rintro rfl
        exact hsock hpc
      have hopen := h.fresh v hpc hvalid (by rw [hmain]; rfl) (by rw [hcreate]; nofun)
      rw [Startup.closesocket, if_neg hne, hopen] at hopen'
      exact hinv.storing_stuck (hstart'.trans hpc) hopen' hcreate' hmain'
  | binding v | listening v bound | started v => exact absurd (.inl (by rw [hpc]; rfl)) hready

/-- In every run in which `dd_destroy` closes the handle only once the listener has stored
its socket there, what it closes is the socket of the listener, and it never waits for a
listener that blocks in `accept`. -/
theorem dd_destroy_releases_listener {as : List StartupAction}
    (h : Run Startup.step Startup.Ready (.init garbage) as s) : s.ReleasesListener := by
  have howned : s.Owned :=
    h.invariant ⟨Startup.init_inv garbage, nofun⟩ fun _ _ _ hi hok hs => hi.step hok hs
  constructor
  · intro v hv
    exact (howned.own v hv).1
  · rintro ⟨hmain, _, _, hopen⟩
    have hclosed := howned.closed
    rw [hmain] at hclosed
    obtain ⟨v, hv⟩ := Option.isSome_iff_exists.mp hclosed
    exact absurd hopen (by simp [(howned.own v hv).2])

/-- What the debug heap fills a new block with. -/
def debugFill : Socket := 0xCDCDCDCDCDCDCDCD

/-- The event cannot be created, and `dd_destroy` comes after the listener is in `accept`. -/
def lateDestroy : List StartupAction :=
  [.createThread true, .start (.socket 4), .createThread true, .start .store, .start (.bind true),
    .main (.createEvent false), .start (.listen true), .main .closeListener,
    .listener (.accept false), .main .joinListener]

theorem dd_destroy_releases_listener_late :
    ∃ s, execWhere Startup.step Startup.Ready (.init debugFill) lateDestroy = some s ∧
      s.closed = some 4 ∧ s.ReleasesListener := by
  obtain ⟨s, hrun, hclosed⟩ : ∃ s, execWhere Startup.step Startup.Ready (.init debugFill)
      lateDestroy = some s ∧ s.closed = some 4 := ⟨_, rfl, rfl⟩
  exact ⟨s, hrun, hclosed, dd_destroy_releases_listener (execWhere_run hrun)⟩

/-- The same, `dd_destroy` coming before the listener has created its socket. -/
def earlyDestroy : List StartupAction :=
  [.createThread true, .createThread true, .main (.createEvent false), .main .closeListener,
    .start (.socket 4), .start .store, .start (.bind true), .start (.listen true)]

theorem early_destroy_waits_for_ever :
    ∃ s, Reachable Startup.step (.init debugFill) s ∧ s.closed = some debugFill ∧
      s.start.handle = some 4 ∧ s.Stuck ∧ ¬ s.ReleasesListener := by
  obtain ⟨s, hrun, hclosed, hhandle, hstuck⟩ : ∃ s,
      exec Startup.step (.init debugFill) earlyDestroy = some s ∧ s.closed = some debugFill ∧
        s.start.handle = some 4 ∧ s.Stuck := ⟨_, rfl, rfl, rfl, rfl, rfl, rfl, rfl⟩
  exact ⟨s, exec_reachable hrun, hclosed, hhandle, hstuck, fun h => h.awake hstuck⟩

end DataPropagator
