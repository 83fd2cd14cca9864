import DataPropagator.DataSource.Launcher
import DataPropagator.DataSource.Stopping

/-!
# Stopping the processes

Every launched process makes an event whose name is made of its id, and ends when the event is
signalled.  To stop, `main` of the data source sets the stop event of its two threads, opens the
event of each row and signals it, waits for the generator and for the sender, terminates the
processes that have a window, closes the job object, waits for each process, and destroys the queue.
None of the waits has a bound.  The two threads are those of `Pipeline.lean`, and both were created.

An event is there while some process holds a handle of it, and `CreateEventA` of a name that is
there opens it as it is.  The handle that `main` opens is closed again at once, so opening and
signalling is one step.  What a process does besides is one step from one of its places to the next,
and so is its own shutdown, which may also come to no end.  A `CentralPropagator` waits through a
thread of its own, and where that thread cannot be created it shuts down at once.
-/

namespace DataPropagator

/-! ## The processes -/

/-- How a process ended. -/
inductive Ending where
  /-- It could not go on. -/
  | failed
  /-- After its event was signalled. -/
  | stopped
  /-- By `TerminateProcess` or with the job object. -/
  | killed
deriving DecidableEq, Repr

/-- Where a process is in its `main`. -/
inductive ChildPc where
  /-- Up to `CreateEventA`. -/
  | starting
  /-- It has its event and goes on to wait for it. -/
  | preparing
  | waiting
  /-- The wait is over. -/
  | stopping
  /-- It shuts down and comes to no end.  It has its event, or could not make it. -/
  | stalled (event : Bool)
  | ended (how : Ending)
deriving DecidableEq, Repr

/-- A launched process.  `event` is the name of its event, and `none` if it does not find two
arguments. -/
structure Child where
  program : Program
  event : Option Bytes
  inJob : Bool
  pc : ChildPc
deriving DecidableEq, Repr

/-- The process has a handle of its event. -/
def ChildPc.holds : ChildPc → Bool
  | .preparing | .waiting | .stopping => true
  | .stalled event => event
  | .starting | .ended _ => false

/-- The process has its event and goes on. -/
def ChildPc.ready : ChildPc → Bool
  | .preparing | .waiting | .stopping => true
  | .starting | .stalled _ | .ended _ => false

/-- The process has not ended. -/
def ChildPc.live : ChildPc → Bool
  | .ended _ => false
  | _ => true

/-- The process is ended from outside. -/
def Child.kill (c : Child) : Child :=
  if c.pc.live then { c with pc := .ended .killed } else c

/-! ## The system -/

/-- Where `main` of the data source is. -/
inductive StopPc where
  | running
  /-- It signals these events next, and then it waits for its two threads. -/
  | signalling (names : List Bytes)
  /-- In `gracefully_close_all`, at this process. -/
  | closing (i : Nat)
  /-- In `cp_terminate_all`, at the wait for this process. -/
  | waitingFor (i : Nat)
  | returned
deriving DecidableEq, Repr

/-- The processes in the order of the two arrays, the events that are signalled, whether closing
the job object kills, the events `main` signals, the threads of the data source, and `main`. -/
structure StopSystem where
  children : List Child
  signalled : Bytes → Bool
  killOnClose : Bool
  targets : List Bytes
  source : Source
  main : StopPc

/-- There is an event of this name. -/
def StopSystem.held (s : StopSystem) (name : Bytes) : Bool :=
  s.children.any fun c => c.event == some name && c.pc.holds

/-- One process moves. -/
def StopSystem.move (s : StopSystem) (i : Nat) (c : Child) (pc : ChildPc) : StopSystem :=
  { s with children := s.children.set i { c with pc } }

/-- A step of the system. -/
inductive StopAction where
  /-- Process `i` calls `CreateEventA`. -/
  | create (i : Nat)
  /-- Something process `i` needs cannot be had. -/
  | fail (i : Nat)
  /-- Process `i` goes on to the wait. -/
  | prepared (i : Nat)
  /-- `CreateThread` of `shutdown_waiter_fn` fails, and the wait for it fails at once. -/
  | waiterFails (i : Nat)
  /-- The wait of process `i` ends. -/
  | wake (i : Nat)
  /-- What process `i` calls to shut down does not return.  A `DataDestination` also shuts down
  where it cannot make its event. -/
  | stall (i : Nat)
  /-- Process `i` returns from `main`. -/
  | finish (i : Nat)
  /-- `console_handler` of process `i`. -/
  | console (i : Nat)
  /-- Enter is pressed. -/
  | enter
  /-- The next event is opened and signalled.  `opens` is false where `OpenEventA` fails for some
  reason of its own. -/
  | signal (opens : Bool)
  /-- A step of the generator or of the sender. -/
  | generator (k : GeneratorStep)
  | sender (k : SenderStep)
  /-- The waits for them end. -/
  | joinGenerator
  | joinSender
  /-- The next process has a window, or has none. -/
  | window (found : Bool)
  | closeJob
  /-- The wait for the next process ends. -/
  | join
  | ret
deriving DecidableEq, Repr

/-- One step. -/
def StopSystem.step (nodes : List NodeInfo) (s : StopSystem) : StopAction → Option StopSystem
  | .create i =>
      (s.children[i]?).bind fun c => c.event.bind fun name =>
        if c.pc = .starting then
          some { s.move i c .preparing with
            signalled := if s.held name then s.signalled
              else Function.update s.signalled name false }
        else none
  | .fail i =>
      (s.children[i]?).bind fun c =>
        if c.pc = .starting ∨ (c.pc = .preparing ∧ c.program = .centralPropagator) then
          some (s.move i c (.ended .failed))
        else none
  | .prepared i =>
      (s.children[i]?).bind fun c =>
        if c.pc = .preparing then some (s.move i c .waiting) else none
  | .waiterFails i =>
      (s.children[i]?).bind fun c =>
        if c.pc = .preparing ∧ c.program = .centralPropagator then some (s.move i c .stopping)
        else none
  | .wake i =>
      (s.children[i]?).bind fun c =>
        if c.pc = .waiting ∧ c.event.any s.signalled then some (s.move i c .stopping) else none
  | .stall i =>
      (s.children[i]?).bind fun c =>
        if c.pc = .stopping ∨
            (c.pc = .starting ∧ c.program = .dataDestination ∧ c.event.isSome) then
          some (s.move i c (.stalled c.pc.holds))
        else none
  | .finish i =>
      (s.children[i]?).bind fun c =>
        if c.pc = .stopping then some (s.move i c (.ended .stopped)) else none
  | .console i =>
      (s.children[i]?).bind fun c => c.event.bind fun name =>
        if c.pc.holds then some { s with signalled := Function.update s.signalled name true }
        else none
  | .enter =>
      if s.main = .running then
        (s.source.control .setStop).map fun source =>
          { s with source, main := .signalling s.targets }
      else none
  | .signal opens =>
      match s.main with
      | .signalling (name :: names) =>
          some { s with
            signalled := if opens && s.held name then Function.update s.signalled name true
              else s.signalled
            main := .signalling names }
      | _ => none
  | .generator k => (s.source.generate nodes k).map fun source => { s with source }
  | .sender k => (s.source.send nodes k).map fun source => { s with source }
  | .joinGenerator =>
      if s.main = .signalling [] then
        (s.source.control .joinGenerator).map fun source => { s with source }
      else none
  | .joinSender =>
      if s.main = .signalling [] then
        (s.source.control .joinSender).map fun source => { s with source, main := .closing 0 }
      else none
  | .window found =>
      match s.main with
      | .closing i =>
          (s.children[i]?).map fun c =>
            -- `EnumWindows` returns FALSE for a process with a window
            { s with
              children := if found then s.children.set i c.kill else s.children
              main := .closing (i + 1) }
      | _ => none
  | .closeJob =>
      if s.main = .closing s.children.length then
        some { s with
          children := s.children.map fun c => if s.killOnClose && c.inJob then c.kill else c
          main := .waitingFor 0 }
      else none
  | .join =>
      match s.main with
      | .waitingFor i =>
          (s.children[i]?).bind fun c =>
            if c.pc.live then none else some { s with main := .waitingFor (i + 1) }
      | _ => none
  | .ret =>
      if s.main = .waitingFor s.children.length then
        (s.source.control .destroyQueue).map fun source => { s with source, main := .returned }
      else none

/-- The action is neither the console of a process nor a wake-up without a signal. -/
def StopAction.Quiet (a : StopAction) : Prop := (∀ i, a ≠ .console i) ∧ a ≠ .sender .spurious

/-- Processes that have just been launched, some of which were killed since, and threads that have
just been created. -/
structure StopSystem.Fresh (s : StopSystem) : Prop where
  main : s.main = .running
  source : s.source = .init
  starting : ∀ c ∈ s.children, c.pc = .starting ∨ ∃ how, c.pc = .ended how ∧ how ≠ .stopped
  unsignalled : ∀ name, s.signalled name = false

/-- The process waits for its event, which is not signalled, or its shutdown comes to no end. -/
def StopSystem.Held (s : StopSystem) (c : Child) : Prop :=
  (c.pc = .waiting ∧ c.event.any s.signalled = false) ∨ ∃ event, c.pc = .stalled event

/-- `main` waits for such a process. -/
def StopSystem.Hangs (s : StopSystem) : Prop :=
  ∃ i c, s.main = .waitingFor i ∧ s.children[i]? = some c ∧ s.Held c

/-! ## What a step can do -/

/-- Where a process goes on its own, with its event as it is. -/
inductive StopSystem.Moves (s : StopSystem) (i : Nat) (c : Child) : StopAction → ChildPc → Prop where
  | fail : c.pc = .starting ∨ (c.pc = .preparing ∧ c.program = .centralPropagator) →
      Moves s i c (.fail i) (.ended .failed)
  | prepared : c.pc = .preparing → Moves s i c (.prepared i) .waiting
  | waiterFails : c.pc = .preparing → c.program = .centralPropagator →
      Moves s i c (.waiterFails i) .stopping
  | wake : c.pc = .waiting → c.event.any s.signalled = true → Moves s i c (.wake i) .stopping
  | stall : c.pc = .stopping ∨ c.pc = .starting → Moves s i c (.stall i) (.stalled c.pc.holds)
  | finish : c.pc = .stopping → Moves s i c (.finish i) (.ended .stopped)

/-- The step of a thread that an action is. -/
def StopAction.ofThread : StopAction → Option SourceAction
  | .generator k => some (.generator k)
  | .sender k => some (.sender k)
  | _ => none

/-- What a step can do. -/
inductive StopSystem.Change (nodes : List NodeInfo) (s : StopSystem) :
    StopAction → StopSystem → Prop where
  | create {i : Nat} {c : Child} {name : Bytes} : s.children[i]? = some c → c.event = some name →
      c.pc = .starting → Change nodes s (.create i) { s.move i c .preparing with
        signalled := if s.held name then s.signalled else Function.update s.signalled name false }
  | moves {a : StopAction} {i : Nat} {c : Child} {pc : ChildPc} : s.children[i]? = some c →
      s.Moves i c a pc → Change nodes s a (s.move i c pc)
  | console {i : Nat} {c : Child} {name : Bytes} : s.children[i]? = some c → c.event = some name →
      c.pc.holds = true →
      Change nodes s (.console i) { s with signalled := Function.update s.signalled name true }
  | enter {source : Source} : s.main = .running → s.source.step nodes (.main .setStop) = some source →
      Change nodes s .enter { s with source, main := .signalling s.targets }
  | signal {opens : Bool} {name : Bytes} {names : List Bytes} :
      s.main = .signalling (name :: names) → Change nodes s (.signal opens) { s with
        signalled := if opens && s.held name then Function.update s.signalled name true
          else s.signalled
        main := .signalling names }
  | thread {a : StopAction} {b : SourceAction} {source : Source} : a.ofThread = some b →
      s.source.step nodes b = some source → Change nodes s a { s with source }
  | joinGenerator {source : Source} : s.main = .signalling [] →
      s.source.step nodes (.main .joinGenerator) = some source →
      Change nodes s .joinGenerator { s with source }
  | joinSender {source : Source} : s.main = .signalling [] →
      s.source.step nodes (.main .joinSender) = some source →
      Change nodes s .joinSender { s with source, main := .closing 0 }
  | window {found : Bool} {i : Nat} {c : Child} : s.main = .closing i → s.children[i]? = some c →
      Change nodes s (.window found) { s with
        children := if found then s.children.set i c.kill else s.children
        main := .closing (i + 1) }
  | closeJob : s.main = .closing s.children.length → Change nodes s .closeJob { s with
      children := s.children.map fun c => if s.killOnClose && c.inJob then c.kill else c
      main := .waitingFor 0 }
  | join {i : Nat} {c : Child} : s.main = .waitingFor i → s.children[i]? = some c →
      c.pc.live = false → Change nodes s .join { s with main := .waitingFor (i + 1) }
  | ret {source : Source} : s.main = .waitingFor s.children.length →
      s.source.step nodes (.main .destroyQueue) = some source →
      Change nodes s .ret { s with source, main := .returned }

variable {nodes : List NodeInfo} {s s' : StopSystem} {a : StopAction}

theorem StopSystem.step_change (h : s.step nodes a = some s') : s.Change nodes a s' := by
  cases a with
  | create i =>
      obtain ⟨c, hc, h⟩ := Option.bind_eq_some_iff.mp h
      obtain ⟨name, hname, h⟩ := Option.bind_eq_some_iff.mp h
      obtain ⟨hpc, rfl⟩ := Option.ite_some_none_eq_some.mp h
      exact .create hc hname hpc
  | fail i =>
      obtain ⟨c, hc, h⟩ := Option.bind_eq_some_iff.mp h
      obtain ⟨hpc, rfl⟩ := Option.ite_some_none_eq_some.mp h
      exact .moves hc (.fail hpc)
  | prepared i =>
      obtain ⟨c, hc, h⟩ := Option.bind_eq_some_iff.mp h
      obtain ⟨hpc, rfl⟩ := Option.ite_some_none_eq_some.mp h
      exact .moves hc (.prepared hpc)
  | waiterFails i =>
      obtain ⟨c, hc, h⟩ := Option.bind_eq_some_iff.mp h
      obtain ⟨⟨hpc, hprogram⟩, rfl⟩ := Option.ite_some_none_eq_some.mp h
      exact .moves hc (.waiterFails hpc hprogram)
  | wake i =>
      obtain ⟨c, hc, h⟩ := Option.bind_eq_some_iff.mp h
      obtain ⟨⟨hpc, hevent⟩, rfl⟩ := Option.ite_some_none_eq_some.mp h
      exact .moves hc (.wake hpc hevent)
  | stall i =>
      obtain ⟨c, hc, h⟩ := Option.bind_eq_some_iff.mp h
      obtain ⟨hpc, rfl⟩ := Option.ite_some_none_eq_some.mp h
      exact .moves hc (.stall (hpc.imp_right And.left))
  | finish i =>
      obtain ⟨c, hc, h⟩ := Option.bind_eq_some_iff.mp h
      obtain ⟨hpc, rfl⟩ := Option.ite_some_none_eq_some.mp h
      exact .moves hc (.finish hpc)
  | console i =>
      obtain ⟨c, hc, h⟩ := Option.bind_eq_some_iff.mp h
      obtain ⟨name, hname, h⟩ := Option.bind_eq_some_iff.mp h
      obtain ⟨hpc, rfl⟩ := Option.ite_some_none_eq_some.mp h
      exact .console hc hname hpc
  | enter =>
      obtain ⟨hm, h⟩ := Option.ite_none_right_eq_some.mp h
      obtain ⟨source, hs, rfl⟩ := Option.map_eq_some_iff.mp h
      exact .enter hm hs
  | generator k | sender k =>
      obtain ⟨source, hs, rfl⟩ := Option.map_eq_some_iff.mp h
      exact .thread rfl hs
  | joinGenerator =>
      obtain ⟨hm, h⟩ := Option.ite_none_right_eq_some.mp h
      obtain ⟨source, hs, rfl⟩ := Option.map_eq_some_iff.mp h
      exact .joinGenerator hm hs
  | joinSender =>
      obtain ⟨hm, h⟩ := Option.ite_none_right_eq_some.mp h
      obtain ⟨source, hs, rfl⟩ := Option.map_eq_some_iff.mp h
      exact .joinSender hm hs
  | signal opens =>
      rw [StopSystem.step] at h
      split at h
      next name names hm =>
          cases h
          exact .signal hm
      next => cases h
  | window found =>
      rw [StopSystem.step] at h
      split at h
      next i hm =>
          obtain ⟨c, hc, rfl⟩ := Option.map_eq_some_iff.mp h
          exact .window hm hc
      next => cases h
  | closeJob =>
      obtain ⟨hm, rfl⟩ := Option.ite_some_none_eq_some.mp h
      exact .closeJob hm
  | join =>
      rw [StopSystem.step] at h
      split at h
      next i hm =>
          obtain ⟨c, hc, h⟩ := Option.bind_eq_some_iff.mp h
          split at h
          next => cases h
          next hlive =>
              cases h
              exact .join hm hc (Bool.eq_false_iff.mpr hlive)
      next => cases h
  | ret =>
      obtain ⟨hm, h⟩ := Option.ite_none_right_eq_some.mp h
      obtain ⟨source, hs, rfl⟩ := Option.map_eq_some_iff.mp h
      exact .ret hm hs

/-! ## The processes over a step -/

/-- How many steps a process may still take. -/
def ChildPc.left : ChildPc → Nat
  | .starting => 5
  | .preparing => 4
  | .waiting => 3
  | .stopping => 2
  | .stalled _ => 1
  | .ended _ => 0

/-- A process is as it was, or it was live and has gone on. -/
structure Child.Ages (c c' : Child) : Prop where
  program : c'.program = c.program
  event : c'.event = c.event
  inJob : c'.inJob = c.inJob
  pc : c'.pc = c.pc ∨ (c.pc.live = true ∧ c'.pc.left < c.pc.left)

theorem Child.Ages.refl (c : Child) : c.Ages c := ⟨rfl, rfl, rfl, Or.inl rfl⟩

theorem Child.Ages.left_le {c c' : Child} (h : c.Ages c') : c'.pc.left ≤ c.pc.left := by
  rcases h.pc with heq | ⟨_, hlt⟩
  · rw [heq]
  · exact Nat.le_of_lt hlt

/-- What has ended stays as it is. -/
theorem Child.Ages.ended {c c' : Child} (h : c.Ages c') (hended : c.pc.live = false) :
    c'.pc = c.pc := by
  rcases h.pc with heq | ⟨hlive, _⟩
  · exact heq
  · rw [hended] at hlive
    cases hlive

theorem Child.Ages.live {c c' : Child} (h : c.Ages c') (hlive : c'.pc.live = true) :
    c.pc.live = true := by
  rcases h.pc with heq | ⟨hbefore, _⟩
  · rw [← heq, hlive]
  · exact hbefore

theorem Child.Ages.to {c : Child} {old pc : ChildPc} (hpc : c.pc = old) (hlive : old.live = true)
    (hlt : pc.left < old.left) : c.Ages { c with pc } :=
  ⟨rfl, rfl, rfl, Or.inr ⟨hpc ▸ hlive, hpc ▸ hlt⟩⟩

theorem Child.ages_kill (c : Child) : c.Ages c.kill := by
  rw [Child.kill]
  split
  next hlive =>
      generalize hpc : c.pc = old at hlive
      refine .to hpc hlive ?_
      cases old with
      | ended _ => cases hlive
      | starting | preparing | waiting | stopping | stalled _ => exact Nat.succ_pos _
  next => exact .refl c

theorem Child.kill_not_live (c : Child) : c.kill.pc.live = false := by
  rw [Child.kill]
  split
  next => rfl
  next hlive => exact Bool.eq_false_iff.mpr hlive

theorem StopSystem.Moves.gone_on {i : Nat} {c : Child} {pc : ChildPc} (h : s.Moves i c a pc) :
    c.pc.live = true ∧ pc.left < c.pc.left := by
  cases h with
  | fail hpc =>
      rcases hpc with hpc | ⟨hpc, _⟩
      · exact hpc ▸ ⟨rfl, by decide⟩
      · exact hpc ▸ ⟨rfl, by decide⟩
  | stall hpc =>
      rcases hpc with hpc | hpc
      · exact hpc ▸ ⟨rfl, by decide⟩
      · exact hpc ▸ ⟨rfl, by decide⟩
  | prepared hpc | waiterFails hpc _ | wake hpc _ | finish hpc => exact hpc ▸ ⟨rfl, by decide⟩

theorem StopSystem.Moves.ages {i : Nat} {c : Child} {pc : ChildPc} (h : s.Moves i c a pc) :
    c.Ages { c with pc } :=
  ⟨rfl, rfl, rfl, Or.inr h.gone_on⟩

/-- The processes, one by one. -/
structure StopSystem.Aged (s s' : StopSystem) : Prop where
  length : s'.children.length = s.children.length
  child : ∀ (j : Nat) c, s.children[j]? = some c → ∃ c', s'.children[j]? = some c' ∧ c.Ages c'
  killOnClose : s'.killOnClose = s.killOnClose
  targets : s'.targets = s.targets

theorem ages_set {children : List Child} {i : Nat} {c c' : Child} (hc : children[i]? = some c)
    (hages : c.Ages c') (j : Nat) {d : Child} (hd : children[j]? = some d) :
    ∃ d', (children.set i c')[j]? = some d' ∧ d.Ages d' := by
  rcases eq_or_ne i j with rfl | hne
  · rw [hc, Option.some.injEq] at hd
    subst hd
    exact ⟨c', List.getElem?_set_self (List.getElem?_eq_some_iff.mp hc).1, hages⟩
  · exact ⟨d, by rw [List.getElem?_set_ne hne, hd], .refl d⟩

theorem StopSystem.Change.aged (h : s.Change nodes a s') : s.Aged s' := by
  have hsame : ∀ (j : Nat) c, s.children[j]? = some c →
      ∃ c', s.children[j]? = some c' ∧ c.Ages c' := fun j c hc => ⟨c, hc, .refl c⟩
  cases h with
  | create hc _ hpc =>
      exact ⟨List.length_set,
        fun j d hd => ages_set hc (.to hpc rfl (by decide)) j hd, rfl, rfl⟩
  | moves hc hmoves => exact ⟨List.length_set, fun j d hd => ages_set hc hmoves.ages j hd, rfl, rfl⟩
  | @window found i c _ hc =>
      cases found with
      | true =>
          exact ⟨List.length_set, fun j d hd => ages_set hc c.ages_kill j hd, rfl, rfl⟩
      | false => exact ⟨rfl, hsame, rfl, rfl⟩
  | closeJob _ =>
      refine ⟨List.length_map .., fun j c hc => ⟨_, by rw [List.getElem?_map, hc]; rfl, ?_⟩, rfl, rfl⟩
      cases hkill : s.killOnClose && c.inJob with
      | true => simpa [hkill] using c.ages_kill
      | false => simpa [hkill] using Child.Ages.refl c
  | console _ _ _ | enter _ _ | signal _ | thread _ _ | joinGenerator _ _ | joinSender _ _
  | join _ _ _ | ret _ _ => exact ⟨rfl, hsame, rfl, rfl⟩

theorem StopSystem.Aged.before (h : s.Aged s') {j : Nat} {c' : Child}
    (hc' : s'.children[j]? = some c') : ∃ c, s.children[j]? = some c ∧ c.Ages c' := by
  have hlt := (List.getElem?_eq_some_iff.mp hc').1
  rw [h.length] at hlt
  obtain ⟨c'', hc'', hages⟩ := h.child j _ (List.getElem?_eq_getElem hlt)
  rw [hc', Option.some.injEq] at hc''
  exact ⟨_, List.getElem?_eq_getElem hlt, hc'' ▸ hages⟩

/-- What has been waited for has ended, and what closing the job object kills. -/
structure StopSystem.Inv (s : StopSystem) : Prop where
  closing_le : ∀ i, s.main = .closing i → i ≤ s.children.length
  waited : ∀ i, s.main = .waitingFor i → i ≤ s.children.length ∧
    ∀ (j : Nat) c, j < i → s.children[j]? = some c → c.pc.live = false
  jobClosed : ∀ i, s.main = .waitingFor i → s.killOnClose = true →
    ∀ (j : Nat) c, s.children[j]? = some c → c.inJob = true → c.pc.live = false
  returned : s.main = .returned → ∀ (j : Nat) c, s.children[j]? = some c → c.pc.live = false

theorem StopSystem.inv_early (h : s.main = .running ∨ ∃ names, s.main = .signalling names) :
    s.Inv := by
  rcases h with hm | ⟨names, hm⟩
  · constructor <;> simp [hm]
  · constructor <;> simp [hm]

theorem StopSystem.inv_closing {i : Nat} (hm : s.main = .closing i)
    (hle : i ≤ s.children.length) : s.Inv := by
  constructor
  case closing_le =>
    intro j hj
    rw [hm, StopPc.closing.injEq] at hj
    exact hj ▸ hle
  all_goals simp [hm]

theorem StopSystem.inv_waitingFor {i : Nat} (hm : s.main = .waitingFor i)
    (hle : i ≤ s.children.length)
    (hwaited : ∀ (j : Nat) c, j < i → s.children[j]? = some c → c.pc.live = false)
    (hjob : s.killOnClose = true →
      ∀ (j : Nat) c, s.children[j]? = some c → c.inJob = true → c.pc.live = false) : s.Inv := by
  constructor
  case waited =>
    intro j hj
    rw [hm, StopPc.waitingFor.injEq] at hj
    subst hj
    exact ⟨hle, hwaited⟩
  case jobClosed => exact fun _ _ => hjob
  all_goals simp [hm]

theorem StopSystem.inv_returned (hm : s.main = .returned)
    (hended : ∀ (j : Nat) c, s.children[j]? = some c → c.pc.live = false) : s.Inv := by
  constructor
  case returned => exact fun _ => hended
  all_goals simp [hm]

theorem StopSystem.Fresh.inv (h : s.Fresh) : s.Inv := StopSystem.inv_early (Or.inl h.main)

/-- A step that leaves `main` where it is. -/
theorem StopSystem.Inv.aged (h : s.Inv) (haged : s.Aged s') (hmain : s'.main = s.main) :
    s'.Inv where
  closing_le i hi := by
    rw [haged.length]
    exact h.closing_le i (hmain ▸ hi)
  waited i hi := by
    obtain ⟨hle, hended⟩ := h.waited i (hmain ▸ hi)
    refine ⟨haged.length.symm ▸ hle, ?_⟩
    intro j c' hj hc'
    obtain ⟨c, hc, hages⟩ := haged.before hc'
    have hlive := hended j c hj hc
    rw [hages.ended hlive, hlive]
  jobClosed i hi hkill j c' hc' hjob := by
    obtain ⟨c, hc, hages⟩ := haged.before hc'
    have hlive := h.jobClosed i (hmain ▸ hi) (haged.killOnClose ▸ hkill) j c hc
      (hages.inJob ▸ hjob)
    rw [hages.ended hlive, hlive]
  returned hm j c' hc' := by
    obtain ⟨c, hc, hages⟩ := haged.before hc'
    have hlive := h.returned (hmain ▸ hm) j c hc
    rw [hages.ended hlive, hlive]

theorem StopSystem.Inv.step (h : s.Inv) (hs : s.step nodes a = some s') : s'.Inv := by
  have hchange := StopSystem.step_change hs
  have haged := hchange.aged
  cases hchange with
  | create _ _ _ | moves _ _ | console _ _ _ | thread _ _ | joinGenerator _ _ =>
      exact h.aged haged rfl
  | enter _ _ | signal _ => exact StopSystem.inv_early (Or.inr ⟨_, rfl⟩)
  | joinSender _ _ => exact StopSystem.inv_closing rfl (Nat.zero_le _)
  | @window found i c hm hc =>
      have hlt := (List.getElem?_eq_some_iff.mp hc).1
      rw [← haged.length] at hlt
      exact StopSystem.inv_closing rfl hlt
  | closeJob hm =>
      apply StopSystem.inv_waitingFor rfl (Nat.zero_le _)
      · exact fun _ _ hj => absurd hj (Nat.not_lt_zero _)
      · intro hkill j c' hc' hjob
        obtain ⟨c, _, rfl⟩ := Option.map_eq_some_iff.mp (List.getElem?_map ▸ hc')
        have hin : c.inJob = true := by
          split at hjob
          · exact (c.ages_kill.inJob).symm.trans hjob
          · exact hjob
        rw [if_pos (by rw [show s.killOnClose = true from hkill, hin]; rfl)]
        exact c.kill_not_live
  | @join i c hm hc hlive =>
      refine StopSystem.inv_waitingFor rfl (List.getElem?_eq_some_iff.mp hc).1 ?_ (h.jobClosed i hm)
      intro k d hk hd
      rcases Nat.lt_succ_iff_lt_or_eq.mp hk with hlt | rfl
      · exact (h.waited i hm).2 k d hlt hd
      · have heq : some c = some d := hc.symm.trans hd
        cases heq
        exact hlive
  | ret hm _ =>
      apply StopSystem.inv_returned rfl
      exact fun j c hc => (h.waited _ hm).2 j c (List.getElem?_eq_some_iff.mp hc).1 hc

theorem StopSystem.Inv.run (h : s.Inv) (hrun : Machine.Reachable (StopSystem.step nodes) s s') :
    s'.Inv :=
  hrun.invariant h fun _ _ _ hi hs => hi.step hs

/-! ## The threads and `main` -/

/-- Where `main` of `Pipeline.lean` is meanwhile. -/
def StopPc.Sync : StopPc → SourceMainPc → Prop
  | .running, m => m = .running
  | .signalling names, m => m = .joiningGenerator ∨ (m = .joiningSender ∧ names = [])
  | .closing _, m | .waitingFor _, m => m = .joined
  | .returned, m => m = .finished

/-- The two agree on where `main` is, and the event of the threads was set with Enter. -/
structure StopSystem.InStep (nodes : List NodeInfo) (s : StopSystem) : Prop where
  source : s.source.Inv nodes
  stop : s.main ≠ .running → s.source.stopEvent = true
  main : s.main.Sync s.source.main

theorem StopAction.ofThread_eq {b : SourceAction} (h : a.ofThread = some b) :
    b.ofThread = true ∧ (a ≠ .sender .spurious → b ≠ .sender .spurious) := by
  cases a with
  | generator k =>
      cases h
      exact ⟨rfl, fun _ hb => by cases hb⟩
  | sender k =>
      cases h
      refine ⟨rfl, fun ha hb => ha ?_⟩
      rw [SourceAction.sender.injEq] at hb
      rw [hb]
  | create _ | fail _ | prepared _ | waiterFails _ | wake _ | stall _ | finish _ | console _ | enter
  | signal _ | joinGenerator | joinSender | window _ | closeJob | join | ret => cases h

/-- What the steps of the processes leave alone. -/
theorem StopSystem.InStep.frame (h : s.InStep nodes) (hsource : s'.source = s.source)
    (hmain : s'.main = s.main) : s'.InStep nodes :=
  ⟨hsource ▸ h.source, by rw [hsource, hmain]; exact h.stop, by rw [hsource, hmain]; exact h.main⟩

theorem StopSystem.InStep.step (h : s.InStep nodes) (hload : Loaded nodes)
    (hs : s.step nodes a = some s') : s'.InStep nodes := by
  cases StopSystem.step_change hs with
  | create _ _ _ | moves _ _ | console _ _ _ => exact h.frame rfl rfl
  | enter _ hsource =>
      have hinv := h.source.step hload hsource
      obtain ⟨_, rfl⟩ := Option.ite_some_none_eq_some.mp hsource
      exact ⟨hinv, fun _ => rfl, Or.inl rfl⟩
  | @signal _ name names hm =>
      have hsync := h.main
      rw [hm] at hsync
      refine ⟨h.source, fun _ => h.stop (by simp [hm]), hsync.imp_right ?_⟩
      rintro ⟨_, hnil⟩
      cases hnil
  | @thread _ b source hb hsource =>
      have hframe := Source.thread_frame (StopAction.ofThread_eq hb).1 hsource
      exact ⟨h.source.step hload hsource, fun hm => hframe.2.trans (h.stop hm), hframe.1 ▸ h.main⟩
  | joinGenerator hm hsource =>
      have hinv := h.source.step hload hsource
      obtain ⟨_, rfl⟩ := Option.ite_some_none_eq_some.mp hsource
      refine ⟨hinv, h.stop, ?_⟩
      show StopPc.Sync s.main .joiningSender
      rw [hm]
      exact Or.inr ⟨rfl, rfl⟩
  | joinSender hm hsource =>
      have hinv := h.source.step hload hsource
      obtain ⟨_, rfl⟩ := Option.ite_some_none_eq_some.mp hsource
      exact ⟨hinv, fun _ => h.stop (by simp [hm]), rfl⟩
  | window hm _ | closeJob hm | join hm _ _ =>
      have hsync := h.main
      rw [hm] at hsync
      exact ⟨h.source, fun _ => h.stop (by simp [hm]), hsync⟩
  | ret hm hsource =>
      have hinv := h.source.step hload hsource
      obtain ⟨_, rfl⟩ := Option.ite_some_none_eq_some.mp hsource
      exact ⟨hinv, fun _ => h.stop (by simp [hm]), rfl⟩

theorem StopSystem.InStep.run (h : s.InStep nodes) (hload : Loaded nodes)
    (hrun : Machine.Reachable (StopSystem.step nodes) s s') : s'.InStep nodes :=
  hrun.invariant h fun _ _ _ hi hs => hi.step hload hs

/-- `main` has joined both threads when it returns. -/
theorem StopSystem.InStep.joined (h : s.InStep nodes) (hm : s.main = .returned) :
    s.source.generator = .returned ∧ s.source.sender = .returned := by
  have hsync : s.source.main = .finished := by
    have hsync := h.main
    rw [hm] at hsync
    exact hsync
  exact ⟨h.source.generator_joined (Or.inr (Or.inr hsync)), h.source.sender_joined (Or.inr hsync)⟩

end DataPropagator
