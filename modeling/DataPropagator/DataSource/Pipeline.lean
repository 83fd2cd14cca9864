import DataPropagator.Common.NodeGraph
import DataPropagator.Common.QueueReader
import DataPropagator.Common.Utils
import DataPropagator.Common.Warning
import DataPropagator.Lib.Machine

/-!
# The pipeline of the data source

`data_generator_thread`, `network_sender_thread` and the end of `main`.  The generator
makes warnings for random destinations and enqueues them, and NULL after the last.  The
sender takes them from the queue and sends each to the root above its destination.  Both
look at the stop event between two warnings, and the sender also ends when it takes NULL.
`main` sets the event, joins the generator and then the sender, and destroys the queue.

A pointer to a warning is its place among the warnings created.  Allocations succeed.
Whether a call of `send_warning_to` succeeds only decides what is printed.
-/

namespace DataPropagator

/-! ## The system -/

/-- `NUMBER_OF_WARNINGS`. -/
def numberOfWarnings : Nat := 10000

/-- The rows that the generator collects in `dests`. -/
def destinations (nodes : List NodeInfo) : List Nat :=
  (List.range nodes.length).filter fun i => (nodes[i]?).any fun node => node.type == .destination

theorem mem_filter_rows {nodes : List NodeInfo} {p : NodeInfo → Bool} {i : Nat} :
    (i ∈ (List.range nodes.length).filter fun i => (nodes[i]?).any p) ↔
      ∃ node, nodes[i]? = some node ∧ p node = true := by
  rw [List.mem_filter, List.mem_range]
  constructor
  · rintro ⟨_, hany⟩
    exact (Option.any_eq_true _ _).mp hany
  · rintro ⟨node, hnode, hp⟩
    exact ⟨(List.getElem?_eq_some_iff.mp hnode).1, (Option.any_eq_true _ _).mpr ⟨node, hnode, hp⟩⟩

theorem mem_destinations {nodes : List NodeInfo} {i : Nat} :
    i ∈ destinations nodes ↔ ∃ node, nodes[i]? = some node ∧ node.type = .destination := by
  simp only [destinations, mem_filter_rows, beq_iff_eq]

/-- A small natural number as a `double`. -/
def doubleOfInt (n : Nat) : UInt64 :=
  if n = 0 then 0
  else
    let e := Nat.log2 n
    UInt64.ofNat ((1023 + e) * 2 ^ 52 + (n - 2 ^ e) * 2 ^ (52 - e))

example : doubleOfInt 42 = 0x4045000000000000 := by decide

/-- The results of `rand` for one warning, and the time. -/
structure Choice where
  dest : Nat
  type : Nat
  value : Nat
  time : UInt64
deriving DecidableEq, Repr

/-- The warning that the generator creates. -/
def generateWarning (nodes : List NodeInfo) (r : Choice) : Option Warning := do
  let j ← (destinations nodes)[r.dest % (destinations nodes).length]?
  let n ← nodes[j]?
  let id := n.id.bytes ++ [0]
  (warningCreate (fun _ => true) id (UInt32.ofNat (r.type % 4)) (doubleOfInt (r.value % 100))
    r.time id).1

/-- Where the generator is. -/
inductive GeneratorPc where
  /-- Before it has counted the destinations. -/
  | counting
  /-- At the test of its loop. -/
  | looping
  | creating
  /-- It has a warning and is about to print it. -/
  | describing (w : Nat)
  | enqueuing (w : Nat)
  /-- About to enqueue NULL. -/
  | closing
  | returned
deriving DecidableEq, Repr

/-- Where the sender is. -/
inductive SenderPc where
  /-- At the test of its loop. -/
  | looping
  | dequeuing
  /-- Asleep in `tsqueue_dequeue`, or woken and not yet back in the critical section. -/
  | waiting
  /-- It has taken a warning. -/
  | holding (w : Nat)
  /-- About to destroy a warning. -/
  | destroying (w : Nat)
  | returned
deriving DecidableEq, Repr

/-- Where `main` is, from the creation of the threads on. -/
inductive SourceMainPc where
  /-- Waiting for the key. -/
  | running
  | joiningGenerator
  | joiningSender
  /-- Both threads were joined. -/
  | joined
  /-- The queue has been destroyed. -/
  | finished
deriving DecidableEq, Repr

/-- The data source with its histories: the warnings created, those on which
`send_warning_to` was called with the row each was sent to, and those destroyed.
`stoppedEarly` says that the event was set before both threads had ended. -/
structure Source where
  inbox : Inbox Nat
  stopEvent : Bool
  generator : GeneratorPc
  counter : Nat
  sender : SenderPc
  main : SourceMainPc
  created : List Warning
  sent : List (Nat × Nat)
  destroyed : List Nat
  stoppedEarly : Bool
deriving DecidableEq, Repr

/-- The data source when its threads have been created. -/
def Source.init : Source where
  inbox := .create
  stopEvent := false
  generator := .counting
  counter := 0
  sender := .looping
  main := .running
  created := []
  sent := []
  destroyed := []
  stoppedEarly := false

/-- A step of the generator. -/
inductive GeneratorStep where
  | count
  | test
  | create (r : Choice)
  /-- `warning_to_string` describes the warning or returns NULL. -/
  | describe (desc : Bool)
  | enqueue
  | close
deriving DecidableEq, Repr

/-- A step of the sender. -/
inductive SenderStep where
  | test
  | dequeue
  | resume
  | spurious
  /-- It looks the destination and its root up and calls `send_warning_to`. -/
  | send (ok : Bool)
  | destroy
deriving DecidableEq, Repr

/-- A step of `main`. -/
inductive SourceMainStep where
  | setStop
  | joinGenerator
  | joinSender
  | destroyQueue
deriving DecidableEq, Repr

/-- A step of the data source. -/
inductive SourceAction where
  | generator (k : GeneratorStep)
  | sender (k : SenderStep)
  | main (k : SourceMainStep)
deriving DecidableEq, Repr

/-- `data_generator_thread`. -/
def Source.generate (nodes : List NodeInfo) (s : Source) : GeneratorStep → Option Source
  | .count =>
      if s.generator = .counting then
        some { s with generator := if (destinations nodes).length = 0 then .returned else .looping }
      else none
  | .test =>
      if s.generator = .looping then
        some { s with
          generator := if s.stopEvent = false ∧ s.counter < numberOfWarnings then .creating
            else .closing }
      else none
  | .create r =>
      if s.generator = .creating then
        (generateWarning nodes r).map fun w =>
          { s with generator := .describing s.created.length, created := s.created ++ [w] }
      else none
  | .describe desc =>
      match s.generator with
      | .describing w =>
          -- the counter goes up in the argument of `printf`
          some { s with
            generator := .enqueuing w
            counter := if desc then s.counter + 1 else s.counter }
      | _ => none
  | .enqueue =>
      match s.generator with
      | .enqueuing w =>
          (s.inbox.enqueue (some w) true).map fun inbox => { s with inbox, generator := .looping }
      | _ => none
  | .close =>
      if s.generator = .closing then
        (s.inbox.enqueue none true).map fun inbox => { s with inbox, generator := .returned }
      else none

/-- What the sender does with what a stay in `tsqueue_dequeue` gave it. -/
def Source.takes (s : Source) : Inbox Nat × Option (Option Nat) → Source
  | (inbox, none) => { s with inbox, sender := .waiting }
  | (inbox, some none) => { s with inbox, sender := .returned }
  | (inbox, some (some w)) => { s with inbox, sender := .holding w }

/-- `network_sender_thread`.  A climb to the root takes at most as many steps as there are
rows, and one that does not end is a step that is not enabled. -/
def Source.send (nodes : List NodeInfo) (s : Source) : SenderStep → Option Source
  | .test =>
      if s.sender = .looping then
        some { s with sender := if s.stopEvent then .returned else .dequeuing }
      else none
  | .dequeue => if s.sender = .dequeuing then s.inbox.take.map s.takes else none
  | .resume => if s.sender = .waiting then s.inbox.resume.map s.takes else none
  | .spurious =>
      if s.sender = .waiting then s.inbox.spurious.map fun inbox => { s with inbox } else none
  | .send _ =>
      match s.sender with
      | .holding k =>
          (s.created[k]?).bind fun w =>
            match nodeFindById nodes w.destNode with
            | none => some { s with sender := .destroying k }
            | some dest =>
                (findRoot nodes nodes.length dest).map fun root =>
                  { s with sender := .destroying k, sent := s.sent ++ [(k, root)] }
      | _ => none
  | .destroy =>
      match s.sender with
      | .destroying k => some { s with sender := .looping, destroyed := s.destroyed ++ [k] }
      | _ => none

/-- `main`. -/
def Source.control (s : Source) : SourceMainStep → Option Source
  | .setStop =>
      if s.main = .running then
        some { s with
          stopEvent := true
          main := .joiningGenerator
          stoppedEarly := !decide (s.generator = .returned ∧ s.sender = .returned) }
      else none
  | .joinGenerator =>
      if s.main = .joiningGenerator ∧ s.generator = .returned then
        some { s with main := .joiningSender }
      else none
  | .joinSender =>
      if s.main = .joiningSender ∧ s.sender = .returned then some { s with main := .joined } else none
  | .destroyQueue =>
      if s.main = .joined then
        some { s with main := .finished, destroyed := s.destroyed ++ tsqueueDestroy s.inbox.queue }
      else none

/-- One step. -/
def Source.step (nodes : List NodeInfo) (s : Source) : SourceAction → Option Source
  | .generator k => s.generate nodes k
  | .sender k => s.send nodes k
  | .main k => s.control k

/-! ## The invariant -/

/-- How many warnings the generator has enqueued. -/
def GeneratorPc.handed (created : Nat) : GeneratorPc → Nat
  | .describing w => w
  | .enqueuing w => w
  | _ => created

/-- The generator has enqueued NULL.  A table without destinations makes it return before
it does. -/
def GeneratorPc.closed (dests : List Nat) : GeneratorPc → Bool
  | .returned => !dests.isEmpty
  | _ => false

/-- The sender is inside a call of `tsqueue_dequeue`. -/
def SenderPc.isWaiting : SenderPc → Bool
  | .waiting => true
  | _ => false

/-- How many warnings the sender has taken. -/
def SenderPc.taken (sent : Nat) : SenderPc → Nat
  | .holding _ => sent + 1
  | _ => sent

/-- How many warnings the sender has destroyed. -/
def SenderPc.gone (sent : Nat) : SenderPc → Nat
  | .destroying w => w
  | _ => sent

/-- What holds in every reachable state.  `closed` says whether the sender has taken the
NULL. -/
structure Source.Inv (nodes : List NodeInfo) (s : Source) : Prop where
  ok : s.inbox.Ok s.sender.isWaiting
  /-- The destination of a warning is the id of a row. -/
  rows : ∀ w ∈ s.created, ∃ node ∈ nodes, w.destNode = node.id
  /-- The generator works on the last warning created. -/
  making : ∀ w, s.generator = .describing w ∨ s.generator = .enqueuing w → s.created.length = w + 1
  dests : s.generator ≠ .counting → s.generator ≠ .returned → destinations nodes ≠ []
  enqueued : s.inbox.enqueued = numbered (s.generator.handed s.created.length)
    (s.generator.closed (destinations nodes))
  removed : ∃ closed, s.inbox.removed = numbered (s.sender.taken s.sent.length) closed ∧
    (closed = true → s.sender = .returned) ∧
    (s.sender = .returned → closed = false → s.stoppedEarly = true)
  sent_eq : s.sent.map Prod.fst = List.range s.sent.length
  roots : ∀ x ∈ s.sent, ∃ node, nodes[x.2]? = some node ∧ node.type = .root
  /-- The sender works on the last warning it took. -/
  holding : ∀ w, s.sender = .holding w → w = s.sent.length
  destroying : ∀ w, s.sender = .destroying w → s.sent.length = w + 1
  destroyed_eq : s.destroyed = List.range (s.sender.gone s.sent.length) ++
    if s.main = .finished then tsqueueDestroy s.inbox.queue else []
  running : s.main = .running → s.stopEvent = false ∧ s.stoppedEarly = false
  late : s.stopEvent = true → s.stoppedEarly = false →
    s.generator = .returned ∧ s.sender = .returned
  generator_joined : s.main = .joiningSender ∨ s.main = .joined ∨ s.main = .finished →
    s.generator = .returned
  sender_joined : s.main = .joined ∨ s.main = .finished → s.sender = .returned

theorem Source.init_inv (nodes : List NodeInfo) : Source.init.Inv nodes where
  ok := Inbox.create_ok
  rows _ hw := by cases hw
  making w hw := by rcases hw with hw | hw <;> cases hw
  dests h := absurd rfl h
  enqueued := rfl
  removed := ⟨false, rfl, nofun, nofun⟩
  sent_eq := rfl
  roots _ hx := by cases hx
  holding _ hw := by cases hw
  destroying _ hw := by cases hw
  destroyed_eq := rfl
  running _ := ⟨rfl, rfl⟩
  late h := by cases h
  generator_joined h := by rcases h with h | h | h <;> cases h
  sender_joined h := by rcases h with h | h <;> cases h

/-! ## What a step keeps -/

section Steps

variable {nodes : List NodeInfo} {s s' : Source}

/-- `main` destroys the queue only after both threads have ended. -/
theorem Source.Inv.main_ne (h : s.Inv nodes)
    (hne : s.generator ≠ .returned ∨ s.sender ≠ .returned) : s.main ≠ .finished := by
  intro hm
  cases hne with
  | inl hg => exact hg (h.generator_joined (Or.inr (Or.inr hm)))
  | inr hs => exact hs (h.sender_joined (Or.inr hm))

/-- A step of the generator, which has not returned. -/
theorem Source.Inv.generator (h : s.Inv nodes) (hne : s.generator ≠ .returned) {inbox : Inbox Nat}
    {pc : GeneratorPc} {created : List Warning} (counter : Nat) (hok : inbox.Ok s.sender.isWaiting)
    (hremoved : inbox.removed = s.inbox.removed)
    (hrows : ∀ w ∈ created, ∃ node ∈ nodes, w.destNode = node.id)
    (hmaking : ∀ w, pc = .describing w ∨ pc = .enqueuing w → created.length = w + 1)
    (hdests : pc ≠ .returned → destinations nodes ≠ [])
    (henq : inbox.enqueued =
      numbered (pc.handed created.length) (pc.closed (destinations nodes))) :
    { s with inbox, generator := pc, counter, created }.Inv nodes := by
  have hmain := h.main_ne (Or.inl hne)
  exact
    { h with
      ok := hok
      rows := hrows
      making := hmaking
      dests := fun _ => hdests
      enqueued := henq
      removed := by
        obtain ⟨closed, hrem, hrest⟩ := h.removed
        exact ⟨closed, hremoved.trans hrem, hrest⟩
      destroyed_eq := by
        have hold := h.destroyed_eq
        rw [if_neg hmain] at hold
        rw [if_neg hmain]
        exact hold
      late := fun hstop hearly => absurd (h.late hstop hearly).1 hne
      generator_joined := fun hm => absurd (h.generator_joined hm) hne }

/-- A step of the sender, which has not returned. -/
theorem Source.Inv.sender (h : s.Inv nodes) (hne : s.sender ≠ .returned) {inbox : Inbox Nat}
    {pc : SenderPc} {sent : List (Nat × Nat)} {destroyed : List Nat}
    (hok : inbox.Ok pc.isWaiting) (henq : inbox.enqueued = s.inbox.enqueued)
    (hremoved : ∃ closed, inbox.removed = numbered (pc.taken sent.length) closed ∧
      (closed = true → pc = .returned) ∧
      (pc = .returned → closed = false → s.stoppedEarly = true))
    (hsent : sent.map Prod.fst = List.range sent.length)
    (hroots : ∀ x ∈ sent, ∃ node, nodes[x.2]? = some node ∧ node.type = .root)
    (hholding : ∀ w, pc = .holding w → w = sent.length)
    (hdestroying : ∀ w, pc = .destroying w → sent.length = w + 1)
    (hdestroyed : destroyed = List.range (pc.gone sent.length)) :
    { s with inbox, sender := pc, sent, destroyed }.Inv nodes := by
  have hmain := h.main_ne (Or.inr hne)
  exact
    { h with
      ok := hok
      enqueued := henq.trans h.enqueued
      removed := hremoved
      sent_eq := hsent
      roots := hroots
      holding := hholding
      destroying := hdestroying
      destroyed_eq := by rw [if_neg hmain, List.append_nil]; exact hdestroyed
      late := fun hstop hearly => absurd (h.late hstop hearly).2 hne
      sender_joined := fun hm => absurd (h.sender_joined hm) hne }

/-- A sender that has not returned has not taken the NULL. -/
theorem Source.Inv.removed_open (h : s.Inv nodes) (hne : s.sender ≠ .returned) :
    s.inbox.removed = numbered (s.sender.taken s.sent.length) false := by
  obtain ⟨closed, hrem, hclosed, _⟩ := h.removed
  cases closed with
  | true => exact absurd (hclosed rfl) hne
  | false => exact hrem

/-- What the sender has destroyed while `main` has not destroyed the queue. -/
theorem Source.Inv.destroyed_open (h : s.Inv nodes) (hne : s.sender ≠ .returned) :
    s.destroyed = List.range (s.sender.gone s.sent.length) := by
  rw [h.destroyed_eq, if_neg (h.main_ne (Or.inr hne)), List.append_nil]

/-- What holds while the sender is at a place before its return. -/
theorem Source.Inv.sender_at (h : s.Inv nodes) {pc : SenderPc} (hpc : s.sender = pc)
    (hpc' : pc ≠ .returned) : s.sender ≠ .returned ∧ s.inbox.Ok pc.isWaiting ∧
      s.inbox.removed = numbered (pc.taken s.sent.length) false ∧
      s.destroyed = List.range (pc.gone s.sent.length) := by
  subst hpc
  exact ⟨hpc', h.ok, h.removed_open hpc', h.destroyed_open hpc'⟩

/-- The destination of a warning is the id of a row. -/
theorem generateWarning_row {r : Choice} {w : Warning} (h : generateWarning nodes r = some w) :
    ∃ node ∈ nodes, w.destNode = node.id := by
  obtain ⟨j, _, h⟩ := Option.bind_eq_some_iff.mp h
  obtain ⟨n, hn, h⟩ := Option.bind_eq_some_iff.mp h
  refine ⟨n, List.mem_of_getElem? hn, ?_⟩
  simp only [warningCreate, Bool.not_true, Bool.false_eq_true, if_false, Option.some.injEq] at h
  rw [← h, strdup_append_zero]
  exact CString.ofBuffer_bytes n.id

/-- What holds while the generator is at a place in its loop. -/
theorem Source.Inv.generator_at (h : s.Inv nodes) {pc : GeneratorPc} (hpc : s.generator = pc)
    (hcounting : pc ≠ .counting) (hreturned : pc ≠ .returned) :
    s.generator ≠ .returned ∧ destinations nodes ≠ [] ∧
      s.inbox.enqueued =
        numbered (pc.handed s.created.length) (pc.closed (destinations nodes)) := by
  subst hpc
  exact ⟨hreturned, h.dests hcounting hreturned, h.enqueued⟩

theorem Source.Inv.generate (h : s.Inv nodes) {k : GeneratorStep}
    (hs : s.generate nodes k = some s') : s'.Inv nodes := by
  cases k with
  | count =>
      obtain ⟨hpc, rfl⟩ := Option.ite_some_none_eq_some.mp hs
      refine h.generator (by simp [hpc]) s.counter h.ok rfl h.rows ?_ ?_ ?_
      · intro w hw
        split at hw <;> rcases hw with hw | hw <;> cases hw
      · intro hne
        split at hne
        · exact absurd rfl hne
        next hpos => exact fun hnil => hpos (by rw [hnil]; rfl)
      · rw [h.enqueued, hpc]
        split
        next hnil => rw [GeneratorPc.closed, List.length_eq_zero_iff.mp hnil]; rfl
        next => rfl
  | test =>
      obtain ⟨hpc, rfl⟩ := Option.ite_some_none_eq_some.mp hs
      obtain ⟨hne, hdests, hold⟩ := h.generator_at hpc (by simp) (by simp)
      refine h.generator hne s.counter h.ok rfl h.rows ?_ (fun _ => hdests) ?_
      · intro w hw
        split at hw <;> rcases hw with hw | hw <;> cases hw
      · rw [hold]
        split <;> rfl
  | create r =>
      obtain ⟨hpc, hs⟩ := Option.ite_none_right_eq_some.mp hs
      obtain ⟨w, hw, rfl⟩ := Option.map_eq_some_iff.mp hs
      obtain ⟨hne, hdests, hold⟩ := h.generator_at hpc (by simp) (by simp)
      refine h.generator hne s.counter h.ok rfl ?_ ?_ (fun _ => hdests) ?_
      · intro v hv
        cases List.mem_append.mp hv with
        | inl hrow => exact h.rows v hrow
        | inr hnew => exact List.mem_singleton.mp hnew ▸ generateWarning_row hw
      · intro v hv
        rcases hv with hv | hv
        · cases hv
          rw [List.length_append, List.length_singleton]
        · cases hv
      · exact hold
  | describe desc =>
      rw [Source.generate] at hs
      split at hs
      next w hpc =>
          rw [Option.some.injEq] at hs
          subst hs
          obtain ⟨hne, hdests, hold⟩ := h.generator_at hpc (by simp) (by simp)
          refine h.generator hne _ h.ok rfl h.rows ?_ (fun _ => hdests) ?_
          · intro v hv
            rcases hv with hv | hv
            · cases hv
            · cases hv
              exact h.making w (Or.inl hpc)
          · exact hold
      next => cases hs
  | enqueue =>
      rw [Source.generate] at hs
      split at hs
      next w hpc =>
          obtain ⟨inbox, hin, rfl⟩ := Option.map_eq_some_iff.mp hs
          obtain ⟨henq, hrem⟩ := h.ok.enqueued hin
          obtain ⟨hne, hdests, hold⟩ := h.generator_at hpc (by simp) (by simp)
          refine h.generator hne s.counter (h.ok.enqueue hin) hrem h.rows
            ?_ (fun _ => hdests) ?_
          · intro v hv
            rcases hv with hv | hv <;> cases hv
          · rw [henq, hold, h.making w (Or.inr hpc)]
            exact (numbered_succ w).symm
      next => cases hs
  | close =>
      obtain ⟨hpc, hs⟩ := Option.ite_none_right_eq_some.mp hs
      obtain ⟨inbox, hin, rfl⟩ := Option.map_eq_some_iff.mp hs
      obtain ⟨henq, hrem⟩ := h.ok.enqueued hin
      obtain ⟨hne, hdests, hold⟩ := h.generator_at hpc (by simp) (by simp)
      refine h.generator hne s.counter (h.ok.enqueue hin) hrem h.rows
        ?_ (fun hopen => absurd rfl hopen) ?_
      · intro v hv
        rcases hv with hv | hv <;> cases hv
      · have hclosed : GeneratorPc.returned.closed (destinations nodes) = true := by
          simpa [GeneratorPc.closed] using hdests
        rw [henq, hold, hclosed]
        exact (numbered_close _).symm

/-- What the sender does with what it took. -/
theorem Source.Inv.takes (h : s.Inv nodes) (hne : s.sender ≠ .returned)
    (htaken : s.sender.taken s.sent.length = s.sent.length)
    (hgone : s.sender.gone s.sent.length = s.sent.length) {r : Inbox Nat × Option (Option Nat)}
    (hr : s.inbox.Took r) : (s.takes r).Inv nodes := by
  have hremoved := h.removed_open hne
  have hdestroyed := h.destroyed_open hne
  rw [htaken] at hremoved
  rw [hgone] at hdestroyed
  cases hr with
  | asleep _ hok henq hrem _ =>
      exact h.sender hne hok henq ⟨false, hrem.trans hremoved, nofun, nofun⟩ h.sent_eq h.roots
        nofun nofun hdestroyed
  | @item inbox data hcons hok henq hrem =>
      have hsplit := h.ok.fifo
      rw [h.enqueued, hremoved, hcons] at hsplit
      rw [hremoved] at hrem
      rcases numbered_next hsplit with ⟨_, rfl⟩ | ⟨_, _, rfl, _⟩
      · exact h.sender hne hok henq ⟨false, hrem.trans (numbered_succ _).symm, nofun, nofun⟩
          h.sent_eq h.roots (fun w hw => by cases hw; rfl) nofun hdestroyed
      · exact h.sender hne hok henq
          ⟨true, hrem.trans (numbered_close _).symm, fun _ => rfl, fun _ hf => by cases hf⟩
          h.sent_eq h.roots nofun nofun hdestroyed

/-- An id that a row carries is found. -/
theorem nodeFindById_of_mem {node : NodeInfo} (h : node ∈ nodes) :
    ∃ d, nodeFindById nodes node.id = some d ∧ d < nodes.length := by
  cases hf : nodeFindById nodes node.id with
  | none =>
      have hnone := List.findIdx?_eq_none_iff.mp hf node h
      rw [(eqString_iff _ _).mpr rfl] at hnone
      cases hnone
  | some d => exact ⟨d, rfl, (List.findIdx?_eq_some_iff_findIdx_eq.mp hf).1⟩

/-- A climb that ends leads to a row of type ROOT. -/
theorem Loaded.findRoot_type (hload : Loaded nodes) {fuel d r : Nat} (hd : d < nodes.length)
    (h : findRoot nodes fuel d = some r) : ∃ node, nodes[r]? = some node ∧ node.type = .root := by
  obtain ⟨l, hl, hhead⟩ := Forest.rootChain_of_climb h
  obtain ⟨r', hr', hroot, _⟩ := hl.climb
  rw [hhead, Option.some.injEq] at hr'
  subst hr'
  have habove := (hl.mem_iff r).mp (List.mem_of_mem_head? (by rw [hhead]; rfl))
  have hrow := List.getElem?_eq_getElem (hload.above_lt hd habove)
  exact ⟨_, hrow, hload.root_type hrow hroot⟩

theorem Source.Inv.send_warning (hload : Loaded nodes) (h : s.Inv nodes) {k : Nat}
    (hpc : s.sender = .holding k) {ok : Bool} (hs : s.send nodes (.send ok) = some s') :
    s'.Inv nodes := by
  obtain ⟨hne, hok, hremoved, hdestroyed⟩ := h.sender_at hpc (by simp)
  have hk := h.holding k hpc
  simp only [Source.send, hpc] at hs
  obtain ⟨w, hw, hs⟩ := Option.bind_eq_some_iff.mp hs
  obtain ⟨node, hnode, hdest⟩ := h.rows w (List.mem_of_getElem? hw)
  obtain ⟨d, hd, hlt⟩ := nodeFindById_of_mem hnode
  rw [hdest, hd] at hs
  obtain ⟨root, hroot, rfl⟩ := Option.map_eq_some_iff.mp hs
  refine h.sender hne hok rfl ⟨false, ?_, nofun, nofun⟩ ?_ ?_ nofun ?_ ?_
  · rw [List.length_append]
    exact hremoved
  · rw [List.map_append, h.sent_eq, List.length_append, List.length_singleton, List.range_succ, hk]
    rfl
  · intro x hx
    cases List.mem_append.mp hx with
    | inl hold => exact h.roots x hold
    | inr hnew => exact List.mem_singleton.mp hnew ▸ hload.findRoot_type hlt hroot
  · intro v hv
    cases hv
    rw [List.length_append, List.length_singleton, hk]
  · rw [hdestroyed, hk]
    rfl

theorem Source.Inv.send (hload : Loaded nodes) (h : s.Inv nodes) {k : SenderStep}
    (hs : s.send nodes k = some s') : s'.Inv nodes := by
  cases k with
  | test =>
      obtain ⟨hpc, rfl⟩ := Option.ite_some_none_eq_some.mp hs
      obtain ⟨hne, hok, hremoved, hdestroyed⟩ := h.sender_at hpc (by simp)
      split
      next hstop =>
          -- the sender is running, so the event was set early
          have hearly : s.stoppedEarly = true := by
            cases he : s.stoppedEarly with
            | true => rfl
            | false => exact absurd (h.late hstop he).2 hne
          exact h.sender hne hok rfl ⟨false, hremoved, nofun, fun _ _ => hearly⟩ h.sent_eq h.roots
            nofun nofun hdestroyed
      next =>
          exact h.sender hne hok rfl ⟨false, hremoved, nofun, nofun⟩ h.sent_eq h.roots nofun nofun
            hdestroyed
  | dequeue =>
      obtain ⟨hpc, hs⟩ := Option.ite_none_right_eq_some.mp hs
      obtain ⟨r, hr, rfl⟩ := Option.map_eq_some_iff.mp hs
      obtain ⟨hne, hok, _, _⟩ := h.sender_at hpc (by simp)
      exact h.takes hne (by rw [hpc]; rfl) (by rw [hpc]; rfl) (hok.take hr)
  | resume =>
      obtain ⟨hpc, hs⟩ := Option.ite_none_right_eq_some.mp hs
      obtain ⟨r, hr, rfl⟩ := Option.map_eq_some_iff.mp hs
      obtain ⟨hne, hok, _, _⟩ := h.sender_at hpc (by simp)
      exact h.takes hne (by rw [hpc]; rfl) (by rw [hpc]; rfl) (hok.resume hr)
  | spurious =>
      obtain ⟨hpc, hs⟩ := Option.ite_none_right_eq_some.mp hs
      obtain ⟨inbox, hin, rfl⟩ := Option.map_eq_some_iff.mp hs
      obtain ⟨hne, hok, _, _⟩ := h.sender_at hpc (by simp)
      obtain ⟨hok', henq, hrem, _⟩ := hok.spurious hin
      have hdestroyed := h.destroyed_eq
      rw [if_neg (h.main_ne (Or.inr hne))] at hdestroyed
      exact
        { h with
          ok := by rw [hpc]; exact hok'
          enqueued := henq.trans h.enqueued
          removed := ⟨false, hrem.trans (h.removed_open hne), nofun, fun hr => absurd hr hne⟩
          destroyed_eq := by rw [if_neg (h.main_ne (Or.inr hne))]; exact hdestroyed }
  | send ok =>
      cases hpc : s.sender with
      | holding k => exact h.send_warning hload hpc hs
      | looping | dequeuing | waiting | destroying k | returned =>
          simp only [Source.send, hpc] at hs
          cases hs
  | destroy =>
      rw [Source.send] at hs
      split at hs
      next k hpc =>
          rw [Option.some.injEq] at hs
          subst hs
          obtain ⟨hne, hok, hremoved, hdestroyed⟩ := h.sender_at hpc (by simp)
          refine h.sender hne hok rfl ⟨false, hremoved, nofun, nofun⟩ h.sent_eq h.roots nofun nofun ?_
          rw [hdestroyed, h.destroying k hpc]
          exact List.range_succ.symm
      next => cases hs

theorem Source.Inv.control (h : s.Inv nodes) {k : SourceMainStep} (hs : s.control k = some s') :
    s'.Inv nodes := by
  cases k with
  | setStop =>
      obtain ⟨hm, rfl⟩ := Option.ite_some_none_eq_some.mp hs
      have hdestroyed := h.destroyed_eq
      rw [hm] at hdestroyed
      exact
        { h with
          removed := by
            obtain ⟨closed, hrem, hclosed, hearly⟩ := h.removed
            refine ⟨closed, hrem, hclosed, ?_⟩
            intro hret hopen
            have := hearly hret hopen
            rw [(h.running hm).2] at this
            cases this
          destroyed_eq := hdestroyed
          running := nofun
          late := fun _ hearly => by simpa using hearly
          generator_joined := fun hj => by rcases hj with hj | hj | hj <;> cases hj
          sender_joined := fun hj => by rcases hj with hj | hj <;> cases hj }
  | joinGenerator =>
      obtain ⟨⟨hm, hret⟩, rfl⟩ := Option.ite_some_none_eq_some.mp hs
      have hdestroyed := h.destroyed_eq
      rw [hm] at hdestroyed
      exact
        { h with
          destroyed_eq := hdestroyed
          running := nofun
          generator_joined := fun _ => hret
          sender_joined := fun hj => by rcases hj with hj | hj <;> cases hj }
  | joinSender =>
      obtain ⟨⟨hm, hret⟩, rfl⟩ := Option.ite_some_none_eq_some.mp hs
      have hdestroyed := h.destroyed_eq
      rw [hm] at hdestroyed
      exact
        { h with
          destroyed_eq := hdestroyed
          running := nofun
          generator_joined := fun _ => h.generator_joined (Or.inl hm)
          sender_joined := fun _ => hret }
  | destroyQueue =>
      obtain ⟨hm, rfl⟩ := Option.ite_some_none_eq_some.mp hs
      have hdestroyed := h.destroyed_eq
      rw [hm, if_neg (by simp), List.append_nil] at hdestroyed
      exact
        { h with
          destroyed_eq := by rw [if_pos rfl, hdestroyed]
          running := nofun
          generator_joined := fun _ => h.generator_joined (Or.inr (Or.inl hm))
          sender_joined := fun _ => h.sender_joined (Or.inl hm) }

/-- The invariant is kept by every step. -/
theorem Source.Inv.step (hload : Loaded nodes) (h : s.Inv nodes) {a : SourceAction}
    (hs : s.step nodes a = some s') : s'.Inv nodes := by
  cases a with
  | generator k => exact h.generate hs
  | sender k => exact h.send hload hs
  | main k => exact h.control hs

/-- The invariant holds in every reachable state. -/
theorem Source.inv_of_reachable (hload : Loaded nodes)
    (h : Machine.Reachable (Source.step nodes) .init s) : s.Inv nodes :=
  h.invariant (Source.init_inv nodes) fun _ _ _ hi hs => hi.step hload hs

/-! ## What is conserved -/

/-- What the sender has not taken is still queued. -/
theorem Source.Inv.split (h : s.Inv nodes) :
    List.range (s.generator.handed s.created.length) =
      List.range (s.sender.taken s.sent.length) ++ s.inbox.queue.inner.reduceOption := by
  obtain ⟨closed, hrem, _⟩ := h.removed
  have hfifo := h.ok.fifo
  rw [h.enqueued, hrem] at hfifo
  exact numbered_split hfifo

theorem Source.Inv.handed_le (h : s.Inv nodes) :
    s.generator.handed s.created.length ≤ s.created.length := by
  cases hpc : s.generator with
  | describing w => exact h.making w (Or.inl hpc) ▸ Nat.le_succ w
  | enqueuing w => exact h.making w (Or.inr hpc) ▸ Nat.le_succ w
  | counting | looping | creating | closing | returned => exact Nat.le_refl _

theorem Source.Inv.sent_le (h : s.Inv nodes) : s.sent.length ≤ s.created.length := by
  have hlen := congrArg List.length h.split
  rw [List.length_append, List.length_range, List.length_range] at hlen
  have htaken : s.sent.length ≤ s.sender.taken s.sent.length := by
    cases s.sender <;> simp [SenderPc.taken]
  have := h.handed_le
  omega

/-- The warnings destroyed are the first ones, and in the end they are all. -/
theorem Source.Inv.destroyed_range (h : s.Inv nodes) :
    ∃ m, s.destroyed = List.range m ∧ (s.main = .finished → m = s.created.length) := by
  by_cases hm : s.main = .finished
  · have hgen := h.generator_joined (Or.inr (Or.inr hm))
    have hsplit := h.split
    have hdestroyed := h.destroyed_eq
    rw [h.sender_joined (Or.inr hm), hgen] at hsplit
    rw [h.sender_joined (Or.inr hm), if_pos hm] at hdestroyed
    exact ⟨_, hdestroyed.trans hsplit.symm, fun _ => rfl⟩
  · refine ⟨s.sender.gone s.sent.length, ?_, fun hf => absurd hf hm⟩
    rw [h.destroyed_eq, if_neg hm, List.append_nil]

/-- Over an acyclic table the sender can always send what it holds. -/
theorem Source.Inv.send_enabled (h : s.Inv nodes) (hload : Loaded nodes)
    (hac : Forest.Acyclic (parentOf nodes)) {w : Nat} (hpc : s.sender = .holding w) (ok : Bool) :
    (s.step nodes (.sender (.send ok))).isSome := by
  have hlt : w < s.created.length := by
    have hlen := congrArg List.length h.split
    have hle := h.handed_le
    rw [hpc, List.length_append, List.length_range, List.length_range] at hlen
    have htaken : SenderPc.taken s.sent.length (.holding w) = s.sent.length + 1 := rfl
    have := h.holding w hpc
    omega
  have hw := List.getElem?_eq_getElem hlt
  obtain ⟨node, hnode, hdest⟩ := h.rows _ (List.getElem_mem hlt)
  obtain ⟨d, hd, hdlt⟩ := nodeFindById_of_mem hnode
  obtain ⟨l, hl⟩ := (Forest.acyclic_iff_rootChain (parentOf_finite nodes)).mp hac d
  obtain ⟨r, _, _, hclimb⟩ := hl.climb
  have hroot : findRoot nodes nodes.length d = some r :=
    hclimb _ (hload.rootChain_length_le hdlt hl)
  simp only [Source.step, Source.send, hpc, hw, Option.bind_some, hdest, hd, hroot]
  rfl

/-- For every loaded table without cycles, all random choices, all outcomes of the sends
and every interleaving: the warnings that are sent are the first ones created, in order
and once each, and every one goes to a row of type ROOT.  They are all the warnings
created if both threads have ended and the stop event was not set before.  No warning is
destroyed twice, and when the queue has been destroyed every warning was. -/
theorem source_conserves (hload : Loaded nodes) (hac : Forest.Acyclic (parentOf nodes))
    (h : Machine.Reachable (Source.step nodes) .init s) :
    s.sent.map Prod.fst <+: List.range s.created.length ∧
    (s.generator = .returned → s.sender = .returned → s.stoppedEarly = false →
      s.sent.map Prod.fst = List.range s.created.length) ∧
    (∀ w, s.destroyed.count w ≤ 1) ∧
    (s.main = .finished → ∀ w, w < s.created.length → s.destroyed.count w = 1) ∧
    (∀ x ∈ s.sent, ∃ node, nodes[x.2]? = some node ∧ node.type = .root) ∧
    (∀ w, s.sender = .holding w → ∀ ok, (s.step nodes (.sender (.send ok))).isSome) := by
  have hinv := Source.inv_of_reachable hload h
  obtain ⟨m, hm, hall⟩ := hinv.destroyed_range
  refine ⟨?_, ?_, ?_, ?_, hinv.roots, fun w hpc ok => hinv.send_enabled hload hac hpc ok⟩
  · obtain ⟨k, hk⟩ := Nat.exists_eq_add_of_le hinv.sent_le
    rw [hinv.sent_eq, hk, List.range_add]
    exact List.prefix_append ..
  · intro hgen hsend hlate
    obtain ⟨closed, hrem, _, hearly⟩ := hinv.removed
    have hfifo := hinv.ok.fifo
    rw [hinv.enqueued, hrem, hgen, hsend] at hfifo
    cases closed with
    | false =>
        rw [hearly hsend rfl] at hlate
        cases hlate
    | true =>
        have hlen : s.sent.length = s.created.length := (numbered_closed hfifo).1
        rw [hinv.sent_eq, hlen]
  · intro w
    exact List.nodup_iff_count_le_one.mp (hm ▸ List.nodup_range) w
  · intro hfin w hw
    rw [hm, hall hfin]
    exact List.count_eq_one_of_mem List.nodup_range (List.mem_range.mpr hw)

end Steps

/-- A run over the table of two rows.  The sender sleeps before a warning is there, the
event is set while the second warning is being made, and the sender takes only the
first. -/
def stoppedRun : List SourceAction :=
  [.generator .count, .sender .test, .sender .dequeue, .generator .test,
    .generator (.create ⟨0, 1, 42, 1700000000⟩), .generator (.describe true),
    .generator .enqueue, .generator .test, .generator (.create ⟨0, 2, 7, 1700000001⟩),
    .main .setStop, .generator (.describe true), .generator .enqueue, .generator .test,
    .generator .close, .main .joinGenerator, .sender .resume, .sender (.send true),
    .sender .destroy, .sender .test, .main .joinSender, .main .destroyQueue]

/-- The state that run leads to. -/
def stoppedEnd : Source where
  inbox :=
    { queue := { inner := [some 1, none], capacity := 0, cvNotEmpty := {}, cvNotFull := {} }
      enqueued := [some 0, some 1, none]
      removed := [some 0] }
  stopEvent := true
  generator := .returned
  counter := 2
  sender := .returned
  main := .finished
  created :=
    [{ city := nameB, type := 1, value := doubleOfInt 42, timestamp := 1700000000
       destNode := nameB },
      { city := nameB, type := 2, value := doubleOfInt 7, timestamp := 1700000001
        destNode := nameB }]
  sent := [(0, 0)]
  destroyed := [0, 1]
  stoppedEarly := true

theorem source_conserves_twoRows :
    stoppedEnd.sent.map Prod.fst <+: List.range 2 ∧ stoppedEnd.destroyed.count 1 = 1 := by
  have hrun : Machine.exec (Source.step twoRows) .init stoppedRun = some stoppedEnd := by
    decide +kernel
  have h := source_conserves ⟨_, twoRowFile_load⟩ twoRows_acyclic (Machine.exec_reachable hrun)
  exact ⟨h.1, h.2.2.2.1 rfl 1 (by decide)⟩

end DataPropagator
