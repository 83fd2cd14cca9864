import DataPropagator.DataSource.Pipeline

/-!
# Stopping the data source

`main` sets the stop event, joins the generator and joins the sender.  The sender looks at
the event only between two calls of `tsqueue_dequeue`, and inside a call it needs an item
to come out.  On every path but one the generator leaves a NULL behind it.  When the table
has no row of type DESTINATION it returns at once, and then a sender that is already
inside a call stays there.
-/

namespace DataPropagator

/-! ## What stopping needs -/

/-- The sender sleeps in `tsqueue_dequeue`, nothing is queued, and nobody will enqueue
anything. -/
def Source.Stuck (s : Source) : Prop :=
  s.stopEvent = true ∧ s.generator = .returned ∧ s.sender = .waiting ∧ s.inbox.queue.inner = []

/-- A bound on the steps that the sender still takes once an item is there for it and the
event is set. -/
def SenderPc.left : SenderPc → Nat
  | .returned => 0
  | .looping => 1
  | .destroying _ => 2
  | .holding _ => 3
  | .dequeuing => 4
  | .waiting => 4

/-- Once the event is set and the generator has returned, the sender has a step that
brings it nearer to its return and that is no wake-up without a signal. -/
def Source.Advances (nodes : List NodeInfo) (s : Source) : Prop :=
  s.stopEvent = true → s.generator = .returned → s.sender ≠ .returned →
    ∃ k s', k ≠ .spurious ∧ s.step nodes (.sender k) = some s' ∧ s'.sender.left < s.sender.left

variable {nodes : List NodeInfo} {s : Source}

theorem destinations_ne_nil_iff :
    destinations nodes ≠ [] ↔ ∃ node ∈ nodes, node.type = .destination := by
  constructor
  · intro h
    obtain ⟨i, hi⟩ := List.exists_mem_of_ne_nil _ h
    obtain ⟨node, hnode, htype⟩ := mem_destinations.mp hi
    exact ⟨node, List.mem_of_getElem? hnode, htype⟩
  · rintro ⟨node, hnode, htype⟩
    obtain ⟨i, hi⟩ := List.mem_iff_getElem?.mp hnode
    exact List.ne_nil_of_mem (mem_destinations.mpr ⟨node, hi, htype⟩)

/-! ## With a destination -/

/-- The generator has left something for a sender that has not returned. -/
theorem Source.Inv.inner_ne_nil (h : s.Inv nodes) (hdests : destinations nodes ≠ [])
    (hgen : s.generator = .returned) (hsend : s.sender ≠ .returned) :
    s.inbox.queue.inner ≠ [] := by
  have hfifo := h.ok.fifo
  have hclosed : GeneratorPc.returned.closed (destinations nodes) = true := by
    simpa [GeneratorPc.closed] using hdests
  rw [h.enqueued, hgen, hclosed, h.removed_open hsend] at hfifo
  exact numbered_left hfifo

/-- A call of the sender on a queue that is not empty returns. -/
theorem Source.left_takes {r : Inbox Nat × Option (Option Nat)} (hne : s.inbox.queue.inner ≠ [])
    (hr : s.inbox.Took r) : (s.takes r).sender.left < 4 := by
  cases hr with
  | asleep hnil _ _ _ _ => exact absurd hnil hne
  | @item _ data _ _ _ _ =>
      cases data with
      | none => exact Nat.zero_lt_succ 3
      | some _ => exact Nat.lt_succ_self 3

theorem Source.left_send {k : Nat} {ok : Bool} {s' : Source} (hpc : s.sender = .holding k)
    (hs : s.send nodes (.send ok) = some s') : s'.sender.left = 2 := by
  simp only [Source.send, hpc] at hs
  obtain ⟨w, _, hs⟩ := Option.bind_eq_some_iff.mp hs
  split at hs
  · rw [Option.some.injEq] at hs
    exact hs ▸ rfl
  · obtain ⟨root, _, rfl⟩ := Option.map_eq_some_iff.mp hs
    rfl

theorem Source.Inv.advances (h : s.Inv nodes) (hload : Loaded nodes)
    (hac : Forest.Acyclic (parentOf nodes)) (hdests : destinations nodes ≠ []) :
    s.Advances nodes := by
  intro hstop hgen hsend
  have hne := h.inner_ne_nil hdests hgen hsend
  have hok := h.ok
  cases hpc : s.sender with
  | returned => exact absurd hpc hsend
  | looping =>
      exact ⟨.test, { s with sender := .returned }, by simp,
        by simp [Source.step, Source.send, hpc, hstop], Nat.lt_succ_self 0⟩
  | dequeuing =>
      rw [hpc] at hok
      obtain ⟨r, hr⟩ := Option.isSome_iff_exists.mp hok.take_enabled
      exact ⟨.dequeue, s.takes r, by simp, by simp [Source.step, Source.send, hpc, hr],
        Source.left_takes hne (hok.take hr)⟩
  | waiting =>
      rw [hpc] at hok
      obtain ⟨r, hr⟩ := Option.isSome_iff_exists.mp (hok.resume_enabled hne)
      exact ⟨.resume, s.takes r, by simp, by simp [Source.step, Source.send, hpc, hr],
        Source.left_takes hne (hok.resume hr)⟩
  | holding k =>
      obtain ⟨s', hs'⟩ := Option.isSome_iff_exists.mp (h.send_enabled hload hac hpc true)
      have hsent : s.send nodes (.send true) = some s' := hs'
      exact ⟨.send true, s', by simp, hs', Source.left_send hpc hsent ▸ Nat.lt_succ_self 2⟩
  | destroying k =>
      exact ⟨.destroy, { s with sender := .looping, destroyed := s.destroyed ++ [k] }, by simp,
        by simp [Source.step, Source.send, hpc], Nat.lt_succ_self 1⟩

/-! ## Without a destination -/

/-- The state after the generator has returned at once, the sender has gone to sleep and
the event was set. -/
def stuckSource : Source where
  inbox := { Inbox.create with queue := { tsqueueCreate 0 with cvNotEmpty := { sleeping := [()] } } }
  stopEvent := true
  generator := .returned
  counter := 0
  sender := .waiting
  main := .joiningGenerator
  created := []
  sent := []
  destroyed := []
  stoppedEarly := true

theorem stuckSource_reachable (hdests : destinations nodes = []) :
    Machine.Reachable (Source.step nodes) .init stuckSource := by
  have hcount : Source.init.step nodes (.generator .count) =
      some { Source.init with generator := .returned } := by
    simp [Source.step, Source.generate, Source.init, hdests]
  refine .head hcount (.head (a := .sender .test) rfl (.head (a := .sender .dequeue) rfl
    (.head (a := .main .setStop) rfl ?_)))
  exact Machine.Reachable.refl _ _

/-- For every loaded table without cycles: in no reachable state the event is set, the
generator has returned and the sender sleeps on an empty queue, and once the event is
set and the generator has returned the sender always gets nearer to its return, if and
only if the table has a row of type DESTINATION. -/
theorem source_can_stop_iff (hload : Loaded nodes) (hac : Forest.Acyclic (parentOf nodes)) :
    (∀ s, Machine.Reachable (Source.step nodes) .init s → ¬ s.Stuck ∧ s.Advances nodes) ↔
      ∃ node ∈ nodes, node.type = .destination := by
  rw [← destinations_ne_nil_iff]
  constructor
  · intro h hnil
    exact (h stuckSource (stuckSource_reachable hnil)).1 ⟨rfl, rfl, rfl, rfl⟩
  · intro hdests s hs
    have hinv := Source.inv_of_reachable hload hs
    refine ⟨?_, hinv.advances hload hac hdests⟩
    rintro ⟨_, hgen, hsend, hnil⟩
    exact hinv.inner_ne_nil hdests hgen (by rw [hsend]; simp) hnil

theorem source_can_stop_iff_twoRows :
    (∀ s, Machine.Reachable (Source.step twoRows) .init s → ¬ s.Stuck ∧ s.Advances twoRows) ↔
      ∃ node ∈ twoRows, node.type = .destination :=
  source_can_stop_iff ⟨_, twoRowFile_load⟩ twoRows_acyclic

/-- The line `A,127.0.0.1,1`. -/
def oneRowFile : Bytes := [65, 44, 49, 50, 55, 46, 48, 46, 48, 46, 49, 44, 49, 10]

/-- The table of that line: a root without children. -/
def oneRow : List NodeInfo :=
  [{ id := nameA, address := loopback, port := 1, parent := none, children := []
     childCount := 0, type := .root }]

theorem oneRowFile_load : nodeLoadAll (some oneRowFile) = .ok oneRow := by
  rw [nodeLoadAll_eq]
  exact congrArg Except.ok (by decide +kernel)

theorem oneRow_acyclic : Forest.Acyclic (parentOf oneRow) := by
  apply Forest.acyclic_of_lt
  intro a b h
  match a with
  | 0 => cases h
  | a + 1 => cases h

/-- Over a table with one row the sender can be left asleep on an empty queue for ever. -/
theorem stopped_source_sleeps :
    nodeLoadAll (some oneRowFile) = .ok oneRow ∧ Forest.Acyclic (parentOf oneRow) ∧
      ∃ s, Machine.Reachable (Source.step oneRow) .init s ∧ s.Stuck :=
  ⟨oneRowFile_load, oneRow_acyclic, stuckSource, stuckSource_reachable (by decide), rfl, rfl, rfl,
    rfl⟩

/-! ## How long the threads take -/

/-- A bound on the steps that the generator still takes once the event is set. -/
def GeneratorPc.left : GeneratorPc → Nat
  | .creating => 5
  | .describing _ => 4
  | .counting => 3
  | .enqueuing _ => 3
  | .looping => 2
  | .closing => 1
  | .returned => 0

/-- A bound on the steps that the sender still takes once the event is set, if nobody wakes it. -/
def Source.senderLeft (s : Source) : Nat :=
  match s.sender with
  | .dequeuing => 5
  | .waiting => 4 + s.inbox.queue.cvNotEmpty.woken.length
  | pc => pc.left

/-- A bound on the steps of both threads once the event is set.  Each item that the generator
enqueues may wake the sender. -/
def Source.threadsLeft (s : Source) : Nat := 2 * s.generator.left + s.senderLeft

/-- A step of one of the two threads. -/
def SourceAction.ofThread : SourceAction → Bool
  | .main _ => false
  | _ => true

variable {s' : Source}

/-- The threads leave `main` and the event alone. -/
theorem Source.thread_frame {a : SourceAction} (ha : a.ofThread = true)
    (hs : s.step nodes a = some s') : s'.main = s.main ∧ s'.stopEvent = s.stopEvent := by
  cases a with
  | main k => cases ha
  | generator k =>
      change s.generate nodes k = some s' at hs
      cases k with
      | count | test =>
          obtain ⟨_, rfl⟩ := Option.ite_some_none_eq_some.mp hs
          exact ⟨rfl, rfl⟩
      | create r =>
          obtain ⟨_, hs⟩ := Option.ite_none_right_eq_some.mp hs
          obtain ⟨_, _, rfl⟩ := Option.map_eq_some_iff.mp hs
          exact ⟨rfl, rfl⟩
      | describe desc =>
          rw [Source.generate] at hs
          split at hs
          · cases hs
            exact ⟨rfl, rfl⟩
          · cases hs
      | enqueue =>
          rw [Source.generate] at hs
          split at hs
          · obtain ⟨_, _, rfl⟩ := Option.map_eq_some_iff.mp hs
            exact ⟨rfl, rfl⟩
          · cases hs
      | close =>
          obtain ⟨_, hs⟩ := Option.ite_none_right_eq_some.mp hs
          obtain ⟨_, _, rfl⟩ := Option.map_eq_some_iff.mp hs
          exact ⟨rfl, rfl⟩
  | sender k =>
      have htakes : ∀ r : Inbox Nat × Option (Option Nat),
          (s.takes r).main = s.main ∧ (s.takes r).stopEvent = s.stopEvent := by
        rintro ⟨inbox, _ | _ | _⟩ <;> exact ⟨rfl, rfl⟩
      change s.send nodes k = some s' at hs
      cases k with
      | test =>
          obtain ⟨_, rfl⟩ := Option.ite_some_none_eq_some.mp hs
          exact ⟨rfl, rfl⟩
      | dequeue | resume =>
          obtain ⟨_, hs⟩ := Option.ite_none_right_eq_some.mp hs
          obtain ⟨r, _, rfl⟩ := Option.map_eq_some_iff.mp hs
          exact htakes r
      | spurious =>
          obtain ⟨_, hs⟩ := Option.ite_none_right_eq_some.mp hs
          obtain ⟨_, _, rfl⟩ := Option.map_eq_some_iff.mp hs
          exact ⟨rfl, rfl⟩
      | send ok =>
          rw [Source.send] at hs
          split at hs
          · obtain ⟨_, _, hs⟩ := Option.bind_eq_some_iff.mp hs
            split at hs
            · cases hs
              exact ⟨rfl, rfl⟩
            · obtain ⟨_, _, rfl⟩ := Option.map_eq_some_iff.mp hs
              exact ⟨rfl, rfl⟩
          · cases hs
      | destroy =>
          rw [Source.send] at hs
          split at hs
          · cases hs
            exact ⟨rfl, rfl⟩
          · cases hs

theorem Source.senderLeft_enqueue (h : s.inbox.Ok s.sender.isWaiting) {item : Option Nat}
    {inbox : Inbox Nat} (hin : s.inbox.enqueue item true = some inbox) (pc : GeneratorPc) :
    { s with inbox, generator := pc }.senderLeft ≤ s.senderLeft + 1 := by
  have hok := h.enqueue hin
  cases hpc : s.sender with
  | waiting =>
      rw [hpc] at hok
      have hwoken := hok.woken_le
      simp only [Source.senderLeft, hpc]
      omega
  | looping | dequeuing | holding _ | destroying _ | returned =>
      simp only [Source.senderLeft, hpc]
      omega

theorem Source.threadsLeft_lt (hgen : s'.generator.left < s.generator.left)
    (hsend : s'.senderLeft ≤ s.senderLeft + 1) : s'.threadsLeft < s.threadsLeft := by
  rw [Source.threadsLeft, Source.threadsLeft]
  omega

/-- The event is set, so a test of the generator leads out of its loop. -/
theorem Source.generate_left (h : s.Inv nodes) (hstop : s.stopEvent = true) {k : GeneratorStep}
    (hs : s.generate nodes k = some s') : s'.threadsLeft < s.threadsLeft := by
  cases k with
  | count =>
      obtain ⟨hpc, rfl⟩ := Option.ite_some_none_eq_some.mp hs
      refine Source.threadsLeft_lt ?_ (Nat.le_succ s.senderLeft)
      rw [hpc]
      show GeneratorPc.left (if _ then _ else _) < 3
      split <;> decide
  | test =>
      obtain ⟨hpc, rfl⟩ := Option.ite_some_none_eq_some.mp hs
      refine Source.threadsLeft_lt ?_ (Nat.le_succ s.senderLeft)
      rw [hpc]
      simp [hstop, GeneratorPc.left]
  | create r =>
      obtain ⟨hpc, hs⟩ := Option.ite_none_right_eq_some.mp hs
      obtain ⟨_, _, rfl⟩ := Option.map_eq_some_iff.mp hs
      refine Source.threadsLeft_lt ?_ (Nat.le_succ s.senderLeft)
      rw [hpc]
      exact Nat.lt_succ_self 4
  | describe desc =>
      rw [Source.generate] at hs
      split at hs
      next w hpc =>
          cases hs
          refine Source.threadsLeft_lt ?_ (Nat.le_succ s.senderLeft)
          rw [hpc]
          exact Nat.lt_succ_self 3
      next => cases hs
  | enqueue =>
      rw [Source.generate] at hs
      split at hs
      next w hpc =>
          obtain ⟨inbox, hin, rfl⟩ := Option.map_eq_some_iff.mp hs
          refine Source.threadsLeft_lt ?_ (Source.senderLeft_enqueue h.ok hin .looping)
          rw [hpc]
          exact Nat.lt_succ_self 2
      next => cases hs
  | close =>
      obtain ⟨hpc, hs⟩ := Option.ite_none_right_eq_some.mp hs
      obtain ⟨inbox, hin, rfl⟩ := Option.map_eq_some_iff.mp hs
      refine Source.threadsLeft_lt ?_ (Source.senderLeft_enqueue h.ok hin .returned)
      rw [hpc]
      exact Nat.lt_succ_self 0

/-- What a stay in `tsqueue_dequeue` leaves to do. -/
theorem Source.senderLeft_takes {q : Inbox Nat} {r : Inbox Nat × Option (Option Nat)}
    (hok : q.Ok false) (hr : q.take = some r) : (s.takes r).senderLeft ≤ 4 := by
  match r, hr with
  | (inbox, none), hr =>
      show 4 + inbox.queue.cvNotEmpty.woken.length ≤ 4
      rw [hok.take_asleep hr]
      exact Nat.le_refl _
  | (inbox, some none), _ => exact Nat.zero_le _
  | (inbox, some (some w)), _ => exact Nat.le_succ 3

theorem Source.takes_generator (r : Inbox Nat × Option (Option Nat)) :
    (s.takes r).generator = s.generator := by
  obtain ⟨inbox, _ | _ | _⟩ := r <;> rfl

/-- The event is set, so a test of the sender ends it. -/
theorem Source.send_left (h : s.Inv nodes) (hstop : s.stopEvent = true) {k : SenderStep}
    (hk : k ≠ .spurious) (hs : s.send nodes k = some s') : s'.threadsLeft < s.threadsLeft := by
  cases k with
  | test =>
      obtain ⟨hpc, rfl⟩ := Option.ite_some_none_eq_some.mp hs
      simp only [Source.threadsLeft, Source.senderLeft, hpc, hstop, if_true]
      exact Nat.lt_succ_self _
  | dequeue =>
      obtain ⟨hpc, hs⟩ := Option.ite_none_right_eq_some.mp hs
      obtain ⟨r, hr, rfl⟩ := Option.map_eq_some_iff.mp hs
      have hok : s.inbox.Ok false := by
        have hok := h.ok
        rw [hpc] at hok
        exact hok
      have hle := Source.senderLeft_takes (s := s) hok hr
      have hleft : s.senderLeft = 5 := by rw [Source.senderLeft, hpc]
      rw [Source.threadsLeft, Source.threadsLeft, Source.takes_generator, hleft]
      omega
  | resume =>
      obtain ⟨hpc, hs⟩ := Option.ite_none_right_eq_some.mp hs
      obtain ⟨r, hr, rfl⟩ := Option.map_eq_some_iff.mp hs
      have hok : s.inbox.Ok true := by
        have hok := h.ok
        rw [hpc] at hok
        exact hok
      obtain ⟨hwoken, q, hq, htake⟩ := hok.resume_take hr
      have hle := Source.senderLeft_takes (s := s) hq htake
      have hleft : s.senderLeft = 5 := by rw [Source.senderLeft, hpc, hwoken]; rfl
      rw [Source.threadsLeft, Source.threadsLeft, Source.takes_generator, hleft]
      omega
  | spurious => exact absurd rfl hk
  | send ok =>
      cases hpc : s.sender with
      | holding w =>
          simp only [Source.send, hpc] at hs
          obtain ⟨_, _, hs⟩ := Option.bind_eq_some_iff.mp hs
          have hleft : s.senderLeft = 3 := by rw [Source.senderLeft, hpc]; rfl
          split at hs
          · cases hs
            rw [Source.threadsLeft, Source.threadsLeft, hleft]
            exact Nat.lt_succ_self _
          · obtain ⟨_, _, rfl⟩ := Option.map_eq_some_iff.mp hs
            rw [Source.threadsLeft, Source.threadsLeft, hleft]
            exact Nat.lt_succ_self _
      | looping | dequeuing | waiting | destroying _ | returned =>
          simp only [Source.send, hpc] at hs
          cases hs
  | destroy =>
      rw [Source.send] at hs
      split at hs
      next w hpc =>
          cases hs
          have hleft : s.senderLeft = 2 := by rw [Source.senderLeft, hpc]; rfl
          rw [Source.threadsLeft, Source.threadsLeft, hleft]
          exact Nat.lt_succ_self _
      next => cases hs

/-- Once the event is set, every step of a thread but a wake-up without a signal brings the
threads nearer to their end. -/
theorem Source.Inv.threadsLeft_lt (h : s.Inv nodes) (hstop : s.stopEvent = true) {a : SourceAction}
    (ha : a.ofThread = true) (hspurious : a ≠ .sender .spurious)
    (hs : s.step nodes a = some s') : s'.threadsLeft < s.threadsLeft := by
  cases a with
  | generator k => exact Source.generate_left h hstop hs
  | sender k =>
      refine Source.send_left h hstop ?_ hs
      rintro rfl
      exact hspurious rfl
  | main k => cases ha

/-! ## The sender that sleeps for ever -/

/-- Nothing wakes the sender then, and `main` does not get past it. -/
theorem Source.Stuck.step (h : s.Stuck) (hinv : s.Inv nodes) {a : SourceAction}
    (hs : s.step nodes a = some s') : s'.Stuck := by
  obtain ⟨hstop, hgen, hsend, hnil⟩ := h
  have hok := hinv.ok
  rw [hsend] at hok
  cases a with
  | generator k =>
      have hnone : s.generate nodes k = none := by
        cases k <;> simp [Source.generate, hgen]
      rw [Source.step, hnone] at hs
      cases hs
  | sender k =>
      cases k with
      | resume =>
          obtain ⟨_, hs⟩ := Option.ite_none_right_eq_some.mp hs
          obtain ⟨r, hr, rfl⟩ := Option.map_eq_some_iff.mp hs
          cases hok.resume hr with
          | asleep _ _ _ _ hinner => exact ⟨hstop, hgen, rfl, hinner.trans hnil⟩
          | item hcons _ _ _ =>
              rw [hnil] at hcons
              cases hcons
      | spurious =>
          obtain ⟨_, hs⟩ := Option.ite_none_right_eq_some.mp hs
          obtain ⟨inbox, hin, rfl⟩ := Option.map_eq_some_iff.mp hs
          exact ⟨hstop, hgen, hsend, (hok.spurious hin).2.2.2.trans hnil⟩
      | test | dequeue | send _ | destroy =>
          simp [Source.step, Source.send, hsend] at hs
  | main k =>
      cases k with
      | setStop =>
          obtain ⟨hm, _⟩ := Option.ite_some_none_eq_some.mp hs
          rw [(hinv.running hm).1] at hstop
          cases hstop
      | joinGenerator =>
          obtain ⟨_, rfl⟩ := Option.ite_some_none_eq_some.mp hs
          exact ⟨hstop, hgen, hsend, hnil⟩
      | joinSender =>
          obtain ⟨⟨_, hreturned⟩, _⟩ := Option.ite_some_none_eq_some.mp hs
          rw [hsend] at hreturned
          cases hreturned
      | destroyQueue =>
          obtain ⟨hm, _⟩ := Option.ite_some_none_eq_some.mp hs
          have hreturned := hinv.sender_joined (Or.inl hm)
          rw [hsend] at hreturned
          cases hreturned

/-- With a destination the generator can make a warning. -/
theorem generateWarning_enabled (hdests : destinations nodes ≠ []) :
    ∃ r, (generateWarning nodes r).isSome := by
  have hpos := List.length_pos_iff.mpr hdests
  refine ⟨⟨0, 0, 0, 0⟩, ?_⟩
  have hget := List.getElem?_eq_getElem hpos
  obtain ⟨node, hnode, _⟩ := mem_destinations.mp (List.getElem_mem hpos)
  rw [generateWarning, Nat.zero_mod, hget]
  show ((nodes[(destinations nodes)[0]]?).bind _).isSome = true
  rw [hnode]
  rfl

/-- When neither thread can take a step but a wake-up without a signal, both have returned or the
sender sleeps for ever. -/
theorem Source.Inv.blocked (h : s.Inv nodes) (hload : Loaded nodes)
    (hac : Forest.Acyclic (parentOf nodes)) (hstop : s.stopEvent = true)
    (hnone : ∀ a : SourceAction, a.ofThread = true → a ≠ .sender .spurious →
      s.step nodes a = none) :
    s.generator = .returned ∧ (s.sender = .returned ∨ s.Stuck) := by
  have hgenNone (k : GeneratorStep) : ¬ (s.generate nodes k).isSome := by
    have hk := hnone (.generator k) rfl (by simp)
    rw [Source.step] at hk
    simp [hk]
  have hsendNone (k : SenderStep) (hk : k ≠ .spurious) : ¬ (s.send nodes k).isSome := by
    have hk := hnone (.sender k) rfl (by simpa using hk)
    rw [Source.step] at hk
    simp [hk]
  have hgen : s.generator = .returned := by
    cases hpc : s.generator with
    | returned => rfl
    | counting => exact absurd (by simp [Source.generate, hpc]) (hgenNone .count)
    | looping => exact absurd (by simp [Source.generate, hpc]) (hgenNone .test)
    | creating =>
        obtain ⟨r, hr⟩ := generateWarning_enabled (h.dests (by simp [hpc]) (by simp [hpc]))
        exact absurd (by simpa [Source.generate, hpc] using hr) (hgenNone (.create r))
    | describing w => exact absurd (by simp [Source.generate, hpc]) (hgenNone (.describe true))
    | enqueuing w =>
        have henabled := h.ok.enqueue_enabled (some w) true
        exact absurd (by simpa [Source.generate, hpc] using henabled) (hgenNone .enqueue)
    | closing =>
        have henabled := h.ok.enqueue_enabled none true
        exact absurd (by simpa [Source.generate, hpc] using henabled) (hgenNone .close)
  refine ⟨hgen, ?_⟩
  have hok := h.ok
  cases hpc : s.sender with
  | returned => exact Or.inl rfl
  | looping => exact absurd (by simp [Source.send, hpc]) (hsendNone .test (by simp))
  | dequeuing =>
      rw [hpc] at hok
      have henabled := hok.take_enabled
      exact absurd (by simpa [Source.send, hpc] using henabled) (hsendNone .dequeue (by simp))
  | waiting =>
      rw [hpc] at hok
      by_cases hnil : s.inbox.queue.inner = []
      · exact Or.inr ⟨hstop, hgen, hpc, hnil⟩
      · have henabled := hok.resume_enabled hnil
        exact absurd (by simpa [Source.send, hpc] using henabled) (hsendNone .resume (by simp))
  | holding w =>
      exact absurd (h.send_enabled hload hac hpc true) (hsendNone (.send true) (by simp))
  | destroying w => exact absurd (by simp [Source.send, hpc]) (hsendNone .destroy (by simp))

end DataPropagator
