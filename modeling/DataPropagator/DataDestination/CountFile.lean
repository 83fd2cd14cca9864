import DataPropagator.DataDestination.Draining

/-!
# The count file of a destination

`main` writes the count before it calls `dd_destroy`.  At that moment warnings may be
queued, the processor may hold one that it has not counted, and the listener still takes
clients.  The number in the file is final on exactly the runs on which all three are
excluded.
-/

namespace DataPropagator

/-- `main` writes the count when nothing is left to count, and no warning is enqueued
after that. -/
def Destination.CountsLast (s : Destination) : DestinationAction → Prop
  | .main .writeCount => s.inbox.queue.inner.reduceOption = [] ∧ s.processor.uncounted = []
  | .listener (.enqueue alloc) => alloc = true → s.countFile = none
  | _ => True

instance (s : Destination) : (a : DestinationAction) → Decidable (s.CountsLast a)
  | .main .writeCount => inferInstanceAs (Decidable (_ ∧ _))
  | .listener (.enqueue _) => inferInstanceAs (Decidable (_ → _))
  | .signal => isTrue trivial
  | .processor _ => isTrue trivial
  | .listener (.socket _) | .listener (.accept _) | .listener (.receive _) => isTrue trivial
  | .main (.createEvent _) | .main .wake | .main (.openFile _) | .main .closeListener =>
      isTrue trivial
  | .main .joinListener | .main (.sentinel _) | .main .joinProcessor | .main .destroyQueue =>
      isTrue trivial

/-- `main` is past the writing of the count. -/
def DestinationPc.pastWriting : DestinationPc → Bool
  | .starting | .waiting | .opening | .writing => false
  | _ => true

/-- Once the count is written, nothing is left to count and the number is right. -/
structure Destination.Settled (s : Destination) : Prop extends s.Inv where
  written : s.countFile ≠ none → s.main.pastWriting = true
  queued : s.countFile ≠ none → s.inbox.queue.inner.reduceOption = []
  uncounted : s.countFile ≠ none → s.processor.uncounted = []
  right : ∀ n, s.countFile = some n → n = intOfU32 s.warningCount

theorem Destination.init_settled : Destination.init.Settled where
  toInv := Destination.init_inv
  written h := absurd rfl h
  queued h := absurd rfl h
  uncounted h := absurd rfl h
  right n h := by cases h

variable {s s' : Destination}

/-- An enqueuing that adds no warning. -/
theorem reduceOption_enqueue {l : List (Option Nat)} {item : Option Nat} {alloc : Bool}
    (h : alloc = true → item = none) :
    (if alloc then l ++ [item] else l).reduceOption = l.reduceOption := by
  cases alloc with
  | false => rfl
  | true =>
      rw [if_pos rfl, h rfl, List.reduceOption_append]
      exact List.append_nil _

theorem Destination.Settled.listenerFn (h : s.Settled) {k : ReceiverStep}
    (hok : s.CountsLast (.listener k)) (hs : s.listenerFn k = some s') : s'.Settled := by
  have hinv := h.toInv.listenerFn hs
  cases k with
  | socket ok =>
      obtain ⟨_, rfl⟩ := Option.ite_some_none_eq_some.mp hs
      exact ⟨hinv, h.written, h.queued, h.uncounted, h.right⟩
  | accept ok =>
      obtain ⟨_, rfl⟩ := Option.ite_some_none_eq_some.mp hs
      exact ⟨hinv, h.written, h.queued, h.uncounted, h.right⟩
  | receive w =>
      cases w with
      | none =>
          obtain ⟨_, rfl⟩ := Option.ite_some_none_eq_some.mp hs
          exact ⟨hinv, h.written, h.queued, h.uncounted, h.right⟩
      | some w =>
          obtain ⟨_, rfl⟩ := Option.ite_some_none_eq_some.mp hs
          exact ⟨hinv, h.written, h.queued, h.uncounted, h.right⟩
  | enqueue alloc =>
      have hearly : alloc = true → s.countFile = none := hok
      rw [Destination.listenerFn] at hs
      split at hs
      next w hpc =>
          obtain ⟨inbox, hin, rfl⟩ := Option.map_eq_some_iff.mp hs
          refine ⟨hinv, h.written, ?_, h.uncounted, h.right⟩
          intro hwritten
          rw [(h.ok.enqueue_frame hin).2, reduceOption_enqueue fun ha => absurd (hearly ha) hwritten]
          exact h.queued hwritten
      next => cases hs

/-- What the processor takes after the count was written is NULL. -/
theorem Destination.Settled.takes (h : s.Settled) {r : Inbox Nat × Option (Option Nat)}
    (hinv : (s.takes r).Inv) (hr : s.inbox.Took r) : (s.takes r).Settled := by
  cases hr with
  | asleep _ _ _ _ hin =>
      exact ⟨hinv, h.written, fun hw => (congrArg List.reduceOption hin).trans (h.queued hw),
        fun _ => rfl, h.right⟩
  | @item inbox data hcons _ _ _ =>
      cases data with
      | none =>
          refine ⟨hinv, h.written, ?_, fun _ => rfl, h.right⟩
          intro hw
          have hq := h.queued hw
          rwa [hcons, List.reduceOption_cons_of_none] at hq
      | some w =>
          have hwritten : s.countFile = none := by
            by_contra hw
            have hq := h.queued hw
            rw [hcons, List.reduceOption_cons_of_some] at hq
            cases hq
          exact ⟨hinv, h.written, fun hw => absurd hwritten hw, fun hw => absurd hwritten hw,
            h.right⟩

theorem Destination.Settled.processorFn (h : s.Settled) {k : ProcessorStep}
    (hs : s.processorFn k = some s') : s'.Settled := by
  have hinv := h.toInv.processorFn hs
  have hok := h.ok
  cases k with
  | dequeue =>
      obtain ⟨hpc, hs⟩ := Option.ite_none_right_eq_some.mp hs
      obtain ⟨r, hr, rfl⟩ := Option.map_eq_some_iff.mp hs
      rw [hpc] at hok
      exact h.takes hinv (hok.take hr)
  | resume =>
      obtain ⟨hpc, hs⟩ := Option.ite_none_right_eq_some.mp hs
      obtain ⟨r, hr, rfl⟩ := Option.map_eq_some_iff.mp hs
      rw [hpc] at hok
      exact h.takes hinv (hok.resume hr)
  | spurious =>
      obtain ⟨hpc, hs⟩ := Option.ite_none_right_eq_some.mp hs
      obtain ⟨inbox, hin, rfl⟩ := Option.map_eq_some_iff.mp hs
      rw [hpc] at hok
      have hq := congrArg List.reduceOption (hok.spurious hin).2.2.2
      exact ⟨hinv, h.written, fun hw => hq.trans (h.queued hw), h.uncounted, h.right⟩
  | count =>
      rw [Destination.processorFn] at hs
      split at hs
      next w hpc =>
          rw [Option.some.injEq] at hs
          subst hs
          have hwritten : s.countFile = none := by
            by_contra hw
            have hun := h.uncounted hw
            rw [hpc] at hun
            cases hun
          refine ⟨hinv, h.written, h.queued, fun _ => rfl, ?_⟩
          intro n hn
          rw [hwritten] at hn
          cases hn
      next => cases hs
  | destroy =>
      rw [Destination.processorFn] at hs
      split at hs
      next =>
          rw [Option.some.injEq] at hs
          subst hs
          exact ⟨hinv, h.written, h.queued, fun _ => rfl, h.right⟩
      next => cases hs

theorem Destination.Settled.control (h : s.Settled) {k : DestinationStep}
    (hok : s.CountsLast (.main k)) (hs : s.control k = some s') : s'.Settled := by
  have hinv := h.toInv.control hs
  cases k with
  | writeCount =>
      obtain ⟨_, rfl⟩ := Option.ite_some_none_eq_some.mp hs
      have hempty : s.inbox.queue.inner.reduceOption = [] ∧ s.processor.uncounted = [] := hok
      refine ⟨hinv, fun _ => rfl, fun _ => hempty.1, fun _ => hempty.2, ?_⟩
      intro n hn
      cases hn
      rfl
  | sentinel alloc =>
      obtain ⟨_, hs⟩ := Option.ite_none_right_eq_some.mp hs
      obtain ⟨inbox, hin, rfl⟩ := Option.map_eq_some_iff.mp hs
      refine ⟨hinv, fun _ => rfl, ?_, h.uncounted, h.right⟩
      intro hwritten
      rw [(h.ok.enqueue_frame hin).2, reduceOption_enqueue fun _ => rfl]
      exact h.queued hwritten
  | createEvent _ | wake | openFile _ =>
      obtain ⟨hpc, rfl⟩ := Option.ite_some_none_eq_some.mp hs
      refine ⟨hinv, ?_, h.queued, h.uncounted, h.right⟩
      intro hwritten
      have hpast := h.written hwritten
      simp [hpc, DestinationPc.pastWriting] at hpast
  | closeListener | joinListener | joinProcessor | destroyQueue =>
      obtain ⟨_, rfl⟩ := Option.ite_some_none_eq_some.mp hs
      exact ⟨hinv, fun _ => rfl, h.queued, h.uncounted, h.right⟩

/-- Every step that meets the condition keeps it. -/
theorem Destination.Settled.step (h : s.Settled) {a : DestinationAction} (hok : s.CountsLast a)
    (hs : s.step a = some s') : s'.Settled := by
  cases a with
  | signal =>
      obtain ⟨_, _, rfl⟩ := Option.map_eq_some_iff.mp hs
      exact { h with }
  | listener k => exact h.listenerFn hok hs
  | processor k => exact h.processorFn hs
  | main k => exact h.control hok hs

theorem Destination.settled_of_run {as : List DestinationAction}
    (h : Machine.Run Destination.step Destination.CountsLast .init as s) : s.Settled :=
  h.invariant Destination.init_settled fun _ _ _ hi hok hs => hi.step hok hs

theorem Destination.Settled.counted_eq (h : s.Settled) {n : Int} (hn : s.countFile = some n)
    (hlt : s.counted.length < 2 ^ 31) : n = s.counted.length := by
  have hcount : s.warningCount.toNat = s.counted.length := by
    rw [h.count]
    exact UInt32.toNat_ofNat_of_lt' (by show _ < 2 ^ 32; omega)
  rw [h.right n hn, intOfU32_of_lt (by omega), hcount]

/-- In every run on which the count is written when nothing is left to count and no
warning is enqueued after that: whatever is in the count file is the value of the counter
from then on, also when `dd_destroy` has returned, and it is the number of warnings
processed if that is an `int`. -/
theorem count_file_is_final {as : List DestinationAction}
    (h : Machine.Run Destination.step Destination.CountsLast .init as s) :
    ∀ n, s.countFile = some n → n = intOfU32 s.warningCount ∧
      (s.counted.length < 2 ^ 31 → n = s.counted.length) := by
  intro n hn
  have hsettled := Destination.settled_of_run h
  exact ⟨hsettled.right n hn, hsettled.counted_eq hn⟩

/-! ## The other runs -/

/-- How many warnings were enqueued. -/
def Destination.arrived (s : Destination) : Nat := s.inbox.enqueued.reduceOption.length

/-- The count was written, and more warnings than it says have arrived. -/
def Destination.Behind (s : Destination) : Prop :=
  ∃ m, s.countFile = some (intOfU32 (UInt32.ofNat m)) ∧ m < s.arrived ∧ s.main.pastWriting = true

/-- A warning that has arrived was counted, is in the hands of the processor or is
queued. -/
theorem Destination.Inv.arrived_eq (h : s.Inv) :
    s.arrived = s.counted.length + s.processor.uncounted.length +
      s.inbox.queue.inner.reduceOption.length := by
  have hremoved : s.inbox.removed.reduceOption = s.counted ++ s.processor.uncounted := by
    rw [h.removed, List.reduceOption_append, reduceOption_map_some]
    split
    · exact List.append_nil _
    · exact List.append_nil _
  rw [Destination.arrived, h.ok.fifo, List.reduceOption_append, hremoved, List.length_append,
    List.length_append]

theorem Inbox.Ok.arrived_le {p p' : Inbox Nat} {waiting alloc : Bool} {item : Option Nat}
    (h : p.Ok waiting) (he : p.enqueue item alloc = some p') :
    p.enqueued.reduceOption.length ≤ p'.enqueued.reduceOption.length := by
  obtain ⟨cv, _, rfl⟩ := Inbox.enqueue_cases h.unbounded he
  cases alloc with
  | false => exact Nat.le_refl _
  | true =>
      show _ ≤ (p.enqueued ++ [item]).reduceOption.length
      rw [List.reduceOption_append, List.length_append]
      exact Nat.le_add_right _ _

/-- A file that is behind stays behind. -/
theorem Destination.Behind.step (hb : s.Behind) (h : s.Inv) {a : DestinationAction}
    (hs : s.step a = some s') : s'.Behind := by
  obtain ⟨m, hfile, hlt, hpast⟩ := hb
  cases a with
  | signal =>
      obtain ⟨_, _, rfl⟩ := Option.map_eq_some_iff.mp hs
      exact ⟨m, hfile, hlt, hpast⟩
  | listener k =>
      cases k with
      | socket _ | accept _ =>
          obtain ⟨_, rfl⟩ := Option.ite_some_none_eq_some.mp hs
          exact ⟨m, hfile, hlt, hpast⟩
      | receive w =>
          cases w with
          | none | some w =>
              obtain ⟨_, rfl⟩ := Option.ite_some_none_eq_some.mp hs
              exact ⟨m, hfile, hlt, hpast⟩
      | enqueue alloc =>
          simp only [Destination.step, Destination.listenerFn] at hs
          split at hs
          next =>
              obtain ⟨inbox, hin, rfl⟩ := Option.map_eq_some_iff.mp hs
              exact ⟨m, hfile, Nat.lt_of_lt_of_le hlt (h.ok.arrived_le hin), hpast⟩
          next => cases hs
  | processor k =>
      have hframe := h.processor_frame hs
      refine ⟨m, hframe.countFile.trans hfile, ?_, by rw [hframe.main]; exact hpast⟩
      rw [Destination.arrived, hframe.enqueued]
      exact hlt
  | main k =>
      cases k with
      | createEvent _ | wake | openFile _ | writeCount =>
          obtain ⟨hpc, rfl⟩ := Option.ite_some_none_eq_some.mp hs
          simp [hpc, DestinationPc.pastWriting] at hpast
      | closeListener | joinListener | joinProcessor | destroyQueue =>
          obtain ⟨_, rfl⟩ := Option.ite_some_none_eq_some.mp hs
          exact ⟨m, hfile, hlt, rfl⟩
      | sentinel alloc =>
          obtain ⟨_, hs⟩ := Option.ite_none_right_eq_some.mp hs
          obtain ⟨inbox, hin, rfl⟩ := Option.map_eq_some_iff.mp hs
          exact ⟨m, hfile, Nat.lt_of_lt_of_le hlt (h.ok.arrived_le hin), rfl⟩

/-- A step that does not meet the condition puts the file behind. -/
theorem Destination.Settled.behind (h : s.Settled) {a : DestinationAction} (hbad : ¬ s.CountsLast a)
    (hs : s.step a = some s') : s'.Behind := by
  have harrived := h.toInv.arrived_eq
  match a with
  | .main .writeCount =>
      obtain ⟨_, rfl⟩ := Option.ite_some_none_eq_some.mp hs
      refine ⟨s.counted.length, by rw [h.count], ?_, rfl⟩
      show s.counted.length < s.arrived
      by_contra hle
      exact hbad ⟨List.eq_nil_of_length_eq_zero (by omega), List.eq_nil_of_length_eq_zero (by omega)⟩
  | .listener (.enqueue alloc) =>
      obtain ⟨rfl, hwritten⟩ : alloc = true ∧ s.countFile ≠ none := Classical.not_imp.mp hbad
      obtain ⟨n, hn⟩ := Option.ne_none_iff_exists'.mp hwritten
      simp only [Destination.step, Destination.listenerFn] at hs
      split at hs
      next w _ =>
          obtain ⟨inbox, hin, rfl⟩ := Option.map_eq_some_iff.mp hs
          refine ⟨s.counted.length, ?_, ?_, h.written hwritten⟩
          · rw [← h.count, ← h.right n hn]
            exact hn
          · rw [Destination.arrived, (h.ok.enqueued hin).1, List.reduceOption_append,
              List.length_append]
            show s.counted.length < s.arrived + 1
            omega
      next => cases hs
  | .signal | .processor _ => exact absurd trivial hbad
  | .listener (.socket _) | .listener (.accept _) | .listener (.receive _) =>
      exact absurd trivial hbad
  | .main (.createEvent _) | .main .wake | .main (.openFile _) | .main .closeListener =>
      exact absurd trivial hbad
  | .main .joinListener | .main (.sentinel _) | .main .joinProcessor | .main .destroyQueue =>
      exact absurd trivial hbad

/-- Either every step of a run meets the condition or the file is behind. -/
theorem Destination.counts_last_or_behind {ok : Destination → DestinationAction → Prop}
    {as : List DestinationAction} (h : Machine.Run Destination.step ok .init as s) :
    Machine.Run Destination.step Destination.CountsLast .init as s ∨ s.Behind := by
  induction h with
  | nil => exact Or.inl .nil
  | @snoc _ t _ a hrun _ hs ih =>
      cases ih with
      | inl hlast =>
          by_cases hok : t.CountsLast a
          · exact Or.inl (.snoc hlast hok hs)
          · exact Or.inr ((Destination.settled_of_run hlast).behind hok hs)
      | inr hbehind => exact Or.inr (hbehind.step (Destination.inv_of_reachable hrun.reachable) hs)

/-- With allocations that succeed and counts that are an `int`, the number in the file is
the number of warnings processed when `dd_destroy` has returned if and only if every step
of the run met the condition. -/
theorem count_file_right_iff {as : List DestinationAction} {n : Int}
    (h : Machine.Run Destination.step Destination.Regular .init as s) (hfin : s.main = .finished)
    (hn : s.countFile = some n) (hlt : s.counted.length < 2 ^ 31) :
    n = s.counted.length ↔ Machine.Run Destination.step Destination.CountsLast .init as s := by
  constructor
  · rintro rfl
    cases Destination.counts_last_or_behind h with
    | inl hlast => exact hlast
    | inr hbehind =>
        obtain ⟨m, hfile, hm, _⟩ := hbehind
        have hfull := Destination.full_of_run h
        have hret := hfull.processor_joined (by rw [hfin]; rfl)
        rw [hfull.toInv.arrived_eq, hret, (hfull.drained hret).2.2] at hm
        change m < s.counted.length + 0 + 0 at hm
        have hmod : (UInt32.ofNat m).toNat = m :=
          UInt32.toNat_ofNat_of_lt' (by show _ < 2 ^ 32; omega)
        rw [hn, intOfU32_of_lt (by omega), hmod, Option.some.injEq] at hfile
        omega
  · intro hlast
    exact (Destination.settled_of_run hlast).counted_eq hn hlt

/-! ## Two runs -/

/-- A run with one client.  Its warning is processed, and then the event is set. -/
def quietRun : List DestinationAction :=
  [.main (.createEvent true), .listener (.socket true), .listener (.accept true),
    .listener (.receive (some (warningB 1700000000))), .listener (.enqueue true),
    .processor .dequeue, .processor .count, .processor .destroy, .listener (.receive none),
    .signal, .main .wake, .main (.openFile true), .main .writeCount, .main .closeListener,
    .listener (.accept false), .main .joinListener, .main (.sentinel true), .processor .dequeue,
    .main .joinProcessor, .main .destroyQueue]

/-- The state that run leads to. -/
def quietEnd : Destination where
  inbox :=
    { queue := { inner := [], capacity := 0, cvNotEmpty := {}, cvNotFull := {} }
      enqueued := [some 0, none]
      removed := [some 0, none] }
  listenSock := .closed
  exitEvent := some true
  listener := .returned
  processor := .returned
  main := .finished
  warningCount := 1
  decoded := [warningB 1700000000]
  counted := [0]
  destroyed := [0]
  countFile := some 1

theorem count_file_is_final_quiet : (1 : Int) = intOfU32 quietEnd.warningCount := by
  have hrun : Machine.execWhere Destination.step Destination.CountsLast .init quietRun =
      some quietEnd := by
    decide +kernel
  exact (count_file_is_final (Machine.execWhere_run hrun) 1 rfl).1

/-- On the run with two clients the file says 0, and two warnings were processed. -/
theorem count_file_misses_late : Machine.exec Destination.step .init lateRun = some lateEnd ∧
    lateEnd.main = .finished ∧ lateEnd.countFile = some 0 ∧
      intOfU32 lateEnd.warningCount = 2 ∧ lateEnd.counted.length = 2 := by
  decide +kernel

end DataPropagator
