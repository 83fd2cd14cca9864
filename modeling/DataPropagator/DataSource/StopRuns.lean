import DataPropagator.DataSource.StopProtocol

/-!
# How stopping ends

Once Enter was pressed each process, each thread and `main` takes boundedly many steps, so what is
left to say is where it can come to a halt: `main` has returned, or it waits for a process that does
not end, or for a sender that sleeps for ever.  Then: who can have stopped a process, and what is
enough for `main` to return with every process ended.
-/

namespace DataPropagator

variable {nodes : List NodeInfo} {s s' : StopSystem} {a : StopAction}

/-! ## How long it takes -/

/-- How many steps the processes may still take. -/
def childrenLeft : List Child → Nat
  | [] => 0
  | c :: cs => c.pc.left + childrenLeft cs

/-- How many threads `main` still joins. -/
def SourceMainPc.left : SourceMainPc → Nat
  | .running | .joiningGenerator => 2
  | .joiningSender => 1
  | .joined | .finished => 0

/-- How many steps `main` may still take once Enter was pressed. -/
def StopPc.left (processes threads : Nat) : StopPc → Nat
  | .running => 0
  | .signalling names => names.length + (threads + (2 * processes + 2))
  | .closing i => (processes - i) + (processes + 2)
  | .waitingFor i => (processes - i) + 1
  | .returned => 0

/-- How many steps are left once Enter was pressed. -/
def StopSystem.left (s : StopSystem) : Nat :=
  childrenLeft s.children + s.source.threadsLeft +
    s.main.left s.children.length s.source.main.left

theorem childrenLeft_set {cs : List Child} {i : Nat} {c : Child} (hc : cs[i]? = some c)
    (c' : Child) : childrenLeft (cs.set i c') + c.pc.left = childrenLeft cs + c'.pc.left := by
  induction cs generalizing i with
  | nil => cases hc
  | cons d cs ih =>
      cases i with
      | zero =>
          cases hc
          simp only [List.set_cons_zero, childrenLeft]
          omega
      | succ i =>
          have hrest := ih hc
          simp only [List.set_cons_succ, childrenLeft]
          omega

theorem childrenLeft_map_le {f : Child → Child} (hf : ∀ c : Child, c.Ages (f c)) (cs : List Child) :
    childrenLeft (cs.map f) ≤ childrenLeft cs := by
  induction cs with
  | nil => exact Nat.le_refl _
  | cons c cs ih => exact Nat.add_le_add (hf c).left_le ih

/-- The steps of the threads are bounded by those of `Stopping.lean`. -/
theorem StopSystem.InStep.left_lt (h : s.InStep nodes) (hmain : s.main ≠ .running)
    (hs : s.step nodes a = some s') (ha : a.Quiet) : s'.left < s.left := by
  cases StopSystem.step_change hs with
  | @create i c _ hc _ hpc =>
      have hset := childrenLeft_set hc { c with pc := .preparing }
      rw [hpc] at hset
      simp only [StopSystem.left, StopSystem.move, List.length_set, ChildPc.left] at hset ⊢
      omega
  | @moves _ i c pc hc hmoves =>
      have hset := childrenLeft_set hc { c with pc }
      have hlt := hmoves.gone_on.2
      simp only [StopSystem.left, StopSystem.move, List.length_set] at hset ⊢
      omega
  | @console i => exact absurd rfl (ha.1 i)
  | enter hm _ => exact absurd hm hmain
  | signal hm =>
      simp only [StopSystem.left, hm, StopPc.left, List.length_cons]
      omega
  | @thread _ b source hb hsource =>
      obtain ⟨hthread, hspurious⟩ := StopAction.ofThread_eq hb
      have hlt := h.source.threadsLeft_lt (h.stop hmain) hthread (hspurious ha.2) hsource
      have hframe := (Source.thread_frame hthread hsource).1
      simp only [StopSystem.left, hframe]
      omega
  | joinGenerator hm hsource =>
      obtain ⟨⟨hjoining, _⟩, rfl⟩ := Option.ite_some_none_eq_some.mp hsource
      simp only [StopSystem.left, Source.threadsLeft, Source.senderLeft, hm, hjoining, StopPc.left,
        SourceMainPc.left]
      omega
  | joinSender hm hsource =>
      obtain ⟨⟨hjoining, _⟩, rfl⟩ := Option.ite_some_none_eq_some.mp hsource
      simp only [StopSystem.left, Source.threadsLeft, Source.senderLeft, hm, hjoining, StopPc.left,
        SourceMainPc.left, List.length_nil]
      omega
  | @window found i c hm hc =>
      have hlt := (List.getElem?_eq_some_iff.mp hc).1
      have hset := childrenLeft_set hc c.kill
      have hkill := c.ages_kill.left_le
      cases found with
      | true =>
          simp only [StopSystem.left, hm, StopPc.left, if_true, List.length_set]
          omega
      | false =>
          simp only [StopSystem.left, hm, StopPc.left, Bool.false_eq_true, if_false]
          omega
  | closeJob hm =>
      have hkill : ∀ c : Child, c.Ages (if s.killOnClose && c.inJob then c.kill else c) := by
        intro c
        split
        · exact c.ages_kill
        · exact .refl c
      have hle := childrenLeft_map_le hkill s.children
      simp only [StopSystem.left, hm, StopPc.left, List.length_map]
      omega
  | join hm hc _ =>
      have hlt := (List.getElem?_eq_some_iff.mp hc).1
      simp only [StopSystem.left, hm, StopPc.left]
      omega
  | ret hm hsource =>
      obtain ⟨_, rfl⟩ := Option.ite_some_none_eq_some.mp hsource
      simp only [StopSystem.left, Source.threadsLeft, Source.senderLeft, hm, StopPc.left]
      omega

/-- `main` does not come back to the wait for Enter. -/
theorem StopSystem.Change.main_ne_running (h : s.Change nodes a s') (hm : s.main ≠ .running) :
    s'.main ≠ .running := by
  cases h with
  | create _ _ _ | moves _ _ | console _ _ _ | thread _ _ | joinGenerator _ _ => exact hm
  | enter _ _ | signal _ | joinSender _ _ | window _ _ | closeJob _ | join _ _ _ | ret _ _ => simp

/-- A run from Enter on, without the consoles and without a wake-up that nobody signalled, is at
most so long. -/
theorem StopSystem.InStep.run_length {s₀ : StopSystem} {as : List StopAction} (h : s₀.InStep nodes)
    (hload : Loaded nodes) (hmain : s₀.main ≠ .running)
    (hrun : Machine.Run (StopSystem.step nodes) (fun _ a => a.Quiet) s₀ as s) :
    as.length + s.left ≤ s₀.left := by
  have hboth : s.main ≠ .running ∧ as.length + s.left ≤ s₀.left := by
    induction hrun with
    | nil => exact ⟨hmain, by simp⟩
    | snoc hbefore hquiet hs ih =>
        have hlt := (h.run hload hbefore.reachable).left_lt ih.1 hs hquiet
        refine ⟨(StopSystem.step_change hs).main_ne_running ih.1, ?_⟩
        rw [List.length_append, List.length_singleton]
        omega
  exact hboth.2

/-! ## Waiting for ever -/

/-- A process that waits for its event has a handle of it. -/
theorem StopSystem.held_of_waiting {i : Nat} {c : Child} {name : Bytes}
    (hc : s.children[i]? = some c) (hname : c.event = some name) (hholds : c.pc.holds = true) :
    s.held name = true := by
  rw [StopSystem.held, List.any_eq_true]
  exact ⟨c, List.mem_of_getElem? hc, by rw [hname, hholds]; simp⟩

theorem StopSystem.Held.live {c : Child} (h : s.Held c) : c.pc.live = true := by
  rcases h with ⟨hpc, _⟩ | ⟨_, hpc⟩ <;> rw [hpc] <;> rfl

/-- A process that is held does not move. -/
theorem StopSystem.Held.not_moves {i : Nat} {c : Child} {pc : ChildPc} (h : s.Held c)
    (hmoves : s.Moves i c a pc) : False := by
  rcases h with ⟨hpc, hevent⟩ | ⟨_, hpc⟩
  · cases hmoves with
    | wake _ hsignalled =>
        rw [hevent] at hsignalled
        cases hsignalled
    | fail hother | stall hother => simp [hpc] at hother
    | prepared hother | waiterFails hother _ | finish hother => simp [hpc] at hother
  · cases hmoves with
    | fail hother | stall hother => simp [hpc] at hother
    | prepared hother | waiterFails hother _ | wake hother _ | finish hother => simp [hpc] at hother

/-- The event of a process that waits is there, so nobody makes it anew. -/
theorem StopSystem.Held.create {i j : Nat} {c d : Child} {name : Bytes} (h : s.Held c)
    (hc : s.children[i]? = some c) : StopSystem.Held { s.move j d .preparing with
      signalled := if s.held name then s.signalled else Function.update s.signalled name false } c := by
  apply h.imp_left
  rintro ⟨hpc, hevent⟩
  refine ⟨hpc, ?_⟩
  cases hev : c.event with
  | none => rfl
  | some name' =>
      rw [hev, Option.any_some] at hevent
      rw [Option.any_some]
      split
      · exact hevent
      next hheld =>
          rcases eq_or_ne name' name with rfl | hdiff
          · exact absurd (StopSystem.held_of_waiting hc hev (by rw [hpc]; rfl)) hheld
          · exact (Function.update_of_ne hdiff ..).trans hevent

theorem StopSystem.Hangs.step (h : s.Hangs) (ha : a.Quiet) (hs : s.step nodes a = some s') :
    s'.Hangs := by
  obtain ⟨i, c, hmain, hc, hheld⟩ := h
  cases StopSystem.step_change hs with
  | @create j d name hd _ hstarting =>
      have hne : j ≠ i := by
        rintro rfl
        rw [hc, Option.some.injEq] at hd
        rcases hheld with ⟨hpc, _⟩ | ⟨_, hpc⟩ <;> simp [← hd, hpc] at hstarting
      exact ⟨i, c, hmain, (List.getElem?_set_ne hne).trans hc, hheld.create hc⟩
  | @moves _ j d pc hd hmoves =>
      have hne : j ≠ i := by
        rintro rfl
        rw [hc, Option.some.injEq] at hd
        exact hheld.not_moves (hd ▸ hmoves)
      exact ⟨i, c, hmain, (List.getElem?_set_ne hne).trans hc, hheld⟩
  | @console j => exact absurd rfl (ha.1 j)
  | thread _ _ => exact ⟨i, c, hmain, hc, hheld⟩
  | enter hm _ | signal hm | joinGenerator hm _ | joinSender hm _ | window hm _ | closeJob hm =>
      rw [hmain] at hm
      cases hm
  | join hm hd hlive =>
      rw [hmain, StopPc.waitingFor.injEq] at hm
      subst hm
      rw [hc, Option.some.injEq] at hd
      rw [← hd, hheld.live] at hlive
      cases hlive
  | ret hm _ =>
      rw [hmain, StopPc.waitingFor.injEq] at hm
      have hlt := (List.getElem?_eq_some_iff.mp hc).1
      omega

/-- A process that `main` waits for can go on, or `main` can, unless the process is held. -/
theorem StopSystem.child_progress {i : Nat} {c : Child} (hm : s.main = .waitingFor i)
    (hc : s.children[i]? = some c) (hheld : ¬ s.Held c) :
    ∃ a, a.Quiet ∧ (s.step nodes a).isSome := by
  cases hpc : c.pc with
  | starting =>
      cases hname : c.event with
      | none => exact ⟨.fail i, by simp [StopAction.Quiet], by simp [StopSystem.step, hc, hpc]⟩
      | some name =>
          exact ⟨.create i, by simp [StopAction.Quiet], by simp [StopSystem.step, hc, hpc, hname]⟩
  | preparing =>
      exact ⟨.prepared i, by simp [StopAction.Quiet], by simp [StopSystem.step, hc, hpc]⟩
  | waiting =>
      cases hevent : c.event.any s.signalled with
      | true =>
          exact ⟨.wake i, by simp [StopAction.Quiet], by simp [StopSystem.step, hc, hpc, hevent]⟩
      | false => exact absurd (Or.inl ⟨hpc, hevent⟩) hheld
  | stopping => exact ⟨.finish i, by simp [StopAction.Quiet], by simp [StopSystem.step, hc, hpc]⟩
  | stalled event => exact absurd (Or.inr ⟨event, hpc⟩) hheld
  | ended how =>
      exact ⟨.join, by simp [StopAction.Quiet], by simp [StopSystem.step, hm, hc, hpc, ChildPc.live]⟩

/-- A thread can go on, or `main` can join it, unless the sender sleeps for ever. -/
theorem StopSystem.InStep.join_progress (h : s.InStep nodes) (hload : Loaded nodes)
    (hac : Forest.Acyclic (parentOf nodes)) (hm : s.main = .signalling [])
    (hstuck : ¬ s.source.Stuck) : ∃ a, a.Quiet ∧ (s.step nodes a).isSome := by
  by_contra hnone
  have hthread : ∀ b : SourceAction, b.ofThread = true → b ≠ .sender .spurious →
      s.source.step nodes b = none := by
    intro b hb hspurious
    cases b with
    | main k => cases hb
    | generator k =>
        by_contra hsome
        refine hnone ⟨.generator k, by simp [StopAction.Quiet], ?_⟩
        simpa [StopSystem.step, Source.step, ← Option.isSome_iff_ne_none] using hsome
    | sender k =>
        by_contra hsome
        refine hnone ⟨.sender k, by simpa [StopAction.Quiet] using hspurious, ?_⟩
        simpa [StopSystem.step, Source.step, ← Option.isSome_iff_ne_none] using hsome
  obtain ⟨hgen, hsend⟩ := h.source.blocked hload hac (h.stop (by simp [hm])) hthread
  have hsender := hsend.resolve_right hstuck
  have hsync := h.main
  rw [hm] at hsync
  rcases hsync with hjoining | ⟨hjoining, _⟩
  · exact hnone ⟨.joinGenerator, by simp [StopAction.Quiet],
      by simp [StopSystem.step, hm, Source.control, hjoining, hgen]⟩
  · exact hnone ⟨.joinSender, by simp [StopAction.Quiet],
      by simp [StopSystem.step, hm, Source.control, hjoining, hsender]⟩

/-- Some process, some thread or `main` can go on, unless `main` has returned or hangs. -/
theorem StopSystem.Inv.progress (h : s.Inv) (hstep : s.InStep nodes) (hload : Loaded nodes)
    (hac : Forest.Acyclic (parentOf nodes)) (hreturned : s.main ≠ .returned) (hhangs : ¬ s.Hangs)
    (hstuck : ¬ s.source.Stuck) : ∃ a, a.Quiet ∧ (s.step nodes a).isSome := by
  have hsync := hstep.main
  cases hm : s.main with
  | running =>
      rw [hm] at hsync
      exact ⟨.enter, by simp [StopAction.Quiet],
        by simp [StopSystem.step, hm, Source.control, show s.source.main = .running from hsync]⟩
  | signalling names =>
      cases names with
      | nil => exact hstep.join_progress hload hac hm hstuck
      | cons name names =>
          exact ⟨.signal true, by simp [StopAction.Quiet], by simp [StopSystem.step, hm]⟩
  | closing i =>
      rcases Nat.lt_or_eq_of_le (h.closing_le i hm) with hlt | rfl
      · exact ⟨.window false, by simp [StopAction.Quiet],
          by simp [StopSystem.step, hm, List.getElem?_eq_getElem hlt]⟩
      · exact ⟨.closeJob, by simp [StopAction.Quiet], by simp [StopSystem.step, hm]⟩
  | waitingFor i =>
      rw [hm] at hsync
      rcases Nat.lt_or_eq_of_le (h.waited i hm).1 with hlt | rfl
      · have hc := List.getElem?_eq_getElem hlt
        exact StopSystem.child_progress hm hc fun hheld => hhangs ⟨i, _, hm, hc, hheld⟩
      · exact ⟨.ret, by simp [StopAction.Quiet],
          by simp [StopSystem.step, hm, Source.control, show s.source.main = .joined from hsync]⟩
  | returned => exact absurd hm hreturned

theorem StopSystem.Inv.stuck (h : s.Inv) (hstep : s.InStep nodes) (hload : Loaded nodes)
    (hac : Forest.Acyclic (parentOf nodes))
    (hstuck : ∀ a : StopAction, a.Quiet → s.step nodes a = none) :
    s.main = .returned ∨ s.Hangs ∨ s.source.Stuck := by
  by_contra hneither
  rw [not_or, not_or] at hneither
  obtain ⟨hreturned, hhangs, hsource⟩ := hneither
  obtain ⟨a, hquiet, hsome⟩ := h.progress hstep hload hac hreturned hhangs hsource
  rw [hstuck a hquiet] at hsome
  cases hsome

theorem StopSystem.Inv.all_ended (h : s.Inv) (hm : s.main = .returned) :
    ∀ c ∈ s.children, c.pc.live = false := by
  intro c hc
  obtain ⟨j, hj⟩ := List.mem_iff_getElem?.mp hc
  exact h.returned hm j c hj

theorem StopSystem.Hangs.run {as : List StopAction} (h : s.Hangs)
    (hrun : Machine.Run (StopSystem.step nodes) (fun _ a => a.Quiet) s as s') : s'.Hangs :=
  hrun.invariant h fun _ _ _ ht hquiet hs => ht.step hquiet hs

/-- A `CentralPropagator` that is in no job and makes its event once `main` has signalled. -/
def lateProcess : StopSystem where
  children := [{ program := .centralPropagator, event := some [1], inJob := false, pc := .starting }]
  signalled := fun _ => false
  killOnClose := true
  targets := [[1]]
  source := .init
  main := .running

theorem lateProcess_fresh : lateProcess.Fresh where
  main := rfl
  source := rfl
  starting c hc := by
    cases List.mem_singleton.mp hc
    exact Or.inl rfl
  unsignalled _ := rfl

/-- Somebody asks for the event of this name: `main` after Enter, or the console of a process that
has the event. -/
def StopSystem.Asked (s : StopSystem) (as : List StopAction) (name : Bytes) : Prop :=
  (.enter ∈ as ∧ name ∈ s.targets) ∨
    ∃ (j : Nat) (d : Child), .console j ∈ as ∧ s.children[j]? = some d ∧ d.event = some name

/-- The process has come past its wait. -/
def ChildPc.stopped : ChildPc → Bool
  | .stopping | .stalled true | .ended .stopped => true
  | _ => false

/-- Somebody asked for the event of process `j`, or it could not create the thread that waits. -/
def StopSystem.Excused (s : StopSystem) (as : List StopAction) (j : Nat) (c : Child) : Prop :=
  (∃ name, c.event = some name ∧ s.Asked as name) ∨
    (c.program = .centralPropagator ∧ .waiterFails j ∈ as)

/-- What is signalled was asked for. -/
structure StopSystem.Traced (s : StopSystem) (as : List StopAction) : Prop where
  signalled : ∀ name, s.signalled name = true → s.Asked as name
  pending : ∀ names, s.main = .signalling names → .enter ∈ as ∧ names ⊆ s.targets
  stopped : ∀ (j : Nat) c, s.children[j]? = some c → c.pc.stopped = true → s.Excused as j c

theorem StopSystem.Asked.aged {as : List StopAction} {name : Bytes} (h : s.Asked as name)
    (haged : s.Aged s') (a : StopAction) : s'.Asked (as ++ [a]) name := by
  rcases h with ⟨henter, hname⟩ | ⟨j, d, hconsole, hd, hevent⟩
  · exact Or.inl ⟨List.mem_append_left _ henter, haged.targets ▸ hname⟩
  · obtain ⟨d', hd', hages⟩ := haged.child j d hd
    exact Or.inr ⟨j, d', List.mem_append_left _ hconsole, hd', hages.event.trans hevent⟩

theorem StopSystem.Excused.aged {as : List StopAction} {j : Nat} {c c' : Child}
    (h : s.Excused as j c) (haged : s.Aged s') (hevent : c'.event = c.event)
    (hprogram : c'.program = c.program) (a : StopAction) : s'.Excused (as ++ [a]) j c' := by
  rcases h with ⟨name, hname, hasked⟩ | ⟨hcp, hfails⟩
  · exact Or.inl ⟨name, hevent.trans hname, hasked.aged haged a⟩
  · exact Or.inr ⟨hprogram.trans hcp, List.mem_append_left _ hfails⟩

theorem StopSystem.Fresh.traced (h : s.Fresh) : s.Traced [] where
  signalled name hname := by
    rw [h.unsignalled name] at hname
    cases hname
  pending names hm := by
    rw [h.main] at hm
    cases hm
  stopped i c hc hstopped := by
    rcases h.starting c (List.mem_of_getElem? hc) with hpc | ⟨how, hpc, hhow⟩
    · rw [hpc] at hstopped
      cases hstopped
    · rw [hpc] at hstopped
      cases how with
      | stopped => exact absurd rfl hhow
      | failed | killed => cases hstopped

/-- What a step signals was asked for, and what was signalled before stays so or is made anew. -/
theorem StopSystem.Traced.signalled_step {as : List StopAction} (h : s.Traced as)
    (hchange : s.Change nodes a s') {name : Bytes} (hname : s'.signalled name = true) :
    s'.Asked (as ++ [a]) name := by
  have haged := hchange.aged
  have hold : s.signalled name = true → s'.Asked (as ++ [a]) name :=
    fun hs => (h.signalled name hs).aged haged a
  cases hchange with
  | @create i c name' hc _ _ =>
      apply hold
      cases hheld : s.held name' with
      | true => simpa [hheld] using hname
      | false =>
          rcases eq_or_ne name name' with rfl | hne
          · simp [hheld] at hname
          · simpa [hheld, Function.update_of_ne hne] using hname
  | @console i c name' hc hevent _ =>
      rcases eq_or_ne name name' with rfl | hne
      · exact Or.inr ⟨i, c, List.mem_append_right _ (List.mem_singleton_self _), hc, hevent⟩
      · exact hold ((Function.update_of_ne hne ..).symm.trans hname)
  | @signal opens name' names hm =>
      obtain ⟨henter, hsub⟩ := h.pending _ hm
      rcases eq_or_ne name name' with rfl | hne
      · exact Or.inl ⟨List.mem_append_left _ henter, hsub (List.mem_cons_self ..)⟩
      · apply hold
        cases hopens : opens && s.held name' with
        | true => simpa only [hopens, if_true, Function.update_of_ne hne] using hname
        | false => simpa only [hopens, Bool.false_eq_true, if_false] using hname
  | moves _ _ | enter _ _ | thread _ _ | joinGenerator _ _ | joinSender _ _ | window _ _ | closeJob _
  | join _ _ _ | ret _ _ => exact hold hname

/-- A cell of a list after a store. -/
theorem getElem?_set_cases {cs : List Child} {i j : Nat} {d c : Child}
    (h : (cs.set i d)[j]? = some c) : (i = j ∧ c = d) ∨ cs[j]? = some c := by
  rcases eq_or_ne i j with rfl | hne
  · have hlt := (List.getElem?_eq_some_iff.mp h).1
    rw [List.length_set] at hlt
    rw [List.getElem?_set_self hlt, Option.some.injEq] at h
    exact Or.inl ⟨rfl, h.symm⟩
  · rw [List.getElem?_set_ne hne] at h
    exact Or.inr h

theorem Child.stopped_of_kill {c : Child} (h : c.kill.pc.stopped = true) :
    c.pc.stopped = true := by
  rw [Child.kill] at h
  split at h
  · cases h
  · exact h

/-- Where a process is past its wait after a step, it was before, or its event was signalled, or
this step is the failure of its thread. -/
theorem StopSystem.Change.stopped (h : s.Change nodes a s') {j : Nat} {c' : Child}
    (hc' : s'.children[j]? = some c') (hstopped : c'.pc.stopped = true) :
    ∃ c, s.children[j]? = some c ∧ c'.event = c.event ∧ c'.program = c.program ∧
      (c.pc.stopped = true ∨ c.event.any s.signalled = true ∨
        (c.program = .centralPropagator ∧ a = .waiterFails j)) := by
  have hsame : s.children[j]? = some c' → ∃ c, s.children[j]? = some c ∧ c'.event = c.event ∧
      c'.program = c.program ∧ (c.pc.stopped = true ∨ c.event.any s.signalled = true ∨
        (c.program = .centralPropagator ∧ a = .waiterFails j)) :=
    fun hc => ⟨c', hc, rfl, rfl, Or.inl hstopped⟩
  cases h with
  | create hc _ _ =>
      rcases getElem?_set_cases hc' with ⟨rfl, rfl⟩ | hold
      · cases hstopped
      · exact hsame hold
  | @moves _ i c pc hc hmoves =>
      rcases getElem?_set_cases hc' with ⟨rfl, rfl⟩ | hold
      · refine ⟨c, hc, rfl, rfl, ?_⟩
        cases hmoves with
        | fail _ | prepared _ => cases hstopped
        | waiterFails _ hprogram => exact Or.inr (Or.inr ⟨hprogram, rfl⟩)
        | wake _ hsignalled => exact Or.inr (Or.inl hsignalled)
        | stall hpc =>
            left
            rcases hpc with hpc | hpc
            · rw [hpc]
              rfl
            · simp [hpc, ChildPc.holds, ChildPc.stopped] at hstopped
        | finish hpc =>
            left
            rw [hpc]
            rfl
      · exact hsame hold
  | @window found i c _ hc =>
      cases found with
      | false => exact hsame hc'
      | true =>
          rcases getElem?_set_cases hc' with ⟨rfl, rfl⟩ | hold
          · exact ⟨c, hc, c.ages_kill.event, c.ages_kill.program,
              Or.inl (Child.stopped_of_kill hstopped)⟩
          · exact hsame hold
  | closeJob _ =>
      obtain ⟨c, hc, rfl⟩ := Option.map_eq_some_iff.mp (List.getElem?_map ▸ hc')
      cases hkill : s.killOnClose && c.inJob with
      | false =>
          simp only [hkill, Bool.false_eq_true, if_false] at hstopped ⊢
          exact ⟨c, hc, rfl, rfl, Or.inl hstopped⟩
      | true =>
          simp only [hkill, if_true] at hstopped ⊢
          exact ⟨c, hc, c.ages_kill.event, c.ages_kill.program,
            Or.inl (Child.stopped_of_kill hstopped)⟩
  | console _ _ _ | enter _ _ | signal _ | thread _ _ | joinGenerator _ _ | joinSender _ _
  | join _ _ _ | ret _ _ => exact hsame hc'

/-- `main` signals only what it was going to signal when Enter was pressed. -/
theorem StopSystem.Traced.pending_step {as : List StopAction} (h : s.Traced as)
    (hchange : s.Change nodes a s') {names : List Bytes} (hm : s'.main = .signalling names) :
    .enter ∈ as ++ [a] ∧ names ⊆ s'.targets := by
  have hold : s.main = .signalling names → .enter ∈ as ++ [a] ∧ names ⊆ s'.targets := by
    intro hm
    obtain ⟨henter, hsub⟩ := h.pending names hm
    exact ⟨List.mem_append_left _ henter, hchange.aged.targets ▸ hsub⟩
  cases hchange with
  | create _ _ _ | moves _ _ | console _ _ _ | thread _ _ | joinGenerator _ _ => exact hold hm
  | enter _ _ =>
      cases hm
      exact ⟨List.mem_append_right _ (List.mem_singleton_self _), List.Subset.refl _⟩
  | signal hm' =>
      cases hm
      obtain ⟨henter, hsub⟩ := h.pending _ hm'
      exact ⟨List.mem_append_left _ henter, fun _ hmem => hsub (List.mem_cons_of_mem _ hmem)⟩
  | joinSender _ _ | window _ _ | closeJob _ | join _ _ _ | ret _ _ => cases hm

theorem StopSystem.Traced.step {as : List StopAction} (h : s.Traced as)
    (hs : s.step nodes a = some s') : s'.Traced (as ++ [a]) := by
  have hchange := StopSystem.step_change hs
  refine ⟨fun _ hname => h.signalled_step hchange hname, fun _ hm => h.pending_step hchange hm, ?_⟩
  intro j c' hc' hstopped
  obtain ⟨c, hc, hevent, hprogram, hwhy⟩ := hchange.stopped hc' hstopped
  rcases hwhy with hbefore | hsignalled | ⟨hcp, rfl⟩
  · exact (h.stopped j c hc hbefore).aged hchange.aged hevent hprogram a
  · obtain ⟨name, hname, hsig⟩ := (Option.any_eq_true _ _).mp hsignalled
    exact Or.inl ⟨name, hevent.trans hname, (h.signalled name hsig).aged hchange.aged a⟩
  · exact Or.inr ⟨hprogram.trans hcp, List.mem_append_right _ (List.mem_singleton_self _)⟩

/-- For all launched processes, all outcomes and every order of the steps: where a process is past
its wait, so that it shuts down or has returned from `main`, its event is one that `main` signals
and Enter was pressed, or the console of a process with the same event was used, or it is a
`CentralPropagator` that could not create the thread that waits. -/
theorem stopped_only_when_asked {s₀ : StopSystem} {as : List StopAction} (h₀ : s₀.Fresh)
    (h : Machine.Run (StopSystem.step nodes) Machine.anyStep s₀ as s) {j : Nat} {c : Child}
    (hc : s.children[j]? = some c) (hstopped : c.pc.stopped = true) :
    (∃ name, c.event = some name ∧ s.Asked as name) ∨
      (c.program = .centralPropagator ∧ .waiterFails j ∈ as) := by
  have htraced : s.Traced as := by
    clear hc hstopped
    induction h with
    | nil => exact h₀.traced
    | snoc _ _ hs ih => exact ih.step hs
  exact htraced.stopped j c hc hstopped

/-- The process waits, and stops when its event is signalled. -/
def stopsWhenSignalled : List StopAction :=
  [.create 0, .prepared 0, .enter, .signal true, .wake 0]

theorem stopped_only_when_asked_late :
    ∃ s c, Machine.exec (StopSystem.step twoRows) lateProcess stopsWhenSignalled = some s ∧
      s.children[0]? = some c ∧ c.pc.stopped = true ∧
      ((∃ name, c.event = some name ∧ s.Asked stopsWhenSignalled name) ∨
        (c.program = .centralPropagator ∧ .waiterFails 0 ∈ stopsWhenSignalled)) := by
  obtain ⟨s, c, hs, hc, hstopped⟩ : ∃ s c,
      Machine.exec (StopSystem.step twoRows) lateProcess stopsWhenSignalled = some s ∧
      s.children[0]? = some c ∧ c.pc.stopped = true := ⟨_, _, rfl, rfl, rfl⟩
  have hrun : Machine.Run (StopSystem.step twoRows) Machine.anyStep lateProcess
      stopsWhenSignalled s :=
    (Machine.exec_run hs (p := fun _ => True) fun _ _ => trivial).mono fun _ _ _ => trivial
  exact ⟨s, c, hs, hc, hstopped, stopped_only_when_asked lateProcess_fresh hrun hc hstopped⟩

/-! ## Processes that have their events -/

/-- The events that `main` is still going to signal. -/
def StopSystem.pending (s : StopSystem) : List Bytes :=
  match s.main with
  | .running => s.targets
  | .signalling names => names
  | .closing _ | .waitingFor _ | .returned => []

/-- The process has ended, or it has its event and the event is signalled or is going to be. -/
def StopSystem.Covers (s : StopSystem) (c : Child) : Prop :=
  c.pc.live = true → c.pc.ready = true ∧
    ∃ name, c.event = some name ∧ (s.signalled name = true ∨ name ∈ s.pending)

def StopSystem.Covered (s : StopSystem) : Prop := ∀ c ∈ s.children, s.Covers c

/-- Every process that runs has its event, and `main` is going to signal it. -/
structure StopSystem.Ready (s : StopSystem) : Prop where
  main : s.main = .running
  ready : ∀ c ∈ s.children, c.pc.live = true → c.pc.ready = true
  target : ∀ c ∈ s.children, ∃ name ∈ s.targets, c.event = some name

theorem ChildPc.holds_of_ready {pc : ChildPc} (h : pc.ready = true) : pc.holds = true := by
  cases pc with
  | starting | stalled _ | ended _ => cases h
  | preparing | waiting | stopping => rfl

/-- The process goes on to its end, if its shutdown comes to one. -/
theorem StopSystem.Change.ready (h : s.Change nodes a s') (hstall : ∀ i, a ≠ .stall i) {j : Nat}
    {c c' : Child} (hc : s.children[j]? = some c) (hc' : s'.children[j]? = some c')
    (hready : c.pc.ready = true) (hlive : c'.pc.live = true) : c'.pc.ready = true := by
  have hsame : s.children[j]? = some c' → c'.pc.ready = true := by
    intro hold
    rw [hc, Option.some.injEq] at hold
    exact hold ▸ hready
  have hkill : c' = c.kill → c'.pc.ready = true := by
    rintro rfl
    rw [c.kill_not_live] at hlive
    cases hlive
  cases h with
  | create _ _ _ =>
      rcases getElem?_set_cases hc' with ⟨rfl, rfl⟩ | hold
      · rfl
      · exact hsame hold
  | moves _ hmoves =>
      rcases getElem?_set_cases hc' with ⟨rfl, rfl⟩ | hold
      · cases hmoves with
        | fail _ | finish _ => cases hlive
        | prepared _ | waiterFails _ _ | wake _ _ => rfl
        | stall _ => exact absurd rfl (hstall _)
      · exact hsame hold
  | @window found i d _ hd =>
      cases found with
      | false => exact hsame hc'
      | true =>
          rcases getElem?_set_cases hc' with ⟨rfl, rfl⟩ | hold
          · rw [hc, Option.some.injEq] at hd
            exact hkill (by rw [hd])
          · exact hsame hold
  | closeJob _ =>
      have hmap := List.getElem?_map ▸ hc'
      rw [hc, Option.map_some, Option.some.injEq] at hmap
      split at hmap
      · exact hkill hmap.symm
      · exact hmap ▸ hready
  | console _ _ _ | enter _ _ | signal _ | thread _ _ | joinGenerator _ _ | joinSender _ _
  | join _ _ _ | ret _ _ => exact hsame hc'

/-- An event that is there stays signalled, or is signalled in its turn. -/
theorem StopSystem.Change.kept (h : s.Change nodes a s') (ha : a ≠ .signal false) {name : Bytes}
    (hheld : s.held name = true) (hname : s.signalled name = true ∨ name ∈ s.pending) :
    s'.signalled name = true ∨ name ∈ s'.pending := by
  cases h with
  | @create i c name' hc _ _ =>
      apply hname.imp_left
      intro hsig
      rcases eq_or_ne name name' with rfl | hne
      · simpa [hheld] using hsig
      · cases hheld' : s.held name' with
        | true => simpa [hheld'] using hsig
        | false => simpa [hheld', Function.update_of_ne hne] using hsig
  | moves _ _ | thread _ _ | joinGenerator _ _ => exact hname
  | @console i c name' hc _ _ =>
      apply hname.imp_left
      intro hsig
      rcases eq_or_ne name name' with rfl | hne
      · exact Function.update_self ..
      · exact (Function.update_of_ne hne ..).trans hsig
  | enter hm _ =>
      rw [StopSystem.pending, hm] at hname
      exact hname
  | @signal opens name' names hm =>
      have hopens : opens = true := by
        cases opens with
        | true => rfl
        | false => exact absurd rfl ha
      subst hopens
      rw [StopSystem.pending, hm] at hname
      rcases eq_or_ne name name' with rfl | hne
      · exact Or.inl (by simp [hheld])
      · rcases hname with hsig | hmem
        · left
          cases hheld' : s.held name' <;> simp [Function.update_of_ne hne, hsig]
        · exact Or.inr ((List.mem_cons.mp hmem).resolve_left hne)
  | joinSender hm _ | window hm _ | closeJob hm | join hm _ _ | ret hm _ =>
      rw [StopSystem.pending, hm] at hname
      exact hname

/-- `main` can open the events that are there, and the processes come to an end when they shut
down. -/
def StopAction.Proper (a : StopAction) : Prop := a ≠ .signal false ∧ ∀ i, a ≠ .stall i

theorem StopSystem.Covers.step {j : Nat} {c c' : Child} (h : s.Covers c)
    (hc : s.children[j]? = some c) (hc' : s'.children[j]? = some c') (hages : c.Ages c')
    (ha : a.Proper) (hs : s.step nodes a = some s') : s'.Covers c' := by
  intro hlive
  obtain ⟨hready, name, hevent, hname⟩ := h (hages.live hlive)
  have hchange := StopSystem.step_change hs
  refine ⟨hchange.ready ha.2 hc hc' hready hlive, name, hages.event.trans hevent, ?_⟩
  have hheld := StopSystem.held_of_waiting hc hevent (ChildPc.holds_of_ready hready)
  exact hchange.kept ha.1 hheld hname

theorem StopSystem.Covered.run {as : List StopAction} (h : s.Covered)
    (hrun : Machine.Run (StopSystem.step nodes) (fun _ a => a.Proper) s as s') : s'.Covered := by
  apply hrun.invariant h
  intro t a u ht ha hs c' hc'
  obtain ⟨j, hj⟩ := List.mem_iff_getElem?.mp hc'
  obtain ⟨c, hc, hages⟩ := (StopSystem.step_change hs).aged.before hj
  exact (ht c (List.mem_of_getElem? hc)).step hc hj hages ha hs

/-- Where every action meets `ok`, nobody uses a console and no wake-up is without a signal,
boundedly many steps follow once Enter was pressed, and when none is possible any more `main` has
returned and both threads and every process have ended. -/
def StopSystem.Ends (nodes : List NodeInfo) (s : StopSystem) (ok : StopAction → Prop) : Prop :=
  ∀ as t, Machine.Run (StopSystem.step nodes) (fun _ a => a.Quiet ∧ ok a) s as t →
    (s.main ≠ .running → as.length ≤ s.left) ∧
    ((∀ a : StopAction, a.Quiet → t.step nodes a = none) →
      t.main = .returned ∧ t.source.generator = .returned ∧ t.source.sender = .returned ∧
        ∀ c ∈ t.children, c.pc.live = false)

theorem StopSystem.Inv.ends (h : s.Inv) (hstep : s.InStep nodes) (hload : Loaded nodes)
    (hac : Forest.Acyclic (parentOf nodes)) (hdests : destinations nodes ≠ [])
    {ok : StopAction → Prop}
    (hhangs : ∀ as t, Machine.Run (StopSystem.step nodes) (fun _ a => ok a) s as t → ¬ t.Hangs) :
    s.Ends nodes ok := by
  intro as t hrun
  refine ⟨?_, ?_⟩
  · intro hmain
    have hlength := hstep.run_length hload hmain (hrun.mono fun _ _ ha => ha.1)
    exact (Nat.le_add_right _ _).trans hlength
  · intro hstuck
    have hinv := h.run hrun.reachable
    have htstep := hstep.run hload hrun.reachable
    have hsource : ¬ t.source.Stuck := by
      rintro ⟨_, hgen, hsend, hnil⟩
      exact htstep.source.inner_ne_nil hdests hgen (by simp [hsend]) hnil
    rcases hinv.stuck htstep hload hac hstuck with hmain | hhang | hsleeps
    · obtain ⟨hgen, hsend⟩ := htstep.joined hmain
      exact ⟨hmain, hgen, hsend, hinv.all_ended hmain⟩
    · exact absurd hhang (hhangs as t (hrun.mono fun _ _ ha => ha.2))
    · exact absurd hsleeps hsource

end DataPropagator
