import DataPropagator.DataSource.Pipeline

/-!
# Launching the stages

`cp_launcher.c` and the part of `main` that calls it.  A launcher reports through a NULL
pointer and a count that it writes on some of its paths.  It writes 0 when there is nothing
to launch and when `CreateProcessA` fails, and it writes nothing when the job object or the
memory cannot be had.  `main` takes the result for a failure when the pointer is NULL and
the count is positive.  Its two counts have no value before the calls, so they are
parameters here.

Closing the handle of the job kills the processes assigned to it if the limit was set.
-/

namespace DataPropagator

/-! ## The launchers -/

/-- The two programs that are launched. -/
inductive Program where
  | centralPropagator
  | dataDestination
deriving DecidableEq, Repr

/-- A process: its program and the row whose id and port are its arguments. -/
structure Process where
  program : Program
  row : Nat
deriving DecidableEq, Repr

/-- The handle `g_job`, with whether closing it kills, and the processes that run and those
that are in the job. -/
structure Launched where
  job : Option Bool
  running : List Process
  assigned : List Process
deriving DecidableEq, Repr

/-- The outcomes of what a launcher asks for. -/
structure LaunchEnv where
  createJobObject : Bool := true
  setInformation : Bool := true
  malloc : Bool := true
  createProcess : Nat → Bool := fun _ => true
  assign : Nat → Bool := fun _ => true

/-- What a launcher returns: the rows of the processes in the array, or `none` for NULL, and
`*outLaunchCount`. -/
structure LaunchResult where
  procs : Option (List Nat)
  count : Nat
  state : Launched

/-- Before the first launcher is called. -/
def Launched.init : Launched where
  job := none
  running := []
  assigned := []

/-- `create_job_object`: the handle and the result. -/
def createJobObject (env : LaunchEnv) : Option Bool × Bool :=
  if !env.createJobObject then (none, false)
  else (some env.setInformation, env.setInformation)

/-- `CloseHandle(g_job); g_job = NULL;`. -/
def Launched.closeJob (s : Launched) : Launched where
  job := none
  running := if s.job = some true then s.running.filter fun p => p ∉ s.assigned else s.running
  assigned := []

/-- `TerminateProcess` on processes of a program. -/
def Launched.terminate (s : Launched) (program : Program) (rows : List Nat) : Launched :=
  { s with running := s.running.filter fun p => ¬ (p.program = program ∧ p.row ∈ rows) }

/-- `CreateProcessA` succeeds and `AssignProcessToJobObject` is called. -/
def Launched.start (s : Launched) (program : Program) (row : Nat) (assign : Bool) : Launched :=
  { s with
    running := s.running ++ [{ program, row }]
    assigned := if assign then s.assigned ++ [{ program, row }] else s.assigned }

/-- The loop of a launcher over the rows it launches.  `procs` are the rows of the processes
it has created. -/
def launchLoop (program : Program) (env : LaunchEnv) :
    List Nat → List Nat → Launched → Option (List Nat) × Launched
  | [], procs, s => (some procs, s)
  | row :: rows, procs, s =>
      if !env.createProcess row then (none, (s.terminate program procs).closeJob)
      else launchLoop program env rows (procs ++ [row]) (s.start program row (env.assign row))

/-- A launcher from the counting of the rows on.  `out` is the value of `*outLaunchCount`. -/
def launchRows (program : Program) (env : LaunchEnv) (rows : List Nat) (out : Nat) (s : Launched) :
    LaunchResult :=
  if rows.length = 0 then { procs := none, count := 0, state := s }
  else if !env.malloc then { procs := none, count := out, state := s }
  else
    match launchLoop program env rows [] s with
    | (none, s) => { procs := none, count := 0, state := s }
    | (some procs, s) => { procs := some procs, count := rows.length, state := s }

/-- The rows that are not of type DESTINATION. -/
def nonDestinations (nodes : List NodeInfo) : List Nat :=
  (List.range nodes.length).filter fun i => (nodes[i]?).any fun node => node.type != .destination

/-- `cp_launch_all`. -/
def cpLaunchAll (nodes : List NodeInfo) (env : LaunchEnv) (out : Nat) (s : Launched) :
    LaunchResult :=
  let (job, ok) := createJobObject env
  let s := { s with job }
  if !ok then { procs := none, count := out, state := s }
  else launchRows .centralPropagator env (nonDestinations nodes) out s

/-- `dd_launch_all`.  It makes a job object only if there is none. -/
def ddLaunchAll (nodes : List NodeInfo) (env : LaunchEnv) (out : Nat) (s : Launched) :
    LaunchResult :=
  let (job, ok) := if s.job.isSome then (s.job, true) else createJobObject env
  let s := { s with job }
  if !ok then { procs := none, count := out, state := s }
  else launchRows .dataDestination env (destinations nodes) out s

/-- How `main` goes on after the launchers. -/
inductive Launch where
  /-- `Failed to launch CentralPropagator nodes.` -/
  | failedCentralPropagator
  /-- `Failed to launch DataDestination nodes.` -/
  | failedDataDestination
  /-- It waits for the processes and creates its threads. -/
  | goesOn
deriving DecidableEq, Repr

/-- The part of `main` that launches.  `cpCount` and `ddCount` are what its variables hold
before they are written. -/
def launch (nodes : List NodeInfo) (cpCount ddCount : Nat) (cpEnv ddEnv : LaunchEnv) :
    Launch × Launched :=
  let cp := cpLaunchAll nodes cpEnv cpCount .init
  if cp.procs.isNone ∧ 0 < cp.count then (.failedCentralPropagator, cp.state)
  else
    let dd := ddLaunchAll nodes ddEnv ddCount cp.state
    if dd.procs.isNone ∧ 0 < dd.count then (.failedDataDestination, dd.state)
    else (.goesOn, dd.state)

/-- The program of a row. -/
def NodeInfo.program (node : NodeInfo) : Program :=
  if node.type = .destination then .dataDestination else .centralPropagator

/-- Every row has its program running. -/
def Launched.Complete (nodes : List NodeInfo) (s : Launched) : Prop :=
  ∀ i node, nodes[i]? = some node → { program := node.program, row := i } ∈ s.running

/-! ## What the loop does -/

variable {program : Program} {env : LaunchEnv} {rows procs : List Nat} {s : Launched}

/-- When all processes can be created, they run, and so does what ran before. -/
theorem launchLoop_all (h : ∀ i ∈ rows, env.createProcess i = true) :
    (launchLoop program env rows procs s).1 = some (procs ++ rows) ∧
      (launchLoop program env rows procs s).2.job = s.job ∧
      (launchLoop program env rows procs s).2.running =
        s.running ++ rows.map (Process.mk program) := by
  induction rows generalizing procs s with
  | nil => simp [launchLoop]
  | cons row rows ih =>
      have hrow := h row (List.mem_cons_self ..)
      have hrest : ∀ i ∈ rows, env.createProcess i = true := by
        intro i hi
        exact h i (List.mem_cons_of_mem _ hi)
      rw [launchLoop, hrow, if_neg (by simp)]
      obtain ⟨hprocs, hjob, hrunning⟩ :=
        @ih (procs ++ [row]) (s.start program row (env.assign row)) hrest
      refine ⟨?_, hjob, ?_⟩
      · rw [hprocs, List.append_assoc]
        rfl
      · rw [hrunning, List.map_cons, Launched.start, List.append_assoc]
        rfl

/-- When one of them cannot, the launcher cleans up and the job is closed. -/
theorem launchLoop_fails (h : ∃ i ∈ rows, env.createProcess i = false) :
    (launchLoop program env rows procs s).1 = none ∧
      (launchLoop program env rows procs s).2.job = none := by
  induction rows generalizing procs s with
  | nil =>
      obtain ⟨_, hi, _⟩ := h
      cases hi
  | cons row rows ih =>
      rw [launchLoop]
      split
      · exact ⟨rfl, rfl⟩
      next hrow =>
          obtain ⟨i, hi, hfails⟩ := h
          apply ih
          rcases List.mem_cons.mp hi with rfl | hi
          · simp [hfails] at hrow
          · exact ⟨i, hi, hfails⟩

theorem Launched.closeJob_subset (s : Launched) : s.closeJob.running ⊆ s.running := by
  intro p hp
  rw [Launched.closeJob] at hp
  split at hp
  · exact List.mem_of_mem_filter hp
  · exact hp

/-- A process that runs afterwards ran before or was created. -/
theorem launchLoop_running {p : Process}
    (hp : p ∈ (launchLoop program env rows procs s).2.running) :
    p ∈ s.running ∨ (p.program = program ∧ env.createProcess p.row = true) := by
  induction rows generalizing procs s with
  | nil => exact Or.inl hp
  | cons row rows ih =>
      rw [launchLoop] at hp
      split at hp
      · exact Or.inl (List.mem_of_mem_filter (Launched.closeJob_subset _ hp))
      next hrow =>
          rcases ih hp with hold | hnew
          · rcases List.mem_append.mp hold with hold | hrow'
            · exact Or.inl hold
            · cases List.mem_singleton.mp hrow'
              exact Or.inr ⟨rfl, by simpa using hrow⟩
          · exact Or.inr hnew

/-! ## What a launcher does -/

/-- `create_job_object` returns TRUE. -/
def LaunchEnv.makesJob (env : LaunchEnv) : Bool := env.createJobObject && env.setInformation

/-- A launcher that has a job object, or not, has nothing to launch or launches all of
it. -/
def LaunchEnv.Starts (env : LaunchEnv) (job : Bool) (rows : List Nat) : Prop :=
  rows = [] ∨ (job = true ∧ env.malloc = true ∧ ∀ i ∈ rows, env.createProcess i = true)

/-- The launcher fails before its first call of `CreateProcessA`, and so it does not write
the count. -/
def LaunchEnv.LeavesCount (env : LaunchEnv) (job : Bool) (rows : List Nat) : Prop :=
  job = false ∨ (rows ≠ [] ∧ env.malloc = false)

/-- What the caller learns from a launcher, and what runs afterwards. -/
structure LaunchSpec (program : Program) (env : LaunchEnv) (job : Bool) (rows : List Nat)
    (out : Nat) (s : Launched) (r : LaunchResult) : Prop where
  /-- The test of `main`. -/
  test : (r.procs.isNone ∧ 0 < r.count) ↔ (env.LeavesCount job rows ∧ 0 < out)
  starts : env.Starts job rows → ∀ i ∈ rows, { program, row := i } ∈ r.state.running
  kept : env.Starts job rows → s.running ⊆ r.state.running
  running : ∀ p ∈ r.state.running, p ∈ s.running ∨ (p.program = program ∧
    job = true ∧ env.malloc = true ∧ env.createProcess p.row = true)

/-- The exits of a launcher that has its job object. -/
inductive LaunchExit (program : Program) (env : LaunchEnv) (rows : List Nat) (out : Nat)
    (s : Launched) : LaunchResult → Prop where
  | nothing (hrows : rows = []) :
      LaunchExit program env rows out s { procs := none, count := 0, state := s }
  | noMemory (hrows : rows ≠ []) (hmem : env.malloc = false) :
      LaunchExit program env rows out s { procs := none, count := out, state := s }
  | failed (hmem : env.malloc = true) (hfails : ∃ i ∈ rows, env.createProcess i = false)
      {state : Launched} (hjob : state.job = none)
      (hrunning : ∀ p ∈ state.running,
        p ∈ s.running ∨ (p.program = program ∧ env.createProcess p.row = true)) :
      LaunchExit program env rows out s { procs := none, count := 0, state }
  | started (hrows : rows ≠ []) (hmem : env.malloc = true)
      (hall : ∀ i ∈ rows, env.createProcess i = true) {state : Launched}
      (hjob : state.job = s.job)
      (hrunning : state.running = s.running ++ rows.map (Process.mk program)) :
      LaunchExit program env rows out s { procs := some rows, count := rows.length, state }

theorem launchRows_exit (program : Program) (env : LaunchEnv) (rows : List Nat) (out : Nat)
    (s : Launched) : LaunchExit program env rows out s (launchRows program env rows out s) := by
  rw [launchRows]
  split
  next hnil => exact .nothing (List.length_eq_zero_iff.mp hnil)
  next hcons =>
      have hrows : rows ≠ [] := fun h => hcons (List.length_eq_zero_iff.mpr h)
      split
      next hmalloc => exact .noMemory hrows (by simpa using hmalloc)
      next hmalloc =>
          have hmem : env.malloc = true := by simpa using hmalloc
          have hrunning := @launchLoop_running program env rows [] s
          by_cases hall : ∀ i ∈ rows, env.createProcess i = true
          · have hloop := @launchLoop_all program env rows [] s hall
            generalize launchLoop program env rows [] s = r at hloop
            obtain ⟨procs, state⟩ := r
            obtain ⟨rfl, hjob, hall'⟩ := hloop
            exact .started hrows hmem hall hjob hall'
          · have hfails : ∃ i ∈ rows, env.createProcess i = false := by simpa using hall
            have hloop := @launchLoop_fails program env rows [] s hfails
            generalize launchLoop program env rows [] s = r at hloop hrunning
            obtain ⟨procs, state⟩ := r
            obtain ⟨rfl, hjob⟩ := hloop
            exact .failed hmem hfails hjob fun p hp => hrunning hp

theorem LaunchExit.spec {out : Nat} {r : LaunchResult} (h : LaunchExit program env rows out s r) :
    LaunchSpec program env true rows out s r := by
  cases h with
  | nothing hrows =>
      exact
        { test := by simp [LaunchEnv.LeavesCount, hrows]
          starts := fun _ i hi => by simp [hrows] at hi
          kept := fun _ => List.Subset.refl _
          running := fun p hp => Or.inl hp }
  | noMemory hrows hmem =>
      exact
        { test := by simp [LaunchEnv.LeavesCount, hrows, hmem]
          starts := fun h => by simp [LaunchEnv.Starts, hrows, hmem] at h
          kept := fun _ => List.Subset.refl _
          running := fun p hp => Or.inl hp }
  | failed hmem hfails hjob hrunning =>
      obtain ⟨i, hi, hcreate⟩ := hfails
      have hstarts : ¬ env.Starts true rows := by
        rintro (rfl | ⟨_, _, hall⟩)
        · cases hi
        · rw [hall i hi] at hcreate
          cases hcreate
      exact
        { test := by simp [LaunchEnv.LeavesCount, hmem]
          starts := fun h => absurd h hstarts
          kept := fun h => absurd h hstarts
          running := fun p hp => by
            rcases hrunning p hp with hold | ⟨hprogram, hcreate⟩
            · exact Or.inl hold
            · exact Or.inr ⟨hprogram, rfl, hmem, hcreate⟩ }
  | started hrows hmem hall hjob hrunning =>
      exact
        { test := by simp [LaunchEnv.LeavesCount, hmem]
          starts := fun _ i hi => by
            rw [hrunning]
            exact List.mem_append_right _ (List.mem_map_of_mem hi)
          kept := fun _ p hp => by
            rw [hrunning]
            exact List.mem_append_left _ hp
          running := fun p hp => by
            rw [hrunning] at hp
            rcases List.mem_append.mp hp with hp | hp
            · exact Or.inl hp
            · obtain ⟨i, hi, rfl⟩ := List.mem_map.mp hp
              exact Or.inr ⟨rfl, rfl, hmem, hall i hi⟩ }

/-- The job object is gone after the exit that cleans up, and only then. -/
theorem LaunchExit.job {out : Nat} {r : LaunchResult} (h : LaunchExit program env rows out s r) :
    r.state.job.isSome = (s.job.isSome && (!env.malloc || rows.all env.createProcess)) := by
  cases h with
  | nothing hrows => simp [hrows]
  | noMemory hrows hmem => simp [hmem]
  | failed hmem hfails hjob hrunning =>
      have hrows : rows.all env.createProcess = false := by simpa using hfails
      simp [hjob, hmem, hrows]
  | started hrows hmem hall hjob hrunning =>
      have hrows : rows.all env.createProcess = true := List.all_eq_true.mpr hall
      simp [hjob, hrows]

/-- A launcher that could not make a job object. -/
theorem noJob_spec (program : Program) (env : LaunchEnv) (rows : List Nat) (out : Nat)
    (s : Launched) (job : Option Bool) :
    LaunchSpec program env false rows out s
      { procs := none, count := out, state := { s with job } } where
  test := by simp [LaunchEnv.LeavesCount]
  starts := fun h i hi => by
    rcases h with hnil | ⟨hjob, _⟩
    · simp [hnil] at hi
    · cases hjob
  kept := fun _ => List.Subset.refl _
  running := fun _ hp => Or.inl hp

theorem createJobObject_snd (env : LaunchEnv) : (createJobObject env).2 = env.makesJob := by
  rw [createJobObject, LaunchEnv.makesJob]
  cases env.createJobObject <;> rfl

theorem cpLaunchAll_spec (nodes : List NodeInfo) (env : LaunchEnv) (out : Nat) (s : Launched) :
    LaunchSpec .centralPropagator env env.makesJob (nonDestinations nodes) out s
      (cpLaunchAll nodes env out s) := by
  simp only [cpLaunchAll, createJobObject_snd]
  cases env.makesJob with
  | false => exact noJob_spec _ _ _ _ _ _
  | true =>
      have h := (launchRows_exit .centralPropagator env (nonDestinations nodes) out
        { s with job := (createJobObject env).1 }).spec
      exact ⟨h.test, h.starts, h.kept, h.running⟩

theorem ddLaunchAll_spec (nodes : List NodeInfo) (env : LaunchEnv) (out : Nat) (s : Launched) :
    LaunchSpec .dataDestination env (s.job.isSome || env.makesJob) (destinations nodes) out s
      (ddLaunchAll nodes env out s) := by
  simp only [ddLaunchAll]
  cases hjob : s.job with
  | some kills =>
      have h := (launchRows_exit .dataDestination env (destinations nodes) out
        { s with job := some kills }).spec
      exact ⟨h.test, h.starts, h.kept, h.running⟩
  | none =>
      simp only [Option.isSome_none, Bool.false_eq_true, if_false, createJobObject_snd,
        Bool.false_or]
      cases env.makesJob with
      | false => exact noJob_spec _ _ _ _ _ _
      | true =>
          have h := (launchRows_exit .dataDestination env (destinations nodes) out
            { s with job := (createJobObject env).1 }).spec
          exact ⟨h.test, h.starts, h.kept, h.running⟩

/-- `g_job` is not NULL after `cp_launch_all`. -/
def jobKept (nodes : List NodeInfo) (env : LaunchEnv) : Bool :=
  env.createJobObject && (!(env.setInformation && env.malloc) ||
    (nonDestinations nodes).all env.createProcess)

theorem cpLaunchAll_job (nodes : List NodeInfo) (env : LaunchEnv) (out : Nat) :
    (cpLaunchAll nodes env out .init).state.job.isSome = jobKept nodes env := by
  obtain ⟨made, set, malloc, createProcess, assign⟩ := env
  cases made with
  | false => rfl
  | true =>
      cases set with
      | false => rfl
      | true => exact (launchRows_exit _ _ _ _ _).job

/-! ## What `main` does -/

theorem mem_nonDestinations {nodes : List NodeInfo} {i : Nat} : i ∈ nonDestinations nodes ↔
    ∃ node, nodes[i]? = some node ∧ node.type ≠ .destination := by
  simp only [nonDestinations, mem_filter_rows, bne_iff_ne]

/-- Every row has its program running if and only if every row of either kind has. -/
theorem Launched.complete_iff {nodes : List NodeInfo} : s.Complete nodes ↔
    (∀ i ∈ nonDestinations nodes, { program := .centralPropagator, row := i } ∈ s.running) ∧
      ∀ i ∈ destinations nodes, { program := .dataDestination, row := i } ∈ s.running := by
  constructor
  · intro h
    constructor
    · intro i hi
      obtain ⟨node, hnode, htype⟩ := mem_nonDestinations.mp hi
      have hrun := h i node hnode
      rwa [NodeInfo.program, if_neg htype] at hrun
    · intro i hi
      obtain ⟨node, hnode, htype⟩ := mem_destinations.mp hi
      have hrun := h i node hnode
      rwa [NodeInfo.program, if_pos htype] at hrun
  · rintro ⟨hcp, hdd⟩ i node hnode
    by_cases htype : node.type = .destination
    · rw [NodeInfo.program, if_pos htype]
      exact hdd i (mem_destinations.mpr ⟨node, hnode, htype⟩)
    · rw [NodeInfo.program, if_neg htype]
      exact hcp i (mem_nonDestinations.mpr ⟨node, hnode, htype⟩)

/-- A launcher whose processes all run has started them all. -/
theorem LaunchSpec.starts_of_running {job : Bool} {out : Nat} {r : LaunchResult}
    (h : LaunchSpec program env job rows out s r) (hold : ∀ p ∈ s.running, p.program ≠ program)
    (hrun : ∀ i ∈ rows, { program, row := i } ∈ r.state.running) : env.Starts job rows := by
  have hnew (i : Nat) (hi : i ∈ rows) :
      job = true ∧ env.malloc = true ∧ env.createProcess i = true := by
    rcases h.running _ (hrun i hi) with hbefore | ⟨_, hstarted⟩
    · exact absurd rfl (hold _ hbefore)
    · exact hstarted
  cases rows with
  | nil => exact Or.inl rfl
  | cons row rows =>
      obtain ⟨hjob, hmem, _⟩ := hnew row (List.mem_cons_self ..)
      exact Or.inr ⟨hjob, hmem, fun i hi => (hnew i hi).2.2⟩

/-- For every table, whatever the counts of `main` hold before they are written, and
whatever becomes of the job object, the allocations and the processes: `main` goes on only
if every row has its program running, if and only if both launchers launch all they have
to, or one of them fails before its first `CreateProcessA` and the count that it leaves
unwritten happens to be positive. -/
theorem launch_complete_iff (nodes : List NodeInfo) (cpCount ddCount : Nat)
    (cpEnv ddEnv : LaunchEnv) :
    ((launch nodes cpCount ddCount cpEnv ddEnv).1 = .goesOn →
      (launch nodes cpCount ddCount cpEnv ddEnv).2.Complete nodes) ↔
    (cpEnv.Starts cpEnv.makesJob (nonDestinations nodes) ∧
      ddEnv.Starts (jobKept nodes cpEnv || ddEnv.makesJob) (destinations nodes)) ∨
    (cpEnv.LeavesCount cpEnv.makesJob (nonDestinations nodes) ∧ 0 < cpCount) ∨
    (ddEnv.LeavesCount (jobKept nodes cpEnv || ddEnv.makesJob) (destinations nodes) ∧
      0 < ddCount) := by
  have hcp := cpLaunchAll_spec nodes cpEnv cpCount .init
  have hdd := ddLaunchAll_spec nodes ddEnv ddCount (cpLaunchAll nodes cpEnv cpCount .init).state
  rw [cpLaunchAll_job] at hdd
  simp only [launch]
  generalize cpLaunchAll nodes cpEnv cpCount .init = cp at hcp hdd
  generalize ddLaunchAll nodes ddEnv ddCount cp.state = dd at hdd ⊢
  have hnone : ∀ p ∈ Launched.init.running, p.program ≠ .centralPropagator := nofun
  have hcpOnly : ∀ p ∈ cp.state.running, p.program ≠ .dataDestination := by
    intro p hp
    rcases hcp.running p hp with hold | ⟨hprogram, _⟩
    · cases hold
    · simp [hprogram]
  rw [← hcp.test, ← hdd.test]
  constructor
  · intro h
    by_cases htest : cp.procs.isNone ∧ 0 < cp.count
    · exact Or.inr (Or.inl htest)
    by_cases htest' : dd.procs.isNone ∧ 0 < dd.count
    · exact Or.inr (Or.inr htest')
    rw [if_neg htest, if_neg htest'] at h
    obtain ⟨hcpRun, hddRun⟩ := Launched.complete_iff.mp (h rfl)
    refine Or.inl ⟨hcp.starts_of_running hnone ?_, hdd.starts_of_running hcpOnly hddRun⟩
    intro i hi
    rcases hdd.running _ (hcpRun i hi) with hold | ⟨hprogram, _⟩
    · exact hold
    · cases hprogram
  · rintro (⟨hcpStarts, hddStarts⟩ | htest | htest)
    · split
      · nofun
      split
      · nofun
      · intro _
        exact Launched.complete_iff.mpr
          ⟨fun i hi => hdd.kept hddStarts (hcp.starts hcpStarts i hi), hdd.starts hddStarts⟩
    · rw [if_pos htest]
      nofun
    · split
      · nofun
      · nofun

/-- Over the table of two rows, the process for the root cannot be created.  The launcher
returns NULL with the count 0, as when there is nothing to launch, and `main` goes on. -/
theorem launch_goes_on_without_root :
    launch twoRows 7 7 { createProcess := fun _ => false } {} =
      (.goesOn, { job := some true
                  running := [{ program := .dataDestination, row := 1 }]
                  assigned := [{ program := .dataDestination, row := 1 }] }) ∧
    ¬ (launch twoRows 7 7 { createProcess := fun _ => false } {}).2.Complete twoRows := by
  have hlaunch : launch twoRows 7 7 { createProcess := fun _ => false } {} =
      (.goesOn, { job := some true
                  running := [{ program := .dataDestination, row := 1 }]
                  assigned := [{ program := .dataDestination, row := 1 }] }) := by
    decide +kernel
  refine ⟨hlaunch, ?_⟩
  intro h
  rw [hlaunch] at h
  have hroot := (Launched.complete_iff.mp h).1 0 (by decide +kernel)
  simp at hroot

end DataPropagator
