import DataPropagator.DataSource.Launcher
import DataPropagator.Common.NodeFile
import DataPropagator.Lib.Custody

/-!
# The handles of the launchers

`cp_launcher.c` again, now with the handles it is given, its variables, and the arrays it
fills.  A handle is named by its place among all handles it was ever given, so a name is not
used twice.  A store past the end of an array, and a read of a cell that was never filled, are
faults.  A wait returns when its process has ended.

The launchers and the sweep keep the books of `Lib/Custody.lean`: creating takes handles in,
closing gives them up, and every other call only looks at handles that are open.  `main` goes on
after them as it does after the launchers of `Launcher.lean`.
-/

namespace DataPropagator

namespace Handles

/-! ## Data -/

/-- A handle, by its place among those that were given. -/
abbrev Handle := Nat

/-- `PROCESS_INFORMATION`. -/
structure ProcessInformation where
  hProcess : Handle
  hThread : Handle
  dwProcessId : UInt32
deriving DecidableEq, Repr

/-- What the launchers ask of the system. -/
inductive Event where
  /-- `CreateJobObject` returned a handle. -/
  | jobCreated (job : Handle)
  /-- `CreateProcessA` returned two handles for a command line. -/
  | processCreated (cmd : Bytes) (info : ProcessInformation)
  /-- `AssignProcessToJobObject`. -/
  | assigned (job hProcess : Handle)
  /-- `TerminateProcess`. -/
  | terminated (hProcess : Handle)
  /-- `WaitForSingleObject`. -/
  | waited (hProcess : Handle)
  /-- `CloseHandle`. -/
  | closed (handle : Handle)
deriving DecidableEq, Repr

/-- The ways a launcher leaves its arrays. -/
inductive Fault where
  /-- A store past the end. -/
  | overrun
  /-- A read of a cell that was not filled. -/
  | unfilled
deriving DecidableEq, Repr

/-- An array of `malloc`.  A cell that was not filled is `none`. -/
abbrev Procs := List (Option ProcessInformation)

/-- The variables of `cp_launcher.c`, the number of handles given and what was asked. -/
structure State where
  gJob : Option Handle := none
  gCpProcs : Option Procs := none
  gCpCount : Nat := 0
  gDdProcs : Option Procs := none
  gDdCount : Nat := 0
  given : Nat := 0
  log : List Event := []
deriving DecidableEq, Repr

/-- The outcomes of what a launcher asks for, with the ids of the processes. -/
structure Env extends LaunchEnv where
  processId : Nat → UInt32 := fun _ => 0

/-- What a launcher returns, `*outLaunchCount`, and the state it leaves. -/
structure Result where
  procs : Option Procs
  count : Nat
  state : State
deriving DecidableEq, Repr

/-! ## Command lines -/

/-- The size of a buffer for a path. -/
def maxPath : Nat := 260

/-- The size of `cmd`. -/
def cmdSize : Nat := 1024

/-- A backslash. -/
def backslash : UInt8 := 92

/-- A double quote. -/
def quote : UInt8 := 34

/-- A space. -/
def space : UInt8 := 32

/-- The path up to its last backslash, or all of it if there is none. -/
def directory (path : Bytes) : Bytes :=
  if backslash ∈ path then (path.reverse.dropWhile (· != backslash)).reverse else path

/-- The file name of a program. -/
def exeName : Program → Bytes
  | .centralPropagator => ascii "CentralPropagator.exe"
  | .dataDestination => ascii "DataDestination.exe"

/-- `cpExePath` and `exePath`.  `modulePath` is what `GetModuleFileNameA` stored. -/
def exePath (modulePath : CString) (program : Program) : Bytes :=
  snprintf maxPath (directory modulePath.bytes ++ exeName program)

/-- The quoted path, the quoted id and the port of a node. -/
def commandText (exe : Bytes) (node : NodeInfo) : Bytes :=
  [quote] ++ exe ++ [quote, space, quote] ++ node.id.bytes ++ [quote, space] ++
    decimal node.port.toNat

/-- `cmd`. -/
def commandLine (exe : Bytes) (node : NodeInfo) : Bytes := snprintf cmdSize (commandText exe node)

/-! ## The launchers -/

/-- The test of a launcher for the nodes it starts. -/
def launches : Program → NodeInfo → Bool
  | .centralPropagator, node => node.type != .destination
  | .dataDestination, node => node.type == .destination

/-- Some calls are made. -/
def State.emit (s : State) (es : List Event) : State := { s with log := s.log ++ es }

/-- The state after other calls. -/
def State.withLog (s : State) (log : List Event) : State := { s with log := log }

/-- `create_job_object`. -/
def createJobObject (env : Env) (s : State) : Bool × State :=
  if env.createJobObject then
    (env.setInformation,
      { s with gJob := some s.given, given := s.given + 1, log := s.log ++ [.jobCreated s.given] })
  else (false, { s with gJob := none })

/-- `CloseHandle(g_job); g_job = NULL;`.  Closing NULL does nothing. -/
def State.closeJob (s : State) : State :=
  { s.emit (s.gJob.toList.map .closed) with gJob := none }

/-- `CreateProcessA` succeeds, and the process is assigned to the job. -/
def State.start (s : State) (cmd : Bytes) (processId : UInt32) : State × ProcessInformation :=
  let info := { hProcess := s.given, hThread := s.given + 1, dwProcessId := processId }
  ({ s with
      given := s.given + 2
      log := s.log ++ .processCreated cmd info ::
        s.gJob.toList.map fun job => .assigned job info.hProcess }, info)

/-- A loop over the first cells of an array that makes some calls for each. -/
def forProcs (calls : ProcessInformation → List Event) : Nat → Procs → State → Except Fault State
  | 0, _, s => .ok s
  | n + 1, some info :: procs, s => forProcs calls n procs (s.emit (calls info))
  | _ + 1, none :: _, _ => .error .unfilled
  | _ + 1, [], _ => .error .unfilled

/-- The calls of the cleanup for one process. -/
def cleanupCalls (info : ProcessInformation) : List Event :=
  [.terminated info.hProcess, .closed info.hThread, .closed info.hProcess]

/-- The calls of `cp_terminate_all` for one process. -/
def sweepCalls (info : ProcessInformation) : List Event :=
  [.waited info.hProcess, .closed info.hThread, .closed info.hProcess]

/-- The filling loop of a launcher.  `i` is the row that the rest of the nodes starts with, and
`idx` cells of the array are filled.  `none` is the exit that cleans up. -/
def fill (program : Program) (exe : Bytes) (env : Env) :
    List NodeInfo → Nat → Nat → Procs → State → Except Fault (Option Procs × State)
  | [], _, _, procs, s => .ok (some procs, s)
  | node :: nodes, i, idx, procs, s =>
      if !launches program node then fill program exe env nodes (i + 1) idx procs s
      else if procs.length ≤ idx then .error .overrun
      else if !env.createProcess i then
        (forProcs cleanupCalls idx procs s).map fun s => (none, s.closeJob)
      else
        let (s, info) := s.start (commandLine exe node) (env.processId i)
        fill program exe env nodes (i + 1) (idx + 1) (procs.set idx (some info)) s

/-- A launcher from the counting of the nodes on.  `out` is the value of `*outLaunchCount`. -/
def launchNodes (program : Program) (modulePath : CString) (nodes : List NodeInfo) (env : Env)
    (out : Nat) (s : State) : Except Fault Result :=
  let eligible := nodes.countP (launches program)
  if eligible = 0 then .ok { procs := none, count := 0, state := s }
  else if !env.malloc then .ok { procs := none, count := out, state := s }
  else
    (fill program (exePath modulePath program) env nodes 0 0 (List.replicate eligible none) s).map
      fun (procs, s) =>
        { procs := procs, count := if procs.isSome then eligible else 0, state := s }

/-- A launcher that has tried for its job object.  `keep` sets its two variables. -/
def launchAll (program : Program) (keep : Procs → Nat → State → State) (modulePath : CString)
    (nodes : List NodeInfo) (env : Env) (out : Nat) (job : Bool × State) : Except Fault Result :=
  if !job.1 then .ok { procs := none, count := out, state := job.2 }
  else
    (launchNodes program modulePath nodes env out job.2).map fun r =>
      match r.procs with
      | none => r
      | some procs => { r with state := keep procs r.count r.state }

/-- `g_cpProcs = procs; g_cpCount = eligible;`. -/
def keepCp (procs : Procs) (count : Nat) (s : State) : State :=
  { s with gCpProcs := some procs, gCpCount := count }

/-- `g_ddProcs = procs; g_ddCount = count;`. -/
def keepDd (procs : Procs) (count : Nat) (s : State) : State :=
  { s with gDdProcs := some procs, gDdCount := count }

/-- `g_job || create_job_object()`. -/
def ensureJob (env : Env) (s : State) : Bool × State :=
  if s.gJob.isSome then (true, s) else createJobObject env s

/-- `cp_launch_all`. -/
def cpLaunchAll (modulePath : CString) (nodes : List NodeInfo) (env : Env) (out : Nat)
    (s : State) : Except Fault Result :=
  launchAll .centralPropagator keepCp modulePath nodes env out (createJobObject env s)

/-- `dd_launch_all`. -/
def ddLaunchAll (modulePath : CString) (nodes : List NodeInfo) (env : Env) (out : Nat)
    (s : State) : Except Fault Result :=
  launchAll .dataDestination keepDd modulePath nodes env out (ensureJob env s)

/-- The sweep of `cp_terminate_all` over `g_cpProcs`. -/
def State.sweepCp (s : State) : Except Fault State :=
  match s.gCpProcs with
  | none => .ok s
  | some procs =>
      (forProcs sweepCalls s.gCpCount procs s).map fun s =>
        { s with gCpProcs := none, gCpCount := 0 }

/-- The sweep of `cp_terminate_all` over `g_ddProcs`. -/
def State.sweepDd (s : State) : Except Fault State :=
  match s.gDdProcs with
  | none => .ok s
  | some procs =>
      (forProcs sweepCalls s.gDdCount procs s).map fun s =>
        { s with gDdProcs := none, gDdCount := 0 }

/-- `cp_terminate_all`. -/
def cpTerminateAll (s : State) : Except Fault State := do
  let s := if s.gJob.isSome then s.closeJob else s
  let s ← s.sweepCp
  s.sweepDd

/-- What the three calls return and ask for. -/
structure Lifetime where
  cp : Option Procs
  cpLog : List Event
  dd : Option Procs
  ddLog : List Event
  endLog : List Event
deriving DecidableEq, Repr

/-- Everything that is asked for. -/
def Lifetime.log (r : Lifetime) : List Event := r.cpLog ++ (r.ddLog ++ r.endLog)

/-- `cp_launch_all`, `dd_launch_all` and `cp_terminate_all`, one after another. -/
def lifetime (modulePath : CString) (nodes : List NodeInfo) (cpOut ddOut : Nat)
    (cpEnv ddEnv : Env) : Except Fault Lifetime := do
  let cp ← cpLaunchAll modulePath nodes cpEnv cpOut {}
  let dd ← ddLaunchAll modulePath nodes ddEnv ddOut (cp.state.withLog [])
  let s ← cpTerminateAll (dd.state.withLog [])
  return {
    cp := cp.procs, cpLog := cp.state.log, dd := dd.procs, ddLog := dd.state.log, endLog := s.log }

/-! ## The books -/

/-- What a call does with handles. -/
def Event.step : Event → Custody.Step Handle
  | .jobCreated job => { taken := [job], read := [], released := [] }
  | .processCreated _ info =>
      { taken := [info.hProcess, info.hThread], read := [], released := [] }
  | .assigned job hProcess => { taken := [], read := [job, hProcess], released := [] }
  | .terminated hProcess => { taken := [], read := [hProcess], released := [] }
  | .waited hProcess => { taken := [], read := [hProcess], released := [] }
  | .closed handle => { taken := [], read := [handle], released := [handle] }

/-- The handles that were returned, in order. -/
def opened (es : List Event) : List Handle := es.flatMap fun e => e.step.taken

/-- The handles that were closed, in order. -/
def closings (es : List Event) : List Handle := es.flatMap fun e => e.step.released

/-- The processes that were started, in order. -/
def started (es : List Event) : List (Bytes × ProcessInformation) :=
  es.filterMap fun e =>
    match e with
    | .processCreated cmd info => some (cmd, info)
    | _ => none

/-- The handles of some processes. -/
def handlesOf (infos : List ProcessInformation) : List Handle :=
  infos.flatMap fun info => [info.hProcess, info.hThread]

/-- Some calls lead from a state to another.  They keep the books, and the handles they return
are new. -/
structure Books (held : List Handle) (s : State) (es : List Event) (held' : List Handle)
    (s' : State) : Prop where
  log : s'.log = s.log ++ es
  run : ∃ rest, Custody.Run held (es.map Event.step) rest ∧ rest.Perm held'
  given : s.given ≤ s'.given
  opened : opened es = List.range' s.given (s'.given - s.given)

variable {held mid held' rest : List Handle} {s t u : State} {es es' : List Event}

theorem Books.refl (held : List Handle) (s : State) : Books held s [] held s where
  log := by simp
  run := ⟨held, .nil held, List.Perm.refl _⟩
  given := le_rfl
  opened := by simp [Handles.opened]

theorem Books.trans (h : Books held s es mid t) (h' : Books mid t es' held' u) :
    Books held s (es ++ es') held' u where
  log := by rw [h'.log, h.log, List.append_assoc]
  run := by
    obtain ⟨rest, hrun, hperm⟩ := h.run
    obtain ⟨rest', hrun', hperm'⟩ := h'.run
    obtain ⟨rest'', hrun'', hperm''⟩ := hrun'.perm_start hperm.symm
    rw [List.map_append]
    exact ⟨rest'', hrun.append hrun'', hperm''.symm.trans hperm'⟩
  given := h.given.trans h'.given
  opened := by
    have hle := h.given
    have hle' := h'.given
    have happ : Handles.opened (es ++ es') = Handles.opened es ++ Handles.opened es' :=
      List.flatMap_append
    have hmid : t.given = s.given + (t.given - s.given) := by omega
    have hlen : u.given - s.given = t.given - s.given + (u.given - t.given) := by omega
    rw [happ, h.opened, h'.opened, hlen, ← List.range'_append_1, ← hmid]

/-- The order in which handles are held does not matter. -/
theorem Books.perm (h : Books held s es held' t) {held₂ held₂' : List Handle}
    (hp : held.Perm held₂) (hp' : held'.Perm held₂') : Books held₂ s es held₂' t where
  log := h.log
  run := by
    obtain ⟨rest, hrun, hperm⟩ := h.run
    obtain ⟨rest', hrun', hperm'⟩ := hrun.perm_start hp
    exact ⟨rest', hrun', hperm'.symm.trans (hperm.trans hp')⟩
  given := h.given
  opened := h.opened

/-- Calls that return no handle. -/
theorem books_emit {es : List Event} (hrun : Custody.Run held (es.map Event.step) held')
    (hopened : opened es = []) (s : State) : Books held s es held' (s.emit es) where
  log := rfl
  run := ⟨held', hrun, List.Perm.refl _⟩
  given := le_rfl
  opened := by rw [hopened, State.emit, Nat.sub_self]; rfl

/-! ## Closing -/

/-- Calls for one process that close its two handles. -/
structure Closes (calls : ProcessInformation → List Event) : Prop where
  run : ∀ info rest,
    Custody.Run (info.hProcess :: info.hThread :: rest) ((calls info).map Event.step) rest
  opened : ∀ info, opened (calls info) = []

/-- A call that looks at the process, and the two that close its handles. -/
theorem closes_of_look {look : Handle → Event}
    (h : ∀ hProcess, (look hProcess).step = { taken := [], read := [hProcess], released := [] }) :
    Closes fun info => [look info.hProcess, .closed info.hThread, .closed info.hProcess] where
  run := by
    intro info rest
    rw [List.map_cons, h]
    have hlast : Custody.Run (info.hProcess :: rest) [Event.step (.closed info.hProcess)] rest :=
      .cons (List.Perm.refl _) (by simp [Event.step]) (.nil rest)
    refine .cons (List.Perm.refl _) (by simp) ?_
    exact .cons (List.Perm.swap ..) (by simp [Event.step]) hlast
  opened := by
    intro info
    rw [Handles.opened, List.flatMap_cons, h]
    rfl

theorem cleanupCalls_closes : Closes cleanupCalls := closes_of_look fun _ => rfl

theorem sweepCalls_closes : Closes sweepCalls := closes_of_look fun _ => rfl

/-- A loop over the filled cells of an array reads no other cell. -/
theorem forProcs_eq (calls : ProcessInformation → List Event) (infos : List ProcessInformation)
    (cells : Procs) (s : State) :
    forProcs calls infos.length (infos.map some ++ cells) s =
      .ok (s.emit (infos.flatMap calls)) := by
  induction infos generalizing s with
  | nil => simp [forProcs, State.emit]
  | cons info infos ih =>
      rw [List.length_cons, List.map_cons, List.cons_append, forProcs, ih]
      simp [State.emit]

theorem Closes.flatMap {calls : ProcessInformation → List Event} (h : Closes calls)
    (infos : List ProcessInformation) (rest : List Handle) :
    Custody.Run (handlesOf infos ++ rest) ((infos.flatMap calls).map Event.step) rest ∧
      Handles.opened (infos.flatMap calls) = [] := by
  induction infos with
  | nil => exact ⟨.nil rest, rfl⟩
  | cons info infos ih =>
      constructor
      · rw [List.flatMap_cons, List.map_append]
        exact (h.run info (handlesOf infos ++ rest)).append ih.1
      · have happ : Handles.opened ((info :: infos).flatMap calls) =
            Handles.opened (calls info) ++ Handles.opened (infos.flatMap calls) := by
          rw [List.flatMap_cons]
          exact List.flatMap_append
        rw [happ, h.opened, ih.2]
        rfl

theorem Closes.books {calls : ProcessInformation → List Event} (h : Closes calls)
    (infos : List ProcessInformation) (rest : List Handle) (s : State) :
    Books (handlesOf infos ++ rest) s (infos.flatMap calls) rest
      (s.emit (infos.flatMap calls)) :=
  books_emit (h.flatMap infos rest).1 (h.flatMap infos rest).2 s

theorem closeJob_books (s : State) (rest : List Handle) :
    Books (s.gJob.toList ++ rest) s (s.gJob.toList.map .closed) rest s.closeJob := by
  have hrun : Custody.Run (s.gJob.toList ++ rest)
      ((s.gJob.toList.map Event.closed).map Event.step) rest := by
    cases s.gJob with
    | none => exact .nil rest
    | some job => exact .cons (List.Perm.refl _) (by simp [Event.step]) (.nil rest)
  have hopened : opened (s.gJob.toList.map .closed) = [] := by
    cases s.gJob <;> rfl
  have h := books_emit hrun hopened s
  exact ⟨h.log, h.run, h.given, h.opened⟩

/-! ## Opening -/

theorem handlesOf_append (infos infos' : List ProcessInformation) :
    handlesOf (infos ++ infos') = handlesOf infos ++ handlesOf infos' :=
  List.flatMap_append

theorem started_append (es es' : List Event) : started (es ++ es') = started es ++ started es' :=
  List.filterMap_append

/-- The call of `CreateProcessA` that succeeds, with the call after it. -/
theorem start_books (cmd : Bytes) (processId : UInt32) (filled : List ProcessInformation)
    (rest : List Handle) {job : Handle} (hjob : s.gJob = some job) :
    Books (handlesOf filled ++ job :: rest) s
      [.processCreated cmd (s.start cmd processId).2, .assigned job s.given]
      (handlesOf (filled ++ [(s.start cmd processId).2]) ++ job :: rest)
      (s.start cmd processId).1 where
  log := by simp [State.start, hjob]
  run := by
    refine ⟨s.given :: (s.given + 1) :: (handlesOf filled ++ job :: rest), ?_, ?_⟩
    · refine .cons (List.Perm.refl _) (by simp [Event.step]) ?_
      exact .cons (List.Perm.refl _) (by simp [Event.step, State.start]) (.nil _)
    · rw [handlesOf_append, List.append_assoc]
      exact List.perm_append_comm_assoc [s.given, s.given + 1] (handlesOf filled) (job :: rest)
  given := Nat.le_add_right s.given 2
  opened := by
    have hlen : (s.start cmd processId).1.given - s.given = 2 := Nat.add_sub_cancel_left ..
    rw [hlen]
    rfl

/-- A state in which only a number of handles was given, and some calls were made. -/
def State.after (s : State) (given : Nat) (es : List Event) : State :=
  { s with given := given, log := s.log ++ es }

/-- How the filling loop of a launcher ends that starts some command lines.  When it begins some
cells are filled, and beside the job object and the handles in those cells some others are
open. -/
inductive FillExit (cmds : List Bytes) (filled : List ProcessInformation) (job : Handle)
    (rest : List Handle) (s : State) : Option Procs × State → Prop where
  | filled {infos : List ProcessInformation} {es : List Event} {given : Nat}
      (books : Books (handlesOf filled ++ job :: rest) s es
        (handlesOf (filled ++ infos) ++ job :: rest) (s.after given es))
      (commands : (started es).map Prod.fst = cmds)
      (infos_eq : (started es).map Prod.snd = infos) :
      FillExit cmds filled job rest s (some ((filled ++ infos).map some), s.after given es)
  | failed {es : List Event} {given : Nat}
      (books : Books (handlesOf filled ++ job :: rest) s es rest
        { s.after given es with gJob := none }) :
      FillExit cmds filled job rest s (none, { s.after given es with gJob := none })

variable {cmds : List Bytes} {filled : List ProcessInformation} {job : Handle}
  {r : Option Procs × State}

theorem FillExit.nil (filled : List ProcessInformation) (job : Handle) (rest : List Handle)
    (s : State) : FillExit [] filled job rest s (some (filled.map some), s) := by
  have hs : s.after s.given [] = s := by simp [State.after]
  have hbooks := Books.refl (handlesOf filled ++ job :: rest) s
  have h : FillExit [] filled job rest s
      (some ((filled ++ []).map some), s.after s.given []) :=
    .filled (by rwa [List.append_nil, hs]) rfl rfl
  rwa [List.append_nil, hs] at h

/-- One more process before the rest of the loop. -/
theorem FillExit.cons {cmd : Bytes} {processId : UInt32} (hjob : s.gJob = some job)
    (h : FillExit cmds (filled ++ [(s.start cmd processId).2]) job rest
      (s.start cmd processId).1 r) : FillExit (cmd :: cmds) filled job rest s r := by
  have hstart := start_books cmd processId filled rest hjob
  have hafter : ∀ given es, (s.start cmd processId).1.after given es = s.after given
      ([.processCreated cmd (s.start cmd processId).2, .assigned job s.given] ++ es) := by
    intro given es
    simp [State.start, State.after, hjob]
  cases h with
  | @filled infos es given books commands infos_eq =>
      rw [hafter, List.append_assoc]
      rw [hafter, List.append_assoc] at books
      exact .filled (hstart.trans books) (by rw [started_append, List.map_append, commands]; rfl)
        (by rw [started_append, List.map_append, infos_eq]; rfl)
  | @failed es given books =>
      rw [hafter] at books ⊢
      exact .failed (hstart.trans books)

/-- The cleanup closes what is in the cells that are filled, and the job object. -/
theorem FillExit.cleanup (cmds : List Bytes) (filled : List ProcessInformation)
    (rest : List Handle) (hjob : s.gJob = some job) : FillExit cmds filled job rest s
      (none, (s.emit (filled.flatMap cleanupCalls)).closeJob) := by
  have hclean := cleanupCalls_closes.books filled (job :: rest) s
  have hclose := closeJob_books (s.emit (filled.flatMap cleanupCalls)) rest
  have hheld : (s.emit (filled.flatMap cleanupCalls)).gJob.toList ++ rest = job :: rest := by
    rw [State.emit, hjob]
    rfl
  rw [hheld] at hclose
  have hstate : (s.emit (filled.flatMap cleanupCalls)).closeJob =
      { s.after s.given (filled.flatMap cleanupCalls ++
        (s.emit (filled.flatMap cleanupCalls)).gJob.toList.map .closed) with gJob := none } := by
    simp [State.closeJob, State.emit, State.after]
  have hbooks := hclean.trans hclose
  rw [hstate] at hbooks ⊢
  exact .failed hbooks

/-- The loop never stores past the end of an array that has a cell for every node it starts. -/
theorem fill_exit (program : Program) (exe : Bytes) (env : Env) (nodes : List NodeInfo) (i : Nat)
    (filled : List ProcessInformation) (rest : List Handle) (hjob : s.gJob = some job) :
    ∃ r, fill program exe env nodes i filled.length
        (filled.map some ++ List.replicate (nodes.countP (launches program)) none) s = .ok r ∧
      FillExit ((nodes.filter (launches program)).map (commandLine exe)) filled job rest s r := by
  induction nodes generalizing i filled s with
  | nil => exact ⟨(some (filled.map some), s), by simp [fill], .nil filled job rest s⟩
  | cons node nodes ih =>
      by_cases hnode : launches program node = true
      · have hroom : ¬ (filled.map some ++
            List.replicate (nodes.countP (launches program) + 1) none).length ≤ filled.length := by
          simp
        rw [List.countP_cons_of_pos hnode, List.filter_cons_of_pos hnode, fill,
          if_neg (by simp [hnode]), if_neg hroom]
        cases hcreate : env.createProcess i with
        | false =>
            rw [if_pos (by rfl), forProcs_eq]
            exact ⟨_, rfl, .cleanup _ filled rest hjob⟩
        | true =>
            obtain ⟨r, hr, hexit⟩ := @ih (s.start (commandLine exe node) (env.processId i)).1
              (i + 1) (filled ++ [(s.start (commandLine exe node) (env.processId i)).2]) hjob
            refine ⟨r, ?_, .cons hjob hexit⟩
            rw [if_neg (by simp), ← hr]
            simp [List.replicate_succ]
      · rw [List.countP_cons_of_neg hnode, List.filter_cons_of_neg hnode, fill,
          if_pos (by simpa using hnode)]
        exact ih (i + 1) filled hjob

/-! ## The three calls -/

/-- The processes in the two global arrays. -/
structure Owns (s : State) (cps dds : List ProcessInformation) : Prop where
  cp : (s.gCpProcs = none ∧ cps = []) ∨
    (s.gCpProcs = some (cps.map some) ∧ s.gCpCount = cps.length)
  dd : (s.gDdProcs = none ∧ dds = []) ∨
    (s.gDdProcs = some (dds.map some) ∧ s.gDdCount = dds.length)

/-- A launcher has started one process for each node of its kind, in table order, and holds what
`CreateProcessA` returned for it. -/
structure Started (program : Program) (modulePath : CString) (nodes : List NodeInfo)
    (es : List Event) (infos : List ProcessInformation) : Prop where
  commands : (started es).map Prod.fst =
    (nodes.filter (launches program)).map (commandLine (exePath modulePath program))
  infos_eq : (started es).map Prod.snd = infos

/-- The exits of a launcher that has a job object. -/
inductive NodesExit (program : Program) (modulePath : CString) (nodes : List NodeInfo)
    (job : Handle) (rest : List Handle) (s : State) : Result → Prop where
  | nothing {count : Nat} : NodesExit program modulePath nodes job rest s
      { procs := none, count := count, state := s }
  | failed {es : List Event} {given : Nat}
      (books : Books (job :: rest) s es rest { s.after given es with gJob := none }) :
      NodesExit program modulePath nodes job rest s
        { procs := none, count := 0, state := { s.after given es with gJob := none } }
  | filled {infos : List ProcessInformation} {es : List Event} {given : Nat}
      (books : Books (job :: rest) s es (handlesOf infos ++ job :: rest) (s.after given es))
      (started : Started program modulePath nodes es infos) :
      NodesExit program modulePath nodes job rest s
        { procs := some (infos.map some), count := infos.length, state := s.after given es }

theorem Started.length {program : Program} {modulePath : CString} {nodes : List NodeInfo}
    {infos : List ProcessInformation} (h : Started program modulePath nodes es infos) :
    infos.length = nodes.countP (launches program) := by
  have hlen := congrArg List.length h.commands
  rw [List.length_map, List.length_map] at hlen
  rw [← h.infos_eq, List.length_map, hlen, List.countP_eq_length_filter]

theorem launchNodes_exit (program : Program) (modulePath : CString) (nodes : List NodeInfo)
    (env : Env) (out : Nat) (rest : List Handle) (hjob : s.gJob = some job) :
    ∃ r, launchNodes program modulePath nodes env out s = .ok r ∧
      NodesExit program modulePath nodes job rest s r := by
  simp only [launchNodes]
  split
  · exact ⟨_, rfl, .nothing⟩
  split
  · exact ⟨_, rfl, .nothing⟩
  · obtain ⟨r, hr, hexit⟩ :=
      fill_exit program (exePath modulePath program) env nodes 0 [] rest hjob
    rw [List.length_nil, List.map_nil, List.nil_append] at hr
    refine ⟨_, by rw [hr]; rfl, ?_⟩
    cases hexit with
    | failed books => exact .failed books
    | filled books commands infos_eq =>
        have hstarted : Started program modulePath nodes _ _ := ⟨commands, infos_eq⟩
        have hexit := NodesExit.filled (s := s) (by exact books) hstarted
        rwa [hstarted.length] at hexit

theorem createJobObject_books (env : Env) (s : State) (rest : List Handle) :
    ∃ es, Books rest s es ((createJobObject env s).2.gJob.toList ++ rest)
        (createJobObject env s).2 ∧ started es = [] := by
  rw [createJobObject]
  split
  · refine ⟨[.jobCreated s.given], ⟨rfl, ?_, Nat.le_succ _, ?_⟩, rfl⟩
    · exact ⟨s.given :: rest, .cons (List.Perm.refl _) (by simp [Event.step]) (.nil _),
        List.Perm.refl _⟩
    · rw [Nat.add_sub_cancel_left]
      rfl
  · have h := Books.refl rest s
    exact ⟨[], ⟨h.log, h.run, h.given, h.opened⟩, rfl⟩

theorem createJobObject_ok {env : Env} (h : (createJobObject env s).1 = true) :
    (createJobObject env s).2.gJob = some s.given := by
  rw [createJobObject] at h ⊢
  split
  · rfl
  next hmade => rw [if_neg hmade] at h; cases h

theorem createJobObject_owns {env : Env} {cps dds : List ProcessInformation} (h : Owns s cps dds) :
    Owns (createJobObject env s).2 cps dds := by
  rw [createJobObject]
  split <;> exact ⟨h.cp, h.dd⟩

theorem ensureJob_books (env : Env) (s : State) (rest : List Handle) :
    ∃ es, Books (s.gJob.toList ++ rest) s es ((ensureJob env s).2.gJob.toList ++ rest)
        (ensureJob env s).2 ∧ started es = [] := by
  rw [ensureJob]
  cases hjob : s.gJob with
  | some job =>
      refine ⟨[], ?_, rfl⟩
      rw [if_pos (by rfl), hjob]
      exact Books.refl (job :: rest) s
  | none =>
      rw [if_neg (by simp)]
      exact createJobObject_books env s rest

theorem ensureJob_ok {env : Env} (h : (ensureJob env s).1 = true) :
    (ensureJob env s).2.gJob.isSome := by
  rw [ensureJob] at h ⊢
  split
  · assumption
  next hnone =>
      rw [if_neg hnone] at h
      rw [createJobObject_ok h]
      rfl

theorem ensureJob_owns {env : Env} {cps dds : List ProcessInformation} (h : Owns s cps dds) :
    Owns (ensureJob env s).2 cps dds := by
  rw [ensureJob]
  split
  · exact h
  · exact createJobObject_owns h

variable {program : Program} {modulePath : CString} {nodes : List NodeInfo} {res : Result}
  {cps dds : List ProcessInformation}

/-- What a launcher did that has a job object: it owns the processes it returns, and the global
arrays are what they were. -/
theorem NodesExit.owns (h : NodesExit program modulePath nodes job rest s res)
    (hjob : s.gJob = some job) (howns : Owns s cps dds) : Owns res.state cps dds ∧
      ∃ infos es,
        Books (job :: rest) s es (res.state.gJob.toList ++ (handlesOf infos ++ rest)) res.state ∧
        ((res.procs = none ∧ infos = []) ∨
          (res.procs = some (infos.map some) ∧ res.count = infos.length ∧
            Started program modulePath nodes es infos)) := by
  cases h with
  | nothing =>
      refine ⟨howns, [], [], ?_, Or.inl ⟨rfl, rfl⟩⟩
      rw [hjob]
      exact Books.refl (job :: rest) s
  | @failed es given books => exact ⟨⟨howns.cp, howns.dd⟩, [], es, books, Or.inl ⟨rfl, rfl⟩⟩
  | @filled infos es given books started =>
      refine ⟨⟨howns.cp, howns.dd⟩, infos, es, ?_, Or.inr ⟨rfl, rfl, started⟩⟩
      refine books.perm (List.Perm.refl _) ?_
      rw [State.after, hjob]
      exact List.perm_middle

/-- Setting the variables of a launcher makes no call. -/
structure Keeps (keep : Procs → Nat → State → State) : Prop where
  log : ∀ procs n s, (keep procs n s).log = s.log
  given : ∀ procs n s, (keep procs n s).given = s.given
  gJob : ∀ procs n s, (keep procs n s).gJob = s.gJob

theorem keepCp_keeps : Keeps keepCp := ⟨fun _ _ _ => rfl, fun _ _ _ => rfl, fun _ _ _ => rfl⟩

theorem keepDd_keeps : Keeps keepDd := ⟨fun _ _ _ => rfl, fun _ _ _ => rfl, fun _ _ _ => rfl⟩

theorem Keeps.books {keep : Procs → Nat → State → State} (hk : Keeps keep) (procs : Procs) (n : Nat)
    (h : Books held s es held' t) : Books held s es held' (keep procs n t) where
  log := by rw [hk.log, h.log]
  run := h.run
  given := by rw [hk.given]; exact h.given
  opened := by rw [hk.given]; exact h.opened

/-- What a launcher did: it returned NULL and owns what it owned, or it returned the processes it
started and has set its variables to them. -/
theorem launchAll_spec {keep : Procs → Nat → State → State} (hk : Keeps keep) (env : Env)
    (out : Nat) (rest : List Handle) {ok : Bool} (hok : ok = true → t.gJob.isSome)
    (howns : Owns t cps dds) :
    ∃ r infos es, launchAll program keep modulePath nodes env out (ok, t) = .ok r ∧
      Books (t.gJob.toList ++ rest) t es (r.state.gJob.toList ++ (handlesOf infos ++ rest))
        r.state ∧
      (∀ procs, r.procs = some procs →
        procs = infos.map some ∧ Started program modulePath nodes es infos) ∧
      ((infos = [] ∧ Owns r.state cps dds) ∨
        ∃ u, Owns u cps dds ∧ r.state = keep (infos.map some) infos.length u) := by
  rw [launchAll]
  cases ok with
  | false =>
      refine ⟨_, [], [], rfl, Books.refl _ t, ?_, Or.inl ⟨rfl, howns⟩⟩
      intro procs hp
      cases hp
  | true =>
      obtain ⟨job, hjob⟩ := Option.isSome_iff_exists.mp (hok rfl)
      obtain ⟨r, hr, hexit⟩ := launchNodes_exit program modulePath nodes env out rest hjob
      obtain ⟨howns', infos, es, hbooks, hprocs⟩ := hexit.owns hjob howns
      rw [hr, hjob]
      rcases hprocs with ⟨hnone, rfl⟩ | ⟨hsome, hcount, hstarted⟩
      · refine ⟨r, [], es, by simp [Except.map, hnone], hbooks, ?_, Or.inl ⟨rfl, howns'⟩⟩
        intro procs hp
        rw [hnone] at hp
        cases hp
      · refine ⟨{ r with state := keep (infos.map some) infos.length r.state }, infos, es,
          by simp [Except.map, hsome, hcount], ?_, ?_, Or.inr ⟨r.state, howns', rfl⟩⟩
        · dsimp only
          rw [hk.gJob]
          exact hk.books _ _ hbooks
        · intro procs hp
          exact ⟨Option.some.inj (hp.symm.trans hsome), hstarted⟩

theorem started_of_nil (h : Started program modulePath nodes es' cps) (hes : started es = []) :
    Started program modulePath nodes (es ++ es') cps where
  commands := by rw [started_append, hes, List.nil_append, h.commands]
  infos_eq := by rw [started_append, hes, List.nil_append, h.infos_eq]

theorem cpLaunchAll_spec (modulePath : CString) (nodes : List NodeInfo) (env : Env) (out : Nat)
    (h : Owns s [] []) : ∃ r cps es, cpLaunchAll modulePath nodes env out s = .ok r ∧
      Owns r.state cps [] ∧ Books [] s es (r.state.gJob.toList ++ handlesOf cps) r.state ∧
      ∀ procs, r.procs = some procs →
        procs = cps.map some ∧ Started .centralPropagator modulePath nodes es cps := by
  obtain ⟨es₀, hjob, hnone⟩ := createJobObject_books env s []
  obtain ⟨r, cps, es, hr, hbooks, hprocs, howner⟩ := @launchAll_spec _ .centralPropagator
    modulePath nodes
    [] [] keepCp keepCp_keeps env out [] (createJobObject env s).1
    (fun hok => by rw [createJobObject_ok hok]; rfl) (createJobObject_owns h)
  have hall := hjob.trans hbooks
  rw [List.append_nil] at hall
  refine ⟨r, cps, es₀ ++ es, hr, ?_, hall, ?_⟩
  · rcases howner with ⟨rfl, howns⟩ | ⟨u, howns, hstate⟩
    · exact howns
    · rw [hstate]
      exact ⟨Or.inr ⟨rfl, rfl⟩, howns.dd⟩
  · exact fun procs hp => (hprocs procs hp).imp_right fun h => started_of_nil h hnone

theorem ddLaunchAll_spec (modulePath : CString) (nodes : List NodeInfo) (env : Env) (out : Nat)
    (h : Owns s cps []) : ∃ r dds es, ddLaunchAll modulePath nodes env out s = .ok r ∧
      Owns r.state cps dds ∧
      Books (s.gJob.toList ++ handlesOf cps) s es
        (r.state.gJob.toList ++ (handlesOf dds ++ handlesOf cps)) r.state ∧
      ∀ procs, r.procs = some procs →
        procs = dds.map some ∧ Started .dataDestination modulePath nodes es dds := by
  obtain ⟨es₀, hjob, hnone⟩ := ensureJob_books env s (handlesOf cps)
  obtain ⟨r, dds, es, hr, hbooks, hprocs, howner⟩ := @launchAll_spec _ .dataDestination
    modulePath nodes
    cps [] keepDd keepDd_keeps env out (handlesOf cps) (ensureJob env s).1 ensureJob_ok
    (ensureJob_owns h)
  refine ⟨r, dds, es₀ ++ es, hr, ?_, hjob.trans hbooks, ?_⟩
  · rcases howner with ⟨rfl, howns⟩ | ⟨u, howns, hstate⟩
    · exact howns
    · rw [hstate]
      exact ⟨howns.cp, Or.inr ⟨rfl, rfl⟩⟩
  · exact fun procs hp => (hprocs procs hp).imp_right fun h => started_of_nil h hnone

/-! ## What `main` sees -/

/-- The rows that a launcher starts. -/
def rowsOf (program : Program) (nodes : List NodeInfo) : List Nat :=
  (List.range nodes.length).filter fun i => (nodes[i]?).any (launches program)

theorem rowsOf_length (program : Program) (nodes : List NodeInfo) :
    (rowsOf program nodes).length = nodes.countP (launches program) := by
  have hrows : (List.range nodes.length).map (fun i => nodes[i]?) = nodes.map some := by
    apply List.ext_getElem
    · simp
    · simp
  calc (rowsOf program nodes).length
      = ((List.range nodes.length).map fun i => nodes[i]?).countP (Option.any (launches program)) :=
        by rw [rowsOf, ← List.countP_eq_length_filter, List.countP_map]; rfl
    _ = nodes.countP (launches program) := by rw [hrows, List.countP_map]; rfl

/-- A launcher and the one of `Launcher.lean` return NULL together, leave the same count, and have
a job object together. -/
structure Agrees (r : Result) (r' : LaunchResult) : Prop where
  null : r.procs.isSome = r'.procs.isSome
  count : r.count = r'.count
  job : r.state.gJob.isSome = r'.state.job.isSome

/-- The loop fills its array if and only if every process it asks for is created. -/
theorem fill_isSome {exe : Bytes} {env : Env} {i idx : Nat} {procs : Procs}
    (h : fill program exe env nodes i idx procs s = .ok r) :
    r.1.isSome ↔
      ∀ row ∈ nodes.zipIdx i, launches program row.1 = true → env.createProcess row.2 = true := by
  induction nodes generalizing i idx procs s with
  | nil =>
      cases h
      simp
  | cons node nodes ih =>
      rw [List.zipIdx_cons, List.forall_mem_cons]
      rw [fill] at h
      cases hlaunch : launches program node with
      | false =>
          rw [hlaunch, if_pos (by rfl)] at h
          simp [ih h]
      | true =>
          rw [hlaunch, if_neg (by simp)] at h
          split at h
          · cases h
          cases hcreate : env.createProcess i with
          | false =>
              rw [hcreate, if_pos (by rfl)] at h
              cases hclean : forProcs cleanupCalls idx procs s with
              | error e =>
                  rw [hclean] at h
                  cases h
              | ok t =>
                  rw [hclean] at h
                  cases h
                  simp
          | true =>
              rw [hcreate, if_neg (by simp)] at h
              simp [ih h]

/-- The exit of a launcher that has rows to start and an array for them. -/
theorem launchNodes_filled {env : Env} {out : Nat} (hjob : s.gJob = some job)
    (hrows : rowsOf program nodes ≠ []) (hmem : env.malloc = true)
    (h : launchNodes program modulePath nodes env out s = .ok res) :
    res.procs.isSome = (rowsOf program nodes).all env.createProcess ∧
      res.count = (if res.procs.isSome then (rowsOf program nodes).length else 0) ∧
      res.state.gJob.isSome = res.procs.isSome := by
  have hsome : 0 < (rowsOf program nodes).length := List.length_pos_of_ne_nil hrows
  rw [rowsOf_length] at hsome
  obtain ⟨r, hr, hexit⟩ := fill_exit program (exePath modulePath program) env nodes 0 [] [] hjob
  rw [List.length_nil, List.map_nil, List.nil_append] at hr
  simp only [launchNodes] at h
  rw [if_neg hsome.ne', hmem, if_neg (by simp), hr] at h
  cases h
  have hall := fill_isSome hr
  refine ⟨?_, by rw [rowsOf_length], ?_⟩
  · rw [Bool.eq_iff_iff, hall, List.all_eq_true]
    constructor
    · intro hcreate i hi
      obtain ⟨node, hnode, hlaunch⟩ := mem_filter_rows.mp hi
      exact hcreate (node, i) (List.mk_mem_zipIdx_iff_getElem?.mpr hnode) hlaunch
    · rintro hcreate ⟨node, i⟩ hrow hlaunch
      have hnode := List.mk_mem_zipIdx_iff_getElem?.mp hrow
      exact hcreate i (mem_filter_rows.mpr ⟨node, hnode, hlaunch⟩)
  · cases hexit with
    | filled => exact congrArg Option.isSome hjob
    | failed => rfl

theorem launchNodes_agrees {env : Env} {out : Nat} {s' : Launched} (hjob : s.gJob = some job)
    (hjob' : s'.job.isSome) (h : launchNodes program modulePath nodes env out s = .ok res) :
    Agrees res (launchRows program env.toLaunchEnv (rowsOf program nodes) out s') := by
  have hexit := launchRows_exit program env.toLaunchEnv (rowsOf program nodes) out s'
  have hsame : s.gJob.isSome = s'.job.isSome := by rw [hjob, hjob']; rfl
  generalize launchRows program env.toLaunchEnv (rowsOf program nodes) out s' = r' at hexit ⊢
  have hlen := rowsOf_length program nodes
  cases hexit with
  | nothing hrows =>
      simp only [launchNodes, ← hlen, hrows, List.length_nil, if_true] at h
      cases h
      exact ⟨rfl, rfl, hsame⟩
  | noMemory hrows hmem =>
      simp only [launchNodes, ← hlen] at h
      rw [if_neg (by simpa using hrows), hmem, if_pos (by rfl)] at h
      cases h
      exact ⟨rfl, rfl, hsame⟩
  | failed hmem hfails hnone =>
      have hrows : rowsOf program nodes ≠ [] := by
        obtain ⟨i, hi, _⟩ := hfails
        exact List.ne_nil_of_mem hi
      obtain ⟨hnull, hcount, hgone⟩ := launchNodes_filled hjob hrows hmem h
      have hall : (rowsOf program nodes).all env.createProcess = false := by simpa using hfails
      rw [hall] at hnull
      rw [hnull] at hcount hgone
      exact ⟨hnull, hcount, by rw [hgone, hnone]; rfl⟩
  | started hrows hmem hcreate hkept =>
      obtain ⟨hnull, hcount, hgone⟩ := launchNodes_filled hjob hrows hmem h
      have hall : (rowsOf program nodes).all env.createProcess = true :=
        List.all_eq_true.mpr hcreate
      rw [hall] at hnull
      rw [hnull] at hcount hgone
      exact ⟨hnull, hcount, by rw [hgone, hkept, hjob']⟩

/-- Setting the variables of a launcher does not matter here. -/
theorem launchAll_agrees {keep : Procs → Nat → State → State} (hk : Keeps keep) {env : Env}
    {out : Nat} {made : Bool × State} {ok : Bool} (s' : Launched) (hmade : made.1 = ok)
    (hok : made.1 = true → made.2.gJob.isSome) (hsame : made.2.gJob.isSome = s'.job.isSome)
    (h : launchAll program keep modulePath nodes env out made = .ok res) :
    Agrees res (if !ok then { procs := none, count := out, state := s' }
      else launchRows program env.toLaunchEnv (rowsOf program nodes) out s') := by
  obtain ⟨ok', t⟩ := made
  subst hmade
  rw [launchAll] at h
  cases ok' with
  | false =>
      cases h
      exact ⟨rfl, rfl, hsame⟩
  | true =>
      obtain ⟨job, hjob⟩ := Option.isSome_iff_exists.mp (hok rfl)
      obtain ⟨r, hr, _⟩ := launchNodes_exit program modulePath nodes env out [] hjob
      have hagrees := launchNodes_agrees hjob (by rw [← hsame, hjob]; rfl) hr
      rw [hr] at h
      cases hprocs : r.procs with
      | none =>
          simp only [Except.map, hprocs] at h
          cases h
          exact hagrees
      | some procs =>
          simp only [Except.map, hprocs] at h
          cases h
          exact ⟨hprocs ▸ hagrees.null, hagrees.count, by rw [hk.gJob]; exact hagrees.job⟩

theorem createJobObject_agrees (env : Env) (s : State) :
    (createJobObject env s).1 = (DataPropagator.createJobObject env.toLaunchEnv).2 ∧
      (createJobObject env s).2.gJob.isSome =
        (DataPropagator.createJobObject env.toLaunchEnv).1.isSome := by
  rw [createJobObject, DataPropagator.createJobObject]
  cases env.createJobObject with
  | false => exact ⟨rfl, rfl⟩
  | true => exact ⟨rfl, rfl⟩

theorem cpLaunchAll_agrees {env : Env} {out : Nat} (s' : Launched)
    (h : cpLaunchAll modulePath nodes env out s = .ok res) :
    Agrees res (DataPropagator.cpLaunchAll nodes env.toLaunchEnv out s') := by
  obtain ⟨hok, hjob⟩ := createJobObject_agrees env s
  have hmade (h : (createJobObject env s).1 = true) : (createJobObject env s).2.gJob.isSome := by
    rw [createJobObject_ok h]
    rfl
  exact launchAll_agrees keepCp_keeps { s' with job := _ } hok hmade hjob h

theorem ddLaunchAll_agrees {env : Env} {out : Nat} {s' : Launched}
    (hsame : s.gJob.isSome = s'.job.isSome)
    (h : ddLaunchAll modulePath nodes env out s = .ok res) :
    Agrees res (DataPropagator.ddLaunchAll nodes env.toLaunchEnv out s') := by
  have hensure : (ensureJob env s).1 = (if s'.job.isSome then (s'.job, true)
        else DataPropagator.createJobObject env.toLaunchEnv).2 ∧
      (ensureJob env s).2.gJob.isSome = (if s'.job.isSome then (s'.job, true)
        else DataPropagator.createJobObject env.toLaunchEnv).1.isSome := by
    rw [ensureJob, hsame]
    split
    next hjob => exact ⟨rfl, hsame⟩
    · exact createJobObject_agrees env s
  exact launchAll_agrees keepDd_keeps { s' with job := _ } hensure.1 ensureJob_ok hensure.2 h

/-- `main` goes on after these launchers as it does after those of `Launcher.lean`. -/
theorem launch_agrees (modulePath : CString) (nodes : List NodeInfo) (cpOut ddOut : Nat)
    (cpEnv ddEnv : Env) :
    ∃ cp dd, cpLaunchAll modulePath nodes cpEnv cpOut {} = .ok cp ∧
      ddLaunchAll modulePath nodes ddEnv ddOut (cp.state.withLog []) = .ok dd ∧
      (launch nodes cpOut ddOut cpEnv.toLaunchEnv ddEnv.toLaunchEnv).1 =
        if cp.procs.isNone ∧ 0 < cp.count then .failedCentralPropagator
        else if dd.procs.isNone ∧ 0 < dd.count then .failedDataDestination
        else .goesOn := by
  obtain ⟨cp, cps, _, hcp, howns, _⟩ := cpLaunchAll_spec modulePath nodes cpEnv cpOut
    (s := {}) ⟨Or.inl ⟨rfl, rfl⟩, Or.inl ⟨rfl, rfl⟩⟩
  obtain ⟨dd, _, _, hdd, _⟩ := ddLaunchAll_spec modulePath nodes ddEnv ddOut
    (s := cp.state.withLog []) ⟨howns.cp, howns.dd⟩
  have hcp' := cpLaunchAll_agrees .init hcp
  have hdd' := ddLaunchAll_agrees (s := cp.state.withLog []) hcp'.job hdd
  refine ⟨cp, dd, hcp, hdd, ?_⟩
  simp only [launch, ← Option.not_isSome, hcp'.null, hcp'.count, hdd'.null, hdd'.count]
  split
  · rfl
  · split <;> rfl

/-! ## The sweep -/

theorem sweep_eq (infos : List ProcessInformation) (s : State) :
    forProcs sweepCalls infos.length (infos.map some) s =
      .ok (s.emit (infos.flatMap sweepCalls)) := by
  have h := forProcs_eq sweepCalls infos [] s
  rwa [List.append_nil] at h

theorem sweepCp_spec (h : Owns s cps dds) (rest : List Handle) :
    ∃ t es, s.sweepCp = .ok t ∧ Owns t [] dds ∧ Books (handlesOf cps ++ rest) s es rest t := by
  rw [State.sweepCp]
  rcases h.cp with ⟨hnull, rfl⟩ | ⟨hsome, hcount⟩
  · rw [hnull]
    exact ⟨s, [], rfl, h, Books.refl rest s⟩
  · have hbooks := sweepCalls_closes.books cps rest s
    rw [hsome, hcount]
    dsimp only
    rw [sweep_eq]
    exact ⟨_, _, rfl, ⟨Or.inl ⟨rfl, rfl⟩, h.dd⟩,
      ⟨hbooks.log, hbooks.run, hbooks.given, hbooks.opened⟩⟩

theorem sweepDd_spec (h : Owns s cps dds) (rest : List Handle) :
    ∃ t es, s.sweepDd = .ok t ∧ Owns t cps [] ∧ Books (handlesOf dds ++ rest) s es rest t := by
  rw [State.sweepDd]
  rcases h.dd with ⟨hnull, rfl⟩ | ⟨hsome, hcount⟩
  · rw [hnull]
    exact ⟨s, [], rfl, h, Books.refl rest s⟩
  · have hbooks := sweepCalls_closes.books dds rest s
    rw [hsome, hcount]
    dsimp only
    rw [sweep_eq]
    exact ⟨_, _, rfl, ⟨h.cp, Or.inl ⟨rfl, rfl⟩⟩,
      ⟨hbooks.log, hbooks.run, hbooks.given, hbooks.opened⟩⟩

theorem cpTerminateAll_spec (h : Owns s cps dds) :
    ∃ t es, cpTerminateAll s = .ok t ∧
      Books (s.gJob.toList ++ (handlesOf dds ++ handlesOf cps)) s es [] t := by
  have hperm : (s.gJob.toList ++ (handlesOf dds ++ handlesOf cps)).Perm
      (s.gJob.toList ++ (handlesOf cps ++ (handlesOf dds ++ []))) := by
    rw [List.append_nil]
    exact List.perm_append_comm.append_left _
  obtain ⟨s₁, hs₁, es₁, hbooks₁, howns₁⟩ :
      ∃ s₁, (if s.gJob.isSome then s.closeJob else s) = s₁ ∧ ∃ es₁,
        Books (s.gJob.toList ++ (handlesOf cps ++ (handlesOf dds ++ []))) s es₁
          (handlesOf cps ++ (handlesOf dds ++ [])) s₁ ∧ Owns s₁ cps dds := by
    cases hjob : s.gJob with
    | none => exact ⟨s, rfl, [], Books.refl _ s, h⟩
    | some job =>
        have hclose := closeJob_books s (handlesOf cps ++ (handlesOf dds ++ []))
        rw [hjob] at hclose
        exact ⟨s.closeJob, rfl, _, hclose, h.cp, h.dd⟩
  obtain ⟨s₂, es₂, hs₂, howns₂, hbooks₂⟩ := sweepCp_spec howns₁ (handlesOf dds ++ [])
  obtain ⟨s₃, es₃, hs₃, howns₃, hbooks₃⟩ := sweepDd_spec howns₂ []
  refine ⟨s₃, _, ?_, ((hbooks₁.trans hbooks₂).trans hbooks₃).perm hperm.symm (List.Perm.refl _)⟩
  rw [cpTerminateAll, hs₁]
  show (do let s ← s₁.sweepCp; s.sweepDd) = .ok s₃
  rw [hs₂]
  exact hs₃

/-! ## The whole life -/

/-- The command line of a node of a loaded table is not cut. -/
theorem commandLine_loaded (h : Loaded nodes) (modulePath : CString) (program : Program) :
    ∀ node ∈ nodes, commandLine (exePath modulePath program) node =
      commandText (exePath modulePath program) node := by
  intro node hnode
  have hid := h.id_length_lt node hnode
  have hexe : (exePath modulePath program).length < maxPath := snprintf_length_lt (by decide) _
  have hport : (decimal node.port.toNat).length ≤ 4 + 1 :=
    decimal_length_le (node.port.toNat_lt.trans (by decide))
  apply snprintf_of_lt
  rw [lineSize] at hid
  rw [maxPath] at hexe
  simp only [commandText, List.length_append, List.length_cons, List.length_nil, cmdSize]
  omega

/-- What was asked before does not matter. -/
theorem Books.withLog (h : Books held s es held' t) (log : List Event) :
    Books held (s.withLog log) es held' (t.withLog (log ++ es)) where
  log := rfl
  run := h.run
  given := h.given
  opened := h.opened

/-- A launcher returned an array: it holds what `CreateProcessA` returned, and that was called once
for each node of a kind, in table order. -/
def StartedAll (program : Program) (modulePath : CString) (nodes : List NodeInfo)
    (es : List Event) (procs : Procs) : Prop :=
  (started es).map Prod.fst =
      (nodes.filter (launches program)).map (commandLine (exePath modulePath program)) ∧
    procs = (started es).map fun p => some p.2

theorem Started.all (h : Started program modulePath nodes es cps) :
    StartedAll program modulePath nodes es (cps.map some) := by
  refine ⟨h.commands, ?_⟩
  rw [← h.infos_eq, List.map_map]
  rfl

/-- For every table, whatever becomes of the job objects, the allocations and the processes, the
three calls run without a fault.  Every handle that was returned is closed exactly once, nothing
else is closed, and no closed handle is looked at.  A launcher that returns an array has started
one process for each node of its kind, in table order, and in a loaded table the command line of a
node holds its whole id and its port. -/
theorem handles_closed_once (modulePath : CString) (nodes : List NodeInfo) (cpOut ddOut : Nat)
    (cpEnv ddEnv : Env) :
    ∃ r, lifetime modulePath nodes cpOut ddOut cpEnv ddEnv = .ok r ∧
      (opened r.log).Nodup ∧
      (∀ handle,
        (closings r.log).count handle = if handle ∈ opened r.log then 1 else 0) ∧
      (∀ pre e post, r.log = pre ++ e :: post →
        ∀ handle ∈ e.step.read, handle ∉ closings pre) ∧
      (∀ procs, r.cp = some procs →
        StartedAll .centralPropagator modulePath nodes r.cpLog procs) ∧
      (∀ procs, r.dd = some procs →
        StartedAll .dataDestination modulePath nodes r.ddLog procs) ∧
      (Loaded nodes → ∀ program, ∀ node ∈ nodes,
        commandLine (exePath modulePath program) node =
          commandText (exePath modulePath program) node) := by
  obtain ⟨cp, cps, cpLog, hcp, howns, hbooks, hcpStarted⟩ := cpLaunchAll_spec modulePath nodes cpEnv
    cpOut (s := {}) ⟨Or.inl ⟨rfl, rfl⟩, Or.inl ⟨rfl, rfl⟩⟩
  obtain ⟨dd, dds, ddLog, hdd, howns', hbooks', hddStarted⟩ := ddLaunchAll_spec modulePath nodes
    ddEnv ddOut (s := cp.state.withLog []) ⟨howns.cp, howns.dd⟩
  obtain ⟨t, endLog, hend, hbooks''⟩ :=
    cpTerminateAll_spec (s := dd.state.withLog []) ⟨howns'.cp, howns'.dd⟩
  have hcpLog : cp.state.log = cpLog := hbooks.log
  have hddLog : dd.state.log = ddLog := hbooks'.log
  have hendLog : t.log = endLog := hbooks''.log
  -- one run of the books over all three calls
  have hall := hbooks.trans ((hbooks'.withLog cp.state.log).trans
    (hbooks''.withLog (cp.state.log ++ ddLog)))
  obtain ⟨rest, hrun, hperm⟩ := hall.run
  obtain rfl := List.perm_nil.mp hperm
  have htaken : Custody.taken ((cpLog ++ (ddLog ++ endLog)).map Event.step) =
      opened (cpLog ++ (ddLog ++ endLog)) := List.flatMap_map ..
  have hreleased (es : List Event) : Custody.released (es.map Event.step) = closings es :=
    List.flatMap_map ..
  have hnodup : (opened (cpLog ++ (ddLog ++ endLog))).Nodup := by
    rw [hall.opened]
    exact List.nodup_range'
  have hclosed := hrun.perm
  rw [htaken, hreleased, List.append_nil, List.append_nil] at hclosed
  refine ⟨⟨cp.procs, cpLog, dd.procs, ddLog, endLog⟩, ?_, hnodup, ?_, ?_, ?_, ?_, ?_⟩
  · simp only [lifetime, hcp, hdd, hend, hcpLog, hddLog, hendLog, bind, Except.bind, pure,
      Except.pure]
  · intro handle
    rw [Lifetime.log, hclosed.count_eq, hnodup.count]
  · intro pre e post hlog handle hread
    have hlive := @Custody.Run.read_live _ [] [] (pre.map Event.step) (post.map Event.step) e.step
    rw [← List.map_cons, ← List.map_append, ← hlog, List.append_nil, hreleased] at hlive
    exact hlive hrun (by rwa [Lifetime.log, htaken]) handle hread
  · intro procs hp
    obtain ⟨rfl, hstarted⟩ := hcpStarted procs hp
    exact hstarted.all
  · intro procs hp
    obtain ⟨rfl, hstarted⟩ := hddStarted procs hp
    exact hstarted.all
  · exact fun h program => commandLine_loaded h modulePath program

end Handles

end DataPropagator
