import DataPropagator.DataSource.LaunchHandles

/-!
# Closing the launched processes

`gracefully_close_all` of `main.c` asks the first window of each process to close and means to
terminate the processes that have no window.  The search is a callback of `EnumWindows`, which
stops when the callback returns FALSE and then returns FALSE itself.  So the result that
`gracefully_close_all` calls `found` is FALSE exactly when a window was found.
-/

namespace DataPropagator

open Handles (ProcessInformation)

/-! ## The enumeration -/

/-- A top-level window and the process that owns it. -/
structure Window where
  hWnd : UInt64
  processId : UInt32
deriving DecidableEq, Repr

/-- What is done to windows and processes. -/
inductive CloseAction where
  /-- `PostMessage` of `WM_CLOSE`. -/
  | postClose (hWnd : UInt64)
  /-- `TerminateProcess` on the handle of a process. -/
  | terminate (process : ProcessInformation)
deriving DecidableEq, Repr

/-- `EnumWindows`.  The callback is given a window and `lParam`, and what was done so far. -/
def enumWindows (callback : Window → UInt64 → List CloseAction → Bool × List CloseAction)
    (lParam : UInt64) : List Window → List CloseAction → Bool × List CloseAction
  | [], done => (true, done)
  | window :: windows, done =>
      match callback window lParam done with
      | (true, done) => enumWindows callback lParam windows done
      | (false, done) => (false, done)

/-- `SendWmCloseToWindow`. -/
def sendWmCloseToWindow (window : Window) (lParam : UInt64) (done : List CloseAction) :
    Bool × List CloseAction :=
  if lParam.toUInt32 == window.processId then (false, done ++ [.postClose window.hWnd])
  else (true, done)

/-- The loop of `gracefully_close_all`. -/
def gracefullyCloseLoop (windows : List Window) :
    List ProcessInformation → List CloseAction → List CloseAction
  | [], done => done
  | process :: procs, done =>
      let (found, done) :=
        enumWindows sendWmCloseToWindow process.dwProcessId.toUInt64 windows done
      if !found then gracefullyCloseLoop windows procs (done ++ [.terminate process])
      else gracefullyCloseLoop windows procs done

/-- `gracefully_close_all`: what it does, in order. -/
def gracefullyCloseAll (windows : List Window) (procs : List ProcessInformation) :
    List CloseAction :=
  gracefullyCloseLoop windows procs []

/-! ## What it is for -/

/-- The first window of a process. -/
def firstWindow (windows : List Window) (process : ProcessInformation) : Option Window :=
  windows.find? fun window => process.dwProcessId == window.processId

/-- The windows that are asked to close, in order. -/
def posted (actions : List CloseAction) : List UInt64 :=
  actions.filterMap fun action =>
    match action with
    | .postClose hWnd => some hWnd
    | .terminate _ => none

/-- The processes that are terminated, in order. -/
def terminated (actions : List CloseAction) : List ProcessInformation :=
  actions.filterMap fun action =>
    match action with
    | .postClose _ => none
    | .terminate process => some process

/-- The first window of each process that has one is asked once, and the processes that have none
are terminated and no others. -/
structure ClosesGracefully (windows : List Window) (procs : List ProcessInformation)
    (actions : List CloseAction) : Prop where
  posted : posted actions =
    procs.filterMap fun process => (firstWindow windows process).map Window.hWnd
  terminated : terminated actions =
    procs.filter fun process => (firstWindow windows process).isNone

/-! ## What it does -/

variable {windows : List Window} {procs : List ProcessInformation}

/-- The enumeration returns TRUE when the process has no window, and then nothing was done. -/
theorem enumWindows_send (windows : List Window) (process : ProcessInformation)
    (done : List CloseAction) :
    enumWindows sendWmCloseToWindow process.dwProcessId.toUInt64 windows done =
      ((firstWindow windows process).isNone,
        done ++ ((firstWindow windows process).map fun w => .postClose w.hWnd).toList) := by
  induction windows with
  | nil => simp [enumWindows, firstWindow]
  | cons window windows ih =>
      rw [firstWindow] at ih
      rw [enumWindows, sendWmCloseToWindow, UInt32.toUInt32_toUInt64, firstWindow, List.find?_cons]
      cases process.dwProcessId == window.processId with
      | true => rfl
      | false => exact ih

/-- What is done for one process: its window is asked, and it is terminated. -/
def closeActions (windows : List Window) (process : ProcessInformation) : List CloseAction :=
  match firstWindow windows process with
  | some window => [.postClose window.hWnd, .terminate process]
  | none => []

theorem gracefullyCloseLoop_eq (windows : List Window) (procs : List ProcessInformation)
    (done : List CloseAction) : gracefullyCloseLoop windows procs done =
      done ++ procs.flatMap (closeActions windows) := by
  induction procs generalizing done with
  | nil => simp [gracefullyCloseLoop]
  | cons process procs ih =>
      rw [gracefullyCloseLoop, enumWindows_send, List.flatMap_cons, closeActions]
      cases firstWindow windows process with
      | none => simp [ih]
      | some window => simp [ih]

/-- The windows are the right ones. -/
theorem gracefullyCloseAll_posted (windows : List Window) (procs : List ProcessInformation) :
    posted (gracefullyCloseAll windows procs) =
      procs.filterMap fun process => (firstWindow windows process).map Window.hWnd := by
  rw [gracefullyCloseAll, gracefullyCloseLoop_eq, List.nil_append]
  induction procs with
  | nil => rfl
  | cons process procs ih =>
      rw [List.flatMap_cons, posted, List.filterMap_append, ← posted, ← posted, ih, closeActions]
      cases hfirst : firstWindow windows process with
      | none => simp [posted, hfirst]
      | some window => simp [posted, hfirst]

/-- The processes that are terminated are those that have a window. -/
theorem gracefullyCloseAll_terminated (windows : List Window) (procs : List ProcessInformation) :
    terminated (gracefullyCloseAll windows procs) =
      procs.filter fun process => (firstWindow windows process).isSome := by
  rw [gracefullyCloseAll, gracefullyCloseLoop_eq, List.nil_append]
  induction procs with
  | nil => rfl
  | cons process procs ih =>
      rw [List.flatMap_cons, terminated, List.filterMap_append, ← terminated, ← terminated, ih,
        closeActions]
      cases hfirst : firstWindow windows process with
      | none => simp [terminated, hfirst]
      | some window => simp [terminated, hfirst]

/-- For every list of windows, `gracefully_close_all` does what it is for if and only if there is
no process to close. -/
theorem gracefully_closes_iff (windows : List Window) (procs : List ProcessInformation) :
    ClosesGracefully windows procs (gracefullyCloseAll windows procs) ↔ procs = [] := by
  constructor
  · intro h
    have hterminated := h.terminated
    rw [gracefullyCloseAll_terminated] at hterminated
    cases procs with
    | nil => rfl
    | cons process procs =>
        -- the first process is on one side only
        have hmem : process ∈ (process :: procs).filter
              (fun process => (firstWindow windows process).isSome) ↔
            process ∈ (process :: procs).filter
              fun process => (firstWindow windows process).isNone := by
          rw [hterminated]
        simp only [List.mem_filter, List.mem_cons_self, true_and] at hmem
        cases hfirst : firstWindow windows process with
        | none => simp [hfirst] at hmem
        | some window => simp [hfirst] at hmem
  · rintro rfl
    exact ⟨rfl, rfl⟩

/-- A process with a window and a process without one. -/
def twoProcesses : List ProcessInformation :=
  [{ hProcess := 1, hThread := 2, dwProcessId := 100 },
    { hProcess := 3, hThread := 4, dwProcessId := 200 }]

/-- The first process is asked to close and terminated, the second is left running. -/
theorem asked_process_is_terminated :
    gracefullyCloseAll [{ hWnd := 7, processId := 300 }, { hWnd := 8, processId := 100 }]
        twoProcesses =
      [.postClose 8, .terminate { hProcess := 1, hThread := 2, dwProcessId := 100 }] ∧
    ¬ ClosesGracefully [{ hWnd := 7, processId := 300 }, { hWnd := 8, processId := 100 }]
        twoProcesses (gracefullyCloseAll
          [{ hWnd := 7, processId := 300 }, { hWnd := 8, processId := 100 }] twoProcesses) := by
  refine ⟨by decide, ?_⟩
  intro h
  have hterminated := h.terminated
  revert hterminated
  decide

end DataPropagator
