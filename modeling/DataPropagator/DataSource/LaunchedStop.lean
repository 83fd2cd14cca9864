import DataPropagator.DataSource.Startup
import DataPropagator.DataSource.StopRuns

/-!
# Stopping what was launched

The processes that the two launchers leave behind, with the names of their events, are a system of
`StopProtocol.lean`.  The names are made of the ids, by `main` of the data source from the table and
by the processes from their command lines.  No event of these names is there before.
-/

namespace DataPropagator

open Handles (commandLine exePath launches mainArguments Speakable)

/-! ## The events -/

/-- What runs is in a job object that kills it when it is closed. -/
def Launched.Jailed (s : Launched) : Prop :=
  ∀ p ∈ s.running, s.job = some true ∧ p ∈ s.assigned

/-! ## What the launchers leave in the job -/

variable {program : Program} {env : LaunchEnv} {rows procs : List Nat} {s : Launched}

theorem Launched.Jailed.closeJob (h : s.Jailed) : s.closeJob.Jailed := by
  intro p hp
  obtain ⟨hjob, hassigned⟩ := h p (Launched.closeJob_subset s hp)
  rw [Launched.closeJob, if_pos hjob] at hp
  have hnot := (List.mem_filter.mp hp).2
  rw [decide_eq_true_eq] at hnot
  exact absurd hassigned hnot

theorem Launched.Jailed.terminate (h : s.Jailed) (program : Program) (rows : List Nat) :
    (s.terminate program rows).Jailed :=
  fun p hp => h p (List.mem_of_mem_filter hp)

theorem Launched.Jailed.start (h : s.Jailed) (hjob : s.job = some true) (program : Program)
    (row : Nat) : (s.start program row true).Jailed := by
  intro p hp
  refine ⟨hjob, ?_⟩
  rcases List.mem_append.mp hp with hold | hnew
  · exact List.mem_append_left _ (h p hold).2
  · exact List.mem_append_right _ hnew

variable {nodes : List NodeInfo} {modulePath : CString}

end DataPropagator
