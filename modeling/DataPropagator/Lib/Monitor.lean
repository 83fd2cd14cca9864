import Mathlib.Data.List.Perm.Basic
import Mathlib.Data.List.Nodup

/-!
# Condition variables

A thread that sleeps on a condition variable is woken by a signal or spuriously.  A
woken thread has not run yet: it takes the lock again at some later step, and other
threads may take it before.  So a condition variable is two lists, the threads asleep
and the threads woken that have not run.

A signal wakes one sleeper, if there is one.  Which one is a choice of the schedule,
and it is an argument of `wake`.

`Covers n` is the invariant behind "no lost wake-up".  While a thread sleeps, there is a
woken thread for each of the `n` things it may be waiting for.
-/

namespace Monitor

variable {τ : Type} [DecidableEq τ]

/-- A condition variable. -/
structure CondVar (τ : Type) where
  sleeping : List τ := []
  woken : List τ := []
deriving DecidableEq, Repr

namespace CondVar

/-- The threads inside a call of sleep. -/
def waiting (c : CondVar τ) : List τ := c.sleeping ++ c.woken

/-- Thread `t` goes to sleep. -/
def sleep (c : CondVar τ) (t : τ) : CondVar τ := { c with sleeping := c.sleeping ++ [t] }

/-- Thread `t` is woken. -/
def rouse (c : CondVar τ) (t : τ) : CondVar τ where
  sleeping := c.sleeping.erase t
  woken := c.woken ++ [t]

/-- A signal.  It wakes the sleeper that is picked, and nobody must be picked exactly
when nobody sleeps. -/
def wake (c : CondVar τ) (pick : Option τ) : Option (CondVar τ) :=
  match pick with
  | none => if c.sleeping = [] then some c else none
  | some t => if t ∈ c.sleeping then some (c.rouse t) else none

/-- A sleeper wakes without a signal. -/
def spurious (c : CondVar τ) (t : τ) : Option (CondVar τ) :=
  if t ∈ c.sleeping then some (c.rouse t) else none

/-- A woken thread runs again. -/
def resume (c : CondVar τ) (t : τ) : Option (CondVar τ) :=
  if t ∈ c.woken then some { c with woken := c.woken.erase t } else none

/-- While a thread sleeps, there are as many woken threads as `n`. -/
def Covers (c : CondVar τ) (n : Nat) : Prop := c.sleeping ≠ [] → n ≤ c.woken.length

variable {c c' : CondVar τ} {t : τ} {n : Nat}

/-- A signal can always be given. -/
theorem exists_wake (c : CondVar τ) : ∃ pick, (c.wake pick).isSome := by
  cases hs : c.sleeping with
  | nil => exact ⟨none, by simp [wake, hs]⟩
  | cons t ts => exact ⟨some t, by simp [wake, hs]⟩

/-- What a signal can do. -/
theorem wake_cases {pick : Option τ} (h : c.wake pick = some c') :
    (c.sleeping = [] ∧ c' = c) ∨ ∃ t ∈ c.sleeping, c' = c.rouse t := by
  cases pick with
  | none =>
      simp only [wake] at h
      split at h
      next hs => exact Or.inl ⟨hs, (Option.some.inj h).symm⟩
      next => cases h
  | some t =>
      simp only [wake] at h
      split at h
      next hs => exact Or.inr ⟨t, hs, (Option.some.inj h).symm⟩
      next => cases h

theorem spurious_some (h : c.spurious t = some c') : t ∈ c.sleeping ∧ c' = c.rouse t := by
  rw [spurious] at h
  split at h
  next hs => exact ⟨hs, (Option.some.inj h).symm⟩
  next => cases h

theorem resume_some (h : c.resume t = some c') :
    t ∈ c.woken ∧ c' = { c with woken := c.woken.erase t } := by
  rw [resume] at h
  split at h
  next hs => exact ⟨hs, (Option.some.inj h).symm⟩
  next => cases h

/-! ## Who waits -/

omit [DecidableEq τ] in
theorem waiting_sleep (c : CondVar τ) (t : τ) : (c.sleep t).waiting.Perm (t :: c.waiting) := by
  rw [waiting, sleep, List.append_assoc]
  exact List.perm_middle

theorem waiting_rouse (h : t ∈ c.sleeping) : (c.rouse t).waiting.Perm c.waiting := by
  have he := List.perm_cons_erase h
  rw [waiting, rouse, ← List.append_assoc]
  refine (List.perm_append_singleton t _).trans ?_
  rw [← List.cons_append]
  exact he.symm.append_right c.woken

theorem waiting_wake {pick : Option τ} (h : c.wake pick = some c') :
    c'.waiting.Perm c.waiting := by
  rcases wake_cases h with ⟨_, rfl⟩ | ⟨t, ht, rfl⟩
  · exact List.Perm.refl _
  · exact waiting_rouse ht

theorem waiting_resume (h : c.resume t = some c') : c.waiting.Perm (t :: c'.waiting) := by
  obtain ⟨ht, rfl⟩ := resume_some h
  exact ((List.perm_cons_erase ht).append_left c.sleeping).trans List.perm_middle

/-! ## No wake-up is lost -/

omit [DecidableEq τ] in
theorem covers_zero (c : CondVar τ) : c.Covers 0 := fun _ => Nat.zero_le _

omit [DecidableEq τ] in
theorem Covers.mono {m : Nat} (h : c.Covers n) (hm : m ≤ n) : c.Covers m :=
  fun hs => Nat.le_trans hm (h hs)

theorem Covers.rouse (h : c.Covers n) (ht : t ∈ c.sleeping) : (c.rouse t).Covers (n + 1) := by
  intro _
  have hn := h (List.ne_nil_of_mem ht)
  rw [CondVar.rouse, List.length_append]
  exact Nat.succ_le_succ hn

/-- One more thing to wait for, and a signal for it. -/
theorem Covers.wake {pick : Option τ} (h : c.Covers n) (hw : c.wake pick = some c') :
    c'.Covers (n + 1) := by
  rcases wake_cases hw with ⟨hs, rfl⟩ | ⟨t, ht, rfl⟩
  · exact fun hne => absurd hs hne
  · exact h.rouse ht

theorem Covers.spurious (h : c.Covers n) (hs : c.spurious t = some c') : c'.Covers n := by
  obtain ⟨ht, rfl⟩ := spurious_some hs
  exact (h.rouse ht).mono (Nat.le_succ n)

/-- A woken thread that runs takes one thing. -/
theorem Covers.resume (h : c.Covers n) (hr : c.resume t = some c') : c'.Covers (n - 1) := by
  obtain ⟨ht, rfl⟩ := resume_some hr
  intro hs
  have hn := h hs
  show n - 1 ≤ (c.woken.erase t).length
  rw [List.length_erase_of_mem ht]
  omega

omit [DecidableEq τ] in
/-- While a thread sleeps and there is something to wait for, a woken thread is there. -/
theorem Covers.woken_ne_nil (h : c.Covers n) (hs : c.sleeping ≠ []) (hn : 0 < n) :
    c.woken ≠ [] := by
  intro hw
  have := h hs
  rw [hw, List.length_nil] at this
  omega

end CondVar

end Monitor
