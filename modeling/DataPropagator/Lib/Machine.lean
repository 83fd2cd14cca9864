import Mathlib.Data.List.Basic

/-!
# Runs of a partial step function

A machine is a function `step : σ → α → Option σ`.  An action that is not
enabled in a state has no successor.  A *run* takes actions one after another,
and a condition `ok` on the state before each step and on its action can be
asked of every step of the run.

`Run.invariant` is the rule every safety result of a machine goes through: what
holds at the start and is kept by one step holds after the run.  `exec` computes
the state a list of actions leads to, so that a concrete run is checked by
evaluation.
-/

namespace Machine

variable {σ τ α β : Type}

/-- A run from `s`: the actions taken, oldest first, and the state reached.
Every step meets `ok` in the state it starts from. -/
inductive Run (step : σ → α → Option σ) (ok : σ → α → Prop) (s : σ) : List α → σ → Prop where
  | nil : Run step ok s [] s
  | snoc {as : List α} {t u : σ} {a : α} :
      Run step ok s as t → ok t a → step t a = some u → Run step ok s (as ++ [a]) u

/-- The condition that every step meets. -/
def anyStep : σ → α → Prop := fun _ _ => True

/-- `t` is reached from `s` by some run. -/
def Reachable (step : σ → α → Option σ) (s t : σ) : Prop :=
  ∃ as, Run step anyStep s as t

variable {step : σ → α → Option σ} {ok : σ → α → Prop} {s t u : σ} {as bs : List α}

/-- What holds at the start and is kept by every step that meets the condition
holds in every state of every such run. -/
theorem Run.invariant {P : σ → Prop} (h : Run step ok s as t) (h0 : P s)
    (hstep : ∀ t a u, P t → ok t a → step t a = some u → P u) : P t := by
  induction h with
  | nil => exact h0
  | snoc _ hok hs ih => exact hstep _ _ _ ih hok hs

/-- A run under a condition is a run. -/
theorem Run.reachable (h : Run step ok s as t) : Reachable step s t := by
  induction h with
  | nil => exact ⟨[], .nil⟩
  | snoc _ _ hs ih =>
      obtain ⟨bs, hbs⟩ := ih
      exact ⟨bs ++ [_], .snoc hbs trivial hs⟩

/-- A run under a condition is a run under a weaker one. -/
theorem Run.mono {ok' : σ → α → Prop} (h : Run step ok s as t) (hok : ∀ s a, ok s a → ok' s a) :
    Run step ok' s as t := by
  induction h with
  | nil => exact .nil
  | snoc _ ha hs ih => exact .snoc ih (hok _ _ ha) hs

theorem Reachable.refl (step : σ → α → Option σ) (s : σ) : Reachable step s s :=
  ⟨[], .nil⟩

theorem Reachable.tail {a : α} (h : Reachable step s t) (hs : step t a = some u) :
    Reachable step s u := by
  obtain ⟨as, hr⟩ := h
  exact ⟨as ++ [a], .snoc hr trivial hs⟩

/-- The invariant rule without a condition on the steps. -/
theorem Reachable.invariant {P : σ → Prop} (h : Reachable step s t) (h0 : P s)
    (hstep : ∀ t a u, P t → step t a = some u → P u) : P t := by
  obtain ⟨as, hr⟩ := h
  exact hr.invariant h0 fun t a u ht _ hs => hstep t a u ht hs

/-- Where every step leaves the image of a state alone or is a step of another machine there, what
is reached has an image that the other machine reaches.  The steps may rely on an invariant. -/
theorem Reachable.map {I : σ → Prop} {step' : τ → β → Option τ} (f : σ → τ)
    (h : Reachable step s t) (h0 : I s) (hinv : ∀ t a u, I t → step t a = some u → I u)
    (hstep : ∀ t a u, I t → step t a = some u → f u = f t ∨ ∃ b, step' (f t) b = some (f u)) :
    Reachable step' (f s) (f t) := by
  have hboth : I t ∧ Reachable step' (f s) (f t) := by
    apply h.invariant (P := fun t => I t ∧ Reachable step' (f s) (f t))
    · exact ⟨h0, .refl step' (f s)⟩
    · rintro t a u ⟨hI, hreach⟩ hs
      refine ⟨hinv t a u hI hs, ?_⟩
      rcases hstep t a u hI hs with heq | ⟨b, hb⟩
      · rw [heq]
        exact hreach
      · exact hreach.tail hb
  exact hboth.2

/-- A step before a run. -/
theorem Run.cons {a : α} (hok : ok s a) (hs : step s a = some t) (h : Run step ok t as u) :
    Run step ok s (a :: as) u := by
  induction h with
  | nil => exact .snoc .nil hok hs
  | snoc _ hok' hs' ih => exact .snoc ih hok' hs'

/-! ## Evaluating a run -/

/-- The state a list of actions leads to, if every one of them is enabled. -/
def exec (step : σ → α → Option σ) : σ → List α → Option σ
  | s, [] => some s
  | s, a :: as => (step s a).bind fun t => exec step t as

theorem exec_append (as bs : List α) (s : σ) :
    exec step s (as ++ bs) = (exec step s as).bind fun t => exec step t bs := by
  induction as generalizing s with
  | nil => rfl
  | cons a as ih =>
      rw [List.cons_append, exec, exec, Option.bind_assoc]
      exact congrArg _ (funext ih)

theorem Reachable.head {a : α} (hs : step s a = some t) (h : Reachable step t u) :
    Reachable step s u := by
  obtain ⟨as, hr⟩ := h
  induction hr with
  | nil => exact (Reachable.refl step s).tail hs
  | snoc _ _ hs' ih => exact ih.tail hs'

theorem exec_reachable {as : List α} {s t : σ} (h : exec step s as = some t) :
    Reachable step s t := by
  induction as generalizing s with
  | nil =>
      simp only [exec, Option.some.injEq] at h
      exact h ▸ Reachable.refl step s
  | cons a as ih =>
      obtain ⟨u, hu, hrest⟩ := Option.bind_eq_some_iff.mp h
      exact Reachable.head hu (ih hrest)

/-- Where every action meets a condition, the evaluated run is a run under it. -/
theorem exec_run {p : α → Prop} {as : List α} {s t : σ} (h : exec step s as = some t)
    (hp : ∀ a ∈ as, p a) : Run step (fun _ a => p a) s as t := by
  induction as generalizing s with
  | nil =>
      simp only [exec, Option.some.injEq] at h
      exact h ▸ Run.nil
  | cons a as ih =>
      obtain ⟨u, hu, hrest⟩ := Option.bind_eq_some_iff.mp h
      exact Run.cons (hp a (.head _)) hu (ih hrest fun b hb => hp b (.tail _ hb))

/-- The state a list of actions leads to, if every one of them is enabled and meets a
condition. -/
def execWhere (step : σ → α → Option σ) (ok : σ → α → Prop) [∀ s a, Decidable (ok s a)] :
    σ → List α → Option σ
  | s, [] => some s
  | s, a :: as => if ok s a then (step s a).bind fun t => execWhere step ok t as else none

theorem execWhere_run [∀ s a, Decidable (ok s a)] {as : List α} {s t : σ}
    (h : execWhere step ok s as = some t) : Run step ok s as t := by
  induction as generalizing s with
  | nil =>
      simp only [execWhere, Option.some.injEq] at h
      exact h ▸ Run.nil
  | cons a as ih =>
      rw [execWhere] at h
      split at h
      next hok =>
          obtain ⟨u, hu, hrest⟩ := Option.bind_eq_some_iff.mp h
          exact Run.cons hok hu (ih hrest)
      next => cases h

end Machine
