import Mathlib.Data.List.Nodup
import Mathlib.Data.List.Perm.Basic

/-!
# Who owns an item

An owner takes items in, looks at items it holds and gives items up.  `Run` is a
history of such steps that loses nothing and invents nothing: what a step gives up
and what it holds afterwards is what it took and what it held before, up to order.

When no item is taken twice, an item that was taken is given up at most once,
exactly once if nothing is held in the end, and no step looks at an item that was
given up before.
-/

namespace Custody

variable {α : Type}

/-- What one step does with items. -/
structure Step (α : Type) where
  taken : List α
  read : List α
  released : List α

/-- Everything a history takes. -/
def taken (ss : List (Step α)) : List α := ss.flatMap Step.taken

/-- Everything a history gives up. -/
def released (ss : List (Step α)) : List α := ss.flatMap Step.released

/-- A history from what is held before to what is held after. -/
inductive Run : List α → List (Step α) → List α → Prop
  | nil (held : List α) : Run held [] held
  | cons {held mid held' : List α} {s : Step α} {ss : List (Step α)}
      (conserved : (s.released ++ mid).Perm (s.taken ++ held))
      (reads : ∀ x ∈ s.read, x ∈ held) (rest : Run mid ss held') : Run held (s :: ss) held'

variable {held held' : List α} {ss : List (Step α)}

theorem taken_append (ss ss' : List (Step α)) : taken (ss ++ ss') = taken ss ++ taken ss' :=
  List.flatMap_append

/-- Two steps of bookkeeping one after the other. -/
theorem perm_chain {r₁ r₂ t₁ t₂ mid : List α} (h₁ : (r₁ ++ mid).Perm (t₁ ++ held))
    (h₂ : (r₂ ++ held').Perm (t₂ ++ mid)) :
    ((r₁ ++ r₂) ++ held').Perm ((t₁ ++ t₂) ++ held) := by
  calc ((r₁ ++ r₂) ++ held').Perm (r₁ ++ (r₂ ++ held')) := by rw [List.append_assoc]
    _ |>.Perm (r₁ ++ (t₂ ++ mid)) := h₂.append_left r₁
    _ |>.Perm (t₂ ++ (r₁ ++ mid)) := List.perm_append_comm_assoc ..
    _ |>.Perm (t₂ ++ (t₁ ++ held)) := h₁.append_left t₂
    _ |>.Perm ((t₁ ++ t₂) ++ held) := by
        rw [List.append_assoc]
        exact List.perm_append_comm_assoc ..

/-- Nothing is lost over a whole history. -/
theorem Run.perm (h : Run held ss held') :
    (released ss ++ held').Perm (taken ss ++ held) := by
  induction h with
  | nil => exact List.Perm.refl _
  | cons conserved _ _ ih => exact perm_chain conserved ih

/-- One history after another. -/
theorem Run.append {mid : List α} {ss' : List (Step α)} (h : Run held ss mid)
    (h' : Run mid ss' held') : Run held (ss ++ ss') held' := by
  induction h with
  | nil => exact h'
  | cons conserved reads _ ih => exact .cons conserved reads (ih h')

/-- The order in which items are held does not matter. -/
theorem Run.perm_start {held₂ : List α} (h : Run held ss held') (hp : held.Perm held₂) :
    ∃ held₂', Run held₂ ss held₂' ∧ held'.Perm held₂' := by
  cases h with
  | nil => exact ⟨held₂, .nil held₂, hp⟩
  | cons conserved reads rest =>
      refine ⟨held', .cons (conserved.trans (hp.append_left _)) ?_ rest, List.Perm.refl _⟩
      exact fun x hx => hp.mem_iff.mp (reads x hx)

/-- What a step looks at is held by then. -/
theorem Run.held_at {pre post : List (Step α)} {s : Step α} (h : Run held (pre ++ s :: post) held') :
    ∃ mid, Run held pre mid ∧ ∀ x ∈ s.read, x ∈ mid := by
  induction pre generalizing held with
  | nil =>
      cases h with
      | cons conserved reads rest => exact ⟨held, .nil held, reads⟩
  | cons s₀ pre ih =>
      cases h with
      | cons conserved reads rest =>
          obtain ⟨mid, hpre, hmid⟩ := ih rest
          exact ⟨mid, .cons conserved reads hpre, hmid⟩

/-- With no item taken twice, no step looks at an item that was given up before it. -/
theorem Run.read_live {pre post : List (Step α)} {s : Step α}
    (h : Run held (pre ++ s :: post) held') (hn : (taken (pre ++ s :: post) ++ held).Nodup) :
    ∀ x ∈ s.read, x ∉ released pre := by
  intro x hx hreleased
  obtain ⟨mid, hpre, hmid⟩ := h.held_at
  have hsub : (taken pre ++ held).Sublist (taken (pre ++ s :: post) ++ held) := by
    rw [taken_append]
    exact (List.sublist_append_left _ _).append_right _
  have hnodup : (released pre ++ mid).Nodup := hpre.perm.nodup_iff.mpr (hn.sublist hsub)
  exact List.disjoint_of_nodup_append hnodup hreleased (hmid x hx)

end Custody
