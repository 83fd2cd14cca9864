import Mathlib.Data.List.Basic
import Mathlib.Data.List.Perm.Basic
import Mathlib.Data.List.Perm.Subperm
import Mathlib.Logic.Function.Basic
import Mathlib.Logic.Relation

/-!
# Couriers

Things enter a system at a place, are handed on from place to place and come to rest
where there is no next place.  One that is on its way may be dropped.

`Log` is what an observer writes down: everything that entered, in this order, and where
it is now.  Nothing is struck off a log, so what entered is either on its way, or has
arrived, or was dropped, and each only once.  A system whose places hold what its log says
inherits this (`Log.change`), whatever the order of its steps.

* `Steps.good`: what holds of a thing where it enters and is kept by every hand-over holds
  wherever it is found.
* `Advance.left_lt`: a rank that falls along the way bounds the number of hand-overs.
-/

namespace Courier

variable {P X : Type}

/-- Where a thing is. -/
inductive Status (P : Type) where
  | moving (p : P)
  | arrived (p : P)
  | dropped
deriving DecidableEq

/-- What may enter, where it enters and where it is handed on to. -/
structure Route (P X : Type) where
  ok : X → Prop
  start : X → P
  next : P → X → Option P

/-- Everything that entered and where it is. -/
abbrev Log (P X : Type) := List (X × Status P)

/-- A hand-over: to the next place, or to rest. -/
inductive Advance (r : Route P X) : Log P X → Log P X → Prop where
  | move (l₁ l₂ : Log P X) {x : X} {p q : P} (h : r.next p x = some q) :
      Advance r (l₁ ++ (x, .moving p) :: l₂) (l₁ ++ (x, .moving q) :: l₂)
  | arrive (l₁ l₂ : Log P X) {x : X} {p : P} (h : r.next p x = none) :
      Advance r (l₁ ++ (x, .moving p) :: l₂) (l₁ ++ (x, .arrived p) :: l₂)

/-- One step. -/
inductive Step (r : Route P X) : Log P X → Log P X → Prop where
  | accept (l : Log P X) {x : X} (h : r.ok x) : Step r l (l ++ [(x, .moving (r.start x))])
  | advance {l l' : Log P X} (h : Advance r l l') : Step r l l'
  | drop (l₁ l₂ : Log P X) (x : X) (p : P) :
      Step r (l₁ ++ (x, .moving p) :: l₂) (l₁ ++ (x, .dropped) :: l₂)

/-- Some steps. -/
abbrev Steps (r : Route P X) : Log P X → Log P X → Prop := Relation.ReflTransGen (Step r)

variable {r : Route P X} {l l' : Log P X} {x : X} {p : P}

/-! ## What a place holds -/

section Items

variable [DecidableEq P]

/-- The things of a status, in the order in which they entered. -/
def Log.items (l : Log P X) (st : Status P) : List X :=
  (l.filter fun y => decide (y.2 = st)).map Prod.fst

theorem Log.mem_items {st : Status P} : x ∈ l.items st ↔ (x, st) ∈ l := by
  simp [Log.items]

theorem Log.items_append (l l' : Log P X) (st : Status P) :
    Log.items (l ++ l') st = l.items st ++ l'.items st := by
  simp [Log.items]

theorem Log.items_cons_self (l : Log P X) (x : X) (st : Status P) :
    Log.items ((x, st) :: l) st = x :: l.items st := by
  simp [Log.items]

theorem Log.items_cons_ne (l : Log P X) (x : X) {st st' : Status P} (h : st ≠ st') :
    Log.items ((x, st) :: l) st' = l.items st' := by
  simp [Log.items, h]

/-- A thing enters. -/
theorem Log.items_snoc_self (l : Log P X) (x : X) (st : Status P) :
    Log.items (l ++ [(x, st)]) st = l.items st ++ [x] := by
  rw [Log.items_append, Log.items_cons_self]
  rfl

theorem Log.items_snoc_ne (l : Log P X) (x : X) {st st' : Status P} (h : st ≠ st') :
    Log.items (l ++ [(x, st)]) st' = l.items st' := by
  rw [Log.items_append, Log.items_cons_ne _ _ h]
  exact List.append_nil _

/-- What different statuses hold is, taken together, a part of what entered. -/
theorem Log.items_subperm {sts : List (Status P)} (h : sts.Nodup) (l : Log P X) :
    (sts.flatMap l.items).Subperm (l.map Prod.fst) := by
  induction sts generalizing l with
  | nil => exact List.nil_subperm
  | cons st sts ih =>
      obtain ⟨hst, hsts⟩ := List.nodup_cons.mp h
      -- the other statuses do not see what `st` holds
      have hrest : sts.flatMap l.items =
          sts.flatMap (Log.items (l.filter fun y => !decide (y.2 = st))) := by
        refine List.flatMap_congr fun st' hst' => ?_
        rw [Log.items, Log.items, List.filter_filter]
        refine congrArg _ (List.filter_congr fun y _ => ?_)
        by_cases hy : y.2 = st'
        · have hne : y.2 ≠ st := fun he => hst (he ▸ hy ▸ hst')
          simp [hy, hy ▸ hne]
        · simp [hy]
      have hsplit := (List.filter_append_perm (fun y : X × Status P => decide (y.2 = st)) l).map
        Prod.fst
      rw [List.map_append] at hsplit
      rw [List.flatMap_cons, hrest]
      exact ((List.subperm_append_left _).mpr (ih hsts _)).trans hsplit.subperm

/-- One of the things of a status changes to another one: it is missed in the one place,
it is found in the other, and everything else stands where it stood. -/
structure Log.Change (l : Log P X) (x : X) (st st' : Status P) (l' : Log P X) : Prop where
  entry : ∃ l₁ l₂, l = l₁ ++ (x, st) :: l₂ ∧ l' = l₁ ++ (x, st') :: l₂
  source : ∀ {A : List X}, (l.items st).Perm (x :: A) → (l'.items st).Perm A
  target : (l'.items st').Perm (x :: l.items st')
  others : ∀ st'', st'' ≠ st → st'' ≠ st' → l'.items st'' = l.items st''
  entered : l'.map Prod.fst = l.map Prod.fst

theorem Log.change {st : Status P} (st' : Status P) (h : x ∈ l.items st) (hne : st' ≠ st) :
    ∃ l', l.Change x st st' l' := by
  obtain ⟨l₁, l₂, rfl⟩ := List.append_of_mem (Log.mem_items.mp h)
  refine ⟨l₁ ++ (x, st') :: l₂, ⟨l₁, l₂, rfl, rfl⟩, ?_, ?_, ?_, ?_⟩
  · intro A hA
    rw [Log.items_append, Log.items_cons_self] at hA
    rw [Log.items_append, Log.items_cons_ne _ _ hne]
    exact (List.perm_middle.symm.trans hA).cons_inv
  · rw [Log.items_append, Log.items_append, Log.items_cons_self, Log.items_cons_ne _ _ hne.symm]
    exact List.perm_middle
  · intro st'' h₁ h₂
    rw [Log.items_append, Log.items_append, Log.items_cons_ne _ _ h₂.symm,
      Log.items_cons_ne _ _ h₁.symm]
  · simp

/-- A thing is handed on. -/
theorem Log.Change.move {q : P} (h : l.Change x (.moving p) (.moving q) l')
    (hnext : r.next p x = some q) : Advance r l l' := by
  obtain ⟨l₁, l₂, rfl, rfl⟩ := h.entry
  exact .move l₁ l₂ hnext

/-- A thing comes to rest. -/
theorem Log.Change.arrive (h : l.Change x (.moving p) (.arrived p) l')
    (hnext : r.next p x = none) : Advance r l l' := by
  obtain ⟨l₁, l₂, rfl, rfl⟩ := h.entry
  exact .arrive l₁ l₂ hnext

/-- A thing is dropped. -/
theorem Log.Change.drop (h : l.Change x (.moving p) .dropped l') : Step r l l' := by
  obtain ⟨l₁, l₂, rfl, rfl⟩ := h.entry
  exact .drop l₁ l₂ x p

section Family

variable {ι : Type} {f : ι → Status P} {g : ι → List X} {st st' : Status P}
  {i : ι}

/-- The places of a family hold what they held. -/
theorem Log.Change.elsewhere (h : l.Change x st st' l') (hst : ∀ j, f j ≠ st)
    (hst' : ∀ j, f j ≠ st') (hg : ∀ j, (l.items (f j)).Perm (g j)) (j : ι) :
    (l'.items (f j)).Perm (g j) := by
  rw [h.others _ (hst j) (hst' j)]
  exact hg j

variable [DecidableEq ι]

/-- What the places of a family hold when a thing leaves one of them. -/
theorem Log.Change.leaves (h : l.Change x (f i) st' l') (hinj : Function.Injective f)
    (hst' : ∀ j, f j ≠ st') (hg : ∀ j, (l.items (f j)).Perm (g j)) {A : List X}
    (hi : (g i).Perm (x :: A)) (j : ι) : (l'.items (f j)).Perm (Function.update g i A j) := by
  by_cases hj : j = i
  · subst hj
    rw [Function.update_self]
    exact h.source ((hg j).trans hi)
  · rw [Function.update_of_ne hj, h.others _ (fun he => hj (hinj he)) (hst' j)]
    exact hg j

/-- What the places of a family hold when a thing comes to one of them. -/
theorem Log.Change.enters (h : l.Change x st (f i) l') (hinj : Function.Injective f)
    (hst : ∀ j, f j ≠ st) (hg : ∀ j, (l.items (f j)).Perm (g j)) (j : ι) :
    (l'.items (f j)).Perm (Function.update g i (g i ++ [x]) j) := by
  by_cases hj : j = i
  · subst hj
    rw [Function.update_self]
    exact (h.target.trans ((hg j).cons x)).trans (List.perm_append_singleton x _).symm
  · rw [Function.update_of_ne hj, h.others _ (hst j) (fun he => hj (hinj he))]
    exact hg j

end Family

/-- A place drops all but some of what it holds. -/
theorem Steps.drop_to (r : Route P X) {A B : List X} (hBA : B.Sublist A)
    (h : (l.items (.moving p)).Perm A) :
    ∃ l', Steps r l l' ∧ (l'.items (.moving p)).Perm B ∧ l'.map Prod.fst = l.map Prod.fst ∧
      ∀ st, st ≠ .moving p → st ≠ .dropped → l'.items st = l.items st := by
  -- the things still to be kept are set aside in `C`
  suffices hgen : ∀ C, (l.items (.moving p)).Perm (A ++ C) → ∃ l', Steps r l l' ∧
      (l'.items (.moving p)).Perm (B ++ C) ∧ l'.map Prod.fst = l.map Prod.fst ∧
      ∀ st, st ≠ .moving p → st ≠ .dropped → l'.items st = l.items st by
    simpa using hgen [] (by simpa using h)
  clear h
  induction hBA generalizing l with
  | slnil => exact fun C h => ⟨l, .refl, h, rfl, fun _ _ _ => rfl⟩
  | @cons B A x _ ih =>
      intro C h
      have hx : x ∈ l.items (.moving p) := h.mem_iff.mpr (List.mem_append_left _ (.head _))
      obtain ⟨l₁, hl₁⟩ := Log.change (.dropped) hx (by simp)
      obtain ⟨l₂, hsteps, hitems, hmap, hothers⟩ := ih C (hl₁.source h)
      refine ⟨l₂, .head hl₁.drop hsteps, hitems, hmap.trans hl₁.entered, fun st h₁ h₂ => ?_⟩
      rw [hothers st h₁ h₂, hl₁.others st h₁ h₂]
  | @cons_cons B A x _ ih =>
      intro C h
      obtain ⟨l₁, hsteps, hitems, hrest⟩ := ih (x :: C) (h.trans List.perm_middle.symm)
      exact ⟨l₁, hsteps, hitems.trans List.perm_middle, hrest⟩

end Items

/-! ## What holds along the way -/

/-- What `G` says holds of every thing at the place where it is, and what came to rest had
no next place. -/
def Log.Good (r : Route P X) (G : P → X → Prop) (l : Log P X) : Prop :=
  ∀ x p, ((x, .moving p) ∈ l → G p x) ∧ ((x, .arrived p) ∈ l → G p x ∧ r.next p x = none)

theorem Log.good_nil (r : Route P X) (G : P → X → Prop) : Log.Good r G [] :=
  fun _ _ => ⟨fun h => (List.not_mem_nil h).elim, fun h => (List.not_mem_nil h).elim⟩

/-- An entry of a log is changed. -/
theorem Log.Good.replace {G : P → X → Prop} {l₁ l₂ : Log P X} {y y' : X × Status P}
    (h : Log.Good r G (l₁ ++ y :: l₂)) (hy : Log.Good r G [y']) :
    Log.Good r G (l₁ ++ y' :: l₂) := by
  intro x p
  have hold : ∀ st, (x, st) ∈ l₁ ∨ (x, st) ∈ l₂ → (x, st) ∈ l₁ ++ y :: l₂ := by
    intro st hmem
    rcases hmem with hmem | hmem
    · exact List.mem_append_left _ hmem
    · exact List.mem_append_right _ (.tail _ hmem)
  have hnew : ∀ st, (x, st) ∈ l₁ ++ y' :: l₂ → (x, st) ∈ l₁ ++ y :: l₂ ∨ (x, st) ∈ [y'] := by
    intro st hmem
    rcases List.mem_append.mp hmem with hmem | hmem
    · exact Or.inl (hold st (Or.inl hmem))
    · rcases List.mem_cons.mp hmem with rfl | hmem
      · exact Or.inr (List.mem_singleton_self _)
      · exact Or.inl (hold st (Or.inr hmem))
  constructor
  · intro hmem
    exact (hnew _ hmem).elim (h x p).1 (hy x p).1
  · intro hmem
    exact (hnew _ hmem).elim (h x p).2 (hy x p).2

theorem Log.good_moving {G : P → X → Prop} (h : G p x) :
    Log.Good r G [(x, .moving p)] := by
  intro x' p'
  constructor
  · intro hmem
    cases List.mem_singleton.mp hmem
    exact h
  · intro hmem
    cases List.mem_singleton.mp hmem

theorem Step.good {G : P → X → Prop} (hstart : ∀ x, r.ok x → G (r.start x) x)
    (hnext : ∀ p x q, G p x → r.next p x = some q → G q x) (h : Step r l l')
    (hl : Log.Good r G l) : Log.Good r G l' := by
  cases h with
  | accept l hx =>
      intro x p
      simp only [List.mem_append, List.mem_singleton]
      constructor
      · rintro (hmem | heq)
        · exact (hl x p).1 hmem
        · cases heq
          exact hstart _ hx
      · rintro (hmem | heq)
        · exact (hl x p).2 hmem
        · cases heq
  | advance h =>
      cases h with
      | move l₁ l₂ h =>
          refine hl.replace (Log.good_moving (hnext _ _ _ ((hl _ _).1 ?_) h))
          exact List.mem_append_right _ (.head _)
      | @arrive l₁ l₂ x p h =>
          refine hl.replace fun x' p' => ⟨fun hmem => ?_, fun hmem => ?_⟩
          · cases List.mem_singleton.mp hmem
          · cases List.mem_singleton.mp hmem
            exact ⟨(hl _ _).1 (List.mem_append_right _ (.head _)), h⟩
  | drop l₁ l₂ x p =>
      refine hl.replace fun x' p' => ⟨fun hmem => ?_, fun hmem => ?_⟩
      · cases List.mem_singleton.mp hmem
      · cases List.mem_singleton.mp hmem

/-- What holds of a thing where it enters and is kept by every hand-over holds wherever it
is found. -/
theorem Steps.good {G : P → X → Prop} (hstart : ∀ x, r.ok x → G (r.start x) x)
    (hnext : ∀ p x q, G p x → r.next p x = some q → G q x) (h : Steps r l l')
    (hl : Log.Good r G l) : Log.Good r G l' := by
  induction h with
  | refl => exact hl
  | tail _ hstep ih => exact hstep.good hstart hnext ih

/-- Nothing was dropped. -/
def Log.Whole (l : Log P X) : Prop := ∀ y ∈ l, y.2 ≠ .dropped

theorem Log.Whole.snoc (h : l.Whole) (x : X) (p : P) : Log.Whole (l ++ [(x, .moving p)]) := by
  intro y hy
  rcases List.mem_append.mp hy with hy | hy
  · exact h y hy
  · rw [List.mem_singleton.mp hy]
    simp

/-- A hand-over drops nothing. -/
theorem Advance.whole (h : Advance r l l') (hl : l.Whole) : l'.Whole := by
  cases h <;>
  · intro y hy
    rcases List.mem_append.mp hy with hy | hy
    · exact hl y (List.mem_append_left _ hy)
    · rcases List.mem_cons.mp hy with rfl | hy
      · simp
      · exact hl y (List.mem_append_right _ (.tail _ hy))

/-! ## How far there is to go -/

/-- What is left to do for a thing. -/
def Status.left (rank : P → X → Nat) (x : X) : Status P → Nat
  | .moving p => rank p x
  | .arrived _ => 0
  | .dropped => 0

/-- What is left to do for everything that entered. -/
def Log.left (rank : P → X → Nat) : Log P X → Nat
  | [] => 0
  | y :: l => y.2.left rank y.1 + Log.left rank l

theorem Log.left_append (rank : P → X → Nat) (l l' : Log P X) :
    Log.left rank (l ++ l') = l.left rank + l'.left rank := by
  induction l with
  | nil => exact (Nat.zero_add _).symm
  | cons y l ih => rw [List.cons_append, Log.left, Log.left, ih, Nat.add_assoc]

/-- A rank that is positive and falls along the way goes down with every hand-over. -/
theorem Advance.left_lt {G : P → X → Prop} {rank : P → X → Nat}
    (hpos : ∀ p x, G p x → 0 < rank p x)
    (hnext : ∀ p x q, G p x → r.next p x = some q → rank q x < rank p x) (hl : Log.Good r G l)
    (h : Advance r l l') : l'.left rank < l.left rank := by
  cases h with
  | @move l₁ l₂ x p q h =>
      have hG : G p x := (hl x p).1 (List.mem_append_right _ (.head _))
      have hlt := hnext p x q hG h
      simp only [Log.left_append, Log.left, Status.left]
      omega
  | @arrive l₁ l₂ x p h =>
      have hG : G p x := (hl x p).1 (List.mem_append_right _ (.head _))
      have hlt := hpos p x hG
      simp only [Log.left_append, Log.left, Status.left]
      omega

end Courier
