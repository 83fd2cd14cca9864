import Mathlib.Data.Set.Finite.Basic
import Mathlib.Order.WellFounded
import Mathlib.Data.Fintype.Order
import Mathlib.Logic.Relation

/-!
# Graphs given by a parent function

A partial function `up : α → Option α` gives every point at most one parent.
Nothing forbids cycles.  When only finitely many points have a parent, a point
reaches a root exactly when no cycle lies above it, and the points below it can
be enumerated exactly when it lies on no cycle itself.

Three walks over such a graph are studied, each with a fuel argument, since each
may run for ever.

* `climb` follows the parent to a root.
* `walkBelow c` follows the parent until the next step would reach `c`.
* `preorder` lists a point and everything below it, parents first.

Each comes with the statement of when it ends and of what it returns then.
-/

namespace Forest

open Relation

variable {α : Type}

/-! ## Ancestors -/

/-- `b` is the parent of `a`. -/
def IsParent (up : α → Option α) (a b : α) : Prop := up a = some b

/-- `a` is `d` or an ancestor of `d`. -/
def Above (up : α → Option α) (a d : α) : Prop := ReflTransGen (IsParent up) d a

/-- `a` is a proper ancestor of `d`. -/
def StrictlyAbove (up : α → Option α) (a d : α) : Prop := TransGen (IsParent up) d a

/-- No point is a proper ancestor of itself. -/
def Acyclic (up : α → Option α) : Prop := ∀ a, ¬ StrictlyAbove up a a

variable {up : α → Option α} {a b c d : α}

/-- The proper ancestors of a point are its parent and those of its parent. -/
theorem strictlyAbove_iff (h : up d = some b) : StrictlyAbove up a d ↔ Above up a b := by
  constructor
  · intro hs
    obtain ⟨b', hb', hab⟩ := TransGen.head'_iff.mp hs
    have he : b' = b := by
      rw [IsParent, h, Option.some.injEq] at hb'
      exact hb'.symm
    exact he ▸ hab
  · exact fun hab => TransGen.head' h hab

theorem not_strictlyAbove_of_root (h : up d = none) : ¬ StrictlyAbove up a d := by
  intro hs
  obtain ⟨b, hb, _⟩ := TransGen.head'_iff.mp hs
  rw [IsParent, h] at hb
  cases hb

theorem Above.refl (a : α) : Above up a a := ReflTransGen.refl

theorem above_of_parent (h : up d = some b) : Above up b d := ReflTransGen.single h

theorem Above.trans (h₁ : Above up a b) (h₂ : Above up b c) : Above up a c :=
  ReflTransGen.trans h₂ h₁

theorem StrictlyAbove.above (h : StrictlyAbove up a d) : Above up a d :=
  TransGen.to_reflTransGen h

/-- Below a point: the point itself, or below one of its children. -/
theorem above_iff_child : Above up a d ↔ d = a ∨ ∃ c, up c = some a ∧ Above up c d := by
  constructor
  · intro h
    cases ReflTransGen.cases_tail h with
    | inl he => exact Or.inl he.symm
    | inr hc =>
        obtain ⟨c, hdc, hca⟩ := hc
        exact Or.inr ⟨c, hca, hdc⟩
  · rintro (rfl | ⟨c, hc, hd⟩)
    · exact Above.refl d
    · exact (above_of_parent hc).trans hd

/-- Two points above a third are above one another. -/
theorem Above.linear (ha : Above up a d) (hb : Above up b d) : Above up a b ∨ Above up b a := by
  have hu : Relator.RightUnique (IsParent up) := by
    intro x y z hy hz
    rw [IsParent] at hy hz
    rw [hy, Option.some.injEq] at hz
    exact hz
  exact (ReflTransGen.total_of_right_unique hu hb ha)

/-- A point on a cycle has the whole cycle above and below it. -/
theorem StrictlyAbove.cycle_of_above (h : StrictlyAbove up a a) (hd : Above up d a) :
    StrictlyAbove up d d := by
  induction hd with
  | refl => exact h
  | tail _ hbc ih =>
      have hb := (strictlyAbove_iff hbc).mp ih
      exact TransGen.tail' hb hbc

/-! ## Finitely many parent links -/

/-- A relation that is irreflexive and transitively closed on a finite set, and
that leaves the set only towards minimal points, is accessible on the set. -/
theorem acc_of_finite {r : α → α → Prop} {S : Set α} (hS : S.Finite)
    (hleave : ∀ a ∈ S, ∀ b, r b a → b ∉ S → ∀ c, ¬ r c b)
    (hirr : ∀ a ∈ S, ¬ TransGen r a a) : ∀ a ∈ S, Acc r a := by
  have : Finite S := hS
  let q : S → S → Prop := fun x y => TransGen r x.1 y.1
  have : IsTrans S q := ⟨fun _ _ _ => TransGen.trans⟩
  have : Std.Irrefl q := ⟨fun x => hirr x.1 x.2⟩
  have hwf : WellFounded q := Finite.wellFounded_of_trans_of_irrefl q
  intro a ha
  have hacc : ∀ x : S, Acc r x.1 := by
    intro x
    induction x using hwf.induction with
    | _ x ih =>
        apply Acc.intro _
        intro b hb
        by_cases hbS : b ∈ S
        · exact ih ⟨b, hbS⟩ (TransGen.single hb)
        · exact Acc.intro _ fun c hc => absurd hc (hleave x.1 x.2 b hb hbS c)
  exact hacc ⟨a, ha⟩

/-- The parent links of a graph with finitely many of them, on whose cycles a
set closed under parents does not touch, are well-founded upwards on that set. -/
theorem acc_up (hfin : {a | up a ≠ none}.Finite) (hd : ∀ a, Above up a d → ¬ StrictlyAbove up a a) :
    Acc (fun b a => up a = some b) d := by
  have hS : {a | up a ≠ none ∧ Above up a d}.Finite :=
    hfin.subset fun _ h => h.1
  have key : ∀ a ∈ {a | up a ≠ none ∧ Above up a d}, Acc (fun b a => up a = some b) a := by
    refine acc_of_finite hS ?_ ?_
    · intro a ha b hb hbS c hc
      exact hbS ⟨by rw [hc]; exact Option.some_ne_none c, (above_of_parent hb).trans ha.2⟩
    · intro a ha hcyc
      exact hd a ha.2 (transGen_swap.mp hcyc)
  by_cases hu : up d = none
  · exact Acc.intro _ fun b hb => by rw [hu] at hb; cases hb
  · exact key d ⟨hu, Above.refl d⟩

/-- A point on no cycle has well-founded parent links below it. -/
theorem acc_down (hfin : {a | up a ≠ none}.Finite) (ha : ¬ StrictlyAbove up a a) :
    Acc (fun c b => up c = some b) a := by
  have hS : {d | Above up a d}.Finite := by
    refine (hfin.insert a).subset ?_
    intro d hd
    cases ReflTransGen.cases_head hd with
    | inl he => exact Set.mem_insert_iff.mpr (Or.inl he)
    | inr hc =>
        obtain ⟨b, hb, _⟩ := hc
        have hne : up d ≠ none := by
          rw [show up d = some b from hb]
          exact Option.some_ne_none b
        exact Set.mem_insert_of_mem _ hne
  refine acc_of_finite hS ?_ ?_ a (Above.refl a)
  · intro b hb c hc hcS
    exact absurd (Above.trans hb (above_of_parent hc)) hcS
  · intro d hd hcyc
    exact ha (StrictlyAbove.cycle_of_above hcyc hd)

/-- Parent links that decrease have no cycle. -/
theorem acyclic_of_lt {up : Nat → Option Nat} (h : ∀ a b, up a = some b → b < a) : Acyclic up := by
  have hlt : ∀ {a d : Nat}, StrictlyAbove up a d → a < d := by
    intro a d had
    induction had with
    | single hb => exact h _ _ hb
    | tail _ hc ih => exact lt_trans (h _ _ hc) ih
  exact fun a ha => lt_irrefl a (hlt ha)

/-! ## Chains from a root -/

/-- `RootChain up l d`: `l` lists the ancestors of `d` from a root down to `d`. -/
inductive RootChain (up : α → Option α) : List α → α → Prop where
  | root {r : α} : up r = none → RootChain up [r] r
  | child {l : List α} {p d : α} : RootChain up l p → up d = some p → RootChain up (l ++ [d]) d

theorem RootChain.mem_iff {l : List α} (h : RootChain up l d) (a : α) : a ∈ l ↔ Above up a d := by
  induction h with
  | @root r hr =>
      rw [List.mem_singleton]
      constructor
      · rintro rfl
        exact Above.refl a
      · intro ha
        cases ReflTransGen.cases_head ha with
        | inl he => exact he.symm
        | inr hc =>
            obtain ⟨b, hb, _⟩ := hc
            rw [IsParent, hr] at hb
            cases hb
  | @child l p d _ hd ih =>
      rw [List.mem_append, List.mem_singleton, ih]
      constructor
      · rintro (ha | rfl)
        · exact ha.trans (above_of_parent hd)
        · exact Above.refl a
      · intro ha
        cases ReflTransGen.cases_head ha with
        | inl he => exact Or.inr he.symm
        | inr hc =>
            obtain ⟨b, hb, hab⟩ := hc
            rw [IsParent, hd, Option.some.injEq] at hb
            exact Or.inl (hb ▸ hab)

/-- Nothing on the way to a root lies on a cycle. -/
theorem RootChain.not_cycle {l : List α} (h : RootChain up l d) : ¬ StrictlyAbove up d d := by
  induction h with
  | root hr => exact not_strictlyAbove_of_root hr
  | @child l p d _ hd ih =>
      intro hcyc
      exact ih (hcyc.cycle_of_above (above_of_parent hd))

theorem RootChain.nodup {l : List α} (h : RootChain up l d) : l.Nodup := by
  induction h with
  | root _ => exact List.nodup_singleton _
  | @child l p d hl hd ih =>
      rw [List.nodup_append]
      refine ⟨ih, List.nodup_singleton d, ?_⟩
      rintro x hx y hy rfl
      rw [List.mem_singleton] at hy
      subst hy
      have hxp : Above up x p := (hl.mem_iff x).mp hx
      exact (hl.child hd).not_cycle ((strictlyAbove_iff hd).mpr hxp)

theorem RootChain.unique {l l' : List α} (h : RootChain up l d) (h' : RootChain up l' d) :
    l = l' := by
  induction h generalizing l' with
  | root hr =>
      cases h' with
      | root _ => rfl
      | child _ hd => rw [hr] at hd; cases hd
  | @child l p d _ hd ih =>
      cases h' with
      | root hr => rw [hr] at hd; cases hd
      | child hl' hd' =>
          rw [hd, Option.some.injEq] at hd'
          subst hd'
          rw [ih hl']

theorem RootChain.ne_nil {l : List α} (h : RootChain up l d) : l ≠ [] := by
  cases h with
  | root _ => exact List.cons_ne_nil _ _
  | child _ _ => exact List.append_ne_nil_of_right_ne_nil _ (List.cons_ne_nil _ _)

/-- A chain exists above every point that has no cycle above it. -/
theorem exists_rootChain (hfin : {a | up a ≠ none}.Finite)
    (hd : ∀ a, Above up a d → ¬ StrictlyAbove up a a) : ∃ l, RootChain up l d := by
  have hacc := acc_up hfin hd
  clear hd
  induction hacc with
  | intro d _ ih =>
      cases hu : up d with
      | none => exact ⟨[d], .root hu⟩
      | some b =>
          obtain ⟨l, hl⟩ := ih b hu
          exact ⟨l ++ [d], hl.child hu⟩

/-- With finitely many parent links, acyclic means that every point has a root
above it. -/
theorem acyclic_iff_rootChain (hfin : {a | up a ≠ none}.Finite) :
    Acyclic up ↔ ∀ d, ∃ l, RootChain up l d := by
  constructor
  · exact fun h d => exists_rootChain hfin fun a _ => h a
  · intro h d
    obtain ⟨l, hl⟩ := h d
    exact hl.not_cycle

/-! ## Climbing to the root -/

/-- Follow the parent until a point has none. -/
def climb (up : α → Option α) : Nat → α → Option α
  | 0, _ => none
  | n + 1, a =>
      match up a with
      | none => some a
      | some b => climb up n b

theorem climb_root (h : up a = none) (n : Nat) : climb up (n + 1) a = some a := by
  simp [climb, h]

theorem climb_parent (h : up a = some b) (n : Nat) : climb up (n + 1) a = climb up n b := by
  simp [climb, h]

/-- The climb from `d` ends at the head of its chain. -/
theorem RootChain.climb {l : List α} (h : RootChain up l d) :
    ∃ r, l.head? = some r ∧ up r = none ∧ ∀ n, l.length ≤ n → climb up n d = some r := by
  induction h with
  | @root r hr =>
      refine ⟨r, rfl, hr, ?_⟩
      intro n hn
      obtain ⟨m, rfl⟩ := Nat.exists_eq_succ_of_ne_zero (Nat.one_le_iff_ne_zero.mp hn)
      exact climb_root hr m
  | @child l p d hl hd ih =>
      obtain ⟨r, hhead, hr, hclimb⟩ := ih
      refine ⟨r, ?_, hr, ?_⟩
      · rw [List.head?_append, hhead, Option.some_or]
      · intro n hn
        rw [List.length_append, List.length_singleton] at hn
        obtain ⟨m, rfl⟩ := Nat.exists_eq_succ_of_ne_zero (show n ≠ 0 by omega)
        rw [climb_parent hd]
        exact hclimb m (by omega)

theorem rootChain_of_climb {n : Nat} {d r : α} (h : climb up n d = some r) :
    ∃ l, RootChain up l d ∧ l.head? = some r := by
  induction n generalizing d with
  | zero => simp [climb] at h
  | succ n ih =>
      cases hu : up d with
      | none =>
          rw [climb_root hu, Option.some.injEq] at h
          exact ⟨[d], .root hu, congrArg some h⟩
      | some b =>
          rw [climb_parent hu] at h
          obtain ⟨l, hl, hhead⟩ := ih h
          refine ⟨l ++ [d], hl.child hu, ?_⟩
          rw [List.head?_append, hhead, Option.some_or]

/-- The climb ends exactly when a chain from a root exists. -/
theorem climb_ends_iff : (∃ n, (climb up n d).isSome) ↔ ∃ l, RootChain up l d := by
  constructor
  · rintro ⟨n, hn⟩
    obtain ⟨r, hr⟩ := Option.isSome_iff_exists.mp hn
    obtain ⟨l, hl, _⟩ := rootChain_of_climb hr
    exact ⟨l, hl⟩
  · rintro ⟨l, hl⟩
    obtain ⟨r, _, _, hclimb⟩ := hl.climb
    exact ⟨l.length, by rw [hclimb _ le_rfl]; rfl⟩

/-! ## Climbing to just below a point -/

/-- Follow the parent until a point has none or has parent `c`. -/
def walkBelow [DecidableEq α] (up : α → Option α) (c : α) : Nat → α → Option α
  | 0, _ => none
  | n + 1, x =>
      match up x with
      | none => some x
      | some p => if p = c then some x else walkBelow up c n p

/-- From below a point `c` on no cycle, the walk ends at the child of `c` that
lies above the start. -/
theorem walkBelow_ends [DecidableEq α] (hc : ¬ StrictlyAbove up c c) (h : StrictlyAbove up c d) :
    ∃ x m, up x = some c ∧ Above up x d ∧ ∀ n, m ≤ n → walkBelow up c n d = some x := by
  induction h using TransGen.head_induction_on with
  | @single d hd =>
      refine ⟨d, 1, hd, Above.refl d, ?_⟩
      intro n hn
      obtain ⟨m, rfl⟩ := Nat.exists_eq_succ_of_ne_zero (show n ≠ 0 by omega)
      simp [walkBelow, show up d = some c from hd]
  | @head d b hd hb ih =>
      obtain ⟨x, m, hx, hxb, hwalk⟩ := ih
      have hne : b ≠ c := by
        rintro rfl
        exact hc hb
      refine ⟨x, m + 1, hx, hxb.trans (above_of_parent hd), ?_⟩
      intro n hn
      obtain ⟨k, rfl⟩ := Nat.exists_eq_succ_of_ne_zero (show n ≠ 0 by omega)
      simp only [walkBelow, show up d = some b from hd, if_neg hne]
      exact hwalk k (by omega)

/-- The walk from `d` finds the child of `c` above `d`, whichever it is. -/
theorem walkBelow_child [DecidableEq α] (hc : ¬ StrictlyAbove up c c) (hb : up b = some c)
    (h : Above up b d) : ∃ m, ∀ n, m ≤ n → walkBelow up c n d = some b := by
  obtain ⟨x, m, hx, hxd, hwalk⟩ := walkBelow_ends hc (TransGen.tail' h hb)
  have hbelow : ∀ {y z : α}, up y = some c → up z = some c → Above up y z → y = z := by
    intro y z hy hz hyz
    cases ReflTransGen.cases_head hyz with
    | inl he => exact he.symm
    | inr hw =>
        obtain ⟨w, hw, hyw⟩ := hw
        rw [IsParent, hz, Option.some.injEq] at hw
        subst hw
        exact absurd (TransGen.tail' hyw hy) hc
  have hxb : x = b := by
    cases hxd.linear h with
    | inl hl => exact hbelow hx hb hl
    | inr hr => exact (hbelow hb hx hr).symm
  exact ⟨m, hxb ▸ hwalk⟩

/-! ## Paths downwards -/

/-- `DownPath up l a d`: `l` lists the points from `a` down to `d`, each the parent of
the next. -/
inductive DownPath (up : α → Option α) : List α → α → α → Prop where
  | here (d : α) : DownPath up [d] d d
  | down {l : List α} {a b d : α} : up b = some a → DownPath up l b d → DownPath up (a :: l) a d

theorem DownPath.above {l : List α} (h : DownPath up l a d) : Above up a d := by
  induction h with
  | here d => exact Above.refl d
  | down hb _ ih => exact (above_of_parent hb).trans ih

theorem DownPath.snoc {l : List α} {p : α} (h : DownPath up l a p) (hd : up d = some p) :
    DownPath up (l ++ [d]) a d := by
  induction h with
  | here p => exact .down hd (.here d)
  | down hb _ ih => exact .down hb (ih hd)

/-- The chain of a point is the path down to it from its root. -/
theorem RootChain.downPath {l : List α} {r : α} (h : RootChain up l d) (hr : l.head? = some r) :
    DownPath up l r d := by
  induction h with
  | @root r' _ =>
      rw [List.head?_cons, Option.some.injEq] at hr
      subst hr
      exact .here _
  | @child l p d hl hd ih =>
      have hhead : l.head? = some r := by
        rwa [List.head?_append_of_ne_nil _ hl.ne_nil] at hr
      exact (ih hhead).snoc hd

theorem exists_downPath (h : Above up a d) : ∃ l, DownPath up l a d := by
  induction h with
  | refl => exact ⟨[d], .here d⟩
  | tail _ hb ih =>
      obtain ⟨l, hl⟩ := ih
      exact ⟨_, .down hb hl⟩

theorem DownPath.mem_above {l : List α} (h : DownPath up l a d) {x : α} (hx : x ∈ l) :
    Above up a x ∧ Above up x d := by
  induction h with
  | here d =>
      rw [List.mem_singleton] at hx
      exact hx ▸ ⟨Above.refl _, Above.refl _⟩
  | @down l a b d hb hl ih =>
      cases List.mem_cons.mp hx with
      | inl he =>
          rw [he]
          exact ⟨Above.refl a, (above_of_parent hb).trans hl.above⟩
      | inr hm => exact ⟨(above_of_parent hb).trans (ih hm).1, (ih hm).2⟩

/-- In a graph without cycles a path visits no point twice. -/
theorem DownPath.nodup (hac : Acyclic up) {l : List α} (h : DownPath up l a d) : l.Nodup := by
  induction h with
  | here d => exact List.nodup_singleton d
  | @down l a b d hb hl ih =>
      refine List.nodup_cons.mpr ⟨fun ha => hac a ?_, ih⟩
      exact TransGen.tail' (hl.mem_above ha).1 hb

theorem DownPath.ne_nil {l : List α} (h : DownPath up l a d) : l ≠ [] := by
  cases h with
  | here => exact List.cons_ne_nil _ _
  | down => exact List.cons_ne_nil _ _

theorem DownPath.dropLast_append {l : List α} (h : DownPath up l a d) :
    l.dropLast ++ [d] = l := by
  induction h with
  | here d => rfl
  | down _ hl ih => rw [List.dropLast_cons_of_ne_nil hl.ne_nil, List.cons_append, ih]

/-- The points of a path before the last have their child on the path. -/
theorem DownPath.child_of_mem_dropLast {l : List α} (h : DownPath up l a d) {x : α}
    (hx : x ∈ l.dropLast) : ∃ y, up y = some x ∧ Above up y d := by
  induction h with
  | here d => cases hx
  | @down l a b d hb hl ih =>
      rw [List.dropLast_cons_of_ne_nil hl.ne_nil] at hx
      cases List.mem_cons.mp hx with
      | inl he => exact ⟨b, he ▸ hb, hl.above⟩
      | inr hm => exact ih hm

/-! ## Following a partial function -/

/-- The points reached from `a` in at most `n` steps of `next`, `a` first. -/
def trail (next : α → Option α) : Nat → α → List α
  | 0, a => [a]
  | n + 1, a =>
      a :: match next a with
        | none => []
        | some b => trail next n b

variable {next : α → Option α}

theorem trail_stop (h : next a = none) (n : Nat) : trail next n a = [a] := by
  cases n with
  | zero => rfl
  | succ n => rw [trail, h]

theorem trail_step (h : next a = some b) (n : Nat) : trail next (n + 1) a = a :: trail next n b := by
  rw [trail, h]

/-- More steps only append. -/
theorem trail_prefix {n m : Nat} {a : α} (h : n ≤ m) : trail next n a <+: trail next m a := by
  induction n generalizing m a with
  | zero =>
      cases m with
      | zero => exact List.prefix_rfl
      | succ m =>
          rw [trail, trail]
          exact ⟨_, rfl⟩
  | succ n ih =>
      obtain ⟨m, rfl⟩ := Nat.exists_eq_succ_of_ne_zero (show m ≠ 0 by omega)
      rw [trail, trail, List.prefix_cons_inj]
      cases next a with
      | none => exact List.prefix_rfl
      | some b => exact ih (Nat.le_of_succ_le_succ h)

/-- A function that steps down a path is followed along the path. -/
theorem DownPath.trail {l : List α} (h : DownPath up l a d)
    (hnext : ∀ x y, Above up a x → up y = some x → Above up y d → next x = some y) {n : Nat}
    (hn : l.length ≤ n + 1) :
    trail next n a = l.dropLast ++ trail next (n + 1 - l.length) d := by
  induction h generalizing n with
  | here d => rfl
  | @down l a b d hb hl ih =>
      have hpos := List.length_pos_iff.mpr hl.ne_nil
      rw [List.length_cons] at hn
      obtain ⟨m, rfl⟩ : ∃ m, n = m + 1 := ⟨n - 1, by omega⟩
      have hab := above_of_parent hb
      rw [trail_step (hnext a b (Above.refl a) hb hl.above),
        List.dropLast_cons_of_ne_nil hl.ne_nil, List.cons_append, List.length_cons,
        ih (fun x y hx => hnext x y (hab.trans hx)) (by omega),
        show m + 1 + 1 - (l.length + 1) = m + 1 - l.length by omega]

/-! ## Listing what lies below a point -/

/-- The concatenated results of `f` on a list, if all are defined. -/
def gather (f : α → Option (List α)) : List α → Option (List α)
  | [] => some []
  | a :: as =>
      match f a with
      | none => none
      | some l => (gather f as).map (l ++ ·)

theorem gather_eq_some {f : α → Option (List α)} {as l : List α} (h : gather f as = some l) :
    (∀ a ∈ as, (f a).isSome) ∧ ∀ b, b ∈ l ↔ ∃ a ∈ as, ∃ k, f a = some k ∧ b ∈ k := by
  induction as generalizing l with
  | nil =>
      simp only [gather, Option.some.injEq] at h
      subst h
      simp
  | cons a as ih =>
      cases hf : f a with
      | none => simp [gather, hf] at h
      | some k =>
          simp only [gather, hf, Option.map_eq_some_iff] at h
          obtain ⟨m, hm, rfl⟩ := h
          obtain ⟨hsome, hmem⟩ := ih hm
          constructor
          · intro x hx
            cases List.mem_cons.mp hx with
            | inl he => rw [he, hf]; rfl
            | inr hx' => exact hsome x hx'
          · intro b
            simp [hf, hmem]

theorem gather_isSome {f : α → Option (List α)} {as : List α} (h : ∀ a ∈ as, (f a).isSome) :
    ∃ l, gather f as = some l := by
  induction as with
  | nil => exact ⟨[], rfl⟩
  | cons a as ih =>
      obtain ⟨k, hk⟩ := Option.isSome_iff_exists.mp (h a (List.mem_cons_self ..))
      obtain ⟨m, hm⟩ := ih fun x hx => h x (List.mem_cons_of_mem _ hx)
      exact ⟨k ++ m, by simp [gather, hk, hm]⟩

theorem gather_mono {f g : α → Option (List α)} {as l : List α}
    (hfg : ∀ a ∈ as, ∀ k, f a = some k → g a = some k) (h : gather f as = some l) :
    gather g as = some l := by
  induction as generalizing l with
  | nil => exact h
  | cons a as ih =>
      cases hf : f a with
      | none => simp [gather, hf] at h
      | some k =>
          simp only [gather, hf, Option.map_eq_some_iff] at h
          obtain ⟨m, hm, rfl⟩ := h
          have hg := hfg a (List.mem_cons_self ..) k hf
          have hrest := ih (fun x hx => hfg x (List.mem_cons_of_mem _ hx)) hm
          simp [gather, hg, hrest]

/-- A point and everything below it, parents first, children in order. -/
def preorder (children : α → List α) : Nat → α → Option (List α)
  | 0, _ => none
  | n + 1, a => (gather (preorder children n) (children a)).map (a :: ·)

variable {children : α → List α}

theorem preorder_mono {n m : Nat} {a : α} {l : List α} (hnm : n ≤ m)
    (h : preorder children n a = some l) : preorder children m a = some l := by
  induction n generalizing m a l with
  | zero => simp [preorder] at h
  | succ n ih =>
      obtain ⟨k, rfl⟩ := Nat.exists_eq_succ_of_ne_zero (show m ≠ 0 by omega)
      obtain ⟨g, hg, rfl⟩ := Option.map_eq_some_iff.mp h
      refine Option.map_eq_some_iff.mpr ⟨g, ?_, rfl⟩
      exact gather_mono (fun x _ k' hk' => ih (show n ≤ k by omega) hk') hg

/-- The list holds exactly the points below its head, the head included. -/
theorem mem_preorder (hch : ∀ a b, b ∈ children a ↔ up b = some a) {n : Nat} {a : α}
    {l : List α} (h : preorder children n a = some l) (b : α) : b ∈ l ↔ Above up a b := by
  induction n generalizing a l with
  | zero => simp [preorder] at h
  | succ n ih =>
      obtain ⟨g, hg, rfl⟩ := Option.map_eq_some_iff.mp h
      obtain ⟨hsome, hmem⟩ := gather_eq_some hg
      rw [List.mem_cons, hmem, above_iff_child]
      refine or_congr Iff.rfl ⟨?_, ?_⟩
      · rintro ⟨c, hc, k, hk, hb⟩
        exact ⟨c, (hch a c).mp hc, (ih hk).mp hb⟩
      · rintro ⟨c, hc, hb⟩
        have hcm := (hch a c).mpr hc
        obtain ⟨k, hk⟩ := Option.isSome_iff_exists.mp (hsome c hcm)
        exact ⟨c, hcm, k, hk, (ih hk).mpr hb⟩

/-- On a cycle the listing never ends. -/
theorem preorder_cycle (hch : ∀ a b, b ∈ children a ↔ up b = some a) (n : Nat) {a : α}
    (hcyc : StrictlyAbove up a a) : preorder children n a = none := by
  induction n generalizing a with
  | zero => rfl
  | succ n ih =>
      obtain ⟨c, hac, hca⟩ := TransGen.tail'_iff.mp hcyc
      have hc : StrictlyAbove up c c :=
        hcyc.cycle_of_above hac
      cases hp : preorder children (n + 1) a with
      | none => rfl
      | some l =>
          obtain ⟨g, hg, _⟩ := Option.map_eq_some_iff.mp hp
          have hs := (gather_eq_some hg).1 c ((hch a c).mpr hca)
          rw [ih hc] at hs
          cases hs

/-- The listing ends exactly from the points on no cycle. -/
theorem preorder_ends_iff (hfin : {a | up a ≠ none}.Finite)
    (hch : ∀ a b, b ∈ children a ↔ up b = some a) :
    (∃ n, (preorder children n a).isSome) ↔ ¬ StrictlyAbove up a a := by
  constructor
  · rintro ⟨n, hn⟩ hcyc
    rw [preorder_cycle hch n hcyc] at hn
    cases hn
  · intro ha
    have hacc := acc_down hfin ha
    clear ha
    induction hacc with
    | intro a _ ih =>
        -- one fuel large enough for every child
        have hfuel : ∃ n, ∀ c ∈ children a, (preorder children n c).isSome := by
          have hall : ∀ c ∈ children a, ∃ n, (preorder children n c).isSome :=
            fun c hc => ih c ((hch a c).mp hc)
          generalize children a = cs at hall
          induction cs with
          | nil => exact ⟨0, fun c hc => by cases hc⟩
          | cons c cs ihcs =>
              obtain ⟨n₁, h₁⟩ := hall c (List.mem_cons_self ..)
              obtain ⟨n₂, h₂⟩ := ihcs fun x hx => hall x (List.mem_cons_of_mem _ hx)
              refine ⟨max n₁ n₂, ?_⟩
              intro x hx
              have hx' : x = c ∨ x ∈ cs := List.mem_cons.mp hx
              rcases hx' with rfl | hx'
              · obtain ⟨l, hl⟩ := Option.isSome_iff_exists.mp h₁
                rw [preorder_mono (le_max_left n₁ n₂) hl]
                rfl
              · obtain ⟨l, hl⟩ := Option.isSome_iff_exists.mp (h₂ x hx')
                rw [preorder_mono (le_max_right n₁ n₂) hl]
                rfl
        obtain ⟨n, hn⟩ := hfuel
        obtain ⟨l, hl⟩ := gather_isSome hn
        exact ⟨n + 1, by simp [preorder, hl]⟩

end Forest
