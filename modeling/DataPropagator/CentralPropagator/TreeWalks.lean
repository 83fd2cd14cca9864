import DataPropagator.CentralPropagator.Dispatcher

/-!
# When the walks over the table end

Nothing in the loader looks at the shape of the graph, so a table may have cycles, and
three loops of the program follow its links: `find_root` upwards, `collect_subtree`
downwards and the climb of `dispatch_job_fn`.  This module says when each of them ends,
for every table, and finds one fuel for all walks over a table without cycles.
-/

namespace DataPropagator

open Forest

/-- `find_root` ends at the rows that a root is above of. -/
theorem findRoot_ends_iff (nodes : List NodeInfo) (n : Nat) :
    (∃ fuel, (findRoot nodes fuel n).isSome) ↔ ∃ l, RootChain (parentOf nodes) l n :=
  climb_ends_iff

/-- `collect_subtree` ends at the rows that lie on no cycle. -/
theorem collectSubtree_ends_iff {nodes : List NodeInfo} (h : Loaded nodes)
    (m : Option (HashMap CString Nat)) (n : Nat) :
    (∃ fuel, (collectSubtree nodes fuel m n).isSome) ↔
      ¬ StrictlyAbove (parentOf nodes) n n := by
  rw [← preorder_ends_iff (parentOf_finite nodes) h.mem_childrenOf]
  simp only [collectSubtree_eq, Option.isSome_map]

/-- The climb of `dispatch_job_fn` ends in every propagator that came to have a
context. -/
theorem chooseHop_ends {fuel : Nat} {content : Bytes} {nodes : List NodeInfo}
    (hload : nodeLoadAll (some content) = .ok nodes) {rootId : CString} {ctx : CPContext}
    (h : cpContextCreate fuel (some content) rootId = some (some ctx)) (s : CString) :
    ∃ bound, ∀ n, bound ≤ n → (chooseHop n ctx s).isSome := by
  obtain ⟨_, hall, _, l, hl, _⟩ := cpContextCreate_some hload h
  have hcycle := (preorder_ends_iff (parentOf_finite nodes)
    (Loaded.mem_childrenOf ⟨content, hload⟩)).mp ⟨fuel, by rw [hl]; rfl⟩
  simp only [chooseHop]
  cases hget : hashmapGet ctx.map s with
  | none => exact ⟨0, fun _ _ => rfl⟩
  | some d =>
      by_cases hd : d = ctx.me
      · exact ⟨0, fun _ _ => by simp [hd]⟩
      · have habove := (cpContextCreate_get hload h hget).1
        have hstrict : StrictlyAbove (parentOf nodes) ctx.me d := by
          cases (Relation.reflTransGen_iff_eq_or_transGen).mp habove with
          | inl he => exact absurd he.symm hd
          | inr ht => exact ht
        obtain ⟨x, bound, _, _, hwalk⟩ := walkBelow_ends hcycle hstrict
        refine ⟨bound, ?_⟩
        intro n hn
        simp only [if_neg hd, hall, hwalk n hn]
        rfl

/-- For every table: `find_root` ends exactly below a root, `collect_subtree` ends
exactly off the cycles, the climb of `dispatch_job_fn` ends wherever a context could be
made, and the first two end everywhere exactly when the table has no cycle. -/
theorem walks_end_iff {content : Bytes} {nodes : List NodeInfo}
    (hload : nodeLoadAll (some content) = .ok nodes) :
    (∀ n, (∃ fuel, (findRoot nodes fuel n).isSome) ↔ ∃ l, RootChain (parentOf nodes) l n) ∧
    (∀ m n, (∃ fuel, (collectSubtree nodes fuel m n).isSome) ↔
      ¬ StrictlyAbove (parentOf nodes) n n) ∧
    (∀ fuel rootId ctx, cpContextCreate fuel (some content) rootId = some (some ctx) →
      ∀ s, ∃ bound, ∀ n, bound ≤ n → (chooseHop n ctx s).isSome) ∧
    ((∀ n, n < nodes.length → ∃ fuel, (findRoot nodes fuel n).isSome) ↔
      Acyclic (parentOf nodes)) ∧
    ((∀ m n, n < nodes.length → ∃ fuel, (collectSubtree nodes fuel m n).isSome) ↔
      Acyclic (parentOf nodes)) := by
  have hloaded : Loaded nodes := ⟨content, hload⟩
  -- a row past the end has no parent
  have houtside : ∀ n, ¬ n < nodes.length → parentOf nodes n = none := by
    intro n hn
    cases hp : parentOf nodes n with
    | none => rfl
    | some p => exact absurd (parentOf_lt hp) hn
  refine ⟨findRoot_ends_iff nodes, collectSubtree_ends_iff hloaded,
    fun fuel rootId ctx h s => chooseHop_ends hload h s, ?_, ?_⟩
  · rw [acyclic_iff_rootChain (parentOf_finite nodes)]
    constructor
    · intro h n
      by_cases hn : n < nodes.length
      · exact (findRoot_ends_iff nodes n).mp (h n hn)
      · exact ⟨[n], .root (houtside n hn)⟩
    · exact fun h n _ => (findRoot_ends_iff nodes n).mpr (h n)
  · constructor
    · intro h n
      by_cases hn : n < nodes.length
      · exact (collectSubtree_ends_iff hloaded none n).mp (h none n hn)
      · exact not_strictlyAbove_of_root (houtside n hn)
    · exact fun h m n _ => (collectSubtree_ends_iff hloaded m n).mpr (h n)

/-- The line `A,127.0.0.1,1,A`. -/
def selfParentFile : Bytes :=
  [65, 44, 49, 50, 55, 46, 48, 46, 48, 46, 49, 44, 49, 44, 65, 10]

/-- The table of that line: one row that is its own parent and its own child. -/
def selfParentNodes : List NodeInfo :=
  [{ id := nameA
     address := loopback
     port := 1
     parent := some 0
     children := [some 0]
     childCount := 1
     type := .central }]

theorem selfParentFile_load : nodeLoadAll (some selfParentFile) = .ok selfParentNodes := by
  rw [nodeLoadAll_eq]
  exact congrArg Except.ok (by decide +kernel)

/-- The theorem at that table: `find_root` from its row ends only if there is a root
above. -/
theorem walks_end_iff_selfParent :
    (∃ fuel, (findRoot selfParentNodes fuel 0).isSome) ↔
      ∃ l, RootChain (parentOf selfParentNodes) l 0 :=
  (walks_end_iff selfParentFile_load).1 0

/-- The loader accepts a row that is its own parent.  From that row neither `find_root`
nor `collect_subtree` ever ends, and no context is made for it. -/
theorem selfParent_walks_never_end :
    nodeLoadAll (some selfParentFile) = .ok selfParentNodes ∧
    (∀ fuel, findRoot selfParentNodes fuel 0 = none) ∧
    (∀ fuel m, collectSubtree selfParentNodes fuel m 0 = none) ∧
    ∀ fuel, cpContextCreate fuel (some selfParentFile) nameA = none := by
  have hcycle : StrictlyAbove (parentOf selfParentNodes) 0 0 :=
    Relation.TransGen.single (show parentOf selfParentNodes 0 = some 0 by decide)
  have hcollect : ∀ fuel m, collectSubtree selfParentNodes fuel m 0 = none := by
    intro fuel m
    rw [collectSubtree_eq, preorder_cycle (Loaded.mem_childrenOf ⟨_, selfParentFile_load⟩) fuel
      hcycle]
    rfl
  refine ⟨selfParentFile_load, ?_, hcollect, ?_⟩
  · intro fuel
    induction fuel with
    | zero => rfl
    | succ fuel ih => exact (climb_parent (by decide) fuel).trans ih
  · intro fuel
    rw [cpContextCreate, selfParentFile_load]
    simp only
    rw [putRows_get (by decide), show lastRow selfParentNodes nameA = some 0 by decide]
    simp only [hcollect]
    rfl

/-! ## Enough fuel -/

/-- The fuel lets every walk over a table end, whatever rows it goes between. -/
structure EnoughFuel (nodes : List NodeInfo) (fuel : Nat) : Prop where
  climb : ∀ d, d < nodes.length → ∀ l r, RootChain (parentOf nodes) l d → l.head? = some r →
    findRoot nodes fuel d = some r
  listing : ∀ c, c < nodes.length → ∃ l, preorder (childrenOf nodes) fuel c = some l
  walk : ∀ d, d < nodes.length → ∀ x c, parentOf nodes x = some c →
    Above (parentOf nodes) x d → walkBelow (parentOf nodes) c fuel d = some x

/-- Bounds for finitely many conditions give one bound for all of them. -/
theorem exists_bound_lt {P : Nat → Nat → Prop} (N : Nat)
    (h : ∀ i, i < N → ∃ b, ∀ n, b ≤ n → P i n) : ∃ b, ∀ i, i < N → ∀ n, b ≤ n → P i n := by
  induction N with
  | zero => exact ⟨0, fun i hi => absurd hi (Nat.not_lt_zero i)⟩
  | succ N ih =>
      obtain ⟨b₁, h₁⟩ := ih fun i hi => h i (by omega)
      obtain ⟨b₂, h₂⟩ := h N (by omega)
      refine ⟨max b₁ b₂, ?_⟩
      intro i hi n hn
      rcases Nat.lt_or_ge i N with hlt | hge
      · exact h₁ i hlt n (le_trans (le_max_left b₁ b₂) hn)
      · rw [show i = N by omega]
        exact h₂ n (le_trans (le_max_right b₁ b₂) hn)

/-- A loaded table without cycles has a fuel for all its walks. -/
theorem exists_enoughFuel {nodes : List NodeInfo} (h : Loaded nodes)
    (hac : Acyclic (parentOf nodes)) : ∃ bound, ∀ fuel, bound ≤ fuel → EnoughFuel nodes fuel := by
  have hfin := parentOf_finite nodes
  obtain ⟨b₁, hclimb⟩ := exists_bound_lt (P := fun d n => ∀ l r,
    RootChain (parentOf nodes) l d → l.head? = some r → findRoot nodes n d = some r)
    nodes.length fun d _ => by
      obtain ⟨l, hl⟩ := (acyclic_iff_rootChain hfin).mp hac d
      obtain ⟨r, hr, _, hends⟩ := hl.climb
      refine ⟨l.length, ?_⟩
      intro n hn l' r' hl' hr'
      rw [hl'.unique hl, hr, Option.some.injEq] at hr'
      exact hr' ▸ hends n hn
  obtain ⟨b₂, hlist⟩ := exists_bound_lt
    (P := fun c n => ∃ l, preorder (childrenOf nodes) n c = some l) nodes.length fun c _ => by
      obtain ⟨m, hm⟩ := (preorder_ends_iff hfin h.mem_childrenOf).mpr (hac c)
      obtain ⟨l, hl⟩ := Option.isSome_iff_exists.mp hm
      exact ⟨m, fun n hn => ⟨l, preorder_mono hn hl⟩⟩
  obtain ⟨b₃, hwalk⟩ := exists_bound_lt (P := fun d n => ∀ x, x < nodes.length → ∀ c,
    parentOf nodes x = some c → Above (parentOf nodes) x d →
      walkBelow (parentOf nodes) c n d = some x) nodes.length fun d _ => by
      obtain ⟨b, hb⟩ := exists_bound_lt (P := fun x n => ∀ c, parentOf nodes x = some c →
        Above (parentOf nodes) x d → walkBelow (parentOf nodes) c n d = some x)
        nodes.length fun x _ => by
          by_cases hx : ∃ c, parentOf nodes x = some c ∧ Above (parentOf nodes) x d
          · obtain ⟨c, hc, hxd⟩ := hx
            obtain ⟨m, hm⟩ := walkBelow_child (hac c) hc hxd
            refine ⟨m, ?_⟩
            intro n hn c' hc' _
            rw [hc, Option.some.injEq] at hc'
            exact hc' ▸ hm n hn
          · exact ⟨0, fun n _ c hc hxd => absurd ⟨c, hc, hxd⟩ hx⟩
      exact ⟨b, fun n hn x hx => hb x hx n hn⟩
  refine ⟨max b₁ (max b₂ b₃), ?_⟩
  intro fuel hf
  have hf₁ : b₁ ≤ fuel := le_trans (le_max_left _ _) hf
  have hf₂ : b₂ ≤ fuel := le_trans (le_trans (le_max_left _ _) (le_max_right _ _)) hf
  have hf₃ : b₃ ≤ fuel := le_trans (le_trans (le_max_right _ _) (le_max_right _ _)) hf
  exact
    { climb := fun d hd => hclimb d hd fuel hf₁
      listing := fun c hc => hlist c hc fuel hf₂
      walk := fun d hd x c hc => hwalk d hd fuel hf₃ x (parentOf_lt hc) c hc }

end DataPropagator
