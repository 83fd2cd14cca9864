import DataPropagator.Common.NodeGraph
import DataPropagator.Common.Utils

/-!
# The context of a propagator

`cp_context.c`: a propagator loads the node table, finds its own row and collects the
rows below it into a map from ids to rows.  `collect_subtree` calls itself for every
child, and its recursion is bounded by a fuel argument here: `none` is a recursion
that the fuel did not let end.

The recursion visits the rows in the order of `Forest.preorder`, so the map is a list
of puts, and what it binds follows from what `preorder` lists.
-/

namespace DataPropagator

/-- The id of row `n`. -/
def rowId (nodes : List NodeInfo) (n : Nat) : CString :=
  match nodes[n]? with
  | some node => node.id
  | none => CString.ofBuffer []

/-- `collect_subtree`. -/
def collectSubtree (nodes : List NodeInfo) : Nat → Option (HashMap CString Nat) → Nat →
    Option (Option (HashMap CString Nat))
  | 0, _, _ => none
  | fuel + 1, m, n =>
      let m := hashmapPut m (rowId nodes n) (some n)
      (childrenOf nodes n).foldlM (collectSubtree nodes fuel) m

/-- `CPContext`.  The array `children` has `child_count` elements. -/
structure CPContext where
  map : Option (HashMap CString Nat)
  me : Nat
  children : List Nat
  allNodes : List NodeInfo

/-- `cp_context_create`, its allocations succeeding.  The result `some none` is NULL. -/
def cpContextCreate (fuel : Nat) (nodesCsv : Option Bytes) (rootId : CString) :
    Option (Option CPContext) :=
  match nodeLoadAll nodesCsv with
  | .error _ => some none
  | .ok all =>
      let allmap := putRows (hashmapCreate all.length hashString eqString true false) all
      match hashmapGet allmap rootId with
      | none => some none
      | some me =>
          let submap := hashmapCreate all.length hashString eqString true false
          (collectSubtree all fuel submap me).map fun submap =>
            some { map := submap, me, children := childrenOf all me, allNodes := all }

/-! ## What the map holds -/

/-- Put row `n` into a map under its id. -/
def putRow (nodes : List NodeInfo) (m : Option (HashMap CString Nat)) (n : Nat) :
    Option (HashMap CString Nat) :=
  hashmapPut m (rowId nodes n) (some n)

/-- A recursion over a list of children is a loop over what each of them lists. -/
theorem foldlM_gather {nodes : List NodeInfo} {fuel : Nat}
    (hfuel : ∀ m n, collectSubtree nodes fuel m n =
      (Forest.preorder (childrenOf nodes) fuel n).map (List.foldl (putRow nodes) m))
    (cs : List Nat) (m : Option (HashMap CString Nat)) :
    cs.foldlM (collectSubtree nodes fuel) m =
      (Forest.gather (Forest.preorder (childrenOf nodes) fuel) cs).map
        (List.foldl (putRow nodes) m) := by
  induction cs generalizing m with
  | nil => rfl
  | cons c cs ih =>
      rw [List.foldlM_cons, hfuel, Forest.gather]
      cases Forest.preorder (childrenOf nodes) fuel c with
      | none => rfl
      | some l =>
          show cs.foldlM (collectSubtree nodes fuel) (l.foldl (putRow nodes) m) = _
          rw [ih, Option.map_map]
          refine congrArg (fun f => Option.map f _) (funext ?_)
          intro k
          exact List.foldl_append.symm

/-- `collect_subtree` puts the rows that `preorder` lists, in that order. -/
theorem collectSubtree_eq (nodes : List NodeInfo) (fuel : Nat)
    (m : Option (HashMap CString Nat)) (n : Nat) : collectSubtree nodes fuel m n =
      (Forest.preorder (childrenOf nodes) fuel n).map (List.foldl (putRow nodes) m) := by
  induction fuel generalizing m n with
  | zero => rfl
  | succ fuel ih =>
      rw [collectSubtree, Forest.preorder, Option.map_map, foldlM_gather ih]
      rfl

/-- The ids of a table are pairwise distinct. -/
def DistinctIds (nodes : List NodeInfo) : Prop := (nodes.map NodeInfo.id).Nodup

instance (nodes : List NodeInfo) : Decidable (DistinctIds nodes) :=
  inferInstanceAs (Decidable (List.Nodup _))

/-- Rows that agree in what the table has no two rows of are one row. -/
theorem eq_of_nodup_map {β : Type} {f : NodeInfo → β} {nodes : List NodeInfo}
    (h : (nodes.map f).Nodup) {i j : Nat} {a b : NodeInfo} (ha : nodes[i]? = some a)
    (hb : nodes[j]? = some b) (hf : f a = f b) : i = j := by
  have hi : i < (nodes.map f).length := by
    rw [List.length_map]
    exact (List.getElem?_eq_some_iff.mp ha).1
  refine (List.getElem?_inj hi h).mp ?_
  rw [List.getElem?_map, List.getElem?_map, ha, hb, Option.map_some, Option.map_some, hf]

/-- Two rows of one id are one row. -/
theorem DistinctIds.eq_of_id {nodes : List NodeInfo} (h : DistinctIds nodes) {i j : Nat}
    {a b : NodeInfo} (ha : nodes[i]? = some a) (hb : nodes[j]? = some b) (hid : a.id = b.id) :
    i = j :=
  eq_of_nodup_map h ha hb hid

/-- With distinct ids the last row that carries an id is any row that carries it. -/
theorem DistinctIds.lastRow {nodes : List NodeInfo} (h : DistinctIds nodes) {i : Nat}
    {node : NodeInfo} (hi : nodes[i]? = some node) : lastRow nodes node.id = some i := by
  refine (lastRow_eq_some_iff nodes node.id i).mpr ⟨⟨node, hi, rfl⟩, ?_⟩
  intro j n hj hn hid
  have := h.eq_of_id hn hi hid
  omega

/-- With distinct ids `node_find_by_id` finds the row that carries the id. -/
theorem DistinctIds.nodeFindById {nodes : List NodeInfo} (h : DistinctIds nodes) {i : Nat}
    {node : NodeInfo} (hi : nodes[i]? = some node) : nodeFindById nodes node.id = some i := by
  obtain ⟨hlt, hget⟩ := List.getElem?_eq_some_iff.mp hi
  refine List.findIdx?_eq_some_iff_getElem.mpr ⟨hlt, ?_, fun j hj => ?_⟩
  · rw [hget]
    exact (eqString_iff _ _).mpr rfl
  · intro he
    have hid := (eqString_iff _ _).mp he
    have := h.eq_of_id (List.getElem?_eq_getElem (by omega)) hi hid
    omega

theorem rowId_eq {nodes : List NodeInfo} {i : Nat} {node : NodeInfo}
    (h : nodes[i]? = some node) : rowId nodes i = node.id := by
  rw [rowId, h]

/-- What a map filled with the rows of a list binds an id to: the last of them that
carries it. -/
theorem foldl_putRow_get {capacity : Nat} (hc : 1 ≤ capacity) (nodes : List NodeInfo)
    (l : List Nat) (s : CString) :
    hashmapGet (l.foldl (putRow nodes) (hashmapCreate capacity hashString eqString true false)) s =
      l.reverse.find? fun n => eqString (rowId nodes n) s := by
  obtain ⟨m₀, hm₀, h₀⟩ :=
    HashMap.hashmapCreate_holds (V := Nat) hc hashString eqString true false
  obtain ⟨m, hm, h⟩ := HashMap.Holds.foldl_put lawfulKey_hashString (rowId nodes) some l h₀
  have hfold : l.foldl (putRow nodes) (hashmapCreate capacity hashString eqString true false) =
      some m := by
    rw [hm₀]
    exact hm
  rw [hfold]
  show m.get s = _
  rw [HashMap.get_eq_lookup, h.lookup_eq, KeyMap.assignAll_apply, ← List.map_reverse,
    List.find?_map]
  simp only [Function.comp_def]
  cases l.reverse.find? fun n => eqString (rowId nodes n) s <;> rfl

/-- The row a map filled with the rows of a list finds is one of them and carries the
id. -/
theorem foldl_putRow_get_some {capacity : Nat} (hc : 1 ≤ capacity) {nodes : List NodeInfo}
    {l : List Nat} {s : CString} {n : Nat}
    (h : hashmapGet (l.foldl (putRow nodes)
      (hashmapCreate capacity hashString eqString true false)) s = some n) :
    n ∈ l ∧ rowId nodes n = s := by
  rw [foldl_putRow_get hc] at h
  have hid : eqString (rowId nodes n) s = true := by simpa using List.find?_some h
  exact ⟨List.mem_reverse.mp (List.mem_of_find?_eq_some h), (eqString_iff _ _).mp hid⟩

/-! ## What the context is -/

/-- What `cp_context_create` returns: the row with the id, and a map filled with the
rows listed from it. -/
theorem cpContextCreate_some {fuel : Nat} {content : Bytes} {nodes : List NodeInfo}
    (hload : nodeLoadAll (some content) = .ok nodes) {rootId : CString} {ctx : CPContext}
    (h : cpContextCreate fuel (some content) rootId = some (some ctx)) :
    lastRow nodes rootId = some ctx.me ∧ ctx.allNodes = nodes ∧
      ctx.children = childrenOf nodes ctx.me ∧ ∃ l,
        Forest.preorder (childrenOf nodes) fuel ctx.me = some l ∧
        ctx.map = l.foldl (putRow nodes)
          (hashmapCreate nodes.length hashString eqString true false) := by
  rw [cpContextCreate, hload] at h
  simp only at h
  cases hget : hashmapGet (putRows (hashmapCreate nodes.length hashString eqString true false)
      nodes) rootId with
  | none => rw [hget] at h; cases h
  | some me =>
      rw [hget] at h
      simp only [collectSubtree_eq, Option.map_map] at h
      obtain ⟨l, hl, hctx⟩ := Option.map_eq_some_iff.mp h
      rw [Function.comp_apply, Option.some.injEq] at hctx
      subst hctx
      refine ⟨?_, rfl, rfl, l, hl, rfl⟩
      rcases Nat.eq_zero_or_pos nodes.length with hzero | hpos
      · rw [List.length_eq_zero_iff.mp hzero] at hget
        cases hget
      · rwa [putRows_get hpos] at hget

/-- `cp_context_create` for an id that a row carries ends when the listing from that
row does. -/
theorem cpContextCreate_of_preorder {fuel : Nat} {content : Bytes} {nodes : List NodeInfo}
    (hload : nodeLoadAll (some content) = .ok nodes) {rootId : CString} {me : Nat}
    (hme : lastRow nodes rootId = some me) {l : List Nat}
    (hl : Forest.preorder (childrenOf nodes) fuel me = some l) :
    ∃ ctx, cpContextCreate fuel (some content) rootId = some (some ctx) ∧ ctx.me = me := by
  have hpos : 1 ≤ nodes.length := Nat.lt_of_le_of_lt (Nat.zero_le me) (lastRow_lt hme)
  rw [cpContextCreate, hload]
  simp only [putRows_get hpos, hme, collectSubtree_eq, hl]
  exact ⟨_, rfl, rfl⟩

/-- The rows the map finds lie at or below the own row. -/
theorem cpContextCreate_get {fuel : Nat} {content : Bytes} {nodes : List NodeInfo}
    (hload : nodeLoadAll (some content) = .ok nodes) {rootId : CString} {ctx : CPContext}
    (h : cpContextCreate fuel (some content) rootId = some (some ctx)) {s : CString} {d : Nat}
    (hd : hashmapGet ctx.map s = some d) :
    Forest.Above (parentOf nodes) ctx.me d ∧ rowId nodes d = s := by
  obtain ⟨hme, _, _, l, hl, hmap⟩ := cpContextCreate_some hload h
  have hpos : 1 ≤ nodes.length := Nat.lt_of_le_of_lt (Nat.zero_le _) (lastRow_lt hme)
  rw [hmap] at hd
  obtain ⟨hmem, hid⟩ := foldl_putRow_get_some hpos hd
  exact ⟨(Forest.mem_preorder (Loaded.mem_childrenOf ⟨content, hload⟩) hl d).mp hmem, hid⟩

/-- With distinct ids the map finds every row at or below the own row under its id. -/
theorem cpContextCreate_get_of_above {fuel : Nat} {content : Bytes} {nodes : List NodeInfo}
    (hload : nodeLoadAll (some content) = .ok nodes) (hids : DistinctIds nodes)
    {rootId : CString} {ctx : CPContext}
    (h : cpContextCreate fuel (some content) rootId = some (some ctx)) {d : Nat} {node : NodeInfo}
    (hd : nodes[d]? = some node) (habove : Forest.Above (parentOf nodes) ctx.me d) :
    hashmapGet ctx.map node.id = some d := by
  obtain ⟨hme, _, _, l, hl, hmap⟩ := cpContextCreate_some hload h
  have hpos : 1 ≤ nodes.length := Nat.lt_of_le_of_lt (Nat.zero_le _) (lastRow_lt hme)
  have hmem := (Forest.mem_preorder (Loaded.mem_childrenOf ⟨content, hload⟩) hl d).mpr habove
  cases hget : hashmapGet ctx.map node.id with
  | none =>
      rw [hmap, foldl_putRow_get hpos, List.find?_eq_none] at hget
      refine absurd ((eqString_iff _ _).mpr (rowId_eq hd)) ?_
      exact hget d (List.mem_reverse.mpr hmem)
  | some n =>
      obtain ⟨habove', hid⟩ := cpContextCreate_get hload h hget
      rw [hmap] at hget
      obtain ⟨hn, _⟩ := foldl_putRow_get_some hpos hget
      -- a listed row is a row of the table, so its id determines it
      have hrow := List.getElem?_eq_getElem (below_lt (lastRow_lt hme) habove')
      rw [rowId_eq hrow] at hid
      rw [hids.eq_of_id hrow hd hid]

end DataPropagator
