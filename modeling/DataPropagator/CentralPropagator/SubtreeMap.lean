import DataPropagator.CentralPropagator.IdLookup
import DataPropagator.CentralPropagator.TreeWalks

/-!
# The map of a subtree

`cp_context_create` fills its map by a recursion over the children of its own row.  In a
table with distinct ids and without cycles the map is the subtree: it finds a row under an
id if and only if the row carries the id and is the own row or below it, and `size` counts
the rows of the subtree.
-/

namespace DataPropagator

open Forest

variable {content : Bytes} {nodes : List NodeInfo} {fuel : Nat} {rootId : CString}
  {ctx : CPContext}

/-- The children of a row in file order. -/
def fileChildren (nodes : List NodeInfo) (i : Nat) : List Nat :=
  (List.range nodes.length).filter fun j => parentOf nodes j = some i

/-- `children` lists the rows whose parent link leads to the row, in file order. -/
theorem Loaded.childrenOf_eq (h : Loaded nodes) {i : Nat} (hi : i < nodes.length) :
    childrenOf nodes i = fileChildren nodes i := by
  obtain ⟨rows, hc⟩ := h.consistent
  have hnode := List.getElem?_eq_getElem hi
  have hch := hc.children i _ hnode
  have hcount := hc.childCount _ (List.mem_of_getElem? hnode)
  simp only [childrenOf, hnode, NodeInfo.childList, hcount, List.take_length, hch]
  rw [List.reduceOption, List.filterMap_map]
  exact List.filterMap_some

/-- A map filled with rows binds an id if and only if one of them carries it. -/
theorem assignAll_rows_isSome (nodes : List NodeInfo) (l : List Nat) (s : CString) :
    (KeyMap.assignAll eqString (fun _ => none) (l.map fun n => (rowId nodes n, some n)) s).isSome ↔
      ∃ n ∈ l, rowId nodes n = s := by
  rw [KeyMap.assignAll_apply]
  constructor
  · intro h
    split at h
    next p hp =>
        obtain ⟨n, hn, rfl⟩ := List.mem_map.mp (List.mem_reverse.mp (List.mem_of_find?_eq_some hp))
        exact ⟨n, hn, (eqString_iff _ _).mp (by simpa using List.find?_some hp)⟩
    next => cases h
  · rintro ⟨n, hn, hid⟩
    split
    next => rfl
    next hnone =>
        have hmem : (rowId nodes n, some n) ∈
            (l.map fun n => (rowId nodes n, some n)).reverse :=
          List.mem_reverse.mpr (List.mem_map_of_mem hn)
        exact absurd ((eqString_iff _ _).mpr hid) (List.find?_eq_none.mp hnone _ hmem)

/-- The size of a map filled with rows of different ids is the number of the rows. -/
theorem foldl_putRow_size {capacity : Nat} (hc : 1 ≤ capacity) (nodes : List NodeInfo)
    (l : List Nat) (hids : Set.InjOn (rowId nodes) {n | n ∈ l}) :
    hashmapSize (l.foldl (putRow nodes) (hashmapCreate capacity hashString eqString true false)) =
      {n | n ∈ l}.ncard := by
  obtain ⟨m₀, hm₀, h₀⟩ :=
    HashMap.hashmapCreate_holds (V := Nat) hc hashString eqString true false
  obtain ⟨m, hm, h⟩ := HashMap.Holds.foldl_put lawfulKey_hashString (rowId nodes) some l h₀
  have hfold : l.foldl (putRow nodes) (hashmapCreate capacity hashString eqString true false) =
      some m := by
    rw [hm₀]
    exact hm
  have himage : HashMap.boundClasses lawfulKey_hashString (KeyMap.assignAll eqString (fun _ => none)
      (l.map fun n => (rowId nodes n, some n))) =
        Set.image (fun n => Quotient.mk lawfulKey_hashString.setoid (rowId nodes n)) {n | n ∈ l} := by
    ext q
    constructor
    · rintro ⟨s, rfl, hs⟩
      obtain ⟨n, hn, rfl⟩ := (assignAll_rows_isSome nodes l s).mp hs
      exact ⟨n, hn, rfl⟩
    · rintro ⟨n, hn, rfl⟩
      exact ⟨_, rfl, (assignAll_rows_isSome nodes l _).mpr ⟨n, hn, rfl⟩⟩
  rw [hfold]
  show m.size = _
  rw [h.size lawfulKey_hashString, himage]
  apply Set.InjOn.ncard_image
  intro a ha b hb hab
  exact hids ha hb ((eqString_iff _ _).mp (Quotient.exact hab))

/-! ## The context -/

/-- The rows at and below a row. -/
def subtreeOf (nodes : List NodeInfo) (me : Nat) : Set Nat := {d | Above (parentOf nodes) me d}

/-- The context holds the subtree of the row with an id. -/
structure HoldsSubtree (nodes : List NodeInfo) (rootId : CString) (ctx : CPContext) : Prop where
  me : CarriesId nodes rootId ctx.me
  get : ∀ s d, hashmapGet ctx.map s = some d ↔ CarriesId nodes s d ∧ d ∈ subtreeOf nodes ctx.me
  size : hashmapSize ctx.map = (subtreeOf nodes ctx.me).ncard
  children : ctx.children = fileChildren nodes ctx.me

theorem lastRow_carriesId {s : CString} {i : Nat} (h : lastRow nodes s = some i) :
    CarriesId nodes s i :=
  ((lastRow_eq_some_iff nodes s i).mp h).1

theorem cpContextCreate_holdsSubtree (hload : nodeLoadAll (some content) = .ok nodes)
    (hids : DistinctIds nodes)
    (h : cpContextCreate fuel (some content) rootId = some (some ctx)) :
    HoldsSubtree nodes rootId ctx := by
  obtain ⟨hme, _, hchildren, l, hl, hmap⟩ := cpContextCreate_some hload h
  have hlt := lastRow_lt hme
  have hpos : 1 ≤ nodes.length := Nat.lt_of_le_of_lt (Nat.zero_le _) hlt
  have hlisted : {n | n ∈ l} = subtreeOf nodes ctx.me := by
    ext d
    exact mem_preorder (Loaded.mem_childrenOf ⟨content, hload⟩) hl d
  have hinj : Set.InjOn (rowId nodes) {n | n ∈ l} := by
    intro a ha b hb hab
    rw [hlisted] at ha hb
    have hrowa := List.getElem?_eq_getElem (below_lt hlt ha)
    have hrowb := List.getElem?_eq_getElem (below_lt hlt hb)
    rw [rowId_eq hrowa, rowId_eq hrowb] at hab
    exact hids.eq_of_id hrowa hrowb hab
  constructor
  · exact lastRow_carriesId hme
  · intro s d
    constructor
    · intro hd
      exact ⟨cpContextCreate_get_carriesId hload h hd, (cpContextCreate_get hload h hd).1⟩
    · rintro ⟨⟨node, hnode, rfl⟩, habove⟩
      exact cpContextCreate_get_of_above hload hids h hnode habove
  · rw [hmap, foldl_putRow_size hpos nodes l hinj, hlisted]
  · rw [hchildren, Loaded.childrenOf_eq ⟨content, hload⟩ hlt]

/-- For every table that the loader returns with distinct ids and no cycles, and for every
id: given enough fuel `cp_context_create` returns, with NULL if and only if no row carries
the id, and otherwise with the subtree of the row that does. -/
theorem context_holds_subtree (hload : nodeLoadAll (some content) = .ok nodes)
    (hac : Acyclic (parentOf nodes)) (hids : DistinctIds nodes) (rootId : CString) :
    ∃ bound, ∀ fuel, bound ≤ fuel → ∃ r, cpContextCreate fuel (some content) rootId = some r ∧
      (r = none ↔ ∀ i, ¬ CarriesId nodes rootId i) ∧
      ∀ ctx, r = some ctx → HoldsSubtree nodes rootId ctx := by
  obtain ⟨bound, hbound⟩ := exists_enoughFuel ⟨content, hload⟩ hac
  refine ⟨bound, ?_⟩
  intro fuel hfuel
  have hreturns : ∃ r, cpContextCreate fuel (some content) rootId = some r := by
    cases hme : lastRow nodes rootId with
    | some me =>
        obtain ⟨l, hl⟩ := (hbound fuel hfuel).listing me (lastRow_lt hme)
        obtain ⟨ctx, hctx, _⟩ := cpContextCreate_of_preorder hload hme hl
        exact ⟨some ctx, hctx⟩
    | none =>
        refine ⟨none, ?_⟩
        rw [cpContextCreate, hload]
        rcases Nat.eq_zero_or_pos nodes.length with hzero | hpos
        · rw [List.length_eq_zero_iff.mp hzero]
          rfl
        · simp only [putRows_get hpos, hme]
  obtain ⟨r, hr⟩ := hreturns
  refine ⟨r, hr, ?_, ?_⟩
  · have hroot := cpContextCreate_me hload hr
    constructor
    · rintro rfl
      rintro i ⟨node, hnode, hid⟩
      exact (lastRow_eq_none_iff nodes rootId).mp hroot.symm node (List.mem_of_getElem? hnode) hid
    · intro hnone
      cases r with
      | none => rfl
      | some ctx => exact absurd (lastRow_carriesId hroot.symm) (hnone ctx.me)
  · rintro ctx rfl
    exact cpContextCreate_holdsSubtree hload hids hr

/-- The theorem at the two rows, for the name of the first. -/
theorem context_holds_subtree_twoRows :
    ∃ bound, ∀ fuel, bound ≤ fuel → ∃ r, cpContextCreate fuel (some twoRowFile) nameA = some r ∧
      (r = none ↔ ∀ i, ¬ CarriesId twoRows nameA i) ∧
      ∀ ctx, r = some ctx → HoldsSubtree twoRows nameA ctx :=
  context_holds_subtree twoRowFile_load twoRows_acyclic (by decide) nameA

end DataPropagator
