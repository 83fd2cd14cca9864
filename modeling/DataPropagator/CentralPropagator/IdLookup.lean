import DataPropagator.CentralPropagator.Context

/-!
# The lookups of an id

The program looks an id up in four places.  `node_find_by_id` scans the table and stops at
the first row with the id.  The map inside `node_load_all` and the map that
`cp_context_create` finds its own row with are filled in file order, and a put of a key
that is there replaces its value, so both give the last row with the id.  The map of a
context is filled in the order of `collect_subtree`, and gives the last row with the id in
that order.

No pass of the loader compares the ids of its rows, so a table may repeat one.
`lookups_agree_iff` says which row each of the four gives, for every table, and that they
give one row exactly when at most one row carries the id.
-/

namespace DataPropagator

open Forest

/-- The map from ids to rows that `node_load_all` fills before it links the rows. -/
def loaderMap (content : Bytes) : Option (HashMap CString Nat) :=
  putRows (hashmapCreate (fileRows content).cap hashString eqString true false)
    (fileRows content).arr

/-- The first pass of `node_load_all` looks the parents up in this map. -/
theorem nodeLoadAll_loaderMap (content : Bytes) : nodeLoadAll (some content) = (do
    let rows := fileRows content
    let arr := (List.range rows.arr.length).foldl (linkParent (loaderMap content) rows.parentIds)
      rows.arr
    let arr := arr.map allocChildren
    let arr ← (List.range arr.length).foldlM fillChild arr
    return arr.map classify) :=
  rfl

/-! ## The rows with an id -/

/-- Row `i` carries the id `s`. -/
def CarriesId (nodes : List NodeInfo) (s : CString) (i : Nat) : Prop :=
  ∃ node, nodes[i]? = some node ∧ node.id = s

/-- `i` is the first row that carries the id `s`. -/
def IsFirstRow (nodes : List NodeInfo) (s : CString) (i : Nat) : Prop :=
  CarriesId nodes s i ∧ ∀ j, j < i → ¬ CarriesId nodes s j

/-- At most one row carries the id `s`. -/
def AtMostOneRow (nodes : List NodeInfo) (s : CString) : Prop :=
  ∀ i j, CarriesId nodes s i → CarriesId nodes s j → i = j

theorem carriesId_iff_rowId {nodes : List NodeInfo} {s : CString} {i : Nat}
    (hi : i < nodes.length) : CarriesId nodes s i ↔ rowId nodes i = s := by
  have hrow := List.getElem?_eq_getElem hi
  rw [rowId_eq hrow]
  constructor
  · rintro ⟨node, hn, hid⟩
    rw [hrow, Option.some.injEq] at hn
    exact hn ▸ hid
  · intro hid
    exact ⟨_, hrow, hid⟩

/-- The last row with an id is the one no row with it comes after. -/
theorem isLastRow_iff {nodes : List NodeInfo} {s : CString} {i : Nat} :
    IsLastRow nodes s i ↔ CarriesId nodes s i ∧ ∀ j, i < j → ¬ CarriesId nodes s j := by
  constructor
  · rintro ⟨hi, hlast⟩
    refine ⟨hi, ?_⟩
    rintro j hj ⟨node, hn, hid⟩
    exact hlast j node hj hn hid
  · rintro ⟨hi, hlast⟩
    exact ⟨hi, fun j node hj hn hid => hlast j hj ⟨node, hn, hid⟩⟩

/-- `node_find_by_id` finds the first row with the id. -/
theorem nodeFindById_eq_some_iff (nodes : List NodeInfo) (s : CString) (i : Nat) :
    nodeFindById nodes s = some i ↔ IsFirstRow nodes s i := by
  rw [nodeFindById, List.findIdx?_eq_some_iff_getElem]
  constructor
  · rintro ⟨hi, hid, hfirst⟩
    refine ⟨⟨nodes[i], List.getElem?_eq_getElem hi, (eqString_iff _ _).mp hid⟩, ?_⟩
    intro j hj hc
    rw [carriesId_iff_rowId (by omega), rowId_eq (List.getElem?_eq_getElem (by omega))] at hc
    exact hfirst j hj ((eqString_iff _ _).mpr hc)
  · rintro ⟨⟨node, hn, hid⟩, hfirst⟩
    obtain ⟨hi, hget⟩ := List.getElem?_eq_some_iff.mp hn
    refine ⟨hi, (eqString_iff _ _).mpr (by rw [hget, hid]), ?_⟩
    intro j hj he
    exact hfirst j hj ⟨nodes[j], List.getElem?_eq_getElem (by omega), (eqString_iff _ _).mp he⟩

/-- Where at most one row carries an id, the first and the last such row are any row that
carries it. -/
theorem AtMostOneRow.isFirstRow_iff {nodes : List NodeInfo} {s : CString}
    (h : AtMostOneRow nodes s) (i : Nat) : IsFirstRow nodes s i ↔ CarriesId nodes s i := by
  constructor
  · exact fun hi => hi.1
  · intro hi
    refine ⟨hi, ?_⟩
    intro j hj hc
    have := h j i hc hi
    omega

theorem AtMostOneRow.isLastRow_iff {nodes : List NodeInfo} {s : CString}
    (h : AtMostOneRow nodes s) (i : Nat) : IsLastRow nodes s i ↔ CarriesId nodes s i := by
  rw [DataPropagator.isLastRow_iff]
  constructor
  · exact fun hi => hi.1
  · intro hi
    refine ⟨hi, ?_⟩
    intro j hj hc
    have := h j i hc hi
    omega

/-- The first row with an id is the last one exactly when at most one row carries it. -/
theorem first_eq_last_iff (nodes : List NodeInfo) (s : CString) :
    lastRow nodes s = nodeFindById nodes s ↔ AtMostOneRow nodes s := by
  constructor
  · intro h i j hi hj
    cases hk : nodeFindById nodes s with
    | none =>
        rw [hk, lastRow_eq_none_iff] at h
        obtain ⟨node, hn, hid⟩ := hi
        exact absurd hid (h node (List.mem_of_getElem? hn))
    | some k =>
        -- every row with the id lies between the first and the last, which are row `k`
        rw [hk, lastRow_eq_some_iff, isLastRow_iff] at h
        rw [nodeFindById_eq_some_iff] at hk
        have hbetween : ∀ n, CarriesId nodes s n → n = k := by
          intro n hn
          have hle : ¬ k < n := fun hlt => h.2 n hlt hn
          have hge : ¬ n < k := fun hlt => hk.2 n hlt hn
          omega
        rw [hbetween i hi, hbetween j hj]
  · intro h
    ext i
    rw [lastRow_eq_some_iff, nodeFindById_eq_some_iff, h.isFirstRow_iff, h.isLastRow_iff]

/-! ## The maps -/

/-- Linking the rows leaves their ids as they are, so a table and the rows it was linked
from have the same last row of an id. -/
theorem loaderMap_get {content : Bytes} {nodes : List NodeInfo}
    (hload : nodeLoadAll (some content) = .ok nodes) (s : CString) :
    hashmapGet (loaderMap content) s = lastRow nodes s := by
  rw [nodeLoadAll_eq, Except.ok.injEq] at hload
  subst hload
  rw [loaderMap, putRows_get (fileRows_fresh content).cap_pos]
  ext i
  rw [lastRow_eq_some_iff, lastRow_eq_some_iff, isLastRow_linked]

/-- The row `node_load_all` links to a parent id is what its map gives for it. -/
theorem parentOf_loaderMap {content : Bytes} {nodes : List NodeInfo}
    (hload : nodeLoadAll (some content) = .ok nodes) {i : Nat} {s : CString}
    (hi : (fileRows content).parentIds[i]? = some (some s)) :
    parentOf nodes i = hashmapGet (loaderMap content) s := by
  rw [loaderMap, putRows_get (fileRows_fresh content).cap_pos]
  rw [nodeLoadAll_eq, Except.ok.injEq] at hload
  rw [← hload, parentOf_linked (fileRows_fresh content), Rows.parent, hi]
  rfl

/-- `cp_context_create` takes the last row with the id as its own, and gives NULL exactly
when there is none. -/
theorem cpContextCreate_me {fuel : Nat} {content : Bytes} {nodes : List NodeInfo}
    (hload : nodeLoadAll (some content) = .ok nodes) {s : CString} {r : Option CPContext}
    (h : cpContextCreate fuel (some content) s = some r) :
    r.map CPContext.me = lastRow nodes s := by
  cases r with
  | some ctx => exact (cpContextCreate_some hload h).1.symm
  | none =>
      cases hlast : lastRow nodes s with
      | none => rfl
      | some me =>
          have hpos : 1 ≤ nodes.length := Nat.lt_of_le_of_lt (Nat.zero_le me) (lastRow_lt hlast)
          rw [cpContextCreate, hload] at h
          simp only [putRows_get hpos, hlast] at h
          obtain ⟨_, _, hnone⟩ := Option.map_eq_some_iff.mp h
          cases hnone

/-- `cp_context_create` returns for every id whose last row lies on no cycle. -/
theorem cpContextCreate_returns {content : Bytes} {nodes : List NodeInfo}
    (hload : nodeLoadAll (some content) = .ok nodes) {s : CString}
    (hcycle : ∀ me, lastRow nodes s = some me → ¬ StrictlyAbove (parentOf nodes) me me) :
    ∃ fuel r, cpContextCreate fuel (some content) s = some r := by
  cases hlast : lastRow nodes s with
  | some me =>
      have hends := preorder_ends_iff (parentOf_finite nodes)
        (Loaded.mem_childrenOf ⟨content, hload⟩) (a := me)
      obtain ⟨fuel, hl⟩ := hends.mpr (hcycle me hlast)
      obtain ⟨l, hl⟩ := Option.isSome_iff_exists.mp hl
      obtain ⟨ctx, hctx, _⟩ := cpContextCreate_of_preorder hload hlast hl
      exact ⟨fuel, some ctx, hctx⟩
  | none =>
      refine ⟨0, none, ?_⟩
      rw [cpContextCreate, hload]
      rcases Nat.eq_zero_or_pos nodes.length with hzero | hpos
      · rw [List.length_eq_zero_iff.mp hzero]
        rfl
      · simp only [putRows_get hpos, hlast]

/-- The map of a context gives the last row with the id in the order `collect_subtree`
visits the rows below the own one. -/
theorem cpContextCreate_map {fuel : Nat} {content : Bytes} {nodes : List NodeInfo}
    (hload : nodeLoadAll (some content) = .ok nodes) {rootId : CString} {ctx : CPContext}
    (h : cpContextCreate fuel (some content) rootId = some (some ctx)) (s : CString) :
    ∃ l, preorder (childrenOf nodes) fuel ctx.me = some l ∧
      hashmapGet ctx.map s = l.reverse.find? fun n => eqString (rowId nodes n) s := by
  obtain ⟨hme, _, _, l, hl, hmap⟩ := cpContextCreate_some hload h
  have hpos : 1 ≤ nodes.length := Nat.lt_of_le_of_lt (Nat.zero_le _) (lastRow_lt hme)
  exact ⟨l, hl, by rw [hmap, foldl_putRow_get hpos]⟩

/-- A row the map of a context gives for an id carries it. -/
theorem cpContextCreate_get_carriesId {fuel : Nat} {content : Bytes} {nodes : List NodeInfo}
    (hload : nodeLoadAll (some content) = .ok nodes) {rootId : CString} {ctx : CPContext}
    (h : cpContextCreate fuel (some content) rootId = some (some ctx)) {s : CString} {d : Nat}
    (hd : hashmapGet ctx.map s = some d) : CarriesId nodes s d := by
  obtain ⟨habove, hid⟩ := cpContextCreate_get hload h hd
  have hme := lastRow_lt (cpContextCreate_some hload h).1
  exact (carriesId_iff_rowId (below_lt hme habove)).mpr hid

/-! ## When they agree -/

/-- Every lookup of `s` gives the row that `node_find_by_id` finds. -/
structure ResolvesAlike (content : Bytes) (nodes : List NodeInfo) (s : CString) : Prop where
  /-- the map the loader links children with -/
  loader : hashmapGet (loaderMap content) s = nodeFindById nodes s
  /-- the own row of a propagator started with this id -/
  root : ∀ fuel r, cpContextCreate fuel (some content) s = some r →
    r.map CPContext.me = nodeFindById nodes s
  /-- the map of any propagator that has the id below it -/
  subtree : ∀ fuel rootId ctx d, cpContextCreate fuel (some content) rootId = some (some ctx) →
    hashmapGet ctx.map s = some d → nodeFindById nodes s = some d

theorem resolvesAlike_iff {content : Bytes} {nodes : List NodeInfo}
    (hload : nodeLoadAll (some content) = .ok nodes) (s : CString) :
    ResolvesAlike content nodes s ↔ AtMostOneRow nodes s := by
  rw [← first_eq_last_iff]
  constructor
  · intro h
    rw [← loaderMap_get hload]
    exact h.loader
  · intro h
    constructor
    · rw [loaderMap_get hload, h]
    · intro fuel r hr
      rw [cpContextCreate_me hload hr, h]
    · intro fuel rootId ctx d hctx hd
      have hone := (first_eq_last_iff nodes s).mp h
      rw [nodeFindById_eq_some_iff, hone.isFirstRow_iff]
      exact cpContextCreate_get_carriesId hload hctx hd

/-- What each lookup of an id gives. -/
structure Lookups (content : Bytes) (nodes : List NodeInfo) (s : CString) : Prop where
  find : ∀ i, nodeFindById nodes s = some i ↔ IsFirstRow nodes s i
  loader : ∀ i, hashmapGet (loaderMap content) s = some i ↔ IsLastRow nodes s i
  parent : ∀ i : Nat, (fileRows content).parentIds[i]? = some (some s) →
    parentOf nodes i = hashmapGet (loaderMap content) s
  root : ∀ fuel r, cpContextCreate fuel (some content) s = some r →
    r.map CPContext.me = hashmapGet (loaderMap content) s
  /-- The propagator of an id whose row lies on no cycle comes to have a context. -/
  root_returns : (∀ me, hashmapGet (loaderMap content) s = some me →
    ¬ StrictlyAbove (parentOf nodes) me me) →
      ∃ fuel r, cpContextCreate fuel (some content) s = some r
  subtree : ∀ fuel rootId ctx, cpContextCreate fuel (some content) rootId = some (some ctx) →
    ∃ l, preorder (childrenOf nodes) fuel ctx.me = some l ∧
      hashmapGet ctx.map s = l.reverse.find? fun n => eqString (rowId nodes n) s

/-- For every table the loader returns and every id: `node_find_by_id` gives the first row
with the id, the loader's map and the own row of a propagator are the last one, the map of
a context gives the last one visited, and all of them are one row exactly when at most one
row carries the id. -/
theorem lookups_agree_iff {content : Bytes} {nodes : List NodeInfo}
    (hload : nodeLoadAll (some content) = .ok nodes) (s : CString) :
    Lookups content nodes s ∧ (ResolvesAlike content nodes s ↔ AtMostOneRow nodes s) := by
  refine ⟨?_, resolvesAlike_iff hload s⟩
  constructor
  · exact nodeFindById_eq_some_iff nodes s
  · intro i
    rw [loaderMap_get hload, lastRow_eq_some_iff]
  · exact fun i hi => parentOf_loaderMap hload hi
  · intro fuel r hr
    rw [loaderMap_get hload, cpContextCreate_me hload hr]
  · intro hcycle
    rw [loaderMap_get hload] at hcycle
    exact cpContextCreate_returns hload hcycle
  · exact fun fuel rootId ctx hctx => cpContextCreate_map hload hctx s

/-- The theorem at the two rows, for the name of the second. -/
theorem lookups_agree_iff_twoRows :
    Lookups twoRowFile twoRows nameB ∧
      (ResolvesAlike twoRowFile twoRows nameB ↔ AtMostOneRow twoRows nameB) :=
  lookups_agree_iff twoRowFile_load nameB

/-- Every id of a table is resolved alike exactly when no id is repeated. -/
theorem all_resolveAlike_iff {content : Bytes} {nodes : List NodeInfo}
    (hload : nodeLoadAll (some content) = .ok nodes) :
    (∀ s, ResolvesAlike content nodes s) ↔ DistinctIds nodes := by
  simp only [resolvesAlike_iff hload]
  constructor
  · intro h
    rw [DistinctIds, List.nodup_iff_injective_getElem]
    rintro ⟨i, hi⟩ ⟨j, hj⟩ hid
    rw [List.length_map] at hi hj
    simp only [List.getElem_map] at hid
    have := h nodes[i].id i j ⟨_, List.getElem?_eq_getElem hi, rfl⟩
      ⟨_, List.getElem?_eq_getElem hj, hid.symm⟩
    exact Fin.ext this
  · rintro h s i j ⟨a, ha, rfl⟩ ⟨b, hb, hid⟩
    exact h.eq_of_id ha hb hid.symm

/-! ## A table that repeats an id -/

/-- The name `R`. -/
def nameR : CString where
  bytes := [82]
  noZero := by decide

/-- The name `X`. -/
def nameX : CString where
  bytes := [88]
  noZero := by decide

/-- The lines `R,h,1`, `P,h,2,R`, `Q,h,3,R`, `X,h,4,P`, `X,h,5,Q` and `X,h,6,P`. -/
def repeatedIdFile : Bytes :=
  [82, 44, 104, 44, 49, 10,
    80, 44, 104, 44, 50, 44, 82, 10,
    81, 44, 104, 44, 51, 44, 82, 10,
    88, 44, 104, 44, 52, 44, 80, 10,
    88, 44, 104, 44, 53, 44, 81, 10,
    88, 44, 104, 44, 54, 44, 80, 10]

/-- The table of these lines. -/
def repeatedIdRows : List NodeInfo :=
  (fileRows repeatedIdFile).arr.mapIdx (fileRows repeatedIdFile).linkedRow

theorem repeatedIdFile_load : nodeLoadAll (some repeatedIdFile) = .ok repeatedIdRows :=
  nodeLoadAll_eq repeatedIdFile

/-- In this table the scan finds the first row with the id, the loader links to the third,
which a propagator of that name takes as its own row, and the propagator of the root
forwards to the second. -/
theorem repeated_id_resolves_apart :
    nodeLoadAll (some repeatedIdFile) = .ok repeatedIdRows ∧
      nodeFindById repeatedIdRows nameX = some 3 ∧
      hashmapGet (loaderMap repeatedIdFile) nameX = some 5 ∧
      ((cpContextCreate 1 (some repeatedIdFile) nameX).map fun r => r.map CPContext.me) =
        some (some 5) ∧
      ((cpContextCreate 3 (some repeatedIdFile) nameR).map fun r =>
        r.bind fun ctx => hashmapGet ctx.map nameX) = some (some 4) ∧
      ¬ ResolvesAlike repeatedIdFile repeatedIdRows nameX := by
  have hfind : nodeFindById repeatedIdRows nameX = some 3 := by decide +kernel
  have hloader : hashmapGet (loaderMap repeatedIdFile) nameX = some 5 := by decide +kernel
  refine ⟨repeatedIdFile_load, hfind, hloader, by decide +kernel, by decide +kernel, ?_⟩
  intro h
  have hsame := h.loader
  rw [hfind, hloader] at hsame
  cases hsame

end DataPropagator
