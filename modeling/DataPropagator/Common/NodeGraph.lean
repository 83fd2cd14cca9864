import DataPropagator.Common.HashMapRuns
import DataPropagator.Common.Node
import DataPropagator.Lib.ParentForest
import Mathlib.Data.List.ReduceOption

/-!
# What the loader builds

The four passes of `node_load_all` are described by one function, `linkedRow`: the
row with its parent resolved to the last row carrying the parent id, its children
in file order and its type derived from both.  `nodeLoadAll_eq` says that the
loader returns exactly that, for every file, and so never writes outside the cells
it allocated.

Each pass is a loop over the rows.  Its lemma says what the array looks like after
the first `k` rows, as a function of the index, and the loop is the case where `k`
is the number of rows.
-/

namespace DataPropagator

/-! ## The row an id stands for -/

/-- `i` is the last row that carries the id `s`. -/
def IsLastRow (arr : List NodeInfo) (s : CString) (i : Nat) : Prop :=
  (∃ node, arr[i]? = some node ∧ node.id = s) ∧
    ∀ j node, i < j → arr[j]? = some node → node.id ≠ s

/-- The last row that carries an id. -/
def lastRow (arr : List NodeInfo) (s : CString) : Option Nat :=
  (arr.zipIdx.reverse.find? fun p => eqString p.1.id s).map Prod.snd

theorem lastRow_append (arr : List NodeInfo) (node : NodeInfo) (s : CString) :
    lastRow (arr ++ [node]) s = if node.id = s then some arr.length else lastRow arr s := by
  by_cases h : node.id = s
  · subst h
    have hs := (eqString_iff node.id node.id).mpr rfl
    simp [lastRow, List.zipIdx_append, hs]
  · have hs : eqString node.id s = false := by
      rw [← Bool.not_eq_true, eqString_iff]
      exact h
    simp [lastRow, List.zipIdx_append, hs, h]

theorem lastRow_eq_some_iff (arr : List NodeInfo) (s : CString) (i : Nat) :
    lastRow arr s = some i ↔ IsLastRow arr s i := by
  induction arr using List.reverseRecOn with
  | nil => simp [lastRow, IsLastRow]
  | append_singleton arr node ih =>
      rw [lastRow_append]
      by_cases h : node.id = s
      · rw [if_pos h, Option.some.injEq]
        constructor
        · rintro rfl
          refine ⟨⟨node, by simp, h⟩, ?_⟩
          intro j n hj hn
          rw [List.getElem?_eq_none (by simp; omega)] at hn
          cases hn
        · rintro ⟨⟨n, hn, _⟩, hlast⟩
          have hlt := (List.getElem?_eq_some_iff.mp hn).1
          rw [List.length_append, List.length_singleton] at hlt
          by_contra hne
          exact hlast arr.length node (by omega) (by simp) h
      · rw [if_neg h, ih]
        constructor
        · rintro ⟨⟨n, hn, hid⟩, hlast⟩
          refine ⟨⟨n, ?_, hid⟩, ?_⟩
          · rw [List.getElem?_append_left (List.getElem?_eq_some_iff.mp hn).1]
            exact hn
          · intro j n' hj hn'
            rcases Nat.lt_or_ge j arr.length with hlt | hge
            · rw [List.getElem?_append_left hlt] at hn'
              exact hlast j n' hj hn'
            · rw [List.getElem?_append_right hge] at hn'
              have hmem := List.mem_of_getElem? hn'
              rw [List.mem_singleton] at hmem
              exact hmem ▸ h
        · rintro ⟨⟨n, hn, hid⟩, hlast⟩
          rcases Nat.lt_or_ge i arr.length with hlt | hge
          · rw [List.getElem?_append_left hlt] at hn
            refine ⟨⟨n, hn, hid⟩, fun j n' hj hn' => hlast j n' hj ?_⟩
            rw [List.getElem?_append_left (List.getElem?_eq_some_iff.mp hn').1]
            exact hn'
          · rw [List.getElem?_append_right hge] at hn
            have hmem := List.mem_of_getElem? hn
            rw [List.mem_singleton] at hmem
            exact absurd (hmem ▸ hid) h

theorem lastRow_eq_none_iff (arr : List NodeInfo) (s : CString) :
    lastRow arr s = none ↔ ∀ node ∈ arr, node.id ≠ s := by
  induction arr using List.reverseRecOn with
  | nil => simp [lastRow]
  | append_singleton arr node ih =>
      rw [lastRow_append]
      by_cases h : node.id = s <;> simp [h, ih, or_imp, forall_and]

theorem lastRow_lt {arr : List NodeInfo} {s : CString} {i : Nat} (h : lastRow arr s = some i) :
    i < arr.length := by
  obtain ⟨⟨_, hn, _⟩, _⟩ := (lastRow_eq_some_iff arr s i).mp h
  exact (List.getElem?_eq_some_iff.mp hn).1

/-- A map filled with the rows of a table binds every id to its last row. -/
theorem putRows_spec {capacity : Nat} (hc : 1 ≤ capacity) (arr : List NodeInfo) :
    ∃ m, putRows (hashmapCreate capacity hashString eqString true false) arr = some m ∧
      HashMap.Holds hashString eqString m fun s => (lastRow arr s).map some := by
  obtain ⟨m₀, hm₀, h₀⟩ :=
    HashMap.hashmapCreate_holds (V := Nat) hc hashString eqString true false
  obtain ⟨m, hm, h⟩ := HashMap.Holds.foldl_put lawfulKey_hashString
    (fun p : NodeInfo × Nat => p.1.id) (fun p => some p.2) arr.zipIdx h₀
  refine ⟨m, by rw [putRows, hm₀]; exact hm, ?_⟩
  convert h using 1
  funext s
  rw [KeyMap.assignAll_apply, ← List.map_reverse, List.find?_map, lastRow]
  simp only [Function.comp_def]
  cases arr.zipIdx.reverse.find? fun p => eqString p.1.id s <;> rfl

theorem putRows_get {capacity : Nat} (hc : 1 ≤ capacity) (arr : List NodeInfo) (s : CString) :
    hashmapGet (putRows (hashmapCreate capacity hashString eqString true false) arr) s =
      lastRow arr s := by
  obtain ⟨m, hm, h⟩ := putRows_spec hc arr
  rw [hm]
  show m.get s = _
  rw [HashMap.get_eq_lookup, h.lookup_eq]
  show ((lastRow arr s).map some).join = _
  cases lastRow arr s <;> rfl

/-! ## What a row becomes -/

/-- The row that the parent id of row `i` stands for. -/
def Rows.parent (rows : Rows) (i : Nat) : Option Nat :=
  rows.parentIds[i]?.join.bind (lastRow rows.arr)

/-- The rows below `k` whose parent is row `p`, in file order. -/
def Rows.childrenUpTo (rows : Rows) (k p : Nat) : List Nat :=
  (List.range k).filter fun j => rows.parent j = some p

/-- The children of row `p`. -/
def Rows.children (rows : Rows) (p : Nat) : List Nat :=
  rows.childrenUpTo rows.arr.length p

/-- Row `i` with its parent, its children and its type. -/
def Rows.linkedRow (rows : Rows) (i : Nat) (node : NodeInfo) : NodeInfo :=
  { node with
    parent := rows.parent i
    children := (rows.children i).map some
    childCount := (rows.children i).length
    type :=
      match rows.parent i with
      | none => .root
      | some _ => if 0 < (rows.children i).length then .central else .destination }

theorem Rows.childrenUpTo_succ (rows : Rows) (k p : Nat) : rows.childrenUpTo (k + 1) p =
    if rows.parent k = some p then rows.childrenUpTo k p ++ [k] else rows.childrenUpTo k p := by
  by_cases h : rows.parent k = some p <;>
    simp [Rows.childrenUpTo, List.range_succ, List.filter_append, h]

/-- The children of a row below `k` are fewer than all of them when row `k` is one. -/
theorem Rows.childrenUpTo_lt (rows : Rows) {k p : Nat} (hk : k < rows.arr.length)
    (h : rows.parent k = some p) :
    (rows.childrenUpTo k p).length < (rows.children p).length := by
  have hmono : ∀ n, (rows.childrenUpTo (k + 1) p).length ≤ (rows.childrenUpTo (k + 1 + n) p).length := by
    intro n
    induction n with
    | zero => exact le_refl _
    | succ n ih =>
        apply ih.trans
        rw [← Nat.add_assoc, Rows.childrenUpTo_succ]
        split
        · rw [List.length_append]
          exact Nat.le_add_right _ _
        · exact le_refl _
  have h1 := hmono (rows.arr.length - (k + 1))
  rw [show k + 1 + (rows.arr.length - (k + 1)) = rows.arr.length by omega,
    Rows.childrenUpTo_succ, if_pos h, List.length_append] at h1
  exact h1

/-- The rows as the read loop leaves them: nothing is linked, and every row has an
entry for its parent id. -/
structure Rows.Fresh (rows : Rows) : Prop where
  parentIds_length : rows.parentIds.length = rows.arr.length
  cap_pos : 1 ≤ rows.cap
  parent : ∀ node ∈ rows.arr, node.parent = none
  children : ∀ node ∈ rows.arr, node.children = []
  childCount : ∀ node ∈ rows.arr, node.childCount = 0

theorem parseLine_fresh {line : Bytes} {row : NodeInfo × Option CString}
    (h : parseLine line = some row) :
    row.1.parent = none ∧ row.1.children = [] ∧ row.1.childCount = 0 := by
  simp only [parseLine] at h
  split at h
  · rw [Option.some.injEq] at h
    exact h ▸ ⟨rfl, rfl, rfl⟩
  · cases h

theorem Rows.Fresh.addLine {rows : Rows} (h : rows.Fresh) (line : Bytes) :
    (rows.addLine line).Fresh := by
  rw [Rows.addLine]
  cases hp : parseLine line with
  | none => exact h
  | some row =>
      obtain ⟨h1, h2, h3⟩ := parseLine_fresh hp
      have hmem : ∀ {P : NodeInfo → Prop}, (∀ node ∈ rows.arr, P node) → P row.1 →
          ∀ node ∈ rows.arr ++ [row.1], P node := by
        intro P hall hrow node hnode
        cases List.mem_append.mp hnode with
        | inl hl => exact hall node hl
        | inr hr => exact List.mem_singleton.mp hr ▸ hrow
      refine ⟨?_, ?_, hmem h.parent h1, hmem h.children h2, hmem h.childCount h3⟩
      · simp [Rows.add, h.parentIds_length]
      · have := h.cap_pos
        simp only [Rows.add]
        split <;> omega

theorem readRows_fresh : ∀ (n : Nat) (s : Bytes) {rows : Rows}, rows.Fresh →
    (readRows n s rows).Fresh
  | 0, _, _, h => h
  | n + 1, s, rows, h => by
      rw [readRows]
      split
      · exact h
      · exact readRows_fresh n _ (h.addLine _)

theorem fileRows_fresh (content : Bytes) : (fileRows content).Fresh := by
  refine readRows_fresh _ _ ⟨rfl, by decide, ?_, ?_, ?_⟩ <;> simp

/-- Any fuel from the length of the file on gives the same rows: the read loop ends
because `fgets` meets the end of the file. -/
theorem readRows_fuel : ∀ {n m : Nat} {s : Bytes} (rows : Rows), s.length ≤ n → s.length ≤ m →
    readRows n s rows = readRows m s rows
  | 0, 0, _, _, _, _ => rfl
  | 0, m + 1, s, rows, hn, _ => by
      have hs : s = [] := List.length_eq_zero_iff.mp (by omega)
      subst hs
      rfl
  | n + 1, 0, s, rows, _, hm => by
      have hs : s = [] := List.length_eq_zero_iff.mp (by omega)
      subst hs
      rfl
  | n + 1, m + 1, s, rows, hn, hm => by
      rw [readRows, readRows]
      cases hf : fgets lineSize s with
      | none => rfl
      | some lr =>
          obtain ⟨line, rest⟩ := lr
          obtain ⟨rfl, hne⟩ := fgets_spec (by decide) hf
          have hpos := List.length_pos_iff.mpr hne
          rw [List.length_append] at hn hm
          exact readRows_fuel (rows.addLine line) (by omega) (by omega)

/-! ## The passes -/

/-- Changing one element of an indexed map changes the function at that index. -/
theorem modify_mapIdx {α β : Type} (l : List α) (f : Nat → α → β) (k : Nat) (g : β → β) :
    (l.mapIdx f).modify k g = l.mapIdx fun i x => if k = i then g (f i x) else f i x := by
  refine List.ext_getElem? ?_
  intro i
  rw [List.getElem?_modify, List.getElem?_mapIdx, List.getElem?_mapIdx]
  cases l[i]? with
  | none => rfl
  | some x => by_cases h : k = i <;> simp [h]

section Passes

variable {rows : Rows}

/-- The array after the first pass has done the rows below `k`. -/
def Rows.counted (rows : Rows) (k i : Nat) (node : NodeInfo) : NodeInfo :=
  { node with
    parent := if i < k then rows.parent i else none
    childCount := (rows.childrenUpTo k i).length }

/-- The array after the third pass has done the rows below `k`. -/
def Rows.filled (rows : Rows) (k i : Nat) (node : NodeInfo) : NodeInfo :=
  { node with
    parent := rows.parent i
    children := (rows.childrenUpTo k i).map some ++
      List.replicate ((rows.children i).length - (rows.childrenUpTo k i).length) none
    childCount := (rows.childrenUpTo k i).length }

theorem counted_zero (hf : rows.Fresh) : rows.arr.mapIdx (rows.counted 0) = rows.arr := by
  refine List.ext_getElem? ?_
  intro i
  rw [List.getElem?_mapIdx]
  cases hi : rows.arr[i]? with
  | none => rfl
  | some node =>
      have hmem := List.mem_of_getElem? hi
      have h1 := hf.parent node hmem
      have h3 := hf.childCount node hmem
      cases node
      simp_all [Rows.counted, Rows.childrenUpTo]

/-- One step of the first pass. -/
theorem linkParent_counted (hf : rows.Fresh) (k : Nat) :
    linkParent (putRows (hashmapCreate rows.cap hashString eqString true false) rows.arr)
      rows.parentIds (rows.arr.mapIdx (rows.counted k)) k =
      rows.arr.mapIdx (rows.counted (k + 1)) := by
  have hcount : ∀ i, (rows.childrenUpTo (k + 1) i).length =
      (rows.childrenUpTo k i).length + if rows.parent k = some i then 1 else 0 := by
    intro i
    rw [Rows.childrenUpTo_succ]
    split <;> simp
  have hlt : ∀ i, k ≠ i → (i < k + 1 ↔ i < k) := by
    intro i hne
    omega
  rw [linkParent]
  cases hpid : rows.parentIds[k]?.join with
  | none =>
      have hpar : rows.parent k = none := by rw [Rows.parent, hpid, Option.bind_none]
      refine congrArg (rows.arr.mapIdx ·) (funext fun i => funext ?_)
      intro node
      by_cases hik : k = i
      · subst hik
        simp [Rows.counted, hcount, hpar]
      · simp [Rows.counted, hcount, hpar, hlt i hik]
  | some pid =>
      have hpar : rows.parent k = lastRow rows.arr pid := by
        rw [Rows.parent, hpid, Option.bind_some]
      simp only [putRows_get hf.cap_pos, modify_mapIdx]
      cases hlast : lastRow rows.arr pid with
      | none =>
          refine congrArg (rows.arr.mapIdx ·) (funext fun i => funext ?_)
          intro node
          by_cases hik : k = i
          · subst hik
            simp [Rows.counted, hcount, hpar, hlast]
          · simp [Rows.counted, hcount, hpar, hlast, hlt i hik, hik]
      | some p =>
          rw [hlast] at hpar
          simp only
          refine congrArg (rows.arr.mapIdx ·) (funext fun i => funext ?_)
          intro node
          by_cases hik : k = i <;> by_cases hip : p = i
          · subst hik
            subst hip
            simp [Rows.counted, hcount, hpar]
          · subst hik
            simp [Rows.counted, hcount, hpar, hip]
          · subst hip
            simp [Rows.counted, hcount, hpar, hlt p hik, hik]
          · simp [Rows.counted, hcount, hpar, hlt i hik, hik, hip]

/-- The first pass. -/
theorem linkParents_eq (hf : rows.Fresh) : ∀ k,
    (List.range k).foldl (linkParent (putRows (hashmapCreate rows.cap hashString eqString true false)
      rows.arr) rows.parentIds) rows.arr = rows.arr.mapIdx (rows.counted k)
  | 0 => (counted_zero hf).symm
  | k + 1 => by
      rw [List.range_succ, List.foldl_append, linkParents_eq hf k]
      exact linkParent_counted hf k

/-- The second pass leaves every row with one unwritten cell for each child. -/
theorem allocChildren_eq (hf : rows.Fresh) :
    (rows.arr.mapIdx (rows.counted rows.arr.length)).map allocChildren =
      rows.arr.mapIdx (rows.filled 0) := by
  refine List.ext_getElem? ?_
  intro i
  rw [List.getElem?_map, List.getElem?_mapIdx, List.getElem?_mapIdx]
  cases hi : rows.arr[i]? with
  | none => rfl
  | some node =>
      have hlt : i < rows.arr.length := (List.getElem?_eq_some_iff.mp hi).1
      have hch := hf.children node (List.mem_of_getElem? hi)
      have hzero : rows.childrenUpTo 0 i = [] := rfl
      show some (allocChildren _) = some _
      simp only [allocChildren, Rows.counted, Rows.filled, hlt, if_true, hzero, List.map_nil,
        List.nil_append, List.length_nil, Nat.sub_zero]
      split
      next => rfl
      next hnot =>
          have hlen : (rows.childrenUpTo rows.arr.length i).length = 0 := by omega
          simp [Rows.children, hlen, hch]

/-- One step of the third pass: the parent of row `k` has an unwritten cell left. -/
theorem fillChild_filled {k : Nat} (hk : k < rows.arr.length) :
    fillChild (rows.arr.mapIdx (rows.filled k)) k = .ok (rows.arr.mapIdx (rows.filled (k + 1))) := by
  have hpar : ((rows.arr.mapIdx (rows.filled k))[k]?).bind NodeInfo.parent = rows.parent k := by
    rw [List.getElem?_mapIdx, List.getElem?_eq_getElem hk]
    rfl
  rw [fillChild, hpar]
  cases hp : rows.parent k with
  | none =>
      have hsame : rows.filled (k + 1) = rows.filled k := by
        funext i node
        simp [Rows.filled, Rows.childrenUpTo_succ, hp]
      rw [hsame]
  | some p =>
      have hplt : p < rows.arr.length := by
        obtain ⟨pid, _, hlast⟩ := Option.bind_eq_some_iff.mp hp
        exact lastRow_lt hlast
      have hroom := rows.childrenUpTo_lt hk hp
      have hget : (rows.arr.mapIdx (rows.filled k))[p]? = some (rows.filled k p rows.arr[p]) := by
        rw [List.getElem?_mapIdx, List.getElem?_eq_getElem hplt]
        rfl
      have hpush : pushChild k (rows.filled k p rows.arr[p]) =
          .ok (rows.filled (k + 1) p rows.arr[p]) := by
        obtain ⟨m, hm⟩ : ∃ m, (rows.children p).length - (rows.childrenUpTo k p).length = m + 1 :=
          ⟨(rows.children p).length - (rows.childrenUpTo k p).length - 1, by omega⟩
        have hm' : (rows.children p).length - ((rows.childrenUpTo k p).length + 1) = m := by omega
        rw [pushChild, if_pos]
        · simp [Rows.filled, Rows.childrenUpTo_succ, hp, hm, hm', List.replicate_succ]
        · simp [Rows.filled, hm]
      simp only [hget, hpush, Except.map]
      refine congrArg Except.ok (List.ext_getElem? ?_)
      intro i
      rw [List.getElem?_set, List.getElem?_mapIdx, List.getElem?_mapIdx, List.length_mapIdx]
      by_cases hpi : p = i
      · subst hpi
        simp [hplt]
      · rw [if_neg hpi]
        refine congrArg (fun f => Option.map f rows.arr[i]?) (funext ?_)
        intro node
        simp [Rows.filled, Rows.childrenUpTo_succ, hp, hpi]

/-- The third pass never runs out of cells. -/
theorem fillChildren_eq : ∀ k, k ≤ rows.arr.length →
    (List.range k).foldlM fillChild (rows.arr.mapIdx (rows.filled 0)) =
      .ok (rows.arr.mapIdx (rows.filled k))
  | 0, _ => rfl
  | k + 1, hk => by
      rw [List.range_succ, List.foldlM_append, fillChildren_eq k (by omega)]
      show ([k].foldlM fillChild _) = _
      rw [List.foldlM_cons, fillChild_filled (by omega)]
      rfl

/-- The last pass. -/
theorem classify_eq : (rows.arr.mapIdx (rows.filled rows.arr.length)).map classify =
    rows.arr.mapIdx rows.linkedRow := by
  refine List.ext_getElem? ?_
  intro i
  rw [List.getElem?_map, List.getElem?_mapIdx, List.getElem?_mapIdx, Option.map_map]
  refine congrArg (fun f => Option.map f rows.arr[i]?) (funext ?_)
  intro node
  simp only [Function.comp_apply, classify, Rows.filled, Rows.linkedRow]
  cases rows.parent i with
  | none => simp [Rows.children]
  | some p => simp [Rows.children]; rfl

end Passes

/-- The four passes describe every row by its own parent, children and type. -/
theorem linkRows_eq {rows : Rows} (hf : rows.Fresh) :
    linkRows rows = .ok (rows.arr.mapIdx rows.linkedRow) := by
  rw [linkRows, linkParents_eq hf]
  simp only [allocChildren_eq hf, List.length_mapIdx, fillChildren_eq _ (le_refl _)]
  exact congrArg Except.ok classify_eq

/-- `node_load_all` on a file it can open. -/
theorem nodeLoadAll_eq (content : Bytes) : nodeLoadAll (some content) =
    .ok ((fileRows content).arr.mapIdx (fileRows content).linkedRow) :=
  linkRows_eq (fileRows_fresh content)

/-! ## The graph -/

/-- What a table owes the rows it was linked from. -/
structure Consistent (rows : Rows) (nodes : List NodeInfo) : Prop where
  length_eq : nodes.length = rows.arr.length
  row : ∀ (i : Nat) (node : NodeInfo), nodes[i]? = some node → ∃ r, rows.arr[i]? = some r ∧
    node.id = r.id ∧ node.address = r.address ∧ node.port = r.port
  /-- A row without a parent id has no parent. -/
  parent_absent : ∀ (i : Nat) (node : NodeInfo), nodes[i]? = some node →
    rows.parentIds[i]? = some none → node.parent = none
  /-- The parent of a row is the last row that carries its parent id. -/
  parent_named : ∀ (i : Nat) (node : NodeInfo) (pid : CString), nodes[i]? = some node →
    rows.parentIds[i]? = some (some pid) → ∀ p, node.parent = some p ↔ IsLastRow nodes pid p
  parent_unknown : ∀ (i : Nat) (node : NodeInfo) (pid : CString), nodes[i]? = some node →
    rows.parentIds[i]? = some (some pid) → (node.parent = none ↔ ∀ n ∈ nodes, n.id ≠ pid)
  parentIds_length : rows.parentIds.length = nodes.length
  /-- The children of a row are the rows whose parent it is, in file order. -/
  children : ∀ (i : Nat) (node : NodeInfo), nodes[i]? = some node → node.children =
    ((List.range nodes.length).filter fun j => parentOf nodes j = some i).map some
  childCount : ∀ node ∈ nodes, node.childCount = node.children.length
  type_root : ∀ node ∈ nodes, node.type = .root ↔ node.parent = none
  type_central : ∀ node ∈ nodes,
    node.type = .central ↔ node.parent ≠ none ∧ 0 < node.childCount
  type_destination : ∀ node ∈ nodes,
    node.type = .destination ↔ node.parent ≠ none ∧ node.childCount = 0

theorem getElem?_linked {rows : Rows} {i : Nat} {node : NodeInfo}
    (h : (rows.arr.mapIdx rows.linkedRow)[i]? = some node) :
    ∃ r, rows.arr[i]? = some r ∧ node = rows.linkedRow i r := by
  rw [List.getElem?_mapIdx] at h
  obtain ⟨r, hr, he⟩ := Option.map_eq_some_iff.mp h
  exact ⟨r, hr, he.symm⟩

theorem isLastRow_linked (rows : Rows) (s : CString) (p : Nat) :
    IsLastRow (rows.arr.mapIdx rows.linkedRow) s p ↔ IsLastRow rows.arr s p := by
  have hget : ∀ j : Nat, ((rows.arr.mapIdx rows.linkedRow)[j]?).map NodeInfo.id =
      (rows.arr[j]?).map NodeInfo.id := by
    intro j
    rw [List.getElem?_mapIdx, Option.map_map]
    rfl
  have hids : ∀ (l : List NodeInfo), IsLastRow l s p ↔ (l[p]?).map NodeInfo.id = some s ∧
      ∀ j : Nat, p < j → (l[j]?).map NodeInfo.id ≠ some s := by
    intro l
    refine and_congr ?_ ⟨?_, ?_⟩
    · rw [Option.map_eq_some_iff]
    · intro h j hj he
      obtain ⟨node, hn, hid⟩ := Option.map_eq_some_iff.mp he
      exact h j node hj hn hid
    · intro h j node hj hn he
      exact h j hj (by rw [hn, Option.map_some, he])
  rw [hids, hids]
  simp only [hget]

theorem parent_lt {rows : Rows} {i p : Nat} (h : rows.parent i = some p) :
    p < rows.arr.length := by
  obtain ⟨pid, _, hlast⟩ := Option.bind_eq_some_iff.mp h
  exact lastRow_lt hlast

theorem parent_isSome_lt {rows : Rows} (hf : rows.Fresh) {i p : Nat}
    (h : rows.parent i = some p) : i < rows.arr.length := by
  obtain ⟨pid, hpid, _⟩ := Option.bind_eq_some_iff.mp h
  rw [Option.join_eq_some_iff] at hpid
  have := (List.getElem?_eq_some_iff.mp hpid).1
  rwa [hf.parentIds_length] at this

/-- The parent links of a linked table are the parents of its rows. -/
theorem parentOf_linked {rows : Rows} (hf : rows.Fresh) (i : Nat) :
    parentOf (rows.arr.mapIdx rows.linkedRow) i = rows.parent i := by
  rw [parentOf, List.getElem?_mapIdx]
  cases hi : rows.arr[i]? with
  | some r => rfl
  | none =>
      cases hp : rows.parent i with
      | none => rfl
      | some p =>
          have := parent_isSome_lt hf hp
          rw [List.getElem?_eq_none_iff] at hi
          omega

/-- What the type of a row says of its links. -/
theorem Rows.linkedRow_type (rows : Rows) (i : Nat) (r : NodeInfo) :
    ((rows.linkedRow i r).type = .root ↔ (rows.linkedRow i r).parent = none) ∧
    ((rows.linkedRow i r).type = .central ↔
      (rows.linkedRow i r).parent ≠ none ∧ 0 < (rows.linkedRow i r).childCount) ∧
    ((rows.linkedRow i r).type = .destination ↔
      (rows.linkedRow i r).parent ≠ none ∧ (rows.linkedRow i r).childCount = 0) := by
  simp only [Rows.linkedRow]
  cases rows.parent i with
  | none => simp
  | some p =>
      rcases Nat.eq_zero_or_pos (rows.children i).length with hc | hc
      · simp [hc]
      · simp [hc, Nat.ne_of_gt hc]

theorem linked_consistent {rows : Rows} (hf : rows.Fresh) :
    Consistent rows (rows.arr.mapIdx rows.linkedRow) := by
  have hmem : ∀ {P : NodeInfo → Prop}, (∀ i r, P (rows.linkedRow i r)) →
      ∀ node ∈ rows.arr.mapIdx rows.linkedRow, P node := by
    intro P hP node hnode
    obtain ⟨i, hi⟩ := List.mem_iff_getElem?.mp hnode
    obtain ⟨r, _, rfl⟩ := getElem?_linked hi
    exact hP i r
  refine
    { length_eq := List.length_mapIdx
      row := fun i node hi => ?_
      parent_absent := fun i node hi hpid => ?_
      parent_named := fun i node pid hi hpid p => ?_
      parent_unknown := fun i node pid hi hpid => ?_
      parentIds_length := hf.parentIds_length.trans List.length_mapIdx.symm
      children := fun i node hi => ?_
      childCount := hmem fun i r => by simp [Rows.linkedRow]
      type_root := hmem fun i r => (rows.linkedRow_type i r).1
      type_central := hmem fun i r => (rows.linkedRow_type i r).2.1
      type_destination := hmem fun i r => (rows.linkedRow_type i r).2.2 }
  · obtain ⟨r, hr, rfl⟩ := getElem?_linked hi
    exact ⟨r, hr, rfl, rfl, rfl⟩
  · obtain ⟨r, _, rfl⟩ := getElem?_linked hi
    show rows.parent i = none
    rw [Rows.parent, hpid]
    rfl
  · obtain ⟨r, _, rfl⟩ := getElem?_linked hi
    show rows.parent i = some p ↔ _
    rw [Rows.parent, hpid, isLastRow_linked]
    exact lastRow_eq_some_iff rows.arr pid p
  · obtain ⟨r, _, rfl⟩ := getElem?_linked hi
    show rows.parent i = none ↔ _
    rw [Rows.parent, hpid]
    show lastRow rows.arr pid = none ↔ _
    rw [lastRow_eq_none_iff]
    constructor
    · intro h node hnode
      obtain ⟨j, hj⟩ := List.mem_iff_getElem?.mp hnode
      obtain ⟨r', hr', rfl⟩ := getElem?_linked hj
      exact h r' (List.mem_of_getElem? hr')
    · intro h r' hr'
      obtain ⟨j, hj⟩ := List.mem_iff_getElem?.mp hr'
      refine h (rows.linkedRow j r') (List.mem_of_getElem? (i := j) ?_)
      rw [List.getElem?_mapIdx, hj]
      rfl
  · obtain ⟨r, _, rfl⟩ := getElem?_linked hi
    simp only [parentOf_linked hf, List.length_mapIdx]
    rfl

/-- For every file it can open, `node_load_all` returns a table, so the third pass
never writes more entries than the second allocated, and the table is consistent
with the rows of the file. -/
theorem nodeLoadAll_consistent (content : Bytes) :
    ∃ nodes, nodeLoadAll (some content) = .ok nodes ∧ Consistent (fileRows content) nodes :=
  ⟨_, nodeLoadAll_eq content, linked_consistent (fileRows_fresh content)⟩

/-! ## Walking a loaded table -/

/-- A table that `node_load_all` returns for some file. -/
def Loaded (nodes : List NodeInfo) : Prop :=
  ∃ content, nodeLoadAll (some content) = .ok nodes

theorem Loaded.consistent {nodes : List NodeInfo} (h : Loaded nodes) :
    ∃ rows, Consistent rows nodes := by
  obtain ⟨content, hc⟩ := h
  obtain ⟨nodes', hn, hcons⟩ := nodeLoadAll_consistent content
  rw [hc, Except.ok.injEq] at hn
  exact ⟨_, hn ▸ hcons⟩

theorem parentOf_lt {nodes : List NodeInfo} {i p : Nat} (h : parentOf nodes i = some p) :
    i < nodes.length := by
  obtain ⟨node, hnode, _⟩ := Option.bind_eq_some_iff.mp h
  exact (List.getElem?_eq_some_iff.mp hnode).1

/-- A table has finitely many parent links. -/
theorem parentOf_finite (nodes : List NodeInfo) : {i | parentOf nodes i ≠ none}.Finite := by
  refine (Set.finite_lt_nat nodes.length).subset ?_
  intro i hi
  obtain ⟨p, hp⟩ := Option.ne_none_iff_exists'.mp hi
  exact parentOf_lt hp

/-- A parent link of a loaded table leads to a row of the table. -/
theorem Loaded.parent_lt {nodes : List NodeInfo} (h : Loaded nodes) {i p : Nat}
    (hp : parentOf nodes i = some p) : p < nodes.length := by
  obtain ⟨rows, hc⟩ := h.consistent
  obtain ⟨node, hnode, hpar⟩ := Option.bind_eq_some_iff.mp hp
  have hi : i < rows.parentIds.length := hc.parentIds_length ▸ parentOf_lt hp
  cases hpid : rows.parentIds[i] with
  | none =>
      have := hc.parent_absent i node hnode (by rw [List.getElem?_eq_getElem hi, hpid])
      rw [this] at hpar
      cases hpar
  | some pid =>
      have hlast := (hc.parent_named i node pid hnode
        (by rw [List.getElem?_eq_getElem hi, hpid]) p).mp hpar
      obtain ⟨⟨n, hn, _⟩, _⟩ := hlast
      exact (List.getElem?_eq_some_iff.mp hn).1

/-- In a loaded table the children of a row are the rows it is the parent of. -/
theorem Loaded.mem_childrenOf {nodes : List NodeInfo} (h : Loaded nodes) (a b : Nat) :
    b ∈ childrenOf nodes a ↔ parentOf nodes b = some a := by
  obtain ⟨rows, hc⟩ := h.consistent
  rw [childrenOf]
  cases ha : nodes[a]? with
  | none =>
      have hne : parentOf nodes b ≠ some a := by
        intro hp
        have := h.parent_lt hp
        rw [List.getElem?_eq_none_iff] at ha
        omega
      simp [hne]
  | some node =>
      have hch := hc.children a node ha
      have hcount := hc.childCount node (List.mem_of_getElem? ha)
      simp only [NodeInfo.childList, hcount, List.take_length, hch]
      rw [List.reduceOption_mem_iff, List.mem_map_of_injective (Option.some_injective _),
        List.mem_filter, List.mem_range, decide_eq_true_eq]
      exact ⟨fun hb => hb.2, fun hb => ⟨parentOf_lt hb, hb⟩⟩

/-- A row with a child is not a destination. -/
theorem Loaded.parent_type {nodes : List NodeInfo} (h : Loaded nodes) {b p : Nat} {node : NodeInfo}
    (hb : parentOf nodes b = some p) (hp : nodes[p]? = some node) : node.type ≠ .destination := by
  obtain ⟨rows, hc⟩ := h.consistent
  have hmem := List.mem_of_getElem? hp
  intro hty
  have hzero := ((hc.type_destination node hmem).mp hty).2
  have hch := (h.mem_childrenOf p b).mpr hb
  simp [childrenOf, hp, NodeInfo.childList, hzero, List.reduceOption_nil] at hch

/-- What lies above a row is a row. -/
theorem Loaded.above_lt {nodes : List NodeInfo} (h : Loaded nodes) {c d : Nat}
    (hd : d < nodes.length) (habove : Forest.Above (parentOf nodes) c d) : c < nodes.length := by
  cases (Relation.reflTransGen_iff_eq_or_transGen).mp habove with
  | inl he => exact he ▸ hd
  | inr ht =>
      obtain ⟨x, _, hx⟩ := Relation.TransGen.tail'_iff.mp ht
      exact h.parent_lt hx

/-- What lies below a row is a row. -/
theorem below_lt {nodes : List NodeInfo} {c d : Nat} (hc : c < nodes.length)
    (habove : Forest.Above (parentOf nodes) c d) : d < nodes.length := by
  cases Relation.ReflTransGen.cases_head habove with
  | inl he => exact he ▸ hc
  | inr hp =>
      obtain ⟨p, hp, _⟩ := hp
      exact parentOf_lt hp

/-- A chain has at most as many rows as the table. -/
theorem Loaded.rootChain_length_le {nodes : List NodeInfo} (h : Loaded nodes) {d : Nat}
    (hd : d < nodes.length) {l : List Nat} (hl : Forest.RootChain (parentOf nodes) l d) :
    l.length ≤ nodes.length := by
  have hsub : l ⊆ List.range nodes.length := by
    intro c hc
    rw [List.mem_range]
    exact h.above_lt hd ((hl.mem_iff c).mp hc)
  have hle := (List.subperm_of_subset hl.nodup hsub).length_le
  rwa [List.length_range] at hle

/-- A row without parent is a root. -/
theorem Loaded.root_type {nodes : List NodeInfo} (h : Loaded nodes) {i : Nat} {node : NodeInfo}
    (hi : nodes[i]? = some node) (hp : parentOf nodes i = none) : node.type = .root := by
  obtain ⟨rows, hc⟩ := h.consistent
  refine (hc.type_root node (List.mem_of_getElem? hi)).mpr ?_
  rwa [parentOf, hi, Option.bind_some] at hp

/-! ## A table of two rows -/

/-- The name `A`. -/
def nameA : CString where
  bytes := [65]
  noZero := by decide

/-- The address `127.0.0.1`. -/
def loopback : CString where
  bytes := [49, 50, 55, 46, 48, 46, 48, 46, 49]
  noZero := by decide

/-- The lines `A,127.0.0.1,1,` and `B,127.0.0.1,2,A`. -/
def twoRowFile : Bytes :=
  [65, 44, 49, 50, 55, 46, 48, 46, 48, 46, 49, 44, 49, 44, 10,
    66, 44, 49, 50, 55, 46, 48, 46, 48, 46, 49, 44, 50, 44, 65, 10]

/-- The name `B`. -/
def nameB : CString where
  bytes := [66]
  noZero := by decide

/-- The table of the two lines: the root `A` and its child `B`, a destination. -/
def twoRows : List NodeInfo :=
  [{ id := nameA, address := loopback, port := 1, parent := none, children := [some 1]
     childCount := 1, type := .root },
    { id := nameB, address := loopback, port := 2, parent := some 0, children := []
      childCount := 0, type := .destination }]

theorem twoRowFile_load : nodeLoadAll (some twoRowFile) = .ok twoRows := by
  rw [nodeLoadAll_eq]
  exact congrArg Except.ok (by decide +kernel)

theorem twoRows_acyclic : Forest.Acyclic (parentOf twoRows) := by
  apply Forest.acyclic_of_lt
  intro a b h
  match a with
  | 0 => cases h
  | 1 =>
      cases h
      decide
  | a + 2 => cases h

end DataPropagator
