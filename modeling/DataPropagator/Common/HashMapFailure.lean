import DataPropagator.Common.HashMapOwnership

/-!
# A put that fails

`hashmap_put` returns `-1` when one of its allocations fails, and the node can fail
after the array has been doubled.  Then the table is not what it was, but no caller
can tell: the map holds the same nodes, frees nothing and keeps nothing of what it was
given.

`Grown` relates a map to one with the same nodes in an array that has been doubled any
number of times.  Every call on the grown map gives the result that the same call gives
on the other map for some outcome of its allocations, the same outcomes if they succeed,
and the two maps stay related.  So every later run of the grown map is a run that was
possible before.
-/

namespace DataPropagator

open KeyMap (LawfulKey)

variable {K V : Type}

/-- What a caller sees of a call. -/
inductive CallResult (K V : Type) where
  | put (ret : Int) (freedKeys : List K) (freedValues : List (Option V))
  | get (value : Option V)
  | remove (ret : Bool) (freedKeys : List K) (freedValues : List (Option V))

/-- A call with its allocations succeeding. -/
def OwnerCall.request : OwnerCall K V → OwnerCall K V
  | .put key value _ => .put key value {}
  | .get key => .get key
  | .remove key => .remove key

namespace HashMap

/-- `hashmap_put` on a map that is not NULL.  The key may be NULL. -/
def putChecked (m : HashMap K V) (key : Option K) (value : Option V) (alloc : PutAlloc) :
    PutResult K V :=
  match key with
  | none => { map := m, ret := -1 }
  | some key => m.put key value alloc

/-- `hashmap_get` on a map that is not NULL. -/
def getChecked (m : HashMap K V) (key : Option K) : Option V :=
  key.bind m.get

/-- `hashmap_remove` on a map that is not NULL. -/
def removeChecked (m : HashMap K V) (key : Option K) : RemoveResult K V :=
  match key with
  | none => { map := m, ret := false }
  | some key => m.remove key

/-- What a caller sees of one call. -/
def answer (m : HashMap K V) : OwnerCall K V → CallResult K V
  | .put key value alloc =>
      let r := m.putChecked key value alloc
      .put r.ret r.freedKeys r.freedValues
  | .get key => .get (m.getChecked key)
  | .remove key =>
      let r := m.removeChecked key
      .remove r.ret r.freedKeys r.freedValues

/-- What a caller sees of a sequence of calls. -/
def answers (m : HashMap K V) : List (OwnerCall K V) → List (CallResult K V)
  | [] => []
  | c :: cs => m.answer c :: answers (m.traced c).1 cs

/-! ## The search of a chain -/

variable {m m' : HashMap K V} {key : K} {value : Option V}

theorem keyEq_of_findNode {node : HashNode K V} (hf : m.findNode key = some node) :
    m.keyEqFunc node.key key = true := by
  have h := List.find?_some hf
  exact h

/-- The search finds the one node with an equal key, wherever it sits. -/
theorem Inv.findNode_eq_some_iff (h : m.Inv) (hk : LawfulKey m.hashFunc m.keyEqFunc)
    {node : HashNode K V} :
    m.findNode key = some node ↔ node ∈ m.nodes ∧ m.keyEqFunc node.key key = true := by
  constructor
  · intro hf
    have heq := keyEq_of_findNode hf
    exact ⟨(h.mem_chain hk heq).mp (List.mem_of_find?_eq_some hf), heq⟩
  · rintro ⟨hmem, heq⟩
    cases hf : m.findNode key with
    | none => exact absurd heq (List.find?_eq_none.mp hf node ((h.mem_chain hk heq).mpr hmem))
    | some found =>
        have heq' := keyEq_of_findNode hf
        have hmem' := (h.mem_chain hk heq').mp (List.mem_of_find?_eq_some hf)
        -- two nodes with equal keys are one node
        by_contra hne
        have : Std.Symm fun a b : HashNode K V => m.keyEqFunc a.key b.key = false :=
          ⟨fun _ _ hab => hk.ne_symm hab⟩
        have hdiff := h.distinct_nodes.forall hmem' hmem fun he => hne (congrArg some he)
        rw [hk.trans _ _ _ heq' (hk.symm _ _ heq)] at hdiff
        cases hdiff

/-! ## Grown maps -/

/-- `m'` holds the nodes of `m` in an array that has been doubled a number of times. -/
structure Grown (m m' : HashMap K V) : Prop where
  inv : m.Inv
  inv' : m'.Inv
  same : SameNodes m m'
  doubled : ∃ d, m'.capacity = m.capacity * 2 ^ d

theorem SameNodes.trans {m₁ m₂ m₃ : HashMap K V} (h₁ : SameNodes m₁ m₂) (h₂ : SameNodes m₂ m₃) :
    SameNodes m₁ m₃ :=
  ⟨h₂.1.trans h₁.1, h₂.2.trans h₁.2, h₂.3.trans h₁.3, h₂.4.trans h₁.4, h₂.5.trans h₁.5,
    h₂.6.trans h₁.6⟩

theorem Grown.refl (h : m.Inv) : Grown m m :=
  ⟨h, h, SameNodes.refl m, 0, by rw [Nat.pow_zero, Nat.mul_one]⟩

theorem Grown.lawful (h : Grown m m') (hk : LawfulKey m.hashFunc m.keyEqFunc) :
    LawfulKey m'.hashFunc m'.keyEqFunc := by
  rwa [h.same.hashFunc_eq, h.same.keyEqFunc_eq]

theorem Grown.findNode_eq (h : Grown m m') (hk : LawfulKey m.hashFunc m.keyEqFunc) (key : K) :
    m'.findNode key = m.findNode key := by
  ext node
  rw [h.inv'.findNode_eq_some_iff (h.lawful hk), h.inv.findNode_eq_some_iff hk,
    h.same.nodes_perm.mem_iff, h.same.keyEqFunc_eq]

/-- A table that is not full is not full in a larger array. -/
theorem fits_doubled (hc : 0 < m.capacity) (hsize : m'.size = m.size) {d : Nat}
    (hcap : m'.capacity = m.capacity * 2 ^ d) (hf : m.fits = true) : m'.fits = true := by
  have hstep : ∀ d, Binary32.divLe (Binary32.ofNat (m.size + 1))
      (Binary32.ofNat (m.capacity * 2 ^ d)) 3 2 = true := by
    intro d
    induction d with
    | zero => rwa [Nat.pow_zero, Nat.mul_one]
    | succ d ih =>
        rw [Nat.pow_succ, ← Nat.mul_assoc, Nat.mul_comm, Binary32.ofNat_double]
        exact Binary32.divLe_double (Binary32.ofNat_pos (Nat.succ_pos _))
          (Binary32.ofNat_pos (Nat.mul_pos hc (Nat.two_pow_pos d))) (by omega) ih
  rw [fits, hsize, hcap]
  exact hstep d

/-! ## Grown maps: one call -/

theorem Grown.setValue (h : Grown m m') (hk : LawfulKey m.hashFunc m.keyEqFunc)
    {node : HashNode K V} (hf : m.findNode key = some node) (value : Option V) :
    Grown (m.setValue key value) (m'.setValue key value) := by
  have hf' : m'.findNode key = some node := (h.findNode_eq hk key).trans hf
  obtain ⟨_, rest, hp, hset, _⟩ := h.inv.shaped.nodes_split hf
  obtain ⟨_, rest', hp', hset', _⟩ := h.inv'.shaped.nodes_split hf'
  have hrest : rest'.Perm rest :=
    List.Perm.cons_inv ((hp'.symm.trans h.same.nodes_perm).trans hp)
  refine ⟨h.inv.setValue hk hf value, h.inv'.setValue (h.lawful hk) hf' value, ?_, h.doubled⟩
  exact ⟨((hset' value).trans (hrest.cons _)).trans (hset value).symm, h.same.2, h.same.3,
    h.same.4, h.same.5, h.same.6⟩

theorem Grown.addNode (h : Grown m m') (hk : LawfulKey m.hashFunc m.keyEqFunc)
    (hf : m.findNode key = none) (value : Option V) :
    Grown (m.addNode key value) (m'.addNode key value) := by
  have hf' : m'.findNode key = none := (h.findNode_eq hk key).trans hf
  have hp := h.inv.shaped.addNode_perm key value
  have hp' := h.inv'.shaped.addNode_perm key value
  refine ⟨h.inv.addNode hk hf value, h.inv'.addNode (h.lawful hk) hf' value, ?_, h.doubled⟩
  exact ⟨(hp'.trans (h.same.nodes_perm.cons _)).trans hp.symm, h.same.2, h.same.3,
    congrArg (· + 1) h.same.size_eq, h.same.5, h.same.6⟩

theorem Grown.unlink (h : Grown m m') (hk : LawfulKey m.hashFunc m.keyEqFunc)
    {node : HashNode K V} (hf : m.findNode key = some node) :
    Grown (m.unlink key) (m'.unlink key) := by
  have hf' : m'.findNode key = some node := (h.findNode_eq hk key).trans hf
  obtain ⟨_, rest, hp, _, herase⟩ := h.inv.shaped.nodes_split hf
  obtain ⟨_, rest', hp', _, herase'⟩ := h.inv'.shaped.nodes_split hf'
  have hrest : rest'.Perm rest :=
    List.Perm.cons_inv ((hp'.symm.trans h.same.nodes_perm).trans hp)
  refine ⟨h.inv.unlink hk hf, h.inv'.unlink (h.lawful hk) hf', ?_, h.doubled⟩
  exact ⟨(herase'.trans hrest).trans herase.symm, h.same.2, h.same.3,
    congrArg (· - 1) h.same.size_eq, h.same.5, h.same.6⟩

/-- A removal finds the same node in both maps. -/
theorem Grown.remove (h : Grown m m') (hk : LawfulKey m.hashFunc m.keyEqFunc) (key : K) :
    (m'.remove key).ret = (m.remove key).ret ∧
      (m'.remove key).freedKeys = (m.remove key).freedKeys ∧
      (m'.remove key).freedValues = (m.remove key).freedValues ∧
      Grown (m.remove key).map (m'.remove key).map := by
  have hf' := h.findNode_eq hk key
  cases hf : m.findNode key with
  | none =>
      simp only [HashMap.remove, hf'.trans hf, hf]
      exact ⟨trivial, trivial, trivial, h⟩
  | some node =>
      simp only [HashMap.remove, hf'.trans hf, hf, h.same.freeKeyFunc_eq, h.same.freeValueFunc_eq]
      exact ⟨trivial, trivial, trivial, h.unlink hk hf⟩

/-- Two puts with the same result leave related maps. -/
structure SamePut (r r' : PutResult K V) : Prop where
  ret : r'.ret = r.ret
  freedKeys : r'.freedKeys = r.freedKeys
  freedValues : r'.freedValues = r.freedValues
  grown : Grown r.map r'.map

/-- Once both arrays are large enough, a put goes alike in both maps. -/
theorem Grown.put_resized {m₁ m₁' : HashMap K V} (h : Grown m₁ m₁')
    (hk : LawfulKey m₁.hashFunc m₁.keyEqFunc) {alloc alloc' : PutAlloc}
    (hr : m.resizeIfNeeded alloc.newBuckets = some m₁)
    (hr' : m'.resizeIfNeeded alloc'.newBuckets = some m₁') (halloc : alloc'.newNode = alloc.newNode)
    (key : K) (value : Option V) : SamePut (m.put key value alloc) (m'.put key value alloc') := by
  have hf' := h.findNode_eq hk key
  cases hf : m₁.findNode key with
  | some node =>
      simp only [put, putResized, hr, hr', hf'.trans hf, hf, h.same.freeKeyFunc_eq,
        h.same.freeValueFunc_eq]
      exact ⟨rfl, rfl, rfl, h.setValue hk hf value⟩
  | none =>
      simp only [put, putResized, hr, hr', hf'.trans hf, hf, halloc]
      split
      · exact ⟨rfl, rfl, rfl, h.addNode hk hf value⟩
      · exact ⟨rfl, rfl, rfl, h⟩

theorem resizeIfNeeded_of_fits (hf : m.fits = true) (ok : Bool) :
    m.resizeIfNeeded ok = some m :=
  if_pos hf

/-- The map after `resize_if_needed` has doubled its array. -/
def doubledMap (m : HashMap K V) : HashMap K V :=
  { m with
    buckets := rehash m.hashFunc (m.capacity * 2) m.buckets
    capacity := m.capacity * 2 }

theorem resizeIfNeeded_of_full (hf : ¬ m.fits = true) (ok : Bool) :
    m.resizeIfNeeded ok = if ok then some m.doubledMap else none :=
  if_neg hf

theorem Inv.doubledMap (h : m.Inv) (hk : LawfulKey m.hashFunc m.keyEqFunc) (hf : ¬ m.fits = true) :
    m.doubledMap.Inv ∧ SameNodes m m.doubledMap :=
  resizeIfNeeded_spec h hk (resizeIfNeeded_of_full hf true)

/-- A put on the grown map goes like a put on the other map for some outcome of its
allocations. -/
theorem Grown.put (h : Grown m m') (hk : LawfulKey m.hashFunc m.keyEqFunc) (key : K)
    (value : Option V) (alloc : PutAlloc) :
    ∃ alloc₀ : PutAlloc, (alloc = {} → alloc₀ = {}) ∧
      SamePut (m.put key value alloc₀) (m'.put key value alloc) := by
  obtain ⟨d, hcap⟩ := h.doubled
  by_cases hf : m.fits = true
  · -- neither array is full
    have hf' : m'.fits = true := fits_doubled h.inv.capacity_pos h.same.size_eq hcap hf
    exact ⟨alloc, id, h.put_resized hk (resizeIfNeeded_of_fits hf _)
      (resizeIfNeeded_of_fits hf' _) rfl key value⟩
  · obtain ⟨hinv, hsame⟩ := h.inv.doubledMap hk hf
    by_cases hf' : m'.fits = true
    · -- only the smaller array is full, and its `calloc` may as well succeed
      have hgrown : Grown m.doubledMap m' := by
        refine ⟨hinv, h.inv', ⟨h.same.nodes_perm.trans hsame.nodes_perm.symm, h.same.2, h.same.3,
          h.same.4, h.same.5, h.same.6⟩, ?_⟩
        cases d with
        | zero =>
            rw [Nat.pow_zero, Nat.mul_one] at hcap
            rw [fits, h.same.size_eq, hcap] at hf'
            exact absurd hf' hf
        | succ d => exact ⟨d, by rw [hcap, Nat.pow_succ', ← Nat.mul_assoc]; rfl⟩
      have hr : m.resizeIfNeeded ({ alloc with newBuckets := true } : PutAlloc).newBuckets =
          some m.doubledMap := resizeIfNeeded_of_full hf true
      have hr' : m'.resizeIfNeeded alloc.newBuckets = some m' := resizeIfNeeded_of_fits hf' _
      refine ⟨{ alloc with newBuckets := true }, ?_, ?_⟩
      · rintro rfl
        rfl
      · exact hgrown.put_resized hk hr hr' rfl key value
    · -- both arrays are full
      obtain ⟨hinv', hsame'⟩ := h.inv'.doubledMap (h.lawful hk) hf'
      refine ⟨alloc, id, ?_⟩
      have hr := resizeIfNeeded_of_full hf alloc.newBuckets
      have hr' := resizeIfNeeded_of_full hf' alloc.newBuckets
      cases hb : alloc.newBuckets with
      | true =>
          rw [hb] at hr hr'
          have hgrown : Grown m.doubledMap m'.doubledMap := by
            refine ⟨hinv, hinv', ⟨?_, h.same.2, h.same.3, h.same.4, h.same.5, h.same.6⟩, d, ?_⟩
            · exact (hsame'.nodes_perm.trans h.same.nodes_perm).trans hsame.nodes_perm.symm
            · simp only [HashMap.doubledMap, hcap]
              exact Nat.mul_right_comm ..
          exact hgrown.put_resized hk (by rw [hb]; exact hr) (by rw [hb]; exact hr') rfl key value
      | false =>
          rw [hb] at hr hr'
          simp only [HashMap.put, HashMap.putResized, hb, hr, hr']
          exact ⟨rfl, rfl, rfl, h⟩

/-! ## Grown maps: a run -/

/-- A call on the grown map has an answer that the same call could have on the other. -/
theorem Grown.call (h : Grown m m') (hk : LawfulKey m.hashFunc m.keyEqFunc) (c : OwnerCall K V) :
    ∃ c₀ : OwnerCall K V, c₀.request = c.request ∧ (c.request = c → c₀ = c) ∧
      m'.answer c = m.answer c₀ ∧ Grown (m.traced c₀).1 (m'.traced c).1 := by
  cases c with
  | put key value alloc =>
      cases key with
      | none => exact ⟨.put none value alloc, rfl, fun _ => rfl, rfl, h⟩
      | some key =>
          obtain ⟨alloc₀, hok, hput⟩ := h.put hk key value alloc
          refine ⟨.put (some key) value alloc₀, rfl, ?_, ?_, hput.grown⟩
          · intro hreq
            simp only [OwnerCall.request, OwnerCall.put.injEq, true_and] at hreq
            rw [← hreq, hok hreq.symm]
          · simp only [answer, putChecked, hput.ret, hput.freedKeys, hput.freedValues]
  | get key =>
      refine ⟨.get key, rfl, fun _ => rfl, ?_, ?_⟩
      · cases key with
        | none => rfl
        | some key =>
            simp only [answer, getChecked, Option.bind_some, HashMap.get, h.findNode_eq hk key]
      · cases key <;> exact h
  | remove key =>
      cases key with
      | none => exact ⟨.remove none, rfl, fun _ => rfl, rfl, h⟩
      | some key =>
          obtain ⟨hret, hkeys, hvalues, hgrown⟩ := h.remove hk key
          refine ⟨.remove (some key), rfl, fun _ => rfl, ?_, hgrown⟩
          simp only [answer, removeChecked, hret, hkeys, hvalues]

theorem Inv.traced (h : m.Inv) (hk : LawfulKey m.hashFunc m.keyEqFunc) (c : OwnerCall K V) :
    (m.traced c).1.Inv ∧ SameFuncs m (m.traced c).1 := by
  cases c with
  | put key value alloc =>
      cases key with
      | none => exact ⟨h, rfl, rfl, rfl, rfl⟩
      | some key =>
          have hs := put_spec h hk key value alloc
          exact ⟨hs.inv, hs.funcs⟩
  | get key => cases key <;> exact ⟨h, rfl, rfl, rfl, rfl⟩
  | remove key =>
      cases key with
      | none => exact ⟨h, rfl, rfl, rfl, rfl⟩
      | some key =>
          have hs := remove_spec h hk key
          exact ⟨hs.inv, hs.funcs⟩

/-- A run of the grown map has the answers of a run of the other, and of the same run when its
allocations succeed. -/
theorem Grown.run (cs : List (OwnerCall K V)) : ∀ {m m' : HashMap K V}, Grown m m' →
    LawfulKey m.hashFunc m.keyEqFunc →
      ∃ cs₀ : List (OwnerCall K V), cs₀.map OwnerCall.request = cs.map OwnerCall.request ∧
        (cs.map OwnerCall.request = cs → cs₀ = cs) ∧
        m'.answers cs = m.answers cs₀ ∧ Grown (m.tracedMap cs₀) (m'.tracedMap cs) := by
  induction cs with
  | nil => exact fun h _ => ⟨[], rfl, fun _ => rfl, rfl, h⟩
  | cons c cs ih =>
      intro m m' h hk
      obtain ⟨c₀, hreq, hok, hanswer, hgrown⟩ := h.call hk c
      have hfuncs := (h.inv.traced hk c₀).2
      obtain ⟨cs₀, hreqs, hoks, hanswers, hend⟩ :=
        ih hgrown (by rwa [hfuncs.hashFunc_eq, hfuncs.keyEqFunc_eq])
      refine ⟨c₀ :: cs₀, ?_, ?_, ?_, hend⟩
      · rw [List.map_cons, List.map_cons, hreq, hreqs]
      · intro he
        obtain ⟨hc, hcs⟩ := List.cons.inj he
        rw [hok hc, hoks hcs]
      · rw [answers, answers, hanswer, hanswers]

/-! ## A failing put -/

/-- A put that fails leaves the map as it was or grown. -/
theorem Inv.grown_of_failed (h : m.Inv) (hk : LawfulKey m.hashFunc m.keyEqFunc) (key : Option K)
    (value : Option V) (alloc : PutAlloc) (hret : (m.putChecked key value alloc).ret = -1) :
    Grown m (m.putChecked key value alloc).map := by
  cases key with
  | none => exact Grown.refl h
  | some key =>
      simp only [putChecked] at hret ⊢
      rcases put_cases m key value alloc with ⟨_, hput⟩ | ⟨m₁, hr, hcases⟩
      · rw [hput]
        exact Grown.refl h
      · rcases hcases with ⟨node, _, hput⟩ | ⟨_, _, hput⟩ | ⟨_, _, hput⟩
        · rw [hput] at hret
          exact absurd hret (by simp)
        · rw [hput] at hret
          exact absurd hret (by simp)
        · rw [hput]
          obtain ⟨h₁, hsame⟩ := resizeIfNeeded_spec h hk hr
          refine ⟨h, h₁, hsame, ?_⟩
          by_cases hf : m.fits = true
          · rw [resizeIfNeeded_of_fits hf] at hr
            cases hr
            exact ⟨0, by rw [Nat.pow_zero, Nat.mul_one]⟩
          · rw [resizeIfNeeded_of_full hf] at hr
            obtain ⟨_, rfl⟩ := Option.ite_some_none_eq_some.mp hr
            exact ⟨1, by rw [Nat.pow_one]; rfl⟩

theorem freed_nil_of_failed (m : HashMap K V) (key : Option K) (value : Option V)
    (alloc : PutAlloc) (hret : (m.putChecked key value alloc).ret = -1) :
    (m.putChecked key value alloc).freedKeys = [] ∧
      (m.putChecked key value alloc).freedValues = [] := by
  cases key with
  | none => exact ⟨rfl, rfl⟩
  | some key =>
      simp only [putChecked] at hret ⊢
      rcases put_cases m key value alloc with ⟨_, hput⟩ | ⟨m₁, _, hcases⟩
      · rw [hput]
        exact ⟨rfl, rfl⟩
      · rcases hcases with ⟨node, _, hput⟩ | ⟨_, _, hput⟩ | ⟨_, _, hput⟩
        · rw [hput] at hret
          exact absurd hret (by simp)
        · rw [hput]
          exact ⟨rfl, rfl⟩
        · rw [hput]
          exact ⟨rfl, rfl⟩

theorem Inv.tracedMap (cs : List (OwnerCall K V)) : ∀ {m : HashMap K V}, m.Inv →
    LawfulKey m.hashFunc m.keyEqFunc →
      (m.tracedMap cs).Inv ∧ LawfulKey (m.tracedMap cs).hashFunc (m.tracedMap cs).keyEqFunc := by
  induction cs with
  | nil => exact fun h hk => ⟨h, hk⟩
  | cons c cs ih =>
      intro m h hk
      obtain ⟨hinv, hfuncs⟩ := h.traced hk c
      exact ih hinv (by rwa [hfuncs.hashFunc_eq, hfuncs.keyEqFunc_eq])

end HashMap

open HashMap

/-- The call that made `r` of `m` might as well not have been made. -/
structure Unobservable (m : HashMap K V) (r : PutResult K V) : Prop where
  get_eq : ∀ key, r.map.get key = m.get key
  remove_eq : ∀ key, (r.map.remove key).ret = (m.remove key).ret ∧
    (r.map.remove key).freedKeys = (m.remove key).freedKeys ∧
    (r.map.remove key).freedValues = (m.remove key).freedValues
  size_eq : r.map.size = m.size
  inv : r.map.Inv
  /-- Later calls answer as the same calls could have answered before, with some of the outcomes
  of their allocations. -/
  later : ∀ cs : List (OwnerCall K V), ∃ cs₀ : List (OwnerCall K V),
    cs₀.map OwnerCall.request = cs.map OwnerCall.request ∧ r.map.answers cs = m.answers cs₀ ∧
      (r.map.tracedMap cs).size = (m.tracedMap cs₀).size
  /-- Later calls whose allocations succeed answer as they would have answered before. -/
  later_ok : ∀ cs : List (OwnerCall K V), cs.map OwnerCall.request = cs →
    r.map.answers cs = m.answers cs ∧ (r.map.tracedMap cs).size = (m.tracedMap cs).size
  nothing_freed : r.freedKeys = [] ∧ r.freedValues = []
  /-- The nodes are those of before, so neither pointer has been stored. -/
  nothing_stored : r.map.nodes.Perm m.nodes

/-- A put that fails on a map that any calls have led to cannot be observed. -/
theorem failed_put_unobservable {hash : K → UInt64} {eq : K → K → Bool} (hk : LawfulKey hash eq)
    {capacity : Nat} {freeKey freeValue : Bool} {m₀ : HashMap K V}
    (hcreate : hashmapCreate capacity hash eq freeKey freeValue = some m₀)
    (cs : List (OwnerCall K V)) (key : Option K) (value : Option V) (alloc : PutAlloc)
    (hret : ((m₀.tracedMap cs).putChecked key value alloc).ret = -1) :
    Unobservable (m₀.tracedMap cs) ((m₀.tracedMap cs).putChecked key value alloc) := by
  have hc : 1 ≤ capacity := by
    rw [hashmapCreate] at hcreate
    split at hcreate
    · cases hcreate
    · omega
  obtain ⟨m, hm, hholds⟩ := hashmapCreate_spec (V := V) hc hash eq freeKey freeValue
  cases hm.symm.trans hcreate
  obtain ⟨hinv, hlawful⟩ := hholds.1.tracedMap cs (by rw [hholds.2.1, hholds.2.2.1]; exact hk)
  have hgrown := hinv.grown_of_failed hlawful key value alloc hret
  generalize (m₀.tracedMap cs) = m at hgrown hret hlawful ⊢
  constructor
  case get_eq =>
    intro k
    simp only [HashMap.get, hgrown.findNode_eq hlawful k]
  case remove_eq =>
    intro k
    obtain ⟨h₁, h₂, h₃, _⟩ := hgrown.remove hlawful k
    exact ⟨h₁, h₂, h₃⟩
  case size_eq => exact hgrown.same.size_eq
  case inv => exact hgrown.inv'
  case later =>
    intro cs'
    obtain ⟨cs₀, hreq, _, hanswers, hend⟩ := Grown.run cs' hgrown hlawful
    exact ⟨cs₀, hreq, hanswers, hend.same.size_eq⟩
  case later_ok =>
    intro cs' hok
    obtain ⟨cs₀, _, heq, hanswers, hend⟩ := Grown.run cs' hgrown hlawful
    cases heq hok
    exact ⟨hanswers, hend.same.size_eq⟩
  case nothing_freed => exact freed_nil_of_failed m key value alloc hret
  case nothing_stored => exact hgrown.same.nodes_perm

/-- A map of one bucket with one node.  The array doubles, and then there is no memory for the
second node. -/
theorem failed_put_unobservable_grown : ∃ m₀ : HashMap Nat Nat,
    hashmapCreate 1 (fun _ => 7) (· == ·) true true = some m₀ ∧
      Unobservable (m₀.tracedMap [.put (some 1) (some 10) {}])
        ((m₀.tracedMap [.put (some 1) (some 10) {}]).putChecked (some 2) (some 20)
          { newNode := false }) := by
  have hk : LawfulKey (fun _ : Nat => (7 : UInt64)) (· == ·) :=
    KeyMap.lawfulKey_of_decides _ fun a b => beq_iff_eq
  have hcreate : hashmapCreate (K := Nat) (V := Nat) 1 (fun _ => 7) (· == ·) true true = some
      ⟨[[]], 1, 0, fun _ => 7, (· == ·), true, true⟩ := rfl
  exact ⟨_, hcreate, failed_put_unobservable hk hcreate _ _ _ _ (by decide)⟩

end DataPropagator
