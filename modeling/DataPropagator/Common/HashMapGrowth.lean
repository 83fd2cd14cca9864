import DataPropagator.Common.HashMapOwnership

/-!
# What growing costs

A put that finds the array full moves every node, so a single put can cost as much as the map is
large.  Over a whole run the moves are paid for by the puts: the array is doubled when it has no
more chains than about twice the nodes, and then there is room for as many new ones.

The test is the comparison of floats that the code makes, at every capacity.  Rounding shifts the
threshold, but a map with twice as many chains as nodes is never grown (`fits_of_half`) and a map
with no more chains than nodes always is (`not_fits_of_le`).  `credit` is what earlier puts have
paid in advance.
-/

namespace DataPropagator

variable {K V : Type}

/-- The puts of a sequence of calls that are given a key. -/
def putCount : List (OwnerCall K V) → Nat
  | [] => 0
  | .put (some _) _ _ :: cs => putCount cs + 1
  | _ :: cs => putCount cs

namespace HashMap

/-- How many nodes the rehash of a call moves. -/
def moved (m : HashMap K V) : OwnerCall K V → Nat
  | .put (some _) _ alloc => (m.rehashed alloc.newBuckets).length
  | _ => 0

/-- How many times a node is moved over a sequence of calls. -/
def totalMoved (m : HashMap K V) : List (OwnerCall K V) → Nat
  | [] => 0
  | c :: cs => m.moved c + totalMoved (m.traced c).1 cs

variable {m m' : HashMap K V} {key : K}

/-! ## The test -/

theorem fits_of_half (h : 2 * (m.size + 1) ≤ m.capacity) : m.fits = true := by
  refine Binary32.divLe_of_half (Binary32.ofNat_pos (Nat.succ_pos _)) ?_
  rw [← Binary32.ofNat_double]
  exact Binary32.ofNat_mono h

theorem not_fits_of_le (hc : 0 < m.capacity) (h : m.capacity ≤ m.size + 1) : m.fits = false :=
  Binary32.divLe_of_le (Binary32.ofNat_pos hc) (Binary32.ofNat_mono h)

/-! ## One call -/

/-- `size` counts the nodes, and there is a chain for each of them. -/
structure Roomy (m : HashMap K V) : Prop where
  shaped : m.Shaped
  size_eq : m.size = m.nodes.length
  room : m.size ≤ m.capacity

/-- What earlier puts have paid for moves to come. -/
def credit (m : HashMap K V) : Nat := 3 * m.size - m.capacity

/-- What a call does to the size and the capacity, and how many nodes it moves. -/
inductive Growth (m m' : HashMap K V) (moved : Nat) : Prop where
  /-- The array is the same, and no node is added. -/
  | kept (capacity : m'.capacity = m.capacity) (size : m'.size ≤ m.size) (none : moved = 0)
  /-- The array is the same, and a node is added. -/
  | filled (capacity : m'.capacity = m.capacity) (size : m'.size = m.size + 1) (none : moved = 0)
      (fits : m.size + 1 < m.capacity)
  /-- The array is doubled, and every node is moved. -/
  | doubled (capacity : m'.capacity = m.capacity * 2) (all : moved = m.size)
      (size : m'.size ≤ m.size + 1) (full : m.capacity < 2 * (m.size + 1))

theorem Shaped.modify (h : m.Shaped) (i : Nat)
    (f : List (HashNode K V) → List (HashNode K V)) (size : Nat) :
    Shaped { m with buckets := m.buckets.modify i f, size := size } :=
  ⟨(List.length_modify ..).trans h.buckets_length, h.capacity_pos⟩

/-- `resize_if_needed` leaves the array alone or doubles it. -/
theorem Roomy.resizeIfNeeded (h : m.Roomy) {ok : Bool} (hr : m.resizeIfNeeded ok = some m') :
    m'.Shaped ∧ m'.size = m.size ∧ m'.size = m'.nodes.length ∧
      ((m'.capacity = m.capacity ∧ (m.rehashed ok).length = 0 ∧ m.size + 1 < m.capacity) ∨
        (m'.capacity = m.capacity * 2 ∧ (m.rehashed ok).length = m.size ∧
          m.capacity < 2 * (m.size + 1))) := by
  obtain ⟨hshaped, hsame⟩ := h.shaped.resizeIfNeeded hr
  have hcount : m'.size = m'.nodes.length := by
    rw [hsame.size_eq, h.size_eq, hsame.nodes_perm.length_eq]
  refine ⟨hshaped, hsame.size_eq, hcount, ?_⟩
  rw [HashMap.resizeIfNeeded, HashMap.resizeWhen] at hr
  cases hf : m.fits with
  | true =>
      rw [hf, if_pos rfl] at hr
      cases hr
      refine Or.inl ⟨rfl, by simp [rehashed, hf], ?_⟩
      by_contra hfull
      rw [not_fits_of_le h.shaped.capacity_pos (by omega)] at hf
      cases hf
  | false =>
      rw [hf] at hr
      cases ok with
      | false => cases hr
      | true =>
          cases hr
          refine Or.inr ⟨rfl, by simp [rehashed, hf, h.size_eq], ?_⟩
          by_contra hroom
          rw [fits_of_half (by omega)] at hf
          cases hf

/-- What a put does after `resize_if_needed`. -/
theorem Shaped.put_resized (h : m'.Shaped) (key : K) (value : Option V) {alloc : PutAlloc}
    (hr : m.resizeIfNeeded alloc.newBuckets = some m') :
    ∃ d, d ≤ 1 ∧ (m.put key value alloc).map.Shaped ∧
      (m.put key value alloc).map.capacity = m'.capacity ∧
      (m.put key value alloc).map.size = m'.size + d ∧
      (m.put key value alloc).map.nodes.length = m'.nodes.length + d := by
  rcases put_cases m key value alloc with ⟨hnone, _⟩ | ⟨m₁, hr₁, hcases⟩
  · rw [hr] at hnone
    cases hnone
  · rw [hr, Option.some.injEq] at hr₁
    subst hr₁
    rcases hcases with ⟨node, hf, hput⟩ | ⟨_, _, hput⟩ | ⟨_, _, hput⟩ <;> rw [hput]
    · obtain ⟨_, rest, hnodes, hset, _⟩ := h.nodes_split hf
      refine ⟨0, Nat.zero_le _, h.modify _ _ _, rfl, rfl, ?_⟩
      rw [(hset value).length_eq, hnodes.length_eq]
      rfl
    · exact ⟨1, Nat.le_refl _, h.modify _ _ _, rfl, rfl, (h.addNode_perm key value).length_eq⟩
    · exact ⟨0, Nat.zero_le _, h, rfl, rfl, rfl⟩

theorem Roomy.put (h : m.Roomy) (key : K) (value : Option V) (alloc : PutAlloc) :
    (m.put key value alloc).map.Roomy ∧
      Growth m (m.put key value alloc).map (m.moved (.put (some key) value alloc)) := by
  rw [moved]
  cases hr : m.resizeIfNeeded alloc.newBuckets with
  | none =>
      have hsame : (m.put key value alloc).map = m := by
        rw [HashMap.put, hr, HashMap.putResized]
      have hmoved : m.rehashed alloc.newBuckets = [] := by
        rw [HashMap.resizeIfNeeded, HashMap.resizeWhen] at hr
        rw [rehashed]
        split at hr
        · cases hr
        · split at hr
          · cases hr
          · simp_all
      rw [hsame, hmoved]
      exact ⟨h, .kept rfl le_rfl rfl⟩
  | some m₁ =>
      obtain ⟨hshaped₁, hsize₁, hcount₁, hgrow⟩ := h.resizeIfNeeded hr
      obtain ⟨d, hd, hshaped, hcap, hsize, hcount⟩ := hshaped₁.put_resized key value hr
      have hroom := h.room
      have hpos := h.shaped.capacity_pos
      rcases hgrow with ⟨hcap₁, hmoved, hfits⟩ | ⟨hcap₁, hmoved, hfull⟩
      · refine ⟨⟨hshaped, by omega, by omega⟩, ?_⟩
        rcases Nat.le_one_iff_eq_zero_or_eq_one.mp hd with rfl | rfl
        · exact .kept (hcap.trans hcap₁) (by omega) hmoved
        · exact .filled (hcap.trans hcap₁) (by omega) hmoved hfits
      · exact ⟨⟨hshaped, by omega, by omega⟩, .doubled (by omega) hmoved (by omega) hfull⟩

theorem Roomy.remove (h : m.Roomy) (key : K) :
    (m.remove key).map.Roomy ∧ (m.remove key).map.capacity = m.capacity ∧
      (m.remove key).map.size ≤ m.size := by
  rw [HashMap.remove]
  cases hf : m.findNode key with
  | none => exact ⟨h, rfl, le_rfl⟩
  | some node =>
      obtain ⟨_, rest, hnodes, _, hrest⟩ := h.shaped.nodes_split hf
      have hcount : m.size = rest.length + 1 := h.size_eq.trans hnodes.length_eq
      refine ⟨⟨h.shaped.modify _ _ _, ?_, (Nat.sub_le ..).trans h.room⟩, rfl, Nat.sub_le ..⟩
      show m.size - 1 = _
      rw [hrest.length_eq]
      omega

/-- What `puts` puts may cost a map, how many nodes they may add, and how far it may grow. -/
structure Paid (m m' : HashMap K V) (moved puts : Nat) : Prop where
  roomy : m'.Roomy
  cost : moved + m'.credit ≤ m.credit + 3 * puts
  size : m'.size ≤ m.size + puts
  capacity : m'.capacity ≤ max m.capacity (4 * (m.size + puts))

theorem Roomy.paid_nothing (h : m'.Roomy) (hcap : m'.capacity = m.capacity)
    (hsize : m'.size ≤ m.size) : Paid m m' 0 0 where
  roomy := h
  cost := by
    rw [credit, credit]
    omega
  size := hsize
  capacity := hcap ▸ le_max_left ..

theorem Growth.paid {n : Nat} (hm : m.Roomy) (hm' : m'.Roomy) (h : Growth m m' n) :
    Paid m m' n 1 := by
  have hroom := hm.room
  refine ⟨hm', ?_, ?_, ?_⟩
  · rw [credit, credit]
    cases h <;> omega
  · cases h <;> omega
  · cases h <;> omega

/-- The moves of a call are paid for by the credit and by three units for a put. -/
theorem Roomy.call (h : m.Roomy) (c : OwnerCall K V) :
    Paid m (m.traced c).1 (m.moved c) (putCount [c]) := by
  cases c with
  | put key value alloc =>
      cases key with
      | none => exact h.paid_nothing rfl le_rfl
      | some key =>
          obtain ⟨hput, hgrowth⟩ := h.put key value alloc
          exact hgrowth.paid h hput
  | get key => cases key <;> exact h.paid_nothing rfl le_rfl
  | remove key =>
      cases key with
      | none => exact h.paid_nothing rfl le_rfl
      | some key =>
          obtain ⟨hremove, hcap, hsize⟩ := h.remove key
          exact hremove.paid_nothing hcap hsize

/-! ## A run -/

theorem putCount_cons (c : OwnerCall K V) (cs : List (OwnerCall K V)) :
    putCount (c :: cs) = putCount [c] + putCount cs := by
  cases c with
  | put key value alloc => cases key <;> simp [putCount, Nat.add_comm]
  | get key => simp [putCount]
  | remove key => simp [putCount]

theorem Roomy.run (cs : List (OwnerCall K V)) (h : m.Roomy) :
    Paid m (m.tracedMap cs) (m.totalMoved cs) (putCount cs) := by
  induction cs generalizing m with
  | nil => exact h.paid_nothing rfl le_rfl
  | cons c cs ih =>
      have hcall := h.call c
      have hrest := ih hcall.roomy
      have hcost := hcall.cost
      have hsize := hcall.size
      have hcap := hcall.capacity
      have hcost' := hrest.cost
      have hsize' := hrest.size
      have hcap' := hrest.capacity
      rw [putCount_cons, totalMoved]
      refine ⟨hrest.roomy, ?_, ?_, ?_⟩
      · show m.moved c + _ + ((m.traced c).1.tracedMap cs).credit ≤ _
        omega
      · show ((m.traced c).1.tracedMap cs).size ≤ _
        omega
      · show ((m.traced c).1.tracedMap cs).capacity ≤ _
        omega

end HashMap

/-- For every initial capacity, hash function and key comparison and every sequence of calls,
whatever becomes of the allocations, with the comparison of floats that `resize_if_needed` makes:
over the whole run nodes are moved to a new array at most three times as often as there are puts.
There is never less than one chain for each node, and no more chains than the initial ones or four
for each put. -/
theorem rehashing_amortised {capacity : Nat} (hc : 1 ≤ capacity) (hash : K → UInt64)
    (eq : K → K → Bool) (freeKey freeValue : Bool) (cs : List (OwnerCall K V)) :
    ∃ m₀ : HashMap K V, hashmapCreate capacity hash eq freeKey freeValue = some m₀ ∧
      m₀.totalMoved cs ≤ 3 * putCount cs ∧
      (m₀.tracedMap cs).size ≤ (m₀.tracedMap cs).capacity ∧
      (m₀.tracedMap cs).capacity ≤ max capacity (4 * putCount cs) := by
  obtain ⟨m₀, hm, hinv, _, _, hcap, hsize, _⟩ :=
    hashmapCreate_spec (V := V) hc hash eq freeKey freeValue
  have h₀ : m₀.Roomy := ⟨hinv.shaped, hinv.size_eq, by omega⟩
  have h := h₀.run cs
  have hcost := h.cost
  have hgrown := h.capacity
  have hcredit : m₀.credit = 0 := by
    rw [HashMap.credit, hsize]
    exact Nat.zero_sub _
  rw [hcap, hsize, Nat.zero_add] at hgrown
  exact ⟨m₀, hm, by omega, h.roomy.room, hgrown⟩

/-- Four keys in one chain, the array growing twice on the way. -/
theorem rehashing_amortised_sample : ∃ m₀ : HashMap Nat Nat,
    hashmapCreate 1 (fun _ => 7) (· == ·) true true = some m₀ ∧
      m₀.totalMoved [.put (some 1) none {}, .put (some 2) (some 5) {}, .remove (some 1),
        .put (some 3) none {}, .put (some 4) none {}] ≤ 3 * 4 := by
  obtain ⟨m₀, hm, hmoved, _⟩ := rehashing_amortised (V := Nat) (le_refl 1) (fun _ : Nat => 7)
    (· == ·) true true [.put (some 1) none {}, .put (some 2) (some 5) {}, .remove (some 1),
      .put (some 3) none {}, .put (some 4) none {}]
  exact ⟨m₀, hm, hmoved⟩

end DataPropagator
