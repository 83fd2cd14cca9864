import DataPropagator.Common.HashMapOwnership
import Mathlib.Algebra.Order.Field.Rat
import Mathlib.Tactic.NormNum

/-!
# How full a map gets

`hashmap_put` tests the load before it knows whether it will need a node, and it doubles the
array at most once.  That is enough.  After every call the map is at most three quarters full,
and the array is never much larger than the largest number of nodes called for.

The test is read on rational numbers here.  The two readings can differ only in arrays of 2²³
chains and more, so the puts are those of `HashMap.put` up to there.
-/

namespace DataPropagator

variable {K V : Type}

namespace HashMap

/-! ## The test on rational numbers -/

/-- `(float)(map->size + 1) / (float)map->capacity <= MAX_LOAD_FACTOR`, read exactly. -/
def fitsExact (m : HashMap K V) : Bool :=
  decide (((m.size + 1 : Nat) : ℚ) / (m.capacity : ℚ) ≤ 3 / 4)

/-- `hashmap_put` after its NULL checks, with the result of the test of the load. -/
def putWhen (fits : Bool) (m : HashMap K V) (key : K) (value : Option V) (alloc : PutAlloc) :
    PutResult K V :=
  m.putResized key value alloc (resizeWhen fits m alloc.newBuckets)

/-- `hashmap_put` after its NULL checks, with the exact test. -/
def putExact (m : HashMap K V) (key : K) (value : Option V) (alloc : PutAlloc) :
    PutResult K V :=
  putWhen m.fitsExact m key value alloc

/-- The map after one call. -/
def callExact (m : HashMap K V) : OwnerCall K V → HashMap K V
  | .put none _ _ => m
  | .put (some key) value alloc => (m.putExact key value alloc).map
  | .get _ => m
  | .remove none => m
  | .remove (some key) => (m.remove key).map

/-- The map after a sequence of calls. -/
def callsExact (m : HashMap K V) (cs : List (OwnerCall K V)) : HashMap K V :=
  cs.foldl callExact m

/-- The largest size before, between and after the calls. -/
def peakSize (m : HashMap K V) : List (OwnerCall K V) → Nat
  | [] => m.size
  | c :: cs => max m.size (peakSize (m.callExact c) cs)

variable {m m' : HashMap K V} {key : K} {value : Option V} {alloc : PutAlloc}

theorem put_eq_putWhen (m : HashMap K V) (key : K) (value : Option V) (alloc : PutAlloc) :
    m.put key value alloc = putWhen m.fits m key value alloc := rfl

theorem fitsExact_iff (hc : 0 < m.capacity) :
    m.fitsExact = true ↔ 4 * (m.size + 1) ≤ 3 * m.capacity := by
  have hpos : (0 : ℚ) < m.capacity := by exact_mod_cast hc
  rw [fitsExact, decide_eq_true_eq, div_le_div_iff₀ hpos (by norm_num)]
  constructor
  · intro h
    have h' : (m.size + 1) * 4 ≤ 3 * m.capacity := by exact_mod_cast h
    omega
  · intro h
    have h' : (m.size + 1) * 4 ≤ 3 * m.capacity := by omega
    exact_mod_cast h'

/-- The two readings of the test agree on a map that is not too full, up to 2²³ chains. -/
theorem fits_eq_fitsExact (hc : 0 < m.capacity) (hcap : m.capacity < 2 ^ 23)
    (hload : 4 * m.size ≤ 3 * m.capacity) : m.fits = m.fitsExact := by
  have hsize : Binary32.ofNat (m.size + 1) = m.size + 1 := if_pos (by omega)
  have hcapacity : Binary32.ofNat m.capacity = m.capacity := if_pos (by omega)
  rw [Bool.eq_iff_iff, fitsExact_iff hc, fits, hsize, hcapacity]
  exact Binary32.divLe_three_quarters (Nat.succ_pos _) hc hcap

/-! ## What a call does to the load -/

/-- The capacity and the size after a put. -/
inductive PutLoad (m m' : HashMap K V) : Prop where
  /-- The array is the same, and no node is added. -/
  | kept (capacity : m'.capacity = m.capacity) (size : m'.size = m.size)
  /-- The array is the same and has room for the node that is added. -/
  | filled (capacity : m'.capacity = m.capacity) (size : m'.size = m.size + 1)
      (fits : 4 * (m.size + 1) ≤ 3 * m.capacity)
  /-- The array had no room for one more node. -/
  | doubled (capacity : m'.capacity = m.capacity * 2) (full : 3 * m.capacity < 4 * (m.size + 1))
      (size : m'.size = m.size ∨ m'.size = m.size + 1)

theorem resizeWhen_cases (fits : Bool) (m : HashMap K V) (ok : Bool) :
    resizeWhen fits m ok = none ∨
      ∃ m', resizeWhen fits m ok = some m' ∧ m'.size = m.size ∧
        ((fits = true ∧ m'.capacity = m.capacity) ∨
          (fits = false ∧ m'.capacity = m.capacity * 2)) := by
  rw [resizeWhen]
  cases fits with
  | true => exact Or.inr ⟨m, rfl, rfl, Or.inl ⟨rfl, rfl⟩⟩
  | false =>
      cases ok with
      | true => exact Or.inr ⟨_, rfl, rfl, Or.inr ⟨rfl, rfl⟩⟩
      | false => exact Or.inl rfl

/-- After the test a put keeps the capacity and adds a node or none. -/
theorem putWhen_some {fits : Bool} (key : K) (value : Option V)
    (h : resizeWhen fits m alloc.newBuckets = some m') :
    (putWhen fits m key value alloc).map.capacity = m'.capacity ∧
      ((putWhen fits m key value alloc).map.size = m'.size ∨
        (putWhen fits m key value alloc).map.size = m'.size + 1) := by
  rw [putWhen, h, putResized]
  split
  · exact ⟨rfl, Or.inl rfl⟩
  · split
    · exact ⟨rfl, Or.inr rfl⟩
    · exact ⟨rfl, Or.inl rfl⟩

theorem putExact_load (hc : 0 < m.capacity) (key : K) (value : Option V) (alloc : PutAlloc) :
    PutLoad m (m.putExact key value alloc).map := by
  rw [putExact]
  rcases resizeWhen_cases m.fitsExact m alloc.newBuckets with hnone | ⟨m', hsome, hsize, hcap⟩
  · rw [putWhen, hnone, putResized]
    exact .kept rfl rfl
  · obtain ⟨hcapacity, hput⟩ := putWhen_some key value hsome
    rcases hcap with ⟨hfits, hcap⟩ | ⟨hfits, hcap⟩
    · have hroom := (fitsExact_iff hc).mp hfits
      rcases hput with hput | hput
      · exact .kept (hcapacity.trans hcap) (hput.trans hsize)
      · exact .filled (hcapacity.trans hcap) (by rw [hput, hsize]) hroom
    · have hfull : ¬ 4 * (m.size + 1) ≤ 3 * m.capacity := by
        rw [← fitsExact_iff hc, hfits]
        exact Bool.false_ne_true
      exact .doubled (hcapacity.trans hcap) (by omega) (by rwa [hsize] at hput)

theorem remove_load (m : HashMap K V) (key : K) :
    (m.remove key).map.capacity = m.capacity ∧ (m.remove key).map.size ≤ m.size := by
  rw [remove]
  split
  · exact ⟨rfl, Nat.sub_le _ _⟩
  · exact ⟨rfl, le_rfl⟩

/-! ## The bounds -/

/-- A map that started with `c` chains and never had more than `peak` nodes. -/
structure LoadBounded (c peak : Nat) (m : HashMap K V) : Prop where
  pos : 0 < m.capacity
  load : 4 * m.size ≤ 3 * m.capacity
  doubled : ∃ k, m.capacity = c * 2 ^ k
  grown : m.capacity ≤ c ∨ 3 * m.capacity ≤ 8 * (peak + 1)
  size_le : m.size ≤ peak

theorem LoadBounded.mono {c peak peak' : Nat} (h : LoadBounded c peak m) (hle : peak ≤ peak') :
    LoadBounded c peak' m where
  pos := h.pos
  load := h.load
  doubled := h.doubled
  grown := h.grown.imp_right fun hgrown => by omega
  size_le := h.size_le.trans hle

/-- The same array with fewer nodes. -/
theorem LoadBounded.shrink {c peak : Nat} (h : LoadBounded c peak m)
    (hcap : m'.capacity = m.capacity) (hsize : m'.size ≤ m.size) : LoadBounded c peak m' where
  pos := hcap ▸ h.pos
  load := by
    have := h.load
    omega
  doubled := hcap ▸ h.doubled
  grown := hcap ▸ h.grown
  size_le := hsize.trans h.size_le

theorem LoadBounded.put {c peak : Nat} (h : LoadBounded c peak m) (hput : PutLoad m m') :
    LoadBounded c (max peak m'.size) m' := by
  have hload := h.load
  have hpos := h.pos
  have hsize := h.size_le
  cases hput with
  | kept hcap hsame => exact (h.shrink hcap hsame.le).mono (le_max_left ..)
  | filled hcap hnew hfits =>
      exact
        { pos := hcap ▸ hpos
          load := by omega
          doubled := hcap ▸ h.doubled
          grown := hcap ▸ (h.mono (le_max_left ..)).grown
          size_le := le_max_right .. }
  | doubled hcap hfull hnew =>
      obtain ⟨k, hk⟩ := h.doubled
      have hsmall : m.size ≤ max peak m'.size := h.size_le.trans (le_max_left ..)
      exact
        { pos := by omega
          -- one doubling is enough, also from a single chain, which is full when it is empty
          load := by omega
          doubled := ⟨k + 1, by rw [hcap, hk, Nat.pow_succ, Nat.mul_assoc]⟩
          grown := Or.inr (by omega)
          size_le := le_max_right .. }

/-- One call. -/
theorem LoadBounded.call {c peak : Nat} (h : LoadBounded c peak m) (call : OwnerCall K V) :
    LoadBounded c (max peak (m.callExact call).size) (m.callExact call) := by
  cases call with
  | put key value alloc =>
      cases key with
      | none => exact h.mono (le_max_left ..)
      | some key => exact h.put (putExact_load h.pos key value alloc)
  | get key => exact h.mono (le_max_left ..)
  | remove key =>
      cases key with
      | none => exact h.mono (le_max_left ..)
      | some key =>
          obtain ⟨hcap, hsize⟩ := m.remove_load key
          exact (h.shrink hcap hsize).mono (le_max_left ..)

theorem size_le_peakSize (m : HashMap K V) (cs : List (OwnerCall K V)) :
    m.size ≤ m.peakSize cs := by
  cases cs with
  | nil => exact le_rfl
  | cons c cs => exact le_max_left ..

/-- A sequence of calls. -/
theorem LoadBounded.calls {c : Nat} (cs : List (OwnerCall K V)) {peak : Nat}
    (h : LoadBounded c peak m) :
    LoadBounded c (max peak (m.peakSize cs)) (m.callsExact cs) := by
  induction cs generalizing m peak with
  | nil => exact h.mono (le_max_left ..)
  | cons call cs ih =>
      have hnext := (m.callExact call).size_le_peakSize cs
      refine (ih (h.call call)).mono ?_
      rw [peakSize]
      omega

end HashMap

/-- For every initial capacity, hash function and key comparison and every sequence of calls,
whatever becomes of the allocations: the map is at most three quarters full, its capacity is the
initial one doubled some number of times, and it stays below the initial one or 8/3 of one more
than the largest size so far.  A put that follows doubles at most once, and up to 2²³ chains it
is the put of the code. -/
theorem load_factor_bounded {capacity : Nat} (hc : 1 ≤ capacity) (hash : K → UInt64)
    (eq : K → K → Bool) (freeKey freeValue : Bool) (cs : List (OwnerCall K V)) :
    ∃ m₀ : HashMap K V, hashmapCreate capacity hash eq freeKey freeValue = some m₀ ∧
      4 * (m₀.callsExact cs).size ≤ 3 * (m₀.callsExact cs).capacity ∧
      (∃ k, (m₀.callsExact cs).capacity = capacity * 2 ^ k) ∧
      (m₀.callsExact cs).capacity ≠ 0 ∧
      ((m₀.callsExact cs).capacity : ℚ) ≤ max (capacity : ℚ) (8 * (m₀.peakSize cs + 1) / 3) ∧
      ∀ key value alloc,
        (((m₀.callsExact cs).putExact key value alloc).map.capacity =
            (m₀.callsExact cs).capacity ∨
          ((m₀.callsExact cs).putExact key value alloc).map.capacity =
            (m₀.callsExact cs).capacity * 2) ∧
        ((m₀.callsExact cs).capacity < 2 ^ 23 →
          (m₀.callsExact cs).put key value alloc =
            (m₀.callsExact cs).putExact key value alloc) := by
  obtain ⟨m₀, hm, _, _, _, hcap, hsize, _⟩ :=
    hashmapCreate_spec (V := V) hc hash eq freeKey freeValue
  have h₀ : HashMap.LoadBounded capacity 0 m₀ :=
    { pos := by omega
      load := by omega
      doubled := ⟨0, by rw [hcap, Nat.pow_zero, Nat.mul_one]⟩
      grown := Or.inl hcap.le
      size_le := hsize.le }
  have h := h₀.calls cs
  rw [Nat.zero_max] at h
  refine ⟨m₀, hm, h.load, h.doubled, h.pos.ne', ?_, fun key value alloc => ⟨?_, ?_⟩⟩
  · rcases h.grown with hle | hle
    · exact le_max_of_le_left (by exact_mod_cast hle)
    · apply le_max_of_le_right
      rw [le_div_iff₀ (by norm_num), mul_comm]
      exact_mod_cast hle
  · cases HashMap.putExact_load h.pos key value alloc with
    | kept hsame => exact Or.inl hsame
    | filled hsame => exact Or.inl hsame
    | doubled htwice => exact Or.inr htwice
  · intro hsmall
    rw [HashMap.put_eq_putWhen, HashMap.fits_eq_fitsExact h.pos hsmall h.load]
    rfl

/-- A map with one chain gets three keys, one of them again after its allocation failed. -/
theorem load_factor_bounded_one : ∃ m₀ : HashMap Nat Nat,
    hashmapCreate 1 (fun _ => 7) (· == ·) true false = some m₀ ∧
      4 * (m₀.callsExact [.put (some 1) none {}, .put (some 2) (some 5) { newBuckets := false },
        .put (some 2) (some 5) {}, .put (some 3) none {}]).size ≤
      3 * (m₀.callsExact [.put (some 1) none {}, .put (some 2) (some 5) { newBuckets := false },
        .put (some 2) (some 5) {}, .put (some 3) none {}]).capacity := by
  obtain ⟨m₀, hm, hload, _⟩ := load_factor_bounded (V := Nat) (le_refl 1) (fun _ : Nat => 7)
    (· == ·) true false [.put (some 1) none {}, .put (some 2) (some 5) { newBuckets := false },
      .put (some 2) (some 5) {}, .put (some 3) none {}]
  exact ⟨m₀, hm, hload⟩

end DataPropagator
