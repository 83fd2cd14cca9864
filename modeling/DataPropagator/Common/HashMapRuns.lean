import DataPropagator.Common.HashMap

/-!
# Sequences of calls on a hash map

The abstract map of `Lib/KeyMap.lean` is what a `HashMap` is for.  A sequence of
calls is read as a history of writes, and after any sequence the map answers as
the history says: a key is bound to what the last write under an equal key left
there, and `size` counts the classes of equal keys that are bound.

Growth never shows.  It is one more way to reach the same bindings.
-/

namespace DataPropagator

open KeyMap (LawfulKey Write latest)

variable {K V : Type}

/-- A call on a map, its allocations succeeding. -/
inductive MapCall (K V : Type) where
  | put : K → Option V → MapCall K V
  | get : K → MapCall K V
  | remove : K → MapCall K V
  | size : MapCall K V

/-- The write a call makes, if it makes one. -/
def MapCall.write : MapCall K V → Option (Write K (Option V))
  | .put k v => some (.assign k v)
  | .get _ => none
  | .remove k => some (.erase k)
  | .size => none

/-- The writes of a sequence of calls, oldest first. -/
def history (cs : List (MapCall K V)) : List (Write K (Option V)) :=
  cs.filterMap MapCall.write

namespace HashMap

/-- The map after one call. -/
def call (m : HashMap K V) : MapCall K V → HashMap K V
  | .put k v => (m.put k v {}).map
  | .get _ => m
  | .remove k => (m.remove k).map
  | .size => m

/-- The map after a sequence of calls. -/
def calls (m : HashMap K V) (cs : List (MapCall K V)) : HashMap K V :=
  cs.foldl call m

/-- The map holds the bindings `f`, under the key functions it was created with. -/
structure Holds (hash : K → UInt64) (eq : K → K → Bool) (m : HashMap K V)
    (f : K → Option (Option V)) : Prop where
  inv : m.Inv
  hashFunc_eq : m.hashFunc = hash
  keyEqFunc_eq : m.keyEqFunc = eq
  lookup_eq : m.lookup = f

variable {hash : K → UInt64} {eq : K → K → Bool} {m : HashMap K V} {f : K → Option (Option V)}

theorem Holds.lawful (h : Holds hash eq m f) (hk : LawfulKey hash eq) :
    LawfulKey m.hashFunc m.keyEqFunc := by
  rwa [h.hashFunc_eq, h.keyEqFunc_eq]

/-- A put applies its write to the bindings. -/
theorem Holds.put (h : Holds hash eq m f) (hk : LawfulKey hash eq) (k : K) (v : Option V) :
    Holds hash eq (m.put k v {}).map ((Write.assign k v).apply eq f) := by
  have hs := put_spec h.inv (h.lawful hk) k v {}
  refine ⟨hs.inv, hs.funcs.hashFunc_eq.trans h.hashFunc_eq,
    hs.funcs.keyEqFunc_eq.trans h.keyEqFunc_eq, ?_⟩
  funext k'
  rw [hs.bound (put_ret m k v), h.keyEqFunc_eq, h.lookup_eq]
  rfl

/-- A removal applies its write to the bindings. -/
theorem Holds.remove (h : Holds hash eq m f) (hk : LawfulKey hash eq) (k : K) :
    Holds hash eq (m.remove k).map ((Write.erase k : Write K (Option V)).apply eq f) := by
  have hs := remove_spec h.inv (h.lawful hk) k
  refine ⟨hs.inv, hs.funcs.hashFunc_eq.trans h.hashFunc_eq,
    hs.funcs.keyEqFunc_eq.trans h.keyEqFunc_eq, ?_⟩
  funext k'
  rw [hs.unbound, h.keyEqFunc_eq, h.lookup_eq]
  rfl

/-- One call: the bindings change by its write. -/
theorem Holds.call (h : Holds hash eq m f) (hk : LawfulKey hash eq) (c : MapCall K V) :
    Holds hash eq (m.call c) (KeyMap.replay eq f c.write.toList) := by
  cases c with
  | put k v => exact h.put hk k v
  | get _ => exact h
  | remove k => exact h.remove hk k
  | size => exact h

/-- A sequence of calls: the bindings change by its history. -/
theorem Holds.calls (hk : LawfulKey hash eq) : ∀ (cs : List (MapCall K V)) {m : HashMap K V}
    {f : K → Option (Option V)}, Holds hash eq m f →
      Holds hash eq (m.calls cs) (KeyMap.replay eq f (history cs))
  | [], _, _, h => h
  | c :: cs, m, f, h => by
      have ih := Holds.calls hk cs (h.call hk c)
      rw [← KeyMap.replay_append] at ih
      have hcons : history (c :: cs) = c.write.toList ++ history cs := by
        cases hw : c.write <;> simp [history, hw]
      rw [hcons]
      exact ih

/-- A loop of puts binds every key to its last value. -/
theorem Holds.foldl_put {β : Type} (hk : LawfulKey hash eq) (key : β → K) (val : β → Option V) :
    ∀ (bs : List β) {m : HashMap K V} {f : K → Option (Option V)}, Holds hash eq m f →
      ∃ m', bs.foldl (fun m b => hashmapPut m (key b) (val b)) (some m) = some m' ∧
        Holds hash eq m' (KeyMap.assignAll eq f (bs.map fun b => (key b, val b)))
  | [], m, _, h => ⟨m, rfl, h⟩
  | b :: bs, _, _, h => Holds.foldl_put hk key val bs (h.put hk (key b) (val b))

theorem hashmapCreate_holds {capacity : Nat} (hc : 1 ≤ capacity) (hash : K → UInt64)
    (eq : K → K → Bool) (freeKey freeValue : Bool) : ∃ m : HashMap K V,
      hashmapCreate capacity hash eq freeKey freeValue = some m ∧
        Holds hash eq m fun _ => none := by
  obtain ⟨m, hm, hinv, hh, he, _, _, hl⟩ := hashmapCreate_spec (V := V) hc hash eq freeKey freeValue
  exact ⟨m, hm, hinv, hh, he, funext hl⟩

/-! ## Counting -/

/-- The classes of equal keys that are bound. -/
def boundClasses (hk : LawfulKey hash eq) (f : K → Option (Option V)) :
    Set (Quotient hk.setoid) :=
  {q | ∃ k, q = Quotient.mk hk.setoid k ∧ (f k).isSome}

theorem Holds.isSome_iff (h : Holds hash eq m f) (hk : LawfulKey hash eq) (k : K) :
    (f k).isSome ↔ ∃ k' ∈ m.keys, eq k' k = true := by
  have hfind : ∀ v, f k = some v ↔ ∃ node ∈ m.nodes, eq node.key k = true ∧ node.value = v := by
    intro v
    rw [← h.lookup_eq, h.inv.lookup_eq_find (h.lawful hk),
      find_eq_some_iff (h.lawful hk) h.inv.distinct, h.keyEqFunc_eq]
  rw [Option.isSome_iff_exists]
  constructor
  · rintro ⟨v, hv⟩
    obtain ⟨node, hnode, heq, _⟩ := (hfind v).mp hv
    exact ⟨node.key, List.mem_map_of_mem hnode, heq⟩
  · rintro ⟨_, hmem, heq⟩
    obtain ⟨node, hnode, rfl⟩ := List.mem_map.mp hmem
    exact ⟨node.value, (hfind _).mpr ⟨node, hnode, heq, rfl⟩⟩

/-- `size` is the number of bound classes. -/
theorem Holds.size (h : Holds hash eq m f) (hk : LawfulKey hash eq) :
    m.size = (boundClasses hk f).ncard := by
  classical
  let qs := m.keys.map (Quotient.mk hk.setoid)
  have hnodup : qs.Nodup := by
    refine List.pairwise_map.mpr (h.inv.distinct.imp fun {a b} hab hq => ?_)
    have : eq a b = true := Quotient.exact hq
    rw [h.keyEqFunc_eq, this] at hab
    cases hab
  have hset : boundClasses hk f = ↑qs.toFinset := by
    ext q
    rw [Finset.mem_coe, List.mem_toFinset, List.mem_map]
    constructor
    · rintro ⟨k, rfl, hk'⟩
      obtain ⟨k', hmem, heq⟩ := (h.isSome_iff hk k).mp hk'
      exact ⟨k', hmem, Quotient.sound heq⟩
    · rintro ⟨k', hmem, rfl⟩
      exact ⟨k', rfl, (h.isSome_iff hk k').mpr ⟨k', hmem, hk.refl k'⟩⟩
  rw [hset, Set.ncard_coe_finset, List.toFinset_card_of_nodup hnodup, h.inv.size_eq]
  simp [qs, keys]

end HashMap

/-! ## The refinement -/

/-- After any sequence of calls from `hashmap_create` the map answers as the
history of its writes says, and every node sits in the bucket of its key. -/
theorem hashmap_refines_map {hash : K → UInt64} {eq : K → K → Bool} (hk : LawfulKey hash eq)
    {capacity : Nat} (hc : 1 ≤ capacity) (freeKey freeValue : Bool) (cs : List (MapCall K V)) :
    ∃ m₀ : HashMap K V, hashmapCreate capacity hash eq freeKey freeValue = some m₀ ∧
      (∀ k, (m₀.calls cs).get k = (latest eq (history cs) k).join) ∧
      (∀ k, ((m₀.calls cs).remove k).ret = true ↔ (latest eq (history cs) k).isSome) ∧
      (∀ k k', ((m₀.calls cs).remove k).map.get k' =
        if eq k k' then none else (m₀.calls cs).get k') ∧
      (∀ k v, ((m₀.calls cs).put k v {}).ret = 0) ∧
      (m₀.calls cs).size = (HashMap.boundClasses hk (latest eq (history cs))).ncard ∧
      (∀ i ch, (m₀.calls cs).buckets[i]? = some ch →
        ∀ node ∈ ch, (hash node.key).toNat % (m₀.calls cs).capacity = i) ∧
      (m₀.calls cs).nodes.Pairwise fun a b => eq a.key b.key = false := by
  obtain ⟨m₀, hm, h₀⟩ := HashMap.hashmapCreate_holds (V := V) hc hash eq freeKey freeValue
  have h := HashMap.Holds.calls hk cs h₀
  rw [KeyMap.replay_eq_latest] at h
  refine ⟨m₀, hm, ?_, ?_, ?_, ?_, h.size hk, ?_, ?_⟩
  · intro k
    rw [HashMap.get_eq_lookup, h.lookup_eq]
  · intro k
    rw [HashMap.remove_ret, h.lookup_eq]
  · intro k k'
    rw [HashMap.get_eq_lookup, HashMap.get_eq_lookup, (h.remove hk k).lookup_eq, h.lookup_eq]
    by_cases hkk : eq k k' = true <;> simp [Write.apply, Write.key, Write.result, hkk]
  · intro k v
    exact HashMap.put_ret _ k v
  · intro i ch hi node hnode
    rw [← h.inv.placed i ch hi node hnode, HashMap.index, h.hashFunc_eq]
  · exact h.keyEqFunc_eq ▸ h.inv.distinct_nodes

/-- Keys that all fall into one bucket. -/
theorem lawfulKey_collision : LawfulKey (fun _ : Nat => (7 : UInt64)) (· == ·) :=
  KeyMap.lawfulKey_of_decides _ fun _ _ => beq_iff_eq

/-- Two colliding keys in a map that starts with one bucket. -/
theorem hashmap_refines_map_collision :
    ∃ m₀ : HashMap Nat Nat, hashmapCreate 1 (fun _ => 7) (· == ·) true false = some m₀ ∧
      (∀ k, (m₀.calls [.put 1 (some 10), .put 2 none, .remove 1, .put 1 (some 20)]).get k =
        (latest (· == ·)
          (history [.put 1 (some 10), .put 2 none, .remove 1, .put 1 (some 20)]) k).join) := by
  obtain ⟨m₀, hm, hget, _⟩ := hashmap_refines_map (V := Nat) lawfulKey_collision (le_refl 1) true
    false [.put 1 (some 10), .put 2 none, .remove 1, .put 1 (some 20)]
  exact ⟨m₀, hm, hget⟩

/-! ## Three ways to see a key -/

namespace HashMap

variable {hash : K → UInt64} {eq : K → K → Bool} {m : HashMap K V} {f : K → Option (Option V)}

/-- The classes of equal keys that `hashmap_contains` finds. -/
def containedClasses (hk : LawfulKey hash eq) (m : HashMap K V) : Set (Quotient hk.setoid) :=
  {q | ∃ k, q = Quotient.mk hk.setoid k ∧ hashmapContains (some m) k = true}

/-- `hashmap_contains` finds the keys that `hashmap_remove` would take out, and they are as
many as `hashmap_size` says. -/
structure MembershipAgrees (hk : LawfulKey hash eq) (m : HashMap K V) : Prop where
  removed : ∀ k, hashmapContains (some m) k = true ↔ (m.remove k).ret = true
  counted : hashmapSize (some m) = (containedClasses hk m).ncard

/-- A search for the value misses a key that is bound to NULL. -/
theorem Holds.contains (h : Holds hash eq m f) (k : K) :
    hashmapContains (some m) k = (f k).join.isSome := by
  show (m.get k).isSome = _
  rw [get_eq_lookup, h.lookup_eq]

/-- A search for the node does not. -/
theorem Holds.remove_ret (h : Holds hash eq m f) (k : K) :
    (m.remove k).ret = (f k).isSome := by
  rw [HashMap.remove_ret, h.lookup_eq]

/-- The keys that are contained are those that are bound, unless a key is bound to NULL. -/
theorem Holds.containedClasses_eq (h : Holds hash eq m f) (hk : LawfulKey hash eq)
    (hf : ∀ k, f k ≠ some none) : containedClasses hk m = boundClasses hk f := by
  have hjoin : ∀ k, (f k).join.isSome = (f k).isSome := by
    intro k
    cases hv : f k with
    | none => rfl
    | some v =>
        cases v with
        | none => exact absurd hv (hf k)
        | some v => rfl
  ext q
  simp only [containedClasses, boundClasses, Set.mem_ofPred_eq, h.contains, hjoin]

/-- The three observers agree about a map if and only if it binds no key to NULL. -/
theorem Holds.membershipAgrees_iff (h : Holds hash eq m f) (hk : LawfulKey hash eq) :
    MembershipAgrees hk m ↔ ∀ k, f k ≠ some none := by
  constructor
  · intro hagrees k hnull
    have hiff := hagrees.removed k
    rw [h.contains, h.remove_ret, hnull] at hiff
    simp at hiff
  · intro hf
    refine ⟨fun k => ?_, ?_⟩
    · rw [h.contains, h.remove_ret]
      cases hv : f k with
      | none => simp
      | some v =>
          cases v with
          | none => exact absurd hv (hf k)
          | some v => simp
    · rw [h.containedClasses_eq hk hf]
      exact h.size hk

end HashMap

/-- After any sequence of calls from `hashmap_create`, `hashmap_contains`, `hashmap_remove`
and `hashmap_size` agree if and only if no key was last put with the value NULL. -/
theorem membership_agrees_iff {hash : K → UInt64} {eq : K → K → Bool} (hk : LawfulKey hash eq)
    {capacity : Nat} (hc : 1 ≤ capacity) (freeKey freeValue : Bool) (cs : List (MapCall K V)) :
    ∃ m₀ : HashMap K V, hashmapCreate capacity hash eq freeKey freeValue = some m₀ ∧
      (HashMap.MembershipAgrees hk (m₀.calls cs) ↔
        ∀ k, latest eq (history cs) k ≠ some none) := by
  obtain ⟨m₀, hm, h₀⟩ := HashMap.hashmapCreate_holds (V := V) hc hash eq freeKey freeValue
  have h := HashMap.Holds.calls hk cs h₀
  rw [KeyMap.replay_eq_latest] at h
  exact ⟨m₀, hm, h.membershipAgrees_iff hk⟩

theorem membership_agrees_iff_sample :
    ∃ m₀ : HashMap Nat Nat, hashmapCreate 1 (fun _ => 7) (· == ·) true false = some m₀ ∧
      (HashMap.MembershipAgrees lawfulKey_collision
          (m₀.calls [.put 1 none, .put 2 (some 5), .put 1 (some 6), .remove 2]) ↔
        ∀ k, latest (· == ·)
          (history [.put 1 none, .put 2 (some 5), .put 1 (some 6), .remove 2]) k ≠
            some (none : Option Nat)) :=
  membership_agrees_iff lawfulKey_collision (le_refl 1) true false
    [.put 1 none, .put 2 (some 5), .put 1 (some 6), .remove 2]

/-- A key is put with the value NULL.  The map has one node, `hashmap_remove` would take it out,
and `hashmap_contains` does not find it. -/
theorem null_value_not_contained :
    ∃ m₀ : HashMap Nat Nat, hashmapCreate 16 (fun _ => 7) (· == ·) false false = some m₀ ∧
      hashmapContains (some (m₀.calls [.put 1 none])) 1 = false ∧
      ((m₀.calls [.put 1 none]).remove 1).ret = true ∧
      hashmapSize (some (m₀.calls [.put 1 none])) = 1 ∧
      ¬ HashMap.MembershipAgrees lawfulKey_collision (m₀.calls [.put 1 none]) := by
  refine ⟨_, rfl, by decide, by decide, by decide, ?_⟩
  intro h
  have hiff := h.removed 1
  revert hiff
  decide

end DataPropagator
