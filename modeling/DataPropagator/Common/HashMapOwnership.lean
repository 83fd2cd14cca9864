import DataPropagator.Common.HashMap
import DataPropagator.Lib.Custody

/-!
# What a hash map frees

A map owns the key and the value of every put that returned `0`.  Keys and values are
the pointers themselves here, and both free callbacks are given.

An overwrite frees the old value and the new key, a removal frees both, a put that
returns `-1` frees nothing, a rehash moves nodes without freeing, and
`hashmap_destroy` frees what is left.  So over any run that ends in
`hashmap_destroy` each pointer the map took is freed exactly once, and the map looks
at no pointer that was freed before.  Nothing is asked of the hash function or of the
key equality.
-/

namespace DataPropagator

variable {K V : Type}

/-- What `hashmap_destroy` frees. -/
structure DestroyResult (K V : Type) where
  freedKeys : List K
  freedValues : List (Option V)

/-- A call on a map.  A key may be NULL. -/
inductive OwnerCall (K V : Type) where
  | put (key : Option K) (value : Option V) (alloc : PutAlloc)
  | get (key : Option K)
  | remove (key : Option K)

/-- What one call does with pointers. -/
structure PointerTrace (K V : Type) where
  /-- What a put that returned `0` was given. -/
  stored : Option (K × Option V) := none
  /-- What a put that returned `-1` was given. -/
  refused : Option (Option K × Option V) := none
  /-- The keys of the map that are hashed or compared. -/
  read : List K := []
  /-- What `hashmap_get` returned. -/
  returned : Option V := none
  freedKeys : List K := []
  freedValues : List (Option V) := []

namespace HashMap

/-- `hashmap_destroy` after its NULL check. -/
def destroy (m : HashMap K V) : DestroyResult K V :=
  let visited := (m.buckets.take m.capacity).flatten
  { freedKeys := if m.freeKeyFunc then visited.map HashNode.key else []
    freedValues := if m.freeValueFunc then visited.map HashNode.value else [] }

/-- The keys a walk along a chain compares, up to the first equal one. -/
def compared (keyEq : K → K → Bool) (key : K) : List (HashNode K V) → List K
  | [] => []
  | node :: rest => node.key :: if keyEq node.key key then [] else compared keyEq key rest

/-- The keys `resize_if_needed` hashes. -/
def rehashed (m : HashMap K V) (callocOk : Bool) : List K :=
  if m.fits then [] else if callocOk then m.nodes.map HashNode.key else []

/-- The keys of the map `hashmap_put` looks at. -/
def putReads (m : HashMap K V) (key : K) (alloc : PutAlloc) : List K :=
  match m.resizeIfNeeded alloc.newBuckets with
  | none => []
  | some m' => m.rehashed alloc.newBuckets ++ compared m'.keyEqFunc key (m'.chain key)

/-- One call: the map it leaves and what it does with pointers. -/
def traced (m : HashMap K V) : OwnerCall K V → HashMap K V × PointerTrace K V
  | .put none value _ => (m, { refused := some (none, value) })
  | .put (some key) value alloc =>
      let r := m.put key value alloc
      (r.map,
        { stored := if r.ret = 0 then some (key, value) else none
          refused := if r.ret = 0 then none else some (some key, value)
          read := m.putReads key alloc
          freedKeys := r.freedKeys
          freedValues := r.freedValues })
  | .get none => (m, {})
  | .get (some key) =>
      (m, { read := compared m.keyEqFunc key (m.chain key), returned := m.get key })
  | .remove none => (m, {})
  | .remove (some key) =>
      let r := m.remove key
      (r.map,
        { read := compared m.keyEqFunc key (m.chain key)
          freedKeys := r.freedKeys
          freedValues := r.freedValues })

/-- The map after a sequence of calls. -/
def tracedMap (m : HashMap K V) (cs : List (OwnerCall K V)) : HashMap K V :=
  cs.foldl (fun m c => (m.traced c).1) m

/-- What a sequence of calls does with pointers, call by call. -/
def traces (m : HashMap K V) : List (OwnerCall K V) → List (PointerTrace K V)
  | [] => []
  | c :: cs => (m.traced c).2 :: traces (m.traced c).1 cs

/-! ## What the map holds -/

/-- The values of the map that are not NULL, bucket by bucket. -/
def values (m : HashMap K V) : List V := m.nodes.filterMap HashNode.value

/-- A map that frees what it drops. -/
structure Owner (m : HashMap K V) : Prop where
  shaped : m.Shaped
  freesKeys : m.freeKeyFunc = true
  freesValues : m.freeValueFunc = true

variable {m m' : HashMap K V} {key : K}

theorem compared_subset (keyEq : K → K → Bool) (key : K) (ns : List (HashNode K V)) :
    ∀ k ∈ compared keyEq key ns, k ∈ ns.map HashNode.key := by
  induction ns with
  | nil => intro k hk; cases hk
  | cons node rest ih =>
      intro k hk
      rw [compared, List.mem_cons] at hk
      cases hk with
      | inl he => exact he ▸ List.mem_cons_self
      | inr hrest =>
          split at hrest
          · cases hrest
          · exact List.mem_cons_of_mem _ (ih k hrest)

theorem Shaped.chain_subset (h : m.Shaped) {node : HashNode K V} (hnode : node ∈ m.chain key) :
    node ∈ m.nodes :=
  mem_nodes.mpr ⟨_, _, h.chain_getElem key, hnode⟩

theorem Shaped.compared_live (h : m.Shaped) (key : K) :
    ∀ k ∈ compared m.keyEqFunc key (m.chain key), k ∈ m.keys := by
  intro k hk
  obtain ⟨node, hnode, rfl⟩ := List.mem_map.mp (compared_subset _ _ _ k hk)
  exact List.mem_map_of_mem (h.chain_subset hnode)

theorem Shaped.get_live (h : m.Shaped) {v : V} (hget : m.get key = some v) : v ∈ m.values := by
  rw [get] at hget
  cases hf : m.findNode key with
  | none => rw [hf] at hget; cases hget
  | some node =>
      rw [hf] at hget
      exact List.mem_filterMap.mpr ⟨node, h.chain_subset (List.mem_of_find?_eq_some hf), hget⟩

/-- Growing keeps the shape and moves the nodes. -/
theorem Shaped.resizeIfNeeded (h : m.Shaped) {ok : Bool} (hr : m.resizeIfNeeded ok = some m') :
    m'.Shaped ∧ SameNodes m m' := by
  simp only [HashMap.resizeIfNeeded, HashMap.resizeWhen] at hr
  split at hr
  · cases hr
    exact ⟨h, SameNodes.refl m⟩
  · split at hr
    · cases hr
      have hcap : 0 < m.capacity * 2 := Nat.mul_pos h.capacity_pos two_pos
      obtain ⟨hlen, _, hperm⟩ := rehash_spec m.hashFunc hcap m.buckets
      exact ⟨⟨hlen, hcap⟩, ⟨hperm, rfl, rfl, rfl, rfl, rfl⟩⟩
    · cases hr

theorem Owner.resizeIfNeeded (h : m.Owner) {ok : Bool} (hr : m.resizeIfNeeded ok = some m') :
    m'.Owner ∧ SameNodes m m' := by
  obtain ⟨hshaped, hsame⟩ := h.shaped.resizeIfNeeded hr
  exact ⟨⟨hshaped, hsame.freeKeyFunc_eq.trans h.freesKeys,
    hsame.freeValueFunc_eq.trans h.freesValues⟩, hsame⟩

theorem SameNodes.keys_perm (h : SameNodes m m') : m'.keys.Perm m.keys :=
  h.nodes_perm.map _

theorem SameNodes.values_perm (h : SameNodes m m') : m'.values.Perm m.values :=
  h.nodes_perm.filterMap _

/-! ## One call -/

/-- What a call does with the keys of a map. -/
def keyStep (t : PointerTrace K V) : Custody.Step K where
  taken := (t.stored.map Prod.fst).toList
  read := t.read
  released := t.freedKeys

/-- What a call does with the values of a map. -/
def valueStep (t : PointerTrace K V) : Custody.Step V where
  taken := (t.stored.bind Prod.snd).toList
  read := t.returned.toList
  released := t.freedValues.filterMap id

/-- A call keeps the books. -/
structure Conserves (m : HashMap K V) (m' : HashMap K V) (t : PointerTrace K V) : Prop where
  owner : m'.Owner
  keys : ((keyStep t).released ++ m'.keys).Perm ((keyStep t).taken ++ m.keys)
  keys_read : ∀ k ∈ (keyStep t).read, k ∈ m.keys
  values : ((valueStep t).released ++ m'.values).Perm ((valueStep t).taken ++ m.values)
  values_read : ∀ v ∈ (valueStep t).read, v ∈ m.values

/-- A call that only looks, or grows the array. -/
theorem Owner.conserves_look (h : m.Owner) (hsame : SameNodes m' m) {t : PointerTrace K V}
    (hs : t.stored = none) (hk : t.freedKeys = []) (hv : t.freedValues = [])
    (hread : ∀ k ∈ t.read, k ∈ m'.keys) (hret : ∀ v, t.returned = some v → v ∈ m'.values) :
    Conserves m' m t where
  owner := h
  keys := by simpa [keyStep, hs, hk] using hsame.keys_perm
  keys_read := hread
  values := by simpa [valueStep, hs, hv] using hsame.values_perm
  values_read v hmem := hret v (Option.mem_toList.mp hmem)

theorem filterMap_value_cons (node : HashNode K V) (rest : List (HashNode K V)) :
    (node :: rest).filterMap HashNode.value = node.value.toList ++ rest.filterMap HashNode.value := by
  obtain ⟨k, v⟩ := node
  cases v <;> rfl

theorem Owner.modify (h : m.Owner) (i : Nat)
    (f : List (HashNode K V) → List (HashNode K V)) (size : Nat) :
    Owner { m with buckets := m.buckets.modify i f, size := size } :=
  ⟨⟨(List.length_modify ..).trans h.shaped.buckets_length, h.shaped.capacity_pos⟩,
    h.freesKeys, h.freesValues⟩

/-- An overwrite frees the old value and the new key. -/
theorem Owner.conserves_overwrite (h : m.Owner) (hsame : SameNodes m' m) {node : HashNode K V}
    (hf : m.findNode key = some node) (value : Option V) {t : PointerTrace K V}
    (hs : t.stored = some (key, value)) (hk : t.freedKeys = [key])
    (hv : t.freedValues = [node.value]) (hread : ∀ k ∈ t.read, k ∈ m'.keys)
    (hret : t.returned = none) : Conserves m' (m.setValue key value) t := by
  obtain ⟨_, rest, hnodes, hset, _⟩ := h.shaped.nodes_split hf
  have hkeys : (m.setValue key value).keys.Perm m'.keys :=
    calc (m.setValue key value).keys.Perm (node.key :: rest.map HashNode.key) :=
          (hset value).map HashNode.key
      _ |>.Perm m.keys := (hnodes.map HashNode.key).symm
      _ |>.Perm m'.keys := hsame.keys_perm
  have hvalues : (m.setValue key value).values.Perm
      (value.toList ++ rest.filterMap HashNode.value) := by
    rw [← filterMap_value_cons { node with value := value } rest]
    exact (hset value).filterMap _
  have hold : (node.value.toList ++ rest.filterMap HashNode.value).Perm m'.values := by
    rw [← filterMap_value_cons]
    exact (hnodes.filterMap _).symm.trans hsame.values_perm
  constructor
  case owner => exact h.modify _ _ _
  case keys =>
    simp only [keyStep, hs, hk, Option.map_some, Option.toList_some]
    exact hkeys.append_left [key]
  case keys_read => exact hread
  case values =>
    have hreleased : (valueStep t).released = node.value.toList := by
      rw [valueStep, hv]
      cases node.value <;> rfl
    rw [hreleased, valueStep, hs]
    calc (node.value.toList ++ (m.setValue key value).values).Perm
          (node.value.toList ++ (value.toList ++ rest.filterMap HashNode.value)) :=
          hvalues.append_left _
      _ |>.Perm (value.toList ++ (node.value.toList ++ rest.filterMap HashNode.value)) :=
          List.perm_append_comm_assoc ..
      _ |>.Perm (value.toList ++ m'.values) := hold.append_left _
  case values_read =>
    intro v hmem
    simp [valueStep, hret] at hmem

/-- A new node takes the key and the value. -/
theorem Owner.conserves_add (h : m.Owner) (hsame : SameNodes m' m) (value : Option V)
    {t : PointerTrace K V} (hs : t.stored = some (key, value)) (hk : t.freedKeys = [])
    (hv : t.freedValues = []) (hread : ∀ k ∈ t.read, k ∈ m'.keys) (hret : t.returned = none) :
    Conserves m' (m.addNode key value) t := by
  have hnodes := h.shaped.addNode_perm key value
  constructor
  case owner => exact h.modify _ _ _
  case keys =>
    simp only [keyStep, hs, hk, Option.map_some, Option.toList_some, List.nil_append]
    exact (hnodes.map HashNode.key).trans (hsame.keys_perm.cons key)
  case keys_read => exact hread
  case values =>
    simp only [valueStep, hs, hv, Option.bind_some, List.filterMap_nil, List.nil_append]
    have hp := hnodes.filterMap HashNode.value
    rw [filterMap_value_cons] at hp
    exact hp.trans (hsame.values_perm.append_left _)
  case values_read =>
    intro v hmem
    simp [valueStep, hret] at hmem

/-- A removal frees the key and the value of the node. -/
theorem Owner.conserves_unlink (h : m.Owner) {node : HashNode K V}
    (hf : m.findNode key = some node) {t : PointerTrace K V} (hs : t.stored = none)
    (hk : t.freedKeys = [node.key]) (hv : t.freedValues = [node.value])
    (hread : ∀ k ∈ t.read, k ∈ m.keys) (hret : t.returned = none) :
    Conserves m (m.unlink key) t := by
  obtain ⟨_, rest, hnodes, _, hrest⟩ := h.shaped.nodes_split hf
  constructor
  case owner => exact h.modify _ _ _
  case keys =>
    simp only [keyStep, hs, hk, Option.map_none, Option.toList_none, List.nil_append]
    exact ((hrest.map HashNode.key).cons node.key).trans (hnodes.map HashNode.key).symm
  case keys_read => exact hread
  case values =>
    have hreleased : (valueStep t).released = node.value.toList := by
      rw [valueStep, hv]
      cases node.value <;> rfl
    have hold := (hnodes.filterMap HashNode.value).symm
    rw [filterMap_value_cons] at hold
    rw [hreleased, valueStep, hs]
    exact ((hrest.filterMap HashNode.value).append_left _).trans hold
  case values_read =>
    intro v hmem
    simp [valueStep, hret] at hmem

/-- The keys a put looks at are in the map before it. -/
theorem Owner.putReads_live (h : m.Owner) (key : K) (alloc : PutAlloc) :
    ∀ k ∈ m.putReads key alloc, k ∈ m.keys := by
  intro k hk
  rw [putReads] at hk
  split at hk
  next => cases hk
  next m₁ hr =>
      obtain ⟨h₁, hsame⟩ := h.resizeIfNeeded hr
      cases List.mem_append.mp hk with
      | inl hhashed =>
          simp only [rehashed] at hhashed
          split at hhashed
          · cases hhashed
          · split at hhashed
            · exact hhashed
            · cases hhashed
      | inr hcompared =>
          exact hsame.keys_perm.mem_iff.mp (h₁.shaped.compared_live key k hcompared)

theorem Owner.conserves_put (h : m.Owner) (key : K) (value : Option V) (alloc : PutAlloc) :
    Conserves m (m.traced (.put (some key) value alloc)).1
      (m.traced (.put (some key) value alloc)).2 := by
  have hread := h.putReads_live key alloc
  rw [traced]
  rcases put_cases m key value alloc with ⟨_, hput⟩ | ⟨m₁, hr, hcases⟩
  · rw [hput]
    exact h.conserves_look (SameNodes.refl m) rfl rfl rfl hread fun v hv => nomatch hv
  · obtain ⟨h₁, hsame⟩ := h.resizeIfNeeded hr
    rcases hcases with ⟨node, hf, hput⟩ | ⟨_, _, hput⟩ | ⟨_, _, hput⟩
    · rw [hput, h₁.freesKeys, h₁.freesValues]
      exact h₁.conserves_overwrite hsame hf value rfl rfl rfl hread rfl
    · rw [hput]
      exact h₁.conserves_add hsame value rfl rfl rfl hread rfl
    · rw [hput]
      exact h₁.conserves_look hsame rfl rfl rfl hread fun v hv => nomatch hv

theorem Owner.conserves_remove (h : m.Owner) (key : K) :
    Conserves m (m.traced (.remove (some key))).1 (m.traced (.remove (some key))).2 := by
  have hread := h.shaped.compared_live key
  cases hf : m.findNode key with
  | none =>
      simp only [traced, remove, hf]
      refine h.conserves_look (SameNodes.refl m) rfl rfl rfl hread ?_
      intro v hv
      cases hv
  | some node =>
      simp only [traced, remove, hf, h.freesKeys, h.freesValues, if_true]
      exact h.conserves_unlink hf rfl rfl rfl hread rfl

/-- Every call keeps the books. -/
theorem Owner.conserves (h : m.Owner) (c : OwnerCall K V) :
    Conserves m (m.traced c).1 (m.traced c).2 := by
  cases c with
  | put key value alloc =>
      cases key with
      | none =>
          exact h.conserves_look (SameNodes.refl m) rfl rfl rfl (fun k hk => nomatch hk)
            fun v hv => nomatch hv
      | some key => exact h.conserves_put key value alloc
  | get key =>
      cases key with
      | none =>
          exact h.conserves_look (SameNodes.refl m) rfl rfl rfl (fun k hk => nomatch hk)
            fun v hv => nomatch hv
      | some key =>
          exact h.conserves_look (SameNodes.refl m) rfl rfl rfl (h.shaped.compared_live key)
            fun v hv => h.shaped.get_live hv
  | remove key =>
      cases key with
      | none =>
          exact h.conserves_look (SameNodes.refl m) rfl rfl rfl (fun k hk => nomatch hk)
            fun v hv => nomatch hv
      | some key => exact h.conserves_remove key

/-! ## A run -/

theorem Owner.run (cs : List (OwnerCall K V)) : ∀ {m : HashMap K V}, m.Owner →
    (m.tracedMap cs).Owner ∧
      Custody.Run m.keys ((m.traces cs).map keyStep) (m.tracedMap cs).keys ∧
      Custody.Run m.values ((m.traces cs).map valueStep) (m.tracedMap cs).values := by
  induction cs with
  | nil => exact fun h => ⟨h, .nil _, .nil _⟩
  | cons c cs ih =>
      intro m h
      have hc := h.conserves c
      obtain ⟨howner, hkeys, hvalues⟩ := ih hc.owner
      exact ⟨howner, .cons hc.keys hc.keys_read hkeys, .cons hc.values hc.values_read hvalues⟩

/-- `hashmap_destroy` frees what the map holds. -/
theorem Owner.destroy_eq (h : m.Owner) :
    m.destroy = { freedKeys := m.keys, freedValues := m.nodes.map HashNode.value } := by
  have htake : m.buckets.take m.capacity = m.buckets := by
    rw [← h.shaped.buckets_length, List.take_length]
  simp only [destroy, htake, h.freesKeys, h.freesValues, if_true]
  rfl

theorem values_eq_filterMap (m : HashMap K V) :
    (m.nodes.map HashNode.value).filterMap id = m.values := by
  rw [List.filterMap_map]
  rfl

end HashMap

open HashMap

/-! ## The books of a run -/

/-- The key a call hands to the map. -/
def OwnerCall.handedKey : OwnerCall K V → Option K
  | .put key _ _ => key
  | .get _ => none
  | .remove _ => none

/-- The value a call hands to the map, if it is not NULL. -/
def OwnerCall.handedValue : OwnerCall K V → Option V
  | .put _ value _ => value
  | .get _ => none
  | .remove _ => none

/-- The keys of the puts that returned `0`. -/
def storedKeys (ts : List (PointerTrace K V)) : List K :=
  ts.filterMap fun t => t.stored.map Prod.fst

/-- The values, NULL left out, of the puts that returned `0`. -/
def storedValues (ts : List (PointerTrace K V)) : List V :=
  ts.filterMap fun t => t.stored.bind Prod.snd

/-- The keys, NULL left out, of the puts that returned `-1`. -/
def refusedKeys (ts : List (PointerTrace K V)) : List K :=
  ts.filterMap fun t => t.refused.bind Prod.fst

/-- The values, NULL left out, of the puts that returned `-1`. -/
def refusedValues (ts : List (PointerTrace K V)) : List V :=
  ts.filterMap fun t => t.refused.bind Prod.snd

/-- Everything passed to `freeKeyFunc`. -/
def freedKeys (ts : List (PointerTrace K V)) : List K := ts.flatMap PointerTrace.freedKeys

/-- Everything passed to `freeValueFunc`. -/
def freedValues (ts : List (PointerTrace K V)) : List (Option V) :=
  ts.flatMap PointerTrace.freedValues

/-- What a map owes for the pointers it is given, over the calls `ts` and the
`hashmap_destroy` `d`. -/
structure OwnsOnce [DecidableEq K] [DecidableEq V] (ts : List (PointerTrace K V))
    (d : DestroyResult K V) : Prop where
  key_once : ∀ k ∈ storedKeys ts, (freedKeys ts ++ d.freedKeys).count k = 1
  value_once : ∀ v ∈ storedValues ts, (freedValues ts ++ d.freedValues).count (some v) = 1
  key_refused : ∀ k ∈ refusedKeys ts, k ∉ freedKeys ts ++ d.freedKeys
  value_refused : ∀ v ∈ refusedValues ts, some v ∉ freedValues ts ++ d.freedValues
  /-- No call looks at a key that an earlier call freed. -/
  read_live : ∀ pre t post, ts = pre ++ t :: post → ∀ k ∈ t.read, k ∉ freedKeys pre
  /-- No `hashmap_get` returns a value that an earlier call freed. -/
  returned_live : ∀ pre t post, ts = pre ++ t :: post →
    ∀ v, t.returned = some v → some v ∉ freedValues pre

section Books

variable {m : HashMap K V}

theorem traced_handed (m : HashMap K V) (c : OwnerCall K V) :
    c.handedKey.toList = ((m.traced c).2.stored.map Prod.fst).toList ++
        ((m.traced c).2.refused.bind Prod.fst).toList ∧
      c.handedValue.toList = ((m.traced c).2.stored.bind Prod.snd).toList ++
        ((m.traced c).2.refused.bind Prod.snd).toList := by
  cases c with
  | put key value alloc =>
      cases key with
      | none => exact ⟨rfl, rfl⟩
      | some key =>
          simp only [traced, OwnerCall.handedKey, OwnerCall.handedValue]
          split <;> simp
  | get key => cases key <;> exact ⟨rfl, rfl⟩
  | remove key => cases key <;> exact ⟨rfl, rfl⟩

theorem filterMap_cons_toList {α β : Type} (f : α → Option β) (a : α) (l : List α) :
    (a :: l).filterMap f = (f a).toList ++ l.filterMap f := by
  rw [List.filterMap_cons]
  cases f a <;> rfl

/-- What is handed in is stored or refused. -/
theorem handed_perm (cs : List (OwnerCall K V)) : ∀ (m : HashMap K V),
    (cs.filterMap OwnerCall.handedKey).Perm
        (storedKeys (m.traces cs) ++ refusedKeys (m.traces cs)) ∧
      (cs.filterMap OwnerCall.handedValue).Perm
        (storedValues (m.traces cs) ++ refusedValues (m.traces cs)) := by
  -- two lists that grow by a piece each grow by both pieces together
  have hgrow : ∀ {α : Type} {a b c : List α} (x y : List α), a.Perm (b ++ c) →
      ((x ++ y) ++ a).Perm ((x ++ b) ++ (y ++ c)) := by
    intro α a b c x y hp
    calc ((x ++ y) ++ a).Perm ((x ++ y) ++ (b ++ c)) := hp.append_left _
      _ |>.Perm ((x ++ b) ++ (y ++ c)) := by
          rw [List.append_assoc, List.append_assoc]
          exact (List.perm_append_comm_assoc y b c).append_left x
  induction cs with
  | nil => exact fun _ => ⟨.nil, .nil⟩
  | cons c cs ih =>
      intro m
      obtain ⟨hkey, hvalue⟩ := traced_handed m c
      obtain ⟨hkeys, hvalues⟩ := ih (m.traced c).1
      simp only [traces, storedKeys, refusedKeys, storedValues, refusedValues,
        filterMap_cons_toList]
      rw [hkey, hvalue]
      exact ⟨hgrow _ _ hkeys, hgrow _ _ hvalues⟩

theorem taken_keyStep (ts : List (PointerTrace K V)) :
    Custody.taken (ts.map keyStep) = storedKeys ts := by
  rw [Custody.taken, List.flatMap_map, storedKeys, List.filterMap_eq_flatMap_toList]
  rfl

theorem released_keyStep (ts : List (PointerTrace K V)) :
    Custody.released (ts.map keyStep) = freedKeys ts :=
  List.flatMap_map ..

theorem taken_valueStep (ts : List (PointerTrace K V)) :
    Custody.taken (ts.map valueStep) = storedValues ts := by
  rw [Custody.taken, List.flatMap_map, storedValues, List.filterMap_eq_flatMap_toList]
  rfl

theorem released_valueStep (ts : List (PointerTrace K V)) :
    Custody.released (ts.map valueStep) = (freedValues ts).filterMap id := by
  rw [Custody.released, List.flatMap_map, freedValues, List.filterMap_flatMap]
  rfl

theorem mem_filterMap_id {v : V} {l : List (Option V)} : some v ∈ l ↔ v ∈ l.filterMap id := by
  simp

theorem count_filterMap_id [DecidableEq V] (v : V) (l : List (Option V)) :
    l.count (some v) = (l.filterMap id).count v := by
  induction l with
  | nil => rfl
  | cons a l ih =>
      rw [filterMap_cons_toList, List.count_append, ← ih, List.count_cons, Nat.add_comm]
      cases a <;> simp [List.count_singleton]

theorem keys_eq_nil (hempty : m.nodes = []) : m.keys = [] := by
  rw [keys, hempty, List.map_nil]

theorem values_eq_nil (hempty : m.nodes = []) : m.values = [] := by
  rw [values, hempty, List.filterMap_nil]

/-- A run on a map that starts empty frees what it stored, key by key and value by value. -/
theorem HashMap.Owner.freed_perm (h : m.Owner) (hempty : m.nodes = []) (cs : List (OwnerCall K V)) :
    (freedKeys (m.traces cs) ++ (m.tracedMap cs).destroy.freedKeys).Perm
        (storedKeys (m.traces cs)) ∧
      ((freedValues (m.traces cs) ++ (m.tracedMap cs).destroy.freedValues).filterMap id).Perm
        (storedValues (m.traces cs)) := by
  obtain ⟨howner, hkeys, hvalues⟩ := Owner.run cs h
  have hk := hkeys.perm
  have hv := hvalues.perm
  rw [released_keyStep, taken_keyStep, keys_eq_nil hempty, List.append_nil] at hk
  rw [released_valueStep, taken_valueStep, values_eq_nil hempty, List.append_nil,
    ← values_eq_filterMap, ← List.filterMap_append] at hv
  rw [howner.destroy_eq]
  exact ⟨hk, hv⟩

end Books

/-! ## The result -/

/-- From `hashmap_create` to `hashmap_destroy`, with any hash function and any key equality, a
map frees exactly once what it took, frees nothing it refused and looks at nothing it freed. -/
theorem hashmap_frees_once [DecidableEq K] [DecidableEq V] {capacity : Nat} (hc : 1 ≤ capacity)
    (hash : K → UInt64) (eq : K → K → Bool) (cs : List (OwnerCall K V))
    (hkeys : (cs.filterMap OwnerCall.handedKey).Nodup)
    (hvalues : (cs.filterMap OwnerCall.handedValue).Nodup) :
    ∃ m₀ : HashMap K V, hashmapCreate capacity hash eq true true = some m₀ ∧
      OwnsOnce (m₀.traces cs) (m₀.tracedMap cs).destroy := by
  have howner : Owner (K := K) (V := V)
      ⟨List.replicate capacity [], capacity, 0, hash, eq, true, true⟩ :=
    ⟨⟨List.length_replicate, hc⟩, rfl, rfl⟩
  refine ⟨_, if_neg (by omega), ?_⟩
  generalize hm : (⟨List.replicate capacity [], capacity, 0, hash, eq, true, true⟩ : HashMap K V) = m
    at howner ⊢
  have hempty : m.nodes = [] := by simp [← hm, nodes]
  obtain ⟨hfreedKeys, hfreedValues⟩ := howner.freed_perm hempty cs
  obtain ⟨hhandedKeys, hhandedValues⟩ := handed_perm cs m
  have hnodupKeys := hhandedKeys.nodup_iff.mp hkeys
  have hnodupValues := hhandedValues.nodup_iff.mp hvalues
  obtain ⟨_, hkeyRun, hvalueRun⟩ := Owner.run cs howner
  constructor
  case key_once =>
    intro k hk
    exact List.count_eq_one_of_mem (hfreedKeys.nodup_iff.mpr hnodupKeys.of_append_left)
      (hfreedKeys.mem_iff.mpr hk)
  case value_once =>
    intro v hv
    rw [count_filterMap_id]
    exact List.count_eq_one_of_mem (hfreedValues.nodup_iff.mpr hnodupValues.of_append_left)
      (hfreedValues.mem_iff.mpr hv)
  case key_refused =>
    intro k hk hfreed
    exact List.disjoint_of_nodup_append hnodupKeys (hfreedKeys.mem_iff.mp hfreed) hk
  case value_refused =>
    intro v hv hfreed
    exact List.disjoint_of_nodup_append hnodupValues
      (hfreedValues.mem_iff.mp (mem_filterMap_id.mp hfreed)) hv
  case read_live =>
    intro pre t post he k hk
    rw [he, List.map_append, List.map_cons] at hkeyRun
    have hn : (Custody.taken (pre.map keyStep ++ keyStep t :: post.map keyStep) ++ m.keys).Nodup := by
      rw [← List.map_cons, ← List.map_append, ← he, taken_keyStep, keys_eq_nil hempty,
        List.append_nil]
      exact hnodupKeys.of_append_left
    rw [← released_keyStep]
    exact hkeyRun.read_live hn k hk
  case returned_live =>
    intro pre t post he v hv
    rw [he, List.map_append, List.map_cons] at hvalueRun
    have hn : (Custody.taken (pre.map valueStep ++ valueStep t :: post.map valueStep) ++
        m.values).Nodup := by
      rw [← List.map_cons, ← List.map_append, ← he, taken_valueStep,
        values_eq_nil hempty, List.append_nil]
      exact hnodupValues.of_append_left
    rw [mem_filterMap_id, ← released_valueStep]
    exact hvalueRun.read_live hn v (Option.mem_toList.mpr hv)

/-- A run with an overwrite, a removal and a put whose node cannot be allocated. -/
theorem hashmap_frees_once_run :
    ∃ m₀ : HashMap Nat Nat, hashmapCreate 1 (fun _ => 7) (fun a b => a % 10 == b % 10) true true =
        some m₀ ∧
      OwnsOnce
        (m₀.traces [.put (some 1) (some 100) {}, .put (some 11) (some 101) {}, .get (some 1),
          .put (some 2) (some 102) { newNode := false }, .put (some 3) none {}, .remove (some 3)])
        (m₀.tracedMap [.put (some 1) (some 100) {}, .put (some 11) (some 101) {}, .get (some 1),
          .put (some 2) (some 102) { newNode := false }, .put (some 3) none {},
          .remove (some 3)]).destroy :=
  hashmap_frees_once (le_refl 1) _ _ _ (by decide) (by decide)

end DataPropagator
