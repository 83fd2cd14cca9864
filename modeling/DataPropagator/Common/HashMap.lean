import DataPropagator.Lib.Binary32
import DataPropagator.Lib.KeyMap
import Mathlib.Data.List.Perm.Lattice

/-!
# The hash map

`hashmap.c`: separate chaining, a bucket array that doubles.  A chain is the
list of its nodes, first node first.  Keys and values are what the pointers
point to.  A key is never NULL after the checks at the head of each function, and
a value may be NULL, so a node holds an `Option V`.

An allocation may fail, so `hashmapPut` takes the outcomes of its two
allocations.  The two free callbacks are flags that say whether the callback was
given; what is passed to them is part of the result.

A capacity is the length of an array of pointers that exists in memory, so
doubling it never leaves `size_t`.
-/

namespace DataPropagator

open KeyMap (LawfulKey)

variable {K V : Type}

/-! ## Data -/

/-- `HashNode`. -/
structure HashNode (K V : Type) where
  key : K
  value : Option V
deriving DecidableEq, Repr

/-- `struct HashMap`. -/
structure HashMap (K V : Type) where
  buckets : List (List (HashNode K V))
  capacity : Nat
  size : Nat
  hashFunc : K → UInt64
  keyEqFunc : K → K → Bool
  /-- `freeKeyFunc` is not NULL. -/
  freeKeyFunc : Bool
  /-- `freeValueFunc` is not NULL. -/
  freeValueFunc : Bool

/-- The outcomes of the allocations in `hashmap_put`. -/
structure PutAlloc where
  /-- The `calloc` of `resize_if_needed`. -/
  newBuckets : Bool := true
  /-- The `malloc` of the node. -/
  newNode : Bool := true

/-- What `hashmap_put` leaves, returns and frees. -/
structure PutResult (K V : Type) where
  map : HashMap K V
  ret : Int
  freedKeys : List K := []
  freedValues : List (Option V) := []

/-- What `hashmap_remove` leaves, returns and frees. -/
structure RemoveResult (K V : Type) where
  map : HashMap K V
  ret : Bool
  freedKeys : List K := []
  freedValues : List (Option V) := []

namespace HashMap

/-- The bucket a key belongs to. -/
def index (m : HashMap K V) (key : K) : Nat :=
  (m.hashFunc key).toNat % m.capacity

/-- The chain a key belongs to. -/
def chain (m : HashMap K V) (key : K) : List (HashNode K V) :=
  m.buckets.getD (m.index key) []

/-- `MAX_LOAD_FACTOR` is `0.75f`, that is `3 / 2 ^ 2`. -/
def fits (m : HashMap K V) : Bool :=
  Binary32.divLe (Binary32.ofNat (m.size + 1)) (Binary32.ofNat m.capacity) 3 2

/-- The rehash of one node: it is put in front of its new chain. -/
def relink (hashFunc : K → UInt64) (newCap : Nat) (newBuckets : List (List (HashNode K V)))
    (node : HashNode K V) : List (List (HashNode K V)) :=
  newBuckets.modify ((hashFunc node.key).toNat % newCap) (node :: ·)

/-- The bucket array after every node has been moved to an array of `newCap`
chains, bucket by bucket. -/
def rehash (hashFunc : K → UInt64) (newCap : Nat) (buckets : List (List (HashNode K V))) :
    List (List (HashNode K V)) :=
  buckets.foldl (fun nb ch => ch.foldl (relink hashFunc newCap) nb)
    (List.replicate newCap [])

/-- `resize_if_needed` with the result of its test.  `none` is the result `false`, which
leaves the map as it was. -/
def resizeWhen (fits : Bool) (m : HashMap K V) (callocOk : Bool) : Option (HashMap K V) :=
  if fits then some m
  else if callocOk then
    some { m with
      buckets := rehash m.hashFunc (m.capacity * 2) m.buckets
      capacity := m.capacity * 2 }
  else none

/-- `resize_if_needed`. -/
def resizeIfNeeded (m : HashMap K V) (callocOk : Bool) : Option (HashMap K V) :=
  resizeWhen m.fits m callocOk

/-- The first node of a chain with an equal key gets a new value. -/
def overwrite (keyEq : K → K → Bool) (key : K) (value : Option V) :
    List (HashNode K V) → List (HashNode K V)
  | [] => []
  | node :: rest =>
      if keyEq node.key key then { node with value := value } :: rest
      else node :: overwrite keyEq key value rest

/-- The node with an equal key in the chain of a key. -/
def findNode (m : HashMap K V) (key : K) : Option (HashNode K V) :=
  (m.chain key).find? fun node => m.keyEqFunc node.key key

/-- The map with a new value in the node of a key. -/
def setValue (m : HashMap K V) (key : K) (value : Option V) : HashMap K V :=
  { m with buckets := m.buckets.modify (m.index key) (overwrite m.keyEqFunc key value) }

/-- The map with a new node in front of the chain of its key. -/
def addNode (m : HashMap K V) (key : K) (value : Option V) : HashMap K V :=
  { m with
    buckets := m.buckets.modify (m.index key) (⟨key, value⟩ :: ·)
    size := m.size + 1 }

/-- The map with the node of a key taken out of its chain. -/
def unlink (m : HashMap K V) (key : K) : HashMap K V :=
  { m with
    buckets := m.buckets.modify (m.index key)
      (List.eraseP fun node => m.keyEqFunc node.key key)
    size := m.size - 1 }

/-- `hashmap_put` after its NULL checks, with the result of `resize_if_needed`. -/
def putResized (m : HashMap K V) (key : K) (value : Option V) (alloc : PutAlloc) :
    Option (HashMap K V) → PutResult K V
  | none => { map := m, ret := -1 }
  | some m =>
      match m.findNode key with
      | some node =>
          { map := m.setValue key value
            ret := 0
            freedKeys := if m.freeKeyFunc then [key] else []
            freedValues := if m.freeValueFunc then [node.value] else [] }
      | none =>
          if alloc.newNode then { map := m.addNode key value, ret := 0 }
          else { map := m, ret := -1 }

/-- `hashmap_put` after its NULL checks. -/
def put (m : HashMap K V) (key : K) (value : Option V) (alloc : PutAlloc) : PutResult K V :=
  m.putResized key value alloc (m.resizeIfNeeded alloc.newBuckets)

/-- `hashmap_get` after its NULL checks. -/
def get (m : HashMap K V) (key : K) : Option V :=
  match m.findNode key with
  | some node => node.value
  | none => none

/-- `hashmap_remove` after its NULL checks. -/
def remove (m : HashMap K V) (key : K) : RemoveResult K V :=
  match m.findNode key with
  | some node =>
      { map := m.unlink key
        ret := true
        freedKeys := if m.freeKeyFunc then [node.key] else []
        freedValues := if m.freeValueFunc then [node.value] else [] }
  | none => { map := m, ret := false }

end HashMap

/-! ## The functions as called -/

/-- `hashmap_create`, its allocations succeeding. -/
def hashmapCreate (capacity : Nat) (hashFunc : K → UInt64) (keyEqFunc : K → K → Bool)
    (freeKeyFunc freeValueFunc : Bool) : Option (HashMap K V) :=
  if capacity = 0 then none
  else some
    { buckets := List.replicate capacity []
      capacity := capacity
      size := 0
      hashFunc := hashFunc
      keyEqFunc := keyEqFunc
      freeKeyFunc := freeKeyFunc
      freeValueFunc := freeValueFunc }

/-- `hashmap_put`, allocations succeeding, on a map that may be NULL: the map
afterwards. -/
def hashmapPut (map : Option (HashMap K V)) (key : K) (value : Option V) :
    Option (HashMap K V) :=
  map.map fun m => (m.put key value {}).map

/-- `hashmap_get` on a map that may be NULL. -/
def hashmapGet (map : Option (HashMap K V)) (key : K) : Option V :=
  map.bind fun m => m.get key

/-- `hashmap_contains`. -/
def hashmapContains (map : Option (HashMap K V)) (key : K) : Bool :=
  (hashmapGet map key).isSome

/-- `hashmap_size`. -/
def hashmapSize (map : Option (HashMap K V)) : Nat :=
  match map with
  | some m => m.size
  | none => 0

namespace HashMap

/-! ## The invariant -/

/-- Every node of the map, bucket by bucket. -/
def nodes (m : HashMap K V) : List (HashNode K V) := m.buckets.flatten

/-- The keys of the map, bucket by bucket. -/
def keys (m : HashMap K V) : List K := m.nodes.map HashNode.key

/-- Every node sits in the bucket of its key, no two nodes hold equal keys, and
`size` counts the nodes. -/
structure Inv (m : HashMap K V) : Prop where
  buckets_length : m.buckets.length = m.capacity
  capacity_pos : 0 < m.capacity
  placed : ∀ i ch, m.buckets[i]? = some ch → ∀ node ∈ ch, m.index node.key = i
  distinct : m.keys.Pairwise fun a b => m.keyEqFunc a b = false
  size_eq : m.size = m.nodes.length

/-- The array has as many chains as `capacity` says.  This much holds of every
map, whatever its hash and key functions do. -/
structure Shaped (m : HashMap K V) : Prop where
  buckets_length : m.buckets.length = m.capacity
  capacity_pos : 0 < m.capacity

theorem Inv.shaped {m : HashMap K V} (h : m.Inv) : m.Shaped :=
  ⟨h.buckets_length, h.capacity_pos⟩

/-- The binding of a key: the value of the node that holds an equal key. -/
def lookup (m : HashMap K V) (key : K) : Option (Option V) :=
  (m.findNode key).map HashNode.value

theorem get_eq_lookup (m : HashMap K V) (key : K) : m.get key = (m.lookup key).join := by
  simp only [get, lookup]
  cases m.findNode key <;> rfl

theorem remove_ret (m : HashMap K V) (key : K) : (m.remove key).ret = (m.lookup key).isSome := by
  simp only [remove, lookup]
  cases m.findNode key <;> rfl

/-- A removal frees the value that was bound. -/
theorem remove_freedValues (m : HashMap K V) (key : K) :
    (m.remove key).freedValues = if m.freeValueFunc then (m.lookup key).toList else [] := by
  simp only [remove, lookup]
  cases m.findNode key with
  | some node => rfl
  | none => simp

/-! ## Chains and nodes -/

/-- A list of lists holds one of its members and the rest. -/
theorem flatten_perm_getElem {α : Type} {L : List (List α)} {i : Nat} {l : List α}
    (h : L[i]? = some l) : L.flatten.Perm (l ++ (L.eraseIdx i).flatten) := by
  induction L generalizing i with
  | nil => simp at h
  | cons a L ih =>
      cases i with
      | zero =>
          simp only [List.getElem?_cons_zero, Option.some.injEq] at h
          subst h
          simp
      | succ i =>
          simp only [List.getElem?_cons_succ] at h
          simp only [List.flatten_cons, List.eraseIdx_cons_succ]
          refine ((ih h).append_left a).trans ?_
          rw [← List.append_assoc, ← List.append_assoc]
          exact List.perm_append_comm.append_right _

theorem eraseIdx_modify_same {α : Type} (L : List α) (i : Nat) (f : α → α) :
    (L.modify i f).eraseIdx i = L.eraseIdx i := by
  induction L generalizing i with
  | nil => simp
  | cons a L ih =>
      cases i with
      | zero => simp
      | succ i => simp [ih]

/-- Changing one chain changes the nodes by that chain. -/
theorem flatten_modify_perm {α : Type} {L : List (List α)} {i : Nat} {l : List α}
    (h : L[i]? = some l) (f : List α → List α) :
    (L.modify i f).flatten.Perm (f l ++ (L.eraseIdx i).flatten) := by
  have hf : (L.modify i f)[i]? = some (f l) := by
    simp [h]
  have hp := flatten_perm_getElem hf
  rwa [eraseIdx_modify_same] at hp

theorem Shaped.index_lt {m : HashMap K V} (h : m.Shaped) (key : K) :
    m.index key < m.buckets.length := by
  rw [h.buckets_length]
  exact Nat.mod_lt _ h.capacity_pos

theorem Shaped.chain_getElem {m : HashMap K V} (h : m.Shaped) (key : K) :
    m.buckets[m.index key]? = some (m.chain key) := by
  rw [chain, List.getD_eq_getElem?_getD, List.getElem?_eq_getElem (h.index_lt key)]
  rfl

theorem Inv.chain_getElem {m : HashMap K V} (h : m.Inv) (key : K) :
    m.buckets[m.index key]? = some (m.chain key) :=
  h.shaped.chain_getElem key

theorem mem_nodes {m : HashMap K V} {node : HashNode K V} :
    node ∈ m.nodes ↔ ∃ (i : Nat) (ch : List (HashNode K V)),
      m.buckets[i]? = some ch ∧ node ∈ ch := by
  rw [nodes, List.mem_flatten]
  constructor
  · rintro ⟨ch, hch, hnode⟩
    obtain ⟨i, hi⟩ := List.mem_iff_getElem?.mp hch
    exact ⟨i, ch, hi, hnode⟩
  · rintro ⟨i, ch, hi, hnode⟩
    exact ⟨ch, List.mem_of_getElem? hi, hnode⟩

/-- The chain of a key holds every node of the map with an equal key. -/
theorem Inv.mem_chain {m : HashMap K V} (h : m.Inv) (hk : LawfulKey m.hashFunc m.keyEqFunc)
    {key : K} {node : HashNode K V} (heq : m.keyEqFunc node.key key = true) :
    node ∈ m.chain key ↔ node ∈ m.nodes := by
  constructor
  · exact fun hmem => mem_nodes.mpr ⟨_, _, h.chain_getElem key, hmem⟩
  · intro hmem
    obtain ⟨i, ch, hi, hnode⟩ := mem_nodes.mp hmem
    have hidx : m.index key = i := by
      rw [← h.placed i ch hi node hnode, index, index, hk.hash_eq _ _ heq]
    have hch := h.chain_getElem key
    rw [hidx, hi, Option.some.injEq] at hch
    exact hch ▸ hnode

theorem Inv.distinct_nodes {m : HashMap K V} (h : m.Inv) :
    m.nodes.Pairwise fun a b => m.keyEqFunc a.key b.key = false :=
  List.pairwise_map.mp h.distinct

/-! ## Reading a list of nodes -/

/-- The value of the first node with an equal key. -/
def find (keyEq : K → K → Bool) (key : K) (ns : List (HashNode K V)) : Option (Option V) :=
  (ns.find? fun node => keyEq node.key key).map HashNode.value

theorem find_cons (keyEq : K → K → Bool) (key : K) (node : HashNode K V)
    (ns : List (HashNode K V)) : find keyEq key (node :: ns) =
      if keyEq node.key key then some node.value else find keyEq key ns := by
  by_cases h : keyEq node.key key = true <;> simp [find, h]

/-- With distinct keys, the first node with an equal key is the only one. -/
theorem find_eq_some_iff {H : Type} {hash : K → H} {keyEq : K → K → Bool}
    (hk : LawfulKey hash keyEq) {ns : List (HashNode K V)}
    (hd : (ns.map HashNode.key).Pairwise fun a b => keyEq a b = false) (key : K)
    (v : Option V) : find keyEq key ns = some v ↔
      ∃ node ∈ ns, keyEq node.key key = true ∧ node.value = v := by
  induction ns with
  | nil => simp [find]
  | cons a ns ih =>
      rw [List.map_cons, List.pairwise_cons] at hd
      rw [find_cons]
      by_cases ha : keyEq a.key key = true
      · rw [if_pos ha, Option.some.injEq]
        constructor
        · exact fun hv => ⟨a, List.mem_cons_self .., ha, hv⟩
        · rintro ⟨node, hnode, heq, hv⟩
          cases List.mem_cons.mp hnode with
          | inl he => exact he ▸ hv
          | inr hmem =>
              have hne := hd.1 node.key (List.mem_map_of_mem hmem)
              rw [hk.trans _ _ _ ha (hk.symm _ _ heq)] at hne
              cases hne
      · rw [if_neg ha, ih hd.2]
        constructor
        · rintro ⟨node, hnode, h⟩
          exact ⟨node, List.mem_cons_of_mem _ hnode, h⟩
        · rintro ⟨node, hnode, heq, hv⟩
          cases List.mem_cons.mp hnode with
          | inl he => exact absurd (he ▸ heq) ha
          | inr hmem => exact ⟨node, hmem, heq, hv⟩

/-- The order of nodes with distinct keys does not matter to a reader. -/
theorem find_perm {H : Type} {hash : K → H} {keyEq : K → K → Bool} (hk : LawfulKey hash keyEq)
    {ns ns' : List (HashNode K V)} (hp : ns.Perm ns')
    (hd : (ns.map HashNode.key).Pairwise fun a b => keyEq a b = false) (key : K) :
    find keyEq key ns = find keyEq key ns' := by
  have hd' : (ns'.map HashNode.key).Pairwise fun a b => keyEq a b = false :=
    (hp.map _).pairwise hd fun hab => hk.ne_symm hab
  ext v
  rw [find_eq_some_iff hk hd, find_eq_some_iff hk hd']
  exact exists_congr fun node => and_congr_left' hp.mem_iff

/-- What a key is bound to can be read off the list of all nodes. -/
theorem Inv.lookup_eq_find {m : HashMap K V} (h : m.Inv) (hk : LawfulKey m.hashFunc m.keyEqFunc)
    (key : K) : m.lookup key = find m.keyEqFunc key m.nodes := by
  have hsub : (m.chain key).Sublist m.nodes :=
    List.sublist_flatten_of_mem (List.mem_of_getElem? (h.chain_getElem key))
  have hd : ((m.chain key).map HashNode.key).Pairwise fun a b => m.keyEqFunc a b = false :=
    h.distinct.sublist (hsub.map _)
  ext v
  show find m.keyEqFunc key (m.chain key) = some v ↔ _
  rw [find_eq_some_iff hk hd, find_eq_some_iff hk h.distinct]
  apply exists_congr
  intro node
  constructor
  · exact fun ⟨hmem, heq, hv⟩ => ⟨(h.mem_chain hk heq).mp hmem, heq, hv⟩
  · exact fun ⟨hmem, heq, hv⟩ => ⟨(h.mem_chain hk heq).mpr hmem, heq, hv⟩

/-- Two maps with the same nodes and the same key functions bind the same keys. -/
theorem Inv.lookup_congr {m m' : HashMap K V} (h : m.Inv) (h' : m'.Inv)
    (hk : LawfulKey m.hashFunc m.keyEqFunc) (hhash : m'.hashFunc = m.hashFunc)
    (heq : m'.keyEqFunc = m.keyEqFunc) (hp : m'.nodes.Perm m.nodes) (key : K) :
    m'.lookup key = m.lookup key := by
  rw [h'.lookup_eq_find (by rwa [hhash, heq]), h.lookup_eq_find hk, heq]
  exact find_perm hk hp (by rw [← heq]; exact h'.distinct) key

/-! ## Growing -/

/-- Every node of a bucket array sits where its hash says. -/
def Placed (hashFunc : K → UInt64) (cap : Nat) (buckets : List (List (HashNode K V))) : Prop :=
  ∀ i ch, buckets[i]? = some ch → ∀ node ∈ ch, (hashFunc node.key).toNat % cap = i

theorem relink_spec {hashFunc : K → UInt64} {cap : Nat} (hcap : 0 < cap)
    {nb : List (List (HashNode K V))} (hlen : nb.length = cap) (hp : Placed hashFunc cap nb)
    (node : HashNode K V) :
    (relink hashFunc cap nb node).length = cap ∧ Placed hashFunc cap (relink hashFunc cap nb node) ∧
      (relink hashFunc cap nb node).flatten.Perm (node :: nb.flatten) := by
  have hlt : (hashFunc node.key).toNat % cap < nb.length := by
    rw [hlen]
    exact Nat.mod_lt _ hcap
  refine ⟨by rw [relink, List.length_modify, hlen], ?_, ?_⟩
  · intro i ch hi x hx
    rw [relink, List.getElem?_modify] at hi
    obtain ⟨ch', hch', he⟩ := Option.map_eq_some_iff.mp hi
    split at he
    next heq =>
        subst he
        cases List.mem_cons.mp hx with
        | inl hxn => rw [hxn, heq]
        | inr hx' => exact hp i ch' hch' x hx'
    next => exact hp i ch' hch' x (he ▸ hx)
  · obtain ⟨ch, hch⟩ : ∃ ch, nb[(hashFunc node.key).toNat % cap]? = some ch :=
      ⟨_, List.getElem?_eq_getElem hlt⟩
    have h1 := flatten_modify_perm hch (node :: ·)
    have h2 := flatten_perm_getElem hch
    exact h1.trans ((h2.cons node).symm)

theorem relink_chain_spec {hashFunc : K → UInt64} {cap : Nat} (hcap : 0 < cap) :
    ∀ (ch : List (HashNode K V)) {nb : List (List (HashNode K V))}, nb.length = cap →
      Placed hashFunc cap nb →
      (ch.foldl (relink hashFunc cap) nb).length = cap ∧
        Placed hashFunc cap (ch.foldl (relink hashFunc cap) nb) ∧
        (ch.foldl (relink hashFunc cap) nb).flatten.Perm (ch ++ nb.flatten)
  | [], _, hlen, hp => ⟨hlen, hp, List.Perm.refl _⟩
  | node :: ch, nb, hlen, hp => by
      obtain ⟨hlen', hp', hperm⟩ := relink_spec hcap hlen hp node
      obtain ⟨hlen'', hp'', hperm'⟩ := relink_chain_spec hcap ch hlen' hp'
      refine ⟨hlen'', hp'', hperm'.trans ?_⟩
      exact (hperm.append_left ch).trans List.perm_middle

theorem rehash_chains_spec {hashFunc : K → UInt64} {cap : Nat} (hcap : 0 < cap) :
    ∀ (bs : List (List (HashNode K V))) {nb : List (List (HashNode K V))}, nb.length = cap →
      Placed hashFunc cap nb →
      (bs.foldl (fun nb ch => ch.foldl (relink hashFunc cap) nb) nb).length = cap ∧
        Placed hashFunc cap (bs.foldl (fun nb ch => ch.foldl (relink hashFunc cap) nb) nb) ∧
        (bs.foldl (fun nb ch => ch.foldl (relink hashFunc cap) nb) nb).flatten.Perm
          (bs.flatten ++ nb.flatten)
  | [], _, hlen, hp => ⟨hlen, hp, List.Perm.refl _⟩
  | ch :: bs, nb, hlen, hp => by
      obtain ⟨hlen', hp', hperm⟩ := relink_chain_spec hcap ch hlen hp
      obtain ⟨hlen'', hp'', hperm'⟩ := rehash_chains_spec hcap bs hlen' hp'
      refine ⟨hlen'', hp'', hperm'.trans ((hperm.append_left _).trans ?_)⟩
      rw [List.flatten_cons, ← List.append_assoc]
      exact List.perm_append_comm.append_right _

/-- A rehash moves every node to its place and loses none. -/
theorem rehash_spec (hashFunc : K → UInt64) {cap : Nat} (hcap : 0 < cap)
    (bs : List (List (HashNode K V))) :
    (rehash hashFunc cap bs).length = cap ∧ Placed hashFunc cap (rehash hashFunc cap bs) ∧
      (rehash hashFunc cap bs).flatten.Perm bs.flatten := by
  have hempty : Placed hashFunc cap (List.replicate cap ([] : List (HashNode K V))) := by
    intro i ch hi node hnode
    rw [List.eq_of_mem_replicate (List.mem_of_getElem? hi)] at hnode
    cases hnode
  obtain ⟨hlen, hp, hperm⟩ := rehash_chains_spec hcap bs List.length_replicate hempty
  refine ⟨hlen, hp, hperm.trans ?_⟩
  simp

/-- What growing keeps: the nodes, up to order, and everything but the array. -/
structure SameNodes (m m' : HashMap K V) : Prop where
  nodes_perm : m'.nodes.Perm m.nodes
  hashFunc_eq : m'.hashFunc = m.hashFunc
  keyEqFunc_eq : m'.keyEqFunc = m.keyEqFunc
  size_eq : m'.size = m.size
  freeKeyFunc_eq : m'.freeKeyFunc = m.freeKeyFunc
  freeValueFunc_eq : m'.freeValueFunc = m.freeValueFunc

theorem SameNodes.refl (m : HashMap K V) : SameNodes m m :=
  ⟨List.Perm.refl _, rfl, rfl, rfl, rfl, rfl⟩

theorem resizeIfNeeded_spec {m m' : HashMap K V} (h : m.Inv)
    (hk : LawfulKey m.hashFunc m.keyEqFunc) {ok : Bool} (hr : m.resizeIfNeeded ok = some m') :
    m'.Inv ∧ SameNodes m m' := by
  simp only [resizeIfNeeded, resizeWhen] at hr
  split at hr
  · rw [Option.some.injEq] at hr
    exact hr ▸ ⟨h, SameNodes.refl m⟩
  · split at hr
    · rw [Option.some.injEq] at hr
      subst hr
      have hcap : 0 < m.capacity * 2 := Nat.mul_pos h.capacity_pos two_pos
      obtain ⟨hlen, hp, hperm⟩ := rehash_spec m.hashFunc hcap m.buckets
      refine ⟨⟨hlen, hcap, hp, ?_, ?_⟩, ⟨hperm, rfl, rfl, rfl, rfl, rfl⟩⟩
      · exact (hperm.symm.map _).pairwise h.distinct fun hab => hk.ne_symm hab
      · rw [h.size_eq]
        exact hperm.length_eq.symm
    · cases hr

theorem resizeIfNeeded_isSome (m : HashMap K V) : ∃ m', m.resizeIfNeeded true = some m' := by
  simp only [resizeIfNeeded, resizeWhen, if_true]
  split <;> exact ⟨_, rfl⟩

/-! ## One chain changed -/

/-- A map whose chain of `key` has been replaced keeps the placement when the new
chain holds only keys of that bucket. -/
theorem Inv.placed_modify {m : HashMap K V} (h : m.Inv) (key : K)
    (f : List (HashNode K V) → List (HashNode K V))
    (hf : ∀ node ∈ f (m.chain key), node.key = key ∨ ∃ n ∈ m.chain key, n.key = node.key) :
    Placed m.hashFunc m.capacity (m.buckets.modify (m.index key) f) := by
  intro i ch hi node hnode
  rw [List.getElem?_modify] at hi
  obtain ⟨ch', hch', he⟩ := Option.map_eq_some_iff.mp hi
  split at he
  next heq =>
      subst heq
      rw [h.chain_getElem key, Option.some.injEq] at hch'
      subst hch'
      subst he
      rcases hf node hnode with hkey | ⟨n, hn, hkey⟩
      · rw [hkey]
        rfl
      · rw [← hkey]
        exact h.placed _ _ (h.chain_getElem key) n hn
  next => exact h.placed i ch' hch' node (he ▸ hnode)

theorem overwrite_keys (keyEq : K → K → Bool) (key : K) (v : Option V) :
    ∀ (ns : List (HashNode K V)),
      (overwrite keyEq key v ns).map HashNode.key = ns.map HashNode.key
  | [] => rfl
  | a :: ns => by
      by_cases ha : keyEq a.key key = true
      · simp [overwrite, ha]
      · simp [overwrite, ha, overwrite_keys keyEq key v ns]

theorem overwrite_append (keyEq : K → K → Bool) {key : K} {node : HashNode K V}
    (heq : keyEq node.key key = true) (v : Option V) (post : List (HashNode K V)) :
    ∀ {pre : List (HashNode K V)}, (∀ a ∈ pre, (!keyEq a.key key) = true) →
      overwrite keyEq key v (pre ++ node :: post) = pre ++ { node with value := v } :: post
  | [], _ => by simp [overwrite, heq]
  | a :: pre, hpre => by
      have ha := hpre a (List.mem_cons_self ..)
      rw [Bool.not_eq_true'] at ha
      have ih := overwrite_append keyEq heq v post fun x hx => hpre x (List.mem_cons_of_mem a hx)
      simp [overwrite, ha, ih]

/-- The nodes of a map split at the node a search of the chain finds. -/
theorem Shaped.nodes_split {m : HashMap K V} (h : m.Shaped) {key : K} {node : HashNode K V}
    (hfind : m.findNode key = some node) :
    m.keyEqFunc node.key key = true ∧ ∃ rest : List (HashNode K V),
      m.nodes.Perm (node :: rest) ∧
      (∀ v, (m.setValue key v).nodes.Perm ({ node with value := v } :: rest)) ∧
      (m.unlink key).nodes.Perm rest := by
  obtain ⟨heq, pre, post, hch, hpre⟩ := List.find?_eq_some_iff_append.mp hfind
  have hget := h.chain_getElem key
  have herase : (pre ++ node :: post).eraseP (fun n => m.keyEqFunc n.key key) = pre ++ post := by
    rw [List.eraseP_append_right _ fun a ha => by simpa using hpre a ha]
    simp [heq]
  refine ⟨heq, (pre ++ post) ++ (m.buckets.eraseIdx (m.index key)).flatten, ?_, ?_, ?_⟩
  · have hp := flatten_perm_getElem hget
    rw [hch] at hp
    exact hp.trans (List.perm_middle.append_right _)
  · intro v
    have hp := flatten_modify_perm hget (overwrite m.keyEqFunc key v)
    rw [hch, overwrite_append m.keyEqFunc heq v post hpre] at hp
    exact hp.trans (List.perm_middle.append_right _)
  · have hp := flatten_modify_perm hget (List.eraseP fun n => m.keyEqFunc n.key key)
    rwa [hch, herase] at hp

theorem Shaped.addNode_perm {m : HashMap K V} (h : m.Shaped) (key : K) (v : Option V) :
    (m.addNode key v).nodes.Perm (⟨key, v⟩ :: m.nodes) := by
  have h1 := flatten_modify_perm (h.chain_getElem key) (⟨key, v⟩ :: ·)
  have h2 := flatten_perm_getElem (h.chain_getElem key)
  exact h1.trans (h2.cons _).symm

/-! ## One chain changed: the invariant -/

theorem Inv.setValue {m : HashMap K V} (h : m.Inv) (hk : LawfulKey m.hashFunc m.keyEqFunc)
    {key : K} {node : HashNode K V} (hfind : m.findNode key = some node) (v : Option V) :
    (m.setValue key v).Inv := by
  obtain ⟨_, rest, hp, hset, _⟩ := h.shaped.nodes_split hfind
  have hkeys : (m.setValue key v).keys.Perm m.keys :=
    ((hset v).map HashNode.key).trans (hp.map HashNode.key).symm
  refine ⟨?_, h.capacity_pos, ?_, ?_, ?_⟩
  · exact (List.length_modify ..).trans h.buckets_length
  · refine h.placed_modify key _ fun n hn => Or.inr ?_
    obtain ⟨n', hn', he⟩ := List.mem_map.mp
      (overwrite_keys m.keyEqFunc key v (m.chain key) ▸ List.mem_map_of_mem (f := HashNode.key) hn)
    exact ⟨n', hn', he⟩
  · exact hkeys.symm.pairwise h.distinct fun hab => hk.ne_symm hab
  · show m.size = _
    rw [h.size_eq, hp.length_eq, (hset v).length_eq]
    rfl

theorem findNode_eq_none_iff {m : HashMap K V} {key : K} :
    m.findNode key = none ↔ m.lookup key = none := by
  rw [lookup, Option.map_eq_none_iff]

theorem Inv.addNode {m : HashMap K V} (h : m.Inv) (hk : LawfulKey m.hashFunc m.keyEqFunc)
    {key : K} (hfind : m.findNode key = none) (v : Option V) : (m.addNode key v).Inv := by
  have hp := h.shaped.addNode_perm key v
  refine ⟨?_, h.capacity_pos, ?_, ?_, ?_⟩
  · exact (List.length_modify ..).trans h.buckets_length
  · apply h.placed_modify key _
    intro n hn
    cases List.mem_cons.mp hn with
    | inl he => exact Or.inl (by rw [he])
    | inr hn' => exact Or.inr ⟨n, hn', rfl⟩
  · refine (hp.symm.map HashNode.key).pairwise ?_ fun hab => hk.ne_symm hab
    rw [List.map_cons, List.pairwise_cons]
    refine ⟨?_, h.distinct⟩
    intro b hb
    obtain ⟨n, hn, rfl⟩ := List.mem_map.mp hb
    -- an equal key would have been found in the chain
    by_contra hne
    have heq : m.keyEqFunc n.key key = true := hk.symm _ _ (Bool.not_eq_false _ ▸ hne)
    exact List.find?_eq_none.mp hfind n ((h.mem_chain hk heq).mpr hn) heq
  · show m.size + 1 = _
    rw [h.size_eq, hp.length_eq]
    rfl

theorem Inv.unlink {m : HashMap K V} (h : m.Inv) (hk : LawfulKey m.hashFunc m.keyEqFunc)
    {key : K} {node : HashNode K V} (hfind : m.findNode key = some node) :
    (m.unlink key).Inv := by
  obtain ⟨_, rest, hp, _, herase⟩ := h.shaped.nodes_split hfind
  have hsub : ((node :: rest).map HashNode.key).Pairwise fun a b => m.keyEqFunc a b = false :=
    (hp.map HashNode.key).pairwise h.distinct fun hab => hk.ne_symm hab
  refine ⟨?_, h.capacity_pos, ?_, ?_, ?_⟩
  · exact (List.length_modify ..).trans h.buckets_length
  · exact h.placed_modify key _ fun n hn => Or.inr ⟨n, List.mem_of_mem_eraseP hn, rfl⟩
  · rw [List.map_cons, List.pairwise_cons] at hsub
    exact (herase.symm.map HashNode.key).pairwise hsub.2 fun hab => hk.ne_symm hab
  · show m.size - 1 = _
    rw [h.size_eq, hp.length_eq, herase.length_eq]
    rfl

/-! ## One chain changed: the bindings -/

theorem Inv.lookup_setValue {m : HashMap K V} (h : m.Inv) (hk : LawfulKey m.hashFunc m.keyEqFunc)
    {key : K} {node : HashNode K V} (hfind : m.findNode key = some node) (v : Option V) (k : K) :
    (m.setValue key v).lookup k = if m.keyEqFunc key k then some v else m.lookup k := by
  obtain ⟨heq, rest, hp, hset, _⟩ := h.shaped.nodes_split hfind
  have h' := h.setValue hk hfind v
  rw [h'.lookup_eq_find hk, h.lookup_eq_find hk, find_perm hk hp h.distinct,
    show (m.setValue key v).keyEqFunc = m.keyEqFunc from rfl, find_perm hk (hset v) h'.distinct,
    find_cons, find_cons, hk.congr_left heq k]
  split <;> rfl

theorem Inv.lookup_addNode {m : HashMap K V} (h : m.Inv) (hk : LawfulKey m.hashFunc m.keyEqFunc)
    {key : K} (hfind : m.findNode key = none) (v : Option V) (k : K) :
    (m.addNode key v).lookup k = if m.keyEqFunc key k then some v else m.lookup k := by
  have h' := h.addNode hk hfind v
  rw [h'.lookup_eq_find hk, h.lookup_eq_find hk,
    show (m.addNode key v).keyEqFunc = m.keyEqFunc from rfl,
    find_perm hk (h.shaped.addNode_perm key v) h'.distinct, find_cons]

theorem Inv.lookup_unlink {m : HashMap K V} (h : m.Inv) (hk : LawfulKey m.hashFunc m.keyEqFunc)
    {key : K} {node : HashNode K V} (hfind : m.findNode key = some node) (k : K) :
    (m.unlink key).lookup k = if m.keyEqFunc key k then none else m.lookup k := by
  obtain ⟨heq, rest, hp, _, herase⟩ := h.shaped.nodes_split hfind
  have h' := h.unlink hk hfind
  have hd : ((node :: rest).map HashNode.key).Pairwise fun a b => m.keyEqFunc a b = false :=
    (hp.map HashNode.key).pairwise h.distinct fun hab => hk.ne_symm hab
  rw [List.map_cons, List.pairwise_cons] at hd
  rw [h'.lookup_eq_find hk, h.lookup_eq_find hk,
    show (m.unlink key).keyEqFunc = m.keyEqFunc from rfl, find_perm hk herase h'.distinct,
    find_perm hk hp h.distinct, find_cons, hk.congr_left heq k]
  by_cases hkk : m.keyEqFunc key k = true
  · rw [if_pos hkk, Option.eq_none_iff_forall_ne_some]
    intro v hv
    obtain ⟨n, hn, hnk, _⟩ := (find_eq_some_iff hk hd.2 k v).mp hv
    have hne := hd.1 n.key (List.mem_map_of_mem hn)
    rw [hk.congr_left heq, hk.trans key k n.key hkk (hk.symm _ _ hnk)] at hne
    cases hne
  · rw [if_neg hkk, if_neg hkk]

/-! ## The operations -/

/-- Every way `hashmap_put` can go. -/
theorem put_cases (m : HashMap K V) (key : K) (value : Option V) (alloc : PutAlloc) :
    (m.resizeIfNeeded alloc.newBuckets = none ∧
      m.put key value alloc = { map := m, ret := -1 }) ∨
    ∃ m', m.resizeIfNeeded alloc.newBuckets = some m' ∧
      ((∃ node, m'.findNode key = some node ∧ m.put key value alloc =
          { map := m'.setValue key value
            ret := 0
            freedKeys := if m'.freeKeyFunc then [key] else []
            freedValues := if m'.freeValueFunc then [node.value] else [] }) ∨
        (m'.findNode key = none ∧ alloc.newNode = true ∧
          m.put key value alloc = { map := m'.addNode key value, ret := 0 }) ∨
        (m'.findNode key = none ∧ alloc.newNode = false ∧
          m.put key value alloc = { map := m', ret := -1 })) := by
  cases hr : m.resizeIfNeeded alloc.newBuckets with
  | none => exact Or.inl ⟨rfl, by simp [put, putResized, hr]⟩
  | some m' =>
      refine Or.inr ⟨m', rfl, ?_⟩
      cases hf : m'.findNode key with
      | some node => exact Or.inl ⟨node, rfl, by simp [put, putResized, hr, hf]⟩
      | none =>
          cases ha : alloc.newNode with
          | true => exact Or.inr (Or.inl ⟨rfl, rfl, by simp [put, putResized, hr, hf, ha]⟩)
          | false => exact Or.inr (Or.inr ⟨rfl, rfl, by simp [put, putResized, hr, hf, ha]⟩)

/-- The key functions and callbacks of a map never change. -/
structure SameFuncs (m m' : HashMap K V) : Prop where
  hashFunc_eq : m'.hashFunc = m.hashFunc
  keyEqFunc_eq : m'.keyEqFunc = m.keyEqFunc
  freeKeyFunc_eq : m'.freeKeyFunc = m.freeKeyFunc
  freeValueFunc_eq : m'.freeValueFunc = m.freeValueFunc

theorem SameNodes.sameFuncs {m m' : HashMap K V} (h : SameNodes m m') : SameFuncs m m' :=
  ⟨h.hashFunc_eq, h.keyEqFunc_eq, h.freeKeyFunc_eq, h.freeValueFunc_eq⟩

/-- What a put does to a map: a `0` binds the key, a `-1` changes no binding. -/
structure PutSpec (m : HashMap K V) (key : K) (value : Option V) (r : PutResult K V) : Prop where
  inv : r.map.Inv
  funcs : SameFuncs m r.map
  ret : r.ret = 0 ∨ r.ret = -1
  bound : r.ret = 0 → ∀ k, r.map.lookup k = if m.keyEqFunc key k then some value else m.lookup k
  unchanged : r.ret = -1 → ∀ k, r.map.lookup k = m.lookup k
  size_bound : r.ret = 0 →
    r.map.size = if (m.lookup key).isSome then m.size else m.size + 1
  size_unchanged : r.ret = -1 → r.map.size = m.size
  nothing_freed : r.ret = -1 → r.freedKeys = [] ∧ r.freedValues = []

theorem put_spec {m : HashMap K V} (h : m.Inv) (hk : LawfulKey m.hashFunc m.keyEqFunc) (key : K)
    (value : Option V) (alloc : PutAlloc) : PutSpec m key value (m.put key value alloc) := by
  -- a failing put is described alike before and after the growth
  have hfail : ∀ m', m'.Inv → SameNodes m m' → (∀ k, m'.lookup k = m.lookup k) →
      PutSpec m key value { map := m', ret := -1 } := fun m' h' hs hlook =>
    { inv := h'
      funcs := hs.sameFuncs
      ret := Or.inr rfl
      bound := fun h0 => absurd h0 (by simp)
      unchanged := fun _ => hlook
      size_bound := fun h0 => absurd h0 (by simp)
      size_unchanged := fun _ => hs.size_eq
      nothing_freed := fun _ => ⟨rfl, rfl⟩ }
  rcases put_cases m key value alloc with ⟨_, hput⟩ | ⟨m', hr, hcases⟩
  · exact hput ▸ hfail m h (SameNodes.refl m) fun _ => rfl
  · obtain ⟨h', hs⟩ := resizeIfNeeded_spec h hk hr
    have hk' : LawfulKey m'.hashFunc m'.keyEqFunc := by rwa [hs.hashFunc_eq, hs.keyEqFunc_eq]
    have hlook : ∀ k, m'.lookup k = m.lookup k := fun k =>
      h.lookup_congr h' hk hs.hashFunc_eq hs.keyEqFunc_eq hs.nodes_perm k
    have hsf : ∀ m'' : HashMap K V, SameFuncs m' m'' → SameFuncs m m'' := fun m'' hf =>
      ⟨hf.1.trans hs.hashFunc_eq, hf.2.trans hs.keyEqFunc_eq, hf.3.trans hs.freeKeyFunc_eq,
        hf.4.trans hs.freeValueFunc_eq⟩
    rcases hcases with ⟨node, hf, hput⟩ | ⟨hf, _, hput⟩ | ⟨_, _, hput⟩
    · have hsome : (m.lookup key).isSome = true := by
        rw [← hlook, lookup, hf]
        rfl
      rw [hput]
      exact
        { inv := h'.setValue hk' hf value
          funcs := hsf _ ⟨rfl, rfl, rfl, rfl⟩
          ret := Or.inl rfl
          bound := fun _ k => by rw [h'.lookup_setValue hk' hf, hlook, hs.keyEqFunc_eq]
          unchanged := fun h0 => absurd h0 (by simp)
          size_bound := fun _ => by
            rw [if_pos hsome]
            exact hs.size_eq
          size_unchanged := fun h0 => absurd h0 (by simp)
          nothing_freed := fun h0 => absurd h0 (by simp) }
    · have hnone : m.lookup key = none := (hlook key).symm.trans (findNode_eq_none_iff.mp hf)
      rw [hput]
      exact
        { inv := h'.addNode hk' hf value
          funcs := hsf _ ⟨rfl, rfl, rfl, rfl⟩
          ret := Or.inl rfl
          bound := fun _ k => by rw [h'.lookup_addNode hk' hf, hlook, hs.keyEqFunc_eq]
          unchanged := fun h0 => absurd h0 (by simp)
          size_bound := fun _ => by
            rw [hnone]
            exact congrArg (· + 1) hs.size_eq
          size_unchanged := fun h0 => absurd h0 (by simp)
          nothing_freed := fun h0 => absurd h0 (by simp) }
    · exact hput ▸ hfail m' h' hs hlook

/-- A put under a key that is not bound frees nothing. -/
theorem put_freed_nil {m : HashMap K V} (h : m.Inv) (hk : LawfulKey m.hashFunc m.keyEqFunc)
    {key : K} (hnone : m.lookup key = none) (value : Option V) (alloc : PutAlloc) :
    (m.put key value alloc).freedKeys = [] ∧ (m.put key value alloc).freedValues = [] := by
  rcases put_cases m key value alloc with ⟨_, hput⟩ | ⟨m', hr, hcases⟩
  · rw [hput]
    exact ⟨rfl, rfl⟩
  · obtain ⟨h', hs⟩ := resizeIfNeeded_spec h hk hr
    have hlook : m'.lookup key = none :=
      (h.lookup_congr h' hk hs.hashFunc_eq hs.keyEqFunc_eq hs.nodes_perm key).trans hnone
    rcases hcases with ⟨node, hf, _⟩ | ⟨_, _, hput⟩ | ⟨_, _, hput⟩
    · rw [findNode_eq_none_iff.mpr hlook] at hf
      cases hf
    · rw [hput]
      exact ⟨rfl, rfl⟩
    · rw [hput]
      exact ⟨rfl, rfl⟩

/-- With its allocations succeeding a put returns `0`. -/
theorem put_ret (m : HashMap K V) (key : K) (value : Option V) : (m.put key value {}).ret = 0 := by
  obtain ⟨m', hr⟩ := resizeIfNeeded_isSome m
  rcases put_cases m key value {} with ⟨hr', _⟩ | ⟨m'', _, hcases⟩
  · rw [hr] at hr'
    cases hr'
  · rcases hcases with ⟨node, _, hput⟩ | ⟨_, _, hput⟩ | ⟨_, ha, _⟩
    · rw [hput]
    · rw [hput]
    · cases ha

/-- What a removal does to a map. -/
structure RemoveSpec (m : HashMap K V) (key : K) (r : RemoveResult K V) : Prop where
  inv : r.map.Inv
  funcs : SameFuncs m r.map
  ret : r.ret = (m.lookup key).isSome
  unbound : ∀ k, r.map.lookup k = if m.keyEqFunc key k then none else m.lookup k
  size : r.map.size = if (m.lookup key).isSome then m.size - 1 else m.size

theorem Inv.lookup_congr_key {m : HashMap K V} (h : m.Inv) (hk : LawfulKey m.hashFunc m.keyEqFunc)
    {key k : K} (hkk : m.keyEqFunc key k = true) : m.lookup key = m.lookup k := by
  rw [h.lookup_eq_find hk, h.lookup_eq_find hk, find, find]
  congr 2
  funext node
  rw [hk.symm_iff, hk.congr_left hkk, hk.symm_iff]

theorem remove_spec {m : HashMap K V} (h : m.Inv) (hk : LawfulKey m.hashFunc m.keyEqFunc)
    (key : K) : RemoveSpec m key (m.remove key) := by
  cases hf : m.findNode key with
  | some node =>
      have hsome : (m.lookup key).isSome = true := by
        rw [lookup, hf]
        rfl
      simp only [remove, hf]
      exact
        { inv := h.unlink hk hf
          funcs := ⟨rfl, rfl, rfl, rfl⟩
          ret := hsome.symm
          unbound := h.lookup_unlink hk hf
          size := by
            rw [if_pos hsome]
            rfl }
  | none =>
      have hnone := findNode_eq_none_iff.mp hf
      simp only [remove, hf]
      exact
        { inv := h
          funcs := ⟨rfl, rfl, rfl, rfl⟩
          ret := by rw [hnone, Option.isSome_none]
          unbound := fun k => by
            split
            next hkk => rw [← h.lookup_congr_key hk hkk, hnone]
            next => rfl
          size := by rw [hnone, Option.isSome_none, if_neg Bool.false_ne_true] }

end HashMap

theorem hashmapCreate_spec {capacity : Nat} (hc : 0 < capacity) (hashFunc : K → UInt64)
    (keyEqFunc : K → K → Bool) (freeKeyFunc freeValueFunc : Bool) :
    ∃ m : HashMap K V,
      hashmapCreate capacity hashFunc keyEqFunc freeKeyFunc freeValueFunc = some m ∧ m.Inv ∧
      m.hashFunc = hashFunc ∧ m.keyEqFunc = keyEqFunc ∧ m.capacity = capacity ∧ m.size = 0 ∧
      ∀ k, m.lookup k = none := by
  refine ⟨_, if_neg (by omega), ⟨List.length_replicate, hc, ?_, ?_, ?_⟩, rfl, rfl, rfl, rfl, ?_⟩
  · intro i ch hi node hnode
    rw [List.eq_of_mem_replicate (List.mem_of_getElem? hi)] at hnode
    cases hnode
  · simp [HashMap.keys, HashMap.nodes]
  · simp [HashMap.nodes]
  · intro k
    simp [HashMap.lookup, HashMap.findNode, HashMap.chain, List.getD_eq_getElem?_getD,
      List.getElem?_replicate]
    split <;> simp

end DataPropagator
