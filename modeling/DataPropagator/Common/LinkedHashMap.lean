import DataPropagator.Common.HashMapFailure
import DataPropagator.Lib.ChainTable

/-!
# The nodes of a hash map

`hashmap.c` as it stands, on a heap of nodes.  The array holds a pointer to the first node of each
chain.  A put walks one chain, a removal takes a node out of the middle of one, and a rehash moves
every node into the chains of a new array while the old array still points to them.  To follow a
pointer to a node that is not live, or to read the array beyond its end, is a fault.

`Shape` ties the array, the heap and the size to a table of chains.  `State.toHashMap` reads the
map of `Common/HashMap.lean` off the chains.  Every call keeps the shape (`call_spec`) and returns
and frees what the call of that map does, so a map of nodes refines a map of lists.
-/

namespace DataPropagator

namespace LinkedHashMap

open LinkedChain

variable {α K V : Type} [DecidableEq α]

/-! ## Data -/

/-- What the code must not do. -/
inductive Fault where
  /-- A pointer to a node that is not live is followed. -/
  | dangling
  /-- The array is read or written beyond its end. -/
  | outOfBounds
  /-- A loop was given too little fuel. -/
  | outOfFuel
deriving DecidableEq, Repr

/-- `struct HashMap`, with the heap of its nodes. -/
structure State (α K V : Type) where
  heap : Heap α (HashNode K V)
  buckets : List (Option α)
  capacity : Nat
  size : Nat
  hashFunc : K → UInt64
  keyEqFunc : K → K → Bool
  /-- `freeKeyFunc` is not NULL. -/
  freeKeyFunc : Bool
  /-- `freeValueFunc` is not NULL. -/
  freeValueFunc : Bool

/-- What a call leaves, returns and passes to the callbacks. -/
structure Result (α K V ρ : Type) where
  map : State α K V
  ret : ρ
  freedKeys : List K := []
  freedValues : List (Option V) := []

/-- A read of a node. -/
def load (heap : Heap α (HashNode K V)) (node : α) :
    Except Fault (Cell α (HashNode K V)) :=
  match heap node with
  | some cell => .ok cell
  | none => .error .dangling

/-- A read of the array. -/
def bucket (buckets : List (Option α)) (idx : Nat) : Except Fault (Option α) :=
  match buckets[idx]? with
  | some node => .ok node
  | none => .error .outOfBounds

/-- The bucket a key belongs to. -/
def State.index (m : State α K V) (key : K) : Nat :=
  (m.hashFunc key).toNat % m.capacity

/-- `MAX_LOAD_FACTOR` is `0.75f`, that is `3 / 2 ^ 2`. -/
def State.fits (m : State α K V) : Bool :=
  Binary32.divLe (Binary32.ofNat (m.size + 1)) (Binary32.ofNat m.capacity) 3 2

/-! ## The functions -/

/-- `hashmap_create`, its allocations succeeding. -/
def hashmapCreate (capacity : Nat) (hashFunc : K → UInt64) (keyEqFunc : K → K → Bool)
    (freeKeyFunc freeValueFunc : Bool) : Option (State α K V) :=
  if capacity = 0 then none
  else some
    { heap := Heap.empty
      buckets := List.replicate capacity none
      capacity := capacity
      size := 0
      hashFunc := hashFunc
      keyEqFunc := keyEqFunc
      freeKeyFunc := freeKeyFunc
      freeValueFunc := freeValueFunc }

/-- The inner loop of `resize_if_needed`: the nodes from `node` on are put in front of their new
chains. -/
def rehashChain (hashFunc : K → UInt64) (newCap : Nat) :
    Nat → Option α → Heap α (HashNode K V) × List (Option α) →
      Except Fault (Heap α (HashNode K V) × List (Option α))
  | _, none, s => .ok s
  | 0, some _, _ => .error .outOfFuel
  | fuel + 1, some node, (heap, newBuckets) => do
      let cell ← load heap node
      let idx := (hashFunc cell.data.key).toNat % newCap
      let first ← bucket newBuckets idx
      rehashChain hashFunc newCap fuel cell.next
        (heap.store node { cell with next := first }, newBuckets.set idx (some node))

/-- The outer loop of `resize_if_needed`, `n` rounds from `i` on. -/
def rehashLoop (hashFunc : K → UInt64) (newCap fuel : Nat) (buckets : List (Option α)) :
    Nat → Nat → Heap α (HashNode K V) × List (Option α) →
      Except Fault (Heap α (HashNode K V) × List (Option α))
  | 0, _, s => .ok s
  | n + 1, i, s => do
      let node ← bucket buckets i
      let s ← rehashChain hashFunc newCap fuel node s
      rehashLoop hashFunc newCap fuel buckets n (i + 1) s

/-- `resize_if_needed`.  `none` is the result `false`, which leaves the map as it was. -/
def resizeIfNeeded (fuel : Nat) (m : State α K V) (callocOk : Bool) :
    Except Fault (Option (State α K V)) :=
  if m.fits then .ok (some m)
  else if callocOk then do
    let newCap := m.capacity * 2
    let (heap, newBuckets) ← rehashLoop m.hashFunc newCap fuel m.buckets m.capacity 0
      (m.heap, List.replicate newCap none)
    return some { m with heap := heap, buckets := newBuckets, capacity := newCap }
  else .ok none

/-- The walk along a chain that `hashmap_put`, `hashmap_get` and `hashmap_remove` share: the node
with an equal key and, in `hashmap_remove`, `prev`. -/
def seek (heap : Heap α (HashNode K V)) (keyEqFunc : K → K → Bool) (key : K) :
    Nat → Option α → Option α → Except Fault (Option (Option α × α))
  | _, _, none => .ok none
  | 0, _, some _ => .error .outOfFuel
  | fuel + 1, prev, some node => do
      let cell ← load heap node
      if keyEqFunc cell.data.key key then return some (prev, node)
      else seek heap keyEqFunc key fuel (some node) cell.next

/-- `hashmap_put` after `resize_if_needed`.  `newNode` is what `malloc` returns. -/
def putResized (fuel : Nat) (m : State α K V) (key : K) (value : Option V)
    (newNode : Option α) : Except Fault (Result α K V Int) := do
  let first ← bucket m.buckets (m.index key)
  match ← seek m.heap m.keyEqFunc key fuel none first with
  | some (_, node) =>
      let cell ← load m.heap node
      return {
        map := { m with
          heap := m.heap.store node { cell with data := { cell.data with value := value } } }
        ret := 0
        freedKeys := if m.freeKeyFunc then [key] else []
        freedValues := if m.freeValueFunc then [cell.data.value] else [] }
  | none =>
      match newNode with
      | none => return { map := m, ret := -1 }
      | some newNode =>
          let next ← bucket m.buckets (m.index key)
          return {
            map := { m with
              heap := m.heap.store newNode { data := ⟨key, value⟩, next := next }
              buckets := m.buckets.set (m.index key) (some newNode)
              size := m.size + 1 }
            ret := 0 }

/-- `hashmap_put` on a map that is not NULL. -/
def hashmapPut (fuel : Nat) (m : State α K V) (key : Option K) (value : Option V)
    (newBuckets : Bool) (newNode : Option α) : Except Fault (Result α K V Int) :=
  match key with
  | none => .ok { map := m, ret := -1 }
  | some key => do
      match ← resizeIfNeeded fuel m newBuckets with
      | none => return { map := m, ret := -1 }
      | some m => putResized fuel m key value newNode

/-- `hashmap_get` on a map that is not NULL. -/
def hashmapGet (fuel : Nat) (m : State α K V) (key : Option K) : Except Fault (Option V) :=
  match key with
  | none => .ok none
  | some key => do
      let first ← bucket m.buckets (m.index key)
      match ← seek m.heap m.keyEqFunc key fuel none first with
      | some (_, node) => do
          let cell ← load m.heap node
          return cell.data.value
      | none => return none

/-- `prev->next = node->next`, or the bucket if there is no `prev`. -/
def bypass (m : State α K V) (idx : Nat) (prev next : Option α) :
    Except Fault (State α K V) :=
  match prev with
  | some prev => do
      let cell ← load m.heap prev
      return { m with heap := m.heap.store prev { cell with next := next } }
  | none => .ok { m with buckets := m.buckets.set idx next }

/-- `hashmap_remove` on a map that is not NULL. -/
def hashmapRemove (fuel : Nat) (m : State α K V) (key : Option K) :
    Except Fault (Result α K V Bool) :=
  match key with
  | none => .ok { map := m, ret := false }
  | some key => do
      let first ← bucket m.buckets (m.index key)
      match ← seek m.heap m.keyEqFunc key fuel none first with
      | some (prev, node) => do
          let cell ← load m.heap node
          let m ← bypass m (m.index key) prev cell.next
          return {
            map := { m with heap := m.heap.free node, size := m.size - 1 }
            ret := true
            freedKeys := if m.freeKeyFunc then [cell.data.key] else []
            freedValues := if m.freeValueFunc then [cell.data.value] else [] }
      | none => return { map := m, ret := false }

/-- What `hashmap_destroy` has passed to the callbacks, what nodes it has freed, and the heap. -/
structure Destroyed (α K V : Type) where
  freedKeys : List K := []
  freedValues : List (Option V) := []
  nodes : List α := []
  heap : Heap α (HashNode K V)

/-- The inner loop of `hashmap_destroy`. -/
def destroyChain (freeKeyFunc freeValueFunc : Bool) :
    Nat → Option α → Destroyed α K V → Except Fault (Destroyed α K V)
  | _, none, d => .ok d
  | 0, some _, _ => .error .outOfFuel
  | fuel + 1, some node, d => do
      let cell ← load d.heap node
      destroyChain freeKeyFunc freeValueFunc fuel cell.next
        { freedKeys := d.freedKeys ++ if freeKeyFunc then [cell.data.key] else []
          freedValues := d.freedValues ++ if freeValueFunc then [cell.data.value] else []
          nodes := d.nodes ++ [node]
          heap := d.heap.free node }

/-- The outer loop of `hashmap_destroy`, `n` rounds from `i` on. -/
def destroyLoop (freeKeyFunc freeValueFunc : Bool) (fuel : Nat) (buckets : List (Option α)) :
    Nat → Nat → Destroyed α K V → Except Fault (Destroyed α K V)
  | 0, _, d => .ok d
  | n + 1, i, d => do
      let node ← bucket buckets i
      let d ← destroyChain freeKeyFunc freeValueFunc fuel node d
      destroyLoop freeKeyFunc freeValueFunc fuel buckets n (i + 1) d

/-- `hashmap_destroy` on a map that is not NULL. -/
def hashmapDestroy (fuel : Nat) (m : State α K V) : Except Fault (Destroyed α K V) :=
  destroyLoop m.freeKeyFunc m.freeValueFunc fuel m.buckets m.capacity 0 { heap := m.heap }

/-! ## Calls -/

/-- A call on a map, with what its allocations return. -/
inductive Call (α K V : Type) where
  | put (key : Option K) (value : Option V) (newBuckets : Bool) (newNode : Option α)
  | get (key : Option K)
  | remove (key : Option K)

/-- The call without the address of the node. -/
def Call.owner : Call α K V → OwnerCall K V
  | .put key value newBuckets newNode =>
      .put key value { newBuckets := newBuckets, newNode := newNode.isSome }
  | .get key => .get key
  | .remove key => .remove key

/-- One call. -/
def call (fuel : Nat) (m : State α K V) :
    Call α K V → Except Fault (CallResult K V × State α K V)
  | .put key value newBuckets newNode =>
      (hashmapPut fuel m key value newBuckets newNode).map fun r =>
        (.put r.ret r.freedKeys r.freedValues, r.map)
  | .get key => (hashmapGet fuel m key).map fun value => (.get value, m)
  | .remove key =>
      (hashmapRemove fuel m key).map fun r => (.remove r.ret r.freedKeys r.freedValues, r.map)

/-- A sequence of calls. -/
def calls (fuel : Nat) (m : State α K V) :
    List (Call α K V) → Except Fault (List (CallResult K V) × State α K V)
  | [] => .ok ([], m)
  | c :: cs => do
      let (result, m) ← call fuel m c
      let (results, m) ← calls fuel m cs
      return (result :: results, m)

/-- `malloc` never returns the address of a node that is live. -/
def Call.Possible (m : State α K V) : Call α K V → Prop
  | .put _ _ _ (some newNode) => m.heap newNode = none
  | _ => True

/-- Every call of a sequence is possible when it is made. -/
def Possible (fuel : Nat) (m : State α K V) : List (Call α K V) → Prop
  | [] => True
  | c :: cs => c.Possible m ∧
      ∀ result m', call fuel m c = .ok (result, m') → Possible fuel m' cs

/-- The nodes of a table of chains, without their addresses. -/
def contents (xss : List (List (α × HashNode K V))) : List (List (HashNode K V)) :=
  xss.map (List.map Prod.snd)

/-- The map of lists with the contents of a table. -/
def State.toHashMap (m : State α K V) (xss : List (List (α × HashNode K V))) : HashMap K V where
  buckets := contents xss
  capacity := m.capacity
  size := m.size
  hashFunc := m.hashFunc
  keyEqFunc := m.keyEqFunc
  freeKeyFunc := m.freeKeyFunc
  freeValueFunc := m.freeValueFunc

/-! ## The invariant -/

/-- The array starts a table of chains that holds all live nodes, has `capacity` entries, and
`size` counts the nodes. -/
structure Shape (m : State α K V) (xss : List (List (α × HashNode K V))) : Prop where
  table : Table m.heap m.buckets xss
  buckets_length : m.buckets.length = m.capacity
  capacity_pos : 0 < m.capacity
  size : m.size = xss.flatten.length

section Reading

omit [DecidableEq α]

variable {m : State α K V} {xss : List (List (α × HashNode K V))}
  {heap : Heap α (HashNode K V)} {p prev : Option α} {xs l : List (α × HashNode K V)} {i fuel : Nat}
  {a : α} {node : HashNode K V}

theorem load_eq {cell : Cell α (HashNode K V)} (ha : heap a = some cell) :
    load heap a = .ok cell := by
  rw [load, ha]

theorem bucket_eq {buckets : List (Option α)} (hp : buckets[i]? = some p) :
    bucket buckets i = .ok p := by
  rw [bucket, hp]

theorem contents_getElem (hx : xss[i]? = some xs) :
    (contents xss)[i]? = some (xs.map Prod.snd) := by
  rw [contents, List.getElem?_map, hx, Option.map_some]

theorem contents_modify (hx : xss[i]? = some xs) {ys : List (α × HashNode K V)}
    {f : List (HashNode K V) → List (HashNode K V)} (hf : f (xs.map Prod.snd) = ys.map Prod.snd) :
    (contents xss).modify i f = contents (xss.set i ys) := by
  obtain ⟨hlt, hget⟩ := List.getElem?_eq_some_iff.mp (contents_getElem hx)
  have hset : contents (xss.set i ys) = (contents xss).set i (ys.map Prod.snd) := List.map_set
  rw [hset, ← hf]
  ext j node
  rw [List.getElem?_modify, List.getElem?_set]
  by_cases hj : i = j
  · subst hj
    simp [hlt, hget]
  · simp [hj]

theorem contents_length (xss : List (List (α × HashNode K V))) :
    (contents xss).flatten.length = xss.flatten.length := by
  rw [contents, ← List.map_flatten, List.length_map]

/-- Changing one chain changes the number of nodes by that chain. -/
theorem length_set (hx : xss[i]? = some xs) (ys : List (α × HashNode K V)) :
    (xss.set i ys).flatten.length + xs.length = xss.flatten.length + ys.length := by
  have hi := (List.getElem?_eq_some_iff.mp hx).1
  have hold := (HashMap.flatten_perm_getElem hx).length_eq
  have hnew := (HashMap.flatten_perm_getElem (List.getElem?_set_self (a := ys) hi)).length_eq
  rw [List.eraseIdx_set_eq] at hnew
  simp only [List.length_append] at hold hnew
  omega

/-! ## Walking along a chain -/

theorem seek_none {keyEqFunc : K → K → Bool} {key : K} (hc : Chain heap p xs)
    (hfuel : xs.length ≤ fuel) (hno : ∀ x ∈ xs, keyEqFunc x.2.key key = false) :
    seek heap keyEqFunc key fuel prev p = .ok none := by
  induction hc generalizing prev fuel with
  | nil => cases fuel <;> rfl
  | cons live rest ih =>
      obtain ⟨fuel, rfl⟩ : ∃ n, fuel = n + 1 := ⟨fuel - 1, by simp at hfuel; omega⟩
      rw [seek, load_eq live]
      simp only [bind, Except.bind, hno _ (List.mem_cons_self ..), Bool.false_eq_true, if_false]
      exact ih (by simpa using hfuel) fun x hx => hno x (List.mem_cons_of_mem _ hx)

/-- The walk ends at the first node with an equal key, and `prev` is the node before it. -/
theorem seek_some {keyEqFunc : K → K → Bool} {key : K} (hc : Chain heap p (l ++ (a, node) :: xs))
    (hfuel : l.length < fuel) (hno : ∀ x ∈ l, keyEqFunc x.2.key key = false)
    (heq : keyEqFunc node.key key = true) :
    seek heap keyEqFunc key fuel prev p =
      .ok (some ((l.getLast?.map Prod.fst).or prev, a)) := by
  induction l generalizing p prev fuel with
  | nil =>
      obtain ⟨fuel, rfl⟩ : ∃ n, fuel = n + 1 := ⟨fuel - 1, by simp at hfuel; omega⟩
      obtain ⟨rfl, next, hcell, _⟩ := hc.first
      rw [seek, load_eq hcell]
      simp only [bind, Except.bind, heq, if_true]
      rfl
  | cons x l ih =>
      obtain ⟨b, other⟩ := x
      obtain ⟨fuel, rfl⟩ : ∃ n, fuel = n + 1 := ⟨fuel - 1, by simp at hfuel; omega⟩
      obtain ⟨rfl, next, hcell, hrest⟩ := hc.first
      have hb := hno _ (List.mem_cons_self ..)
      rw [seek, load_eq hcell]
      simp only [bind, Except.bind, hb, Bool.false_eq_true, if_false]
      rw [ih hrest (by simpa using hfuel) fun x hx => hno x (List.mem_cons_of_mem _ hx)]
      cases l with
      | nil => rfl
      | cons y l =>
          have hlast := List.getLast?_eq_some_getLast (List.cons_ne_nil y l)
          rw [List.getLast?_cons_cons, hlast]
          rfl

/-- A search of the chain of a key. -/
inductive Search (fuel : Nat) (m : State α K V) (xss : List (List (α × HashNode K V)))
    (key : K) (first : Option α) : Prop where
  | absent {xs : List (α × HashNode K V)} (chain : xss[m.index key]? = some xs)
      (search : seek m.heap m.keyEqFunc key fuel none first = .ok none)
      (findNode : (m.toHashMap xss).findNode key = none)
  | present {l xs : List (α × HashNode K V)} {a : α} {node : HashNode K V} {next : Option α}
      (chain : xss[m.index key]? = some (l ++ (a, node) :: xs))
      (before : ∀ x ∈ l, m.keyEqFunc x.2.key key = false)
      (equal : m.keyEqFunc node.key key = true)
      (search : seek m.heap m.keyEqFunc key fuel none first =
        .ok (some (l.getLast?.map Prod.fst, a)))
      (cell : m.heap a = some { data := node, next := next })
      (findNode : (m.toHashMap xss).findNode key = some node)

theorem Shape.shaped (h : Shape m xss) : (m.toHashMap xss).Shaped where
  buckets_length := by
    show (contents xss).length = m.capacity
    rw [contents, List.length_map, ← h.table.length, h.buckets_length]
  capacity_pos := h.capacity_pos

theorem Shape.search (h : Shape m xss) (hfuel : m.size ≤ fuel) (key : K) :
    ∃ first, m.buckets[m.index key]? = some first ∧ Search fuel m xss key first := by
  have hi : m.index key < xss.length := by
    rw [← h.table.length, h.buckets_length]
    exact Nat.mod_lt _ h.capacity_pos
  obtain ⟨xs, hx⟩ : ∃ xs, xss[m.index key]? = some xs := ⟨_, List.getElem?_eq_getElem hi⟩
  obtain ⟨first, hfirst, hchain⟩ := h.table.pointer hx
  refine ⟨first, hfirst, ?_⟩
  have hlength : xs.length ≤ fuel := by
    have hall := length_set hx []
    simp only [List.length_nil] at hall
    have hsize := h.size
    omega
  -- the chain of the map of lists is this chain without its addresses
  have hlist : (m.toHashMap xss).chain key = xs.map Prod.snd := by
    have hget := h.shaped.chain_getElem key
    rw [show (m.toHashMap xss).buckets[(m.toHashMap xss).index key]? = _ from
      contents_getElem hx, Option.some.injEq] at hget
    exact hget.symm
  have hfind : (m.toHashMap xss).findNode key =
      (xs.find? fun x => m.keyEqFunc x.2.key key).map Prod.snd := by
    rw [HashMap.findNode, hlist, List.find?_map]
    rfl
  cases hf : xs.find? fun x => m.keyEqFunc x.2.key key with
  | none =>
      rw [hf] at hfind
      refine .absent hx (seek_none hchain hlength ?_) hfind
      intro x hxs
      simpa using List.find?_eq_none.mp hf x hxs
  | some x =>
      obtain ⟨a, node⟩ := x
      obtain ⟨heq, l, r, rfl, hbefore⟩ := List.find?_eq_some_iff_append.mp hf
      obtain ⟨next, hcell, _⟩ := hchain.cell
      have hno : ∀ x ∈ l, m.keyEqFunc x.2.key key = false := by
        intro x hxl
        simpa using hbefore x hxl
      have hbound : l.length < fuel := by simp at hlength; omega
      have hseek : seek m.heap m.keyEqFunc key fuel none first =
          .ok (some (l.getLast?.map Prod.fst, a)) := by
        rw [seek_some hchain hbound hno heq, Option.or_none]
      rw [hf] at hfind
      exact .present hx hno heq hseek hcell hfind

end Reading

/-! ## Growing -/

section Growing

variable {heap : Heap α (HashNode K V)} {p : Option α} {xs : List (α × HashNode K V)}
  {ps nb : List (Option α)} {xss yss : List (List (α × HashNode K V))} {newCap fuel : Nat}

/-- What the moves of a rehash leave: the chains not yet visited, the new chains, and the dead
addresses dead. -/
structure Moved (heap heap' : Heap α (HashNode K V)) (ps nb : List (Option α))
    (xss yss : List (List (α × HashNode K V))) (newCap : Nat)
    (lists : List (List (HashNode K V))) : Prop where
  table : Table heap' (ps ++ nb) (xss ++ yss)
  length : nb.length = newCap
  contents : contents yss = lists
  dead : ∀ a, heap a = none → heap' a = none

theorem rehashChain_spec (hashFunc : K → UInt64) (hcap : 0 < newCap)
    (ht : Table heap (p :: (ps ++ nb)) (xs :: (xss ++ yss))) (hlen : ps.length = xss.length)
    (hnb : nb.length = newCap) (hfuel : xs.length ≤ fuel) :
    ∃ heap' nb' yss', rehashChain hashFunc newCap fuel p (heap, nb) = .ok (heap', nb') ∧
      Moved heap heap' ps nb' xss yss' newCap
        ((xs.map Prod.snd).foldl (HashMap.relink hashFunc newCap) (contents yss)) := by
  induction xs generalizing heap p nb yss fuel with
  | nil =>
      have hchain := ht.chain (i := 0) rfl rfl
      obtain rfl := hchain.start_eq_none_iff.mpr rfl
      exact ⟨heap, nb, yss, by cases fuel <;> rfl, ht.drop_empty, hnb, rfl, fun _ ha => ha⟩
  | cons x xs ih =>
      obtain ⟨a, node⟩ := x
      obtain ⟨fuel, rfl⟩ : ∃ n, fuel = n + 1 := ⟨fuel - 1, by simp at hfuel; omega⟩
      obtain ⟨rfl, next, hcell, _⟩ := (ht.chain (i := 0) rfl rfl).first
      have hyss : yss.length = newCap := by
        have := ht.length
        simp only [List.length_cons, List.length_append] at this
        omega
      -- the bucket of the node in the new array
      generalize hidx : (hashFunc node.key).toNat % newCap = idx
      have hlt : idx < newCap := hidx ▸ Nat.mod_lt _ hcap
      obtain ⟨first, hfirst⟩ : ∃ first, nb[idx]? = some first :=
        ⟨_, List.getElem?_eq_getElem (hnb.symm ▸ hlt)⟩
      obtain ⟨ys, hys⟩ : ∃ ys, yss[idx]? = some ys :=
        ⟨_, List.getElem?_eq_getElem (hyss.symm ▸ hlt)⟩
      have hp : (ps ++ nb)[ps.length + idx]? = some first := by
        rw [List.getElem?_append_right (Nat.le_add_right ..), Nat.add_sub_cancel_left, hfirst]
      have hx : (xss ++ yss)[ps.length + idx]? = some ys := by
        rw [hlen, List.getElem?_append_right (Nat.le_add_right ..), Nat.add_sub_cancel_left, hys]
      have hmove := ht.move hp hx hcell
      rw [List.set_append_right _ _ (Nat.le_add_right ..), Nat.add_sub_cancel_left, hlen,
        List.set_append_right _ _ (Nat.le_add_right ..), Nat.add_sub_cancel_left] at hmove
      obtain ⟨heap', nb', yss', hrun, hmoved⟩ := ih hmove (by rw [List.length_set, hnb])
        (by simpa using hfuel)
      refine ⟨heap', nb', yss', ?_, hmoved.table, hmoved.length, ?_, ?_⟩
      · rw [rehashChain, load_eq hcell]
        simp only [bind, Except.bind, hidx, bucket_eq hfirst]
        exact hrun
      · rw [hmoved.contents, List.map_cons, List.foldl_cons, HashMap.relink, hidx]
        rw [contents_modify hys (show _ = ((a, node) :: ys).map Prod.snd from rfl)]
      · intro b hb
        refine hmoved.dead b ((store_ne _ _ ?_).trans hb)
        rintro rfl
        rw [hcell] at hb
        cases hb

theorem rehashLoop_spec (hashFunc : K → UInt64) (hcap : 0 < newCap) {buckets : List (Option α)}
    {i : Nat} (hdrop : buckets.drop i = ps) (ht : Table heap (ps ++ nb) (xss ++ yss))
    (hlen : ps.length = xss.length) (hnb : nb.length = newCap)
    (hfuel : xss.flatten.length ≤ fuel) :
    ∃ heap' nb' yss', rehashLoop hashFunc newCap fuel buckets ps.length i (heap, nb) =
        .ok (heap', nb') ∧
      Moved heap heap' [] nb' [] yss' newCap ((contents xss).foldl
        (fun nb ch => ch.foldl (HashMap.relink hashFunc newCap) nb) (contents yss)) := by
  induction xss generalizing heap ps nb yss i with
  | nil =>
      obtain rfl := List.eq_nil_of_length_eq_zero hlen
      exact ⟨heap, nb, yss, rfl, ht, hnb, rfl, fun _ ha => ha⟩
  | cons xs xss ih =>
      cases ps with
      | nil => cases hlen
      | cons p ps =>
          simp only [List.length_cons, Nat.add_right_cancel_iff] at hlen
          rw [List.flatten_cons, List.length_append] at hfuel
          have hp : buckets[i]? = some p := by
            rw [← List.head?_drop, hdrop]
            rfl
          have hrest : buckets.drop (i + 1) = ps := by
            rw [← List.tail_drop, hdrop]
            rfl
          obtain ⟨heap₁, nb₁, yss₁, hchain, hmoved₁⟩ :=
            rehashChain_spec hashFunc hcap ht hlen hnb (show _ ≤ fuel by omega)
          obtain ⟨heap', nb', yss', hloop, hmoved⟩ :=
            ih hrest hmoved₁.table hlen hmoved₁.length (by omega)
          refine ⟨heap', nb', yss', ?_, hmoved.table, hmoved.length, ?_, ?_⟩
          · rw [List.length_cons, rehashLoop, bucket_eq hp]
            simp only [bind, Except.bind, hchain]
            exact hloop
          · rw [hmoved.contents, hmoved₁.contents]
            rfl
          · exact fun a ha => hmoved.dead a (hmoved₁.dead a ha)

variable {m : State α K V}

/-- `resize_if_needed` moves the nodes to where the map of lists has them. -/
theorem Shape.resizeIfNeeded (h : Shape m xss) (hfuel : m.size ≤ fuel) (ok : Bool) :
    (resizeIfNeeded fuel m ok = .ok none ∧ (m.toHashMap xss).resizeIfNeeded ok = none) ∨
    ∃ m' xss', resizeIfNeeded fuel m ok = .ok (some m') ∧ Shape m' xss' ∧
      (m.toHashMap xss).resizeIfNeeded ok = some (m'.toHashMap xss') ∧ m'.size = m.size ∧
      ∀ a, m.heap a = none → m'.heap a = none := by
  have hfits : (m.toHashMap xss).fits = m.fits := rfl
  rw [LinkedHashMap.resizeIfNeeded, HashMap.resizeIfNeeded, HashMap.resizeWhen, hfits]
  cases hf : m.fits with
  | true => exact Or.inr ⟨m, xss, rfl, h, rfl, rfl, fun _ ha => ha⟩
  | false =>
      cases ok with
      | false => exact Or.inl ⟨rfl, rfl⟩
      | true =>
          have hcap : 0 < m.capacity * 2 := Nat.mul_pos h.capacity_pos two_pos
          have hloop := rehashLoop_spec m.hashFunc hcap List.drop_zero
            (h.table.append_empty (m.capacity * 2)) h.table.length List.length_replicate
            (show _ ≤ fuel from h.size ▸ hfuel)
          obtain ⟨heap', nb', yss', hrun, hmoved⟩ := hloop
          rw [h.buckets_length] at hrun
          have hcontents : contents yss' =
              HashMap.rehash m.hashFunc (m.capacity * 2) (contents xss) := by
            rw [hmoved.contents, HashMap.rehash, contents, contents, List.map_replicate]
            rfl
          have hsize : m.size = yss'.flatten.length := by
            rw [h.size, ← contents_length xss, ← contents_length yss', hcontents]
            exact (HashMap.rehash_spec m.hashFunc hcap (contents xss)).2.2.length_eq.symm
          refine Or.inr ⟨{ m with heap := heap', buckets := nb', capacity := m.capacity * 2 }, yss',
            ?_, ⟨hmoved.table, hmoved.length, hcap, hsize⟩, ?_, rfl, hmoved.dead⟩
          · simp only [Bool.false_eq_true, if_false, if_true, bind, Except.bind, hrun]
            rfl
          · simp only [Bool.false_eq_true, if_false, if_true, State.toHashMap, hcontents]

end Growing

/-! ## The operations -/

section Operations

variable {m : State α K V} {xss : List (List (α × HashNode K V))} {fuel : Nat}

/-- What a put is in the map of lists. -/
def Result.toPut (r : Result α K V Int) (xss : List (List (α × HashNode K V))) :
    PutResult K V where
  map := r.map.toHashMap xss
  ret := r.ret
  freedKeys := r.freedKeys
  freedValues := r.freedValues

/-- What a removal is in the map of lists. -/
def Result.toRemove (r : Result α K V Bool) (xss : List (List (α × HashNode K V))) :
    RemoveResult K V where
  map := r.map.toHashMap xss
  ret := r.ret
  freedKeys := r.freedKeys
  freedValues := r.freedValues

omit [DecidableEq α] in
theorem toHashMap_set {i : Nat} {xs ys : List (α × HashNode K V)} (hx : xss[i]? = some xs)
    {f : List (HashNode K V) → List (HashNode K V)} (hf : f (xs.map Prod.snd) = ys.map Prod.snd)
    (heap : Heap α (HashNode K V)) (buckets : List (Option α)) (size : Nat) :
    State.toHashMap { m with heap := heap, buckets := buckets, size := size } (xss.set i ys) =
      { m.toHashMap xss with buckets := (contents xss).modify i f, size := size } := by
  rw [contents_modify hx hf]
  rfl

omit [DecidableEq α] in
/-- One chain of the table is exchanged, and `size` follows it. -/
theorem Shape.set (h : Shape m xss) {heap : Heap α (HashNode K V)} {buckets : List (Option α)}
    {i : Nat} {xs ys : List (α × HashNode K V)} {size : Nat} (hx : xss[i]? = some xs)
    (ht : Table heap buckets (xss.set i ys)) (hsize : size + xs.length = m.size + ys.length) :
    Shape { m with heap := heap, buckets := buckets, size := size } (xss.set i ys) where
  table := ht
  buckets_length := by
    have hlength := ht.length
    rw [List.length_set, ← h.table.length] at hlength
    exact hlength.trans h.buckets_length
  capacity_pos := h.capacity_pos
  size := by
    have hflat := length_set hx ys
    have hold := h.size
    show size = _
    omega

/-- The rest of a put overwrites, links a new node in front, or fails. -/
theorem Shape.putResized (h : Shape m xss) (hfuel : m.size ≤ fuel) (key : K) (value : Option V)
    (newNode : Option α) (hnew : ∀ a, newNode = some a → m.heap a = none) :
    ∃ r xss', putResized fuel m key value newNode = .ok r ∧ Shape r.map xss' ∧
      r.map.size ≤ m.size + 1 ∧
      ∀ (M : HashMap K V) (alloc : PutAlloc),
        M.resizeIfNeeded alloc.newBuckets = some (m.toHashMap xss) →
        alloc.newNode = newNode.isSome → M.put key value alloc = r.toPut xss' := by
  obtain ⟨first, hfirst, hsearch⟩ := h.search hfuel key
  simp only [LinkedHashMap.putResized, bucket_eq hfirst, bind, Except.bind]
  cases hsearch with
  | absent chain search findNode =>
      rw [search]
      cases newNode with
      | none =>
          refine ⟨_, xss, rfl, h, Nat.le_succ _, ?_⟩
          intro M alloc hresize hnode
          simp only [Option.isSome_none] at hnode
          simp [HashMap.put, HashMap.putResized, hresize, findNode, hnode, Result.toPut]
      | some a =>
          have htable := h.table.push hfirst chain (hnew a rfl) ⟨key, value⟩
          refine ⟨_, _, rfl, h.set chain htable (by simp; omega), Nat.le_refl _, ?_⟩
          intro M alloc hresize hnode
          simp only [Option.isSome_some] at hnode
          rw [Result.toPut, toHashMap_set chain (f := (⟨key, value⟩ :: ·)) rfl]
          simp only [HashMap.put, HashMap.putResized, hresize, findNode, hnode, if_true]
          rfl
  | @present l xs a node next chain before equal search cell findNode =>
      rw [search]
      simp only [load_eq cell]
      have htable := h.table.setData chain cell { node with value := value }
      refine ⟨_, _, rfl, h.set chain htable (by simp), Nat.le_succ _, ?_⟩
      intro M alloc hresize _
      have hno : ∀ n ∈ l.map Prod.snd, (!m.keyEqFunc n.key key) = true := by
        intro n hn
        obtain ⟨x, hx, rfl⟩ := List.mem_map.mp hn
        rw [before x hx]
        rfl
      have hover : HashMap.overwrite m.keyEqFunc key value
          ((l ++ (a, node) :: xs).map Prod.snd) =
          (l ++ (a, { node with value := value }) :: xs).map Prod.snd := by
        rw [List.map_append, List.map_append, List.map_cons, List.map_cons,
          HashMap.overwrite_append m.keyEqFunc equal value _ hno]
      rw [Result.toPut, toHashMap_set chain hover]
      simp only [HashMap.put, HashMap.putResized, hresize, findNode]
      rfl

/-- A put follows no dangling pointer and does what it does to lists. -/
theorem Shape.put (h : Shape m xss) (hfuel : m.size ≤ fuel) (key : Option K) (value : Option V)
    (newBuckets : Bool) (newNode : Option α)
    (hnew : ∀ a, newNode = some a → m.heap a = none) :
    ∃ r xss', hashmapPut fuel m key value newBuckets newNode = .ok r ∧ Shape r.map xss' ∧
      r.map.size ≤ m.size + 1 ∧ (m.toHashMap xss).putChecked key value
        { newBuckets := newBuckets, newNode := newNode.isSome } = r.toPut xss' := by
  cases key with
  | none => exact ⟨_, xss, rfl, h, Nat.le_succ _, rfl⟩
  | some key =>
      simp only [hashmapPut, HashMap.putChecked]
      rcases h.resizeIfNeeded hfuel newBuckets with ⟨hrun, hresize⟩ |
        ⟨m', xss', hrun, h', hresize, hsize, hdead⟩
      · refine ⟨_, xss, by rw [hrun]; rfl, h, Nat.le_succ _, ?_⟩
        simp [HashMap.put, HashMap.putResized, hresize, Result.toPut]
      · obtain ⟨r, xss'', hput, h'', hle, hagree⟩ := h'.putResized (hsize ▸ hfuel) key value newNode
          fun a ha => hdead a (hnew a ha)
        refine ⟨r, xss'', by rw [hrun]; exact hput, h'', hsize ▸ hle, ?_⟩
        exact hagree _ _ hresize rfl

omit [DecidableEq α] in
theorem Shape.get (h : Shape m xss) (hfuel : m.size ≤ fuel) (key : Option K) :
    hashmapGet fuel m key = .ok ((m.toHashMap xss).getChecked key) := by
  cases key with
  | none => rfl
  | some key =>
      obtain ⟨first, hfirst, hsearch⟩ := h.search hfuel key
      simp only [hashmapGet, bucket_eq hfirst, bind, Except.bind]
      cases hsearch with
      | absent _ search findNode =>
          rw [search, HashMap.getChecked, Option.bind_some, HashMap.get, findNode]
          rfl
      | present _ _ _ search cell findNode =>
          rw [search, HashMap.getChecked, Option.bind_some, HashMap.get, findNode]
          simp only [load_eq cell]
          rfl

/-- The node is bypassed from the node before it or from the array, and freed. -/
theorem Shape.bypass (h : Shape m xss) {i : Nat} {l xs : List (α × HashNode K V)} {a : α}
    {node : HashNode K V} {next : Option α} (chain : xss[i]? = some (l ++ (a, node) :: xs))
    (cell : m.heap a = some { data := node, next := next }) :
    ∃ heap buckets, bypass m i (l.getLast?.map Prod.fst) next =
        .ok { m with heap := heap, buckets := buckets } ∧
      Table (heap.free a) buckets (xss.set i (l ++ xs)) := by
  rcases List.eq_nil_or_concat l with rfl | ⟨l, ⟨b, other⟩, rfl⟩
  · exact ⟨m.heap, _, rfl, h.table.unlink_first chain cell⟩
  · rw [List.concat_eq_append, List.append_assoc, List.singleton_append] at *
    obtain ⟨p, _, hchain⟩ := h.table.pointer chain
    obtain ⟨next', hprev, _⟩ := hchain.cell
    refine ⟨_, m.buckets, ?_, h.table.unlink_next chain cell⟩
    rw [List.getLast?_concat, Option.map_some, LinkedHashMap.bypass, load_eq hprev]
    rfl

/-- A removal takes the node out wherever it stands in its chain. -/
theorem Shape.remove (h : Shape m xss) (hfuel : m.size ≤ fuel) (key : Option K) :
    ∃ r xss', hashmapRemove fuel m key = .ok r ∧ Shape r.map xss' ∧ r.map.size ≤ m.size ∧
      (m.toHashMap xss).removeChecked key = r.toRemove xss' := by
  cases key with
  | none => exact ⟨_, xss, rfl, h, Nat.le_refl _, rfl⟩
  | some key =>
      obtain ⟨first, hfirst, hsearch⟩ := h.search hfuel key
      simp only [hashmapRemove, bucket_eq hfirst, bind, Except.bind, HashMap.removeChecked]
      cases hsearch with
      | absent _ search findNode =>
          rw [search]
          refine ⟨_, xss, rfl, h, Nat.le_refl _, ?_⟩
          rw [HashMap.remove, findNode]
          rfl
      | @present l xs a node next chain before equal search cell findNode =>
          rw [search]
          obtain ⟨heap, buckets, hbypass, htable⟩ := h.bypass chain cell
          simp only [load_eq cell, hbypass]
          -- the node that goes is counted
          have hpos : 0 < m.size := by
            have hall := length_set chain []
            have hsize := h.size
            simp only [List.length_append, List.length_cons, List.length_nil] at hall
            omega
          refine ⟨_, _, rfl, h.set chain htable ?_, Nat.sub_le .., ?_⟩
          · simp only [List.length_append, List.length_cons]
            omega
          · have hno : ∀ n ∈ l.map Prod.snd, ¬ m.keyEqFunc n.key key = true := by
              intro n hn
              obtain ⟨x, hx, rfl⟩ := List.mem_map.mp hn
              simp [before x hx]
            have herase : ((l ++ (a, node) :: xs).map Prod.snd).eraseP
                (fun n => m.keyEqFunc n.key key) = (l ++ xs).map Prod.snd := by
              rw [List.map_append, List.map_append, List.map_cons,
                List.eraseP_append_right _ hno]
              simp only [List.eraseP_cons, equal, cond_true]
            rw [Result.toRemove, toHashMap_set chain herase, HashMap.remove, findNode]
            rfl

end Operations

/-! ## Sequences of calls -/

section Runs

variable {m : State α K V} {xss : List (List (α × HashNode K V))} {fuel : Nat}

/-- A call returns, frees and leaves what it does with lists, and adds one node at most. -/
theorem call_spec (h : Shape m xss) (hfuel : m.size ≤ fuel) (c : Call α K V)
    (hc : c.Possible m) :
    ∃ m' xss', call fuel m c = .ok ((m.toHashMap xss).answer c.owner, m') ∧ Shape m' xss' ∧
      m'.size ≤ m.size + 1 ∧ m'.toHashMap xss' = ((m.toHashMap xss).traced c.owner).1 := by
  cases c with
  | put key value newBuckets newNode =>
      have hnew : ∀ a, newNode = some a → m.heap a = none := by
        rintro a rfl
        exact hc
      obtain ⟨r, xss', hrun, h', hle, hagree⟩ := h.put hfuel key value newBuckets newNode hnew
      refine ⟨r.map, xss', ?_, h', hle, ?_⟩
      · rw [call, hrun, Call.owner, HashMap.answer, hagree]
        rfl
      · cases key with
        | none => exact (congrArg PutResult.map hagree).symm
        | some key => exact (congrArg PutResult.map hagree).symm
  | get key =>
      refine ⟨m, xss, ?_, h, Nat.le_succ _, by cases key <;> rfl⟩
      rw [call, h.get hfuel]
      rfl
  | remove key =>
      obtain ⟨r, xss', hrun, h', hle, hagree⟩ := h.remove hfuel key
      refine ⟨r.map, xss', ?_, h', Nat.le_succ_of_le hle, ?_⟩
      · rw [call, hrun, Call.owner, HashMap.answer, hagree]
        rfl
      · cases key with
        | none => exact (congrArg RemoveResult.map hagree).symm
        | some key => exact (congrArg RemoveResult.map hagree).symm

theorem calls_spec (cs : List (Call α K V)) (h : Shape m xss) (hfuel : m.size + cs.length ≤ fuel)
    (hcs : Possible fuel m cs) :
    ∃ m' xss', calls fuel m cs = .ok ((m.toHashMap xss).answers (cs.map Call.owner), m') ∧
      Shape m' xss' ∧ m'.size ≤ m.size + cs.length ∧
      m'.toHashMap xss' = (m.toHashMap xss).tracedMap (cs.map Call.owner) := by
  induction cs generalizing m xss with
  | nil => exact ⟨m, xss, rfl, h, Nat.le_refl _, rfl⟩
  | cons c cs ih =>
      rw [List.length_cons] at hfuel
      obtain ⟨m₁, xss₁, hcall, h₁, hle₁, hmap₁⟩ := call_spec h (show _ ≤ fuel by omega) c hcs.1
      obtain ⟨m', xss', hcalls, h', hle, hmap⟩ := ih h₁ (by omega) (hcs.2 _ _ hcall)
      refine ⟨m', xss', ?_, h', by rw [List.length_cons]; omega, ?_⟩
      · rw [calls, hcall]
        simp only [bind, Except.bind, hcalls, hmap₁]
        rfl
      · rw [hmap, hmap₁]
        rfl

/-! ## Destroying -/

/-- The loop frees the nodes of its chain one after another. -/
theorem destroyChain_spec (freeKeyFunc freeValueFunc : Bool) {d : Destroyed α K V}
    {p : Option α} {ps : List (Option α)} {xs : List (α × HashNode K V)}
    (ht : Table d.heap (p :: ps) (xs :: xss)) (hfuel : xs.length ≤ fuel) :
    ∃ d', destroyChain freeKeyFunc freeValueFunc fuel p d = .ok d' ∧ Table d'.heap ps xss ∧
      d'.nodes = d.nodes ++ addresses xs ∧
      d'.freedKeys = d.freedKeys ++
        (if freeKeyFunc then (xs.map Prod.snd).map HashNode.key else []) ∧
      d'.freedValues = d.freedValues ++
        (if freeValueFunc then (xs.map Prod.snd).map HashNode.value else []) := by
  induction xs generalizing d p fuel with
  | nil =>
      have hchain := ht.chain (i := 0) rfl rfl
      obtain rfl := hchain.start_eq_none_iff.mpr rfl
      exact ⟨d, by cases fuel <;> rfl, ht.drop_empty, by simp, by simp, by simp⟩
  | cons x xs ih =>
      obtain ⟨a, node⟩ := x
      obtain ⟨fuel, rfl⟩ : ∃ n, fuel = n + 1 := ⟨fuel - 1, by simp at hfuel; omega⟩
      obtain ⟨rfl, next, hcell, _⟩ := (ht.chain (i := 0) rfl rfl).first
      have hrest : Table (d.heap.free a) (next :: ps) (xs :: xss) :=
        ht.unlink_first (i := 0) rfl hcell
      obtain ⟨d', hrun, htable, hnodes, hkeys, hvalues⟩ := @ih fuel
        { freedKeys := d.freedKeys ++ if freeKeyFunc then [node.key] else []
          freedValues := d.freedValues ++ if freeValueFunc then [node.value] else []
          nodes := d.nodes ++ [a]
          heap := d.heap.free a } next hrest (by simpa using hfuel)
      refine ⟨d', ?_, htable, ?_, ?_, ?_⟩
      · rw [destroyChain, load_eq hcell]
        exact hrun
      · simp [hnodes]
      · cases freeKeyFunc <;> simp [hkeys]
      · cases freeValueFunc <;> simp [hvalues]

theorem destroyLoop_spec (freeKeyFunc freeValueFunc : Bool) {buckets ps : List (Option α)}
    {d : Destroyed α K V} {i : Nat} (hdrop : buckets.drop i = ps) (ht : Table d.heap ps xss)
    (hfuel : xss.flatten.length ≤ fuel) :
    ∃ d', destroyLoop freeKeyFunc freeValueFunc fuel buckets ps.length i d = .ok d' ∧
      Table d'.heap [] [] ∧ d'.nodes = d.nodes ++ addresses xss.flatten ∧
      d'.freedKeys = d.freedKeys ++
        (if freeKeyFunc then (contents xss).flatten.map HashNode.key else []) ∧
      d'.freedValues = d.freedValues ++
        (if freeValueFunc then (contents xss).flatten.map HashNode.value else []) := by
  induction xss generalizing d ps i with
  | nil =>
      obtain rfl := List.eq_nil_of_length_eq_zero ht.length
      exact ⟨d, rfl, ht, by simp, by simp [contents], by simp [contents]⟩
  | cons xs xss ih =>
      cases ps with
      | nil => cases ht.length
      | cons p ps =>
          rw [List.flatten_cons, List.length_append] at hfuel
          have hp : buckets[i]? = some p := by
            rw [← List.head?_drop, hdrop]
            rfl
          have hrest : buckets.drop (i + 1) = ps := by
            rw [← List.tail_drop, hdrop]
            rfl
          obtain ⟨d₁, hchain, htable₁, hnodes₁, hkeys₁, hvalues₁⟩ :=
            destroyChain_spec freeKeyFunc freeValueFunc ht (show _ ≤ fuel by omega)
          obtain ⟨d', hloop, htable, hnodes, hkeys, hvalues⟩ := ih hrest htable₁ (by omega)
          refine ⟨d', ?_, htable, ?_, ?_, ?_⟩
          · rw [List.length_cons, destroyLoop, bucket_eq hp]
            simp only [bind, Except.bind, hchain]
            exact hloop
          · simp [hnodes, hnodes₁]
          · cases freeKeyFunc <;> simp [hkeys, hkeys₁, contents]
          · cases freeValueFunc <;> simp [hvalues, hvalues₁, contents]

theorem Shape.destroy (h : Shape m xss) (hfuel : m.size ≤ fuel) :
    ∃ d, hashmapDestroy fuel m = .ok d ∧ d.nodes = addresses xss.flatten ∧
      (∀ a, d.heap a = none) ∧ d.freedKeys = (m.toHashMap xss).destroy.freedKeys ∧
      d.freedValues = (m.toHashMap xss).destroy.freedValues := by
  obtain ⟨d, hrun, htable, hnodes, hkeys, hvalues⟩ :=
    destroyLoop_spec m.freeKeyFunc m.freeValueFunc List.drop_zero
      (show Table ({ heap := m.heap } : Destroyed α K V).heap m.buckets xss from h.table)
      (show _ ≤ fuel from h.size ▸ hfuel)
  rw [h.buckets_length] at hrun
  have htake : (contents xss).take m.capacity = contents xss := by
    have hlength : (contents xss).length = m.capacity := h.shaped.buckets_length
    rw [← hlength, List.take_length]
  refine ⟨d, hrun, by simpa using hnodes, ?_, ?_, ?_⟩
  · intro a
    rw [← Option.not_isSome_iff_eq_none, htable.live]
    rintro ⟨i, xs, hx, _⟩
    cases hx
  · rw [hkeys, HashMap.destroy, State.toHashMap, htake]
    rfl
  · rw [hvalues, HashMap.destroy, State.toHashMap, htake]
    rfl

end Runs

/-! ## The refinement -/

omit [DecidableEq α] in
theorem hashmapCreate_shape {capacity : Nat} {hash : K → UInt64} {eq : K → K → Bool}
    {freeKey freeValue : Bool} {m₀ : State α K V}
    (hm₀ : hashmapCreate capacity hash eq freeKey freeValue = some m₀) :
    ∃ xss, Shape m₀ xss ∧ m₀.size = 0 ∧
      DataPropagator.hashmapCreate capacity hash eq freeKey freeValue = some (m₀.toHashMap xss) := by
  rw [hashmapCreate] at hm₀
  split at hm₀
  next => cases hm₀
  next hcapacity =>
      cases hm₀
      have hcontents : contents (List.replicate capacity ([] : List (α × HashNode K V))) =
          List.replicate capacity [] := by
        rw [contents, List.map_replicate]
        rfl
      refine ⟨List.replicate capacity [], ⟨Table.empty capacity, List.length_replicate,
        Nat.pos_of_ne_zero hcapacity, by simp⟩, rfl, ?_⟩
      rw [DataPropagator.hashmapCreate, if_neg hcapacity, State.toHashMap, hcontents]

/-- For every sequence of calls from `hashmap_create`, with any hash function, any key equality and
whatever the allocations return: no call follows a dangling pointer or leaves the array, and the
results are those of the map of lists.  The array starts disjoint chains of nodes that hold exactly
the live nodes, `size` many, and the map of lists can be read off them.  `hashmap_destroy` then
frees each node once, passes to the callbacks what the map of lists does, and leaves no node. -/
theorem nodes_refine_lists {capacity : Nat} {hash : K → UInt64} {eq : K → K → Bool}
    {freeKey freeValue : Bool} {m₀ : State α K V}
    (hm₀ : hashmapCreate capacity hash eq freeKey freeValue = some m₀) (cs : List (Call α K V))
    {fuel : Nat} (hfuel : cs.length ≤ fuel) (hcs : Possible fuel m₀ cs) :
    ∃ (M₀ : HashMap K V) (m : State α K V) (xss : List (List (α × HashNode K V))),
      DataPropagator.hashmapCreate capacity hash eq freeKey freeValue = some M₀ ∧
      calls fuel m₀ cs = .ok (M₀.answers (cs.map Call.owner), m) ∧
      m.buckets.length = m.capacity ∧ xss.length = m.capacity ∧
      (∀ (i : Nat) p xs, m.buckets[i]? = some p → xss[i]? = some xs → Chain m.heap p xs) ∧
      (addresses xss.flatten).Nodup ∧ (∀ a, (m.heap a).isSome ↔ a ∈ addresses xss.flatten) ∧
      m.size = xss.flatten.length ∧
      m.toHashMap xss = M₀.tracedMap (cs.map Call.owner) ∧
      ∃ d, hashmapDestroy fuel m = .ok d ∧ d.nodes = addresses xss.flatten ∧
        (∀ a, d.heap a = none) ∧
        d.freedKeys = (M₀.tracedMap (cs.map Call.owner)).destroy.freedKeys ∧
        d.freedValues = (M₀.tracedMap (cs.map Call.owner)).destroy.freedValues := by
  obtain ⟨xss₀, h₀, hsize₀, hcreate⟩ := hashmapCreate_shape hm₀
  obtain ⟨m, xss, hcalls, h, hle, hmap⟩ := calls_spec cs h₀ (by omega) hcs
  obtain ⟨d, hdestroy, hnodes, hheap, hkeys, hvalues⟩ := h.destroy (show _ ≤ fuel by omega)
  rw [hmap] at hkeys hvalues
  refine ⟨_, m, xss, hcreate, hcalls, h.buckets_length, ?_, ?_, h.table.nodup, h.table.live_iff,
    h.size, hmap, d, hdestroy, hnodes, hheap, hkeys, hvalues⟩
  · rw [← h.table.length, h.buckets_length]
  · exact fun _ _ _ hp hx => h.table.chain hp hx

theorem possible_cons {m m' : State α K V} {c : Call α K V} {cs : List (Call α K V)} {fuel : Nat}
    {result : CallResult K V} (hc : c.Possible m) (hcall : call fuel m c = .ok (result, m'))
    (hcs : Possible fuel m' cs) : Possible fuel m (c :: cs) := by
  refine ⟨hc, ?_⟩
  intro result' m'' hcall'
  rw [hcall] at hcall'
  cases hcall'
  exact hcs

/-- All keys collide.  The array grows twice, a node is taken out of the middle of its chain, its
address is given out again, and one value is overwritten. -/
def sampleCalls : List (Call Nat Nat Nat) :=
  [.put (some 1) (some 10) true (some 100), .put (some 2) (some 20) true (some 101),
    .put (some 3) none true (some 102), .remove (some 2),
    .put (some 4) (some 40) true (some 101), .put (some 1) (some 11) true none, .get (some 1)]

theorem nodes_refine_lists_sample :
    ∃ m₀ : State Nat Nat Nat, hashmapCreate 1 (fun _ => 7) (· == ·) true true = some m₀ ∧
      ∃ (M₀ : HashMap Nat Nat) (m : State Nat Nat Nat) (xss : List (List (Nat × HashNode Nat Nat))),
        DataPropagator.hashmapCreate 1 (fun _ => 7) (· == ·) true true = some M₀ ∧
        calls 7 m₀ sampleCalls = .ok (M₀.answers (sampleCalls.map Call.owner), m) ∧
        m.size = xss.flatten.length ∧
        m.toHashMap xss = M₀.tracedMap (sampleCalls.map Call.owner) := by
  have hcs : ∀ m₀ : State Nat Nat Nat, hashmapCreate 1 (fun _ => 7) (· == ·) true true = some m₀ →
      Possible 7 m₀ sampleCalls := by
    rintro m₀ hm₀
    cases hm₀
    exact possible_cons rfl rfl (possible_cons rfl rfl (possible_cons rfl rfl
      (possible_cons trivial rfl (possible_cons rfl rfl (possible_cons trivial rfl
        (possible_cons trivial rfl trivial))))))
  have hm₀ : hashmapCreate 1 (fun _ : Nat => (7 : UInt64)) (· == ·) true true =
      some (_ : State Nat Nat Nat) := rfl
  obtain ⟨M₀, m, xss, hM₀, hcalls, _, _, _, _, _, hsize, hmap, _⟩ :=
    nodes_refine_lists hm₀ sampleCalls (Nat.le_refl 7) (hcs _ hm₀)
  exact ⟨_, hm₀, M₀, m, xss, hM₀, hcalls, hsize, hmap⟩

end LinkedHashMap

end DataPropagator
