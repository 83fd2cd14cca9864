import DataPropagator.Common.PropagatorConnections
import DataPropagator.Lib.Ledger
import DataPropagator.Lib.Machine

/-!
# The pool over calls

Any sequence of calls of `get_or_create_connection` and `close_connection`.  Each call is
one step, since it holds `conn_mutex` from its first step to its last.  What holds of the
map and of the open sockets in every reachable state is `Connections.Pooled`.  Here it is
read off the nodes of the map, and what a call asks for is checked at every exit: the
ledger of its memory, and the critical section.
-/

namespace DataPropagator

open KeyMap (LawfulKey)

/-! ## Runs -/

/-- A call with the outcomes of what it asks for. -/
inductive ConnectionCall where
  | getOrCreate (key : ConnectionKey) (env : ConnectEnv)
  | close (key : ConnectionKey)

/-- What a call leaves.  A handle that `socket` returns was not open. -/
def Connections.call (c : Connections) : ConnectionCall → Option Connections
  | .getOrCreate key env => (c.getOrCreate key env).map Prod.fst
  | .close key => some (c.close key).1

variable {c c' : Connections} {key : ConnectionKey} {env : ConnectEnv} {s : Socket}

theorem Connections.Pooled.call (h : c.Pooled) {a : ConnectionCall} (ha : c.call a = some c') :
    c'.Pooled := by
  cases a with
  | getOrCreate key env =>
      obtain ⟨⟨c'', s⟩, hg, rfl⟩ := Option.map_eq_some_iff.mp ha
      exact h.getOrCreate (h.got hg)
  | close key =>
      cases Option.some.inj ha
      exact h.close (h.evicted key)

theorem Connections.pooled_of_reachable {alloc : Bool}
    (h : Machine.Reachable Connections.call (.init alloc) c) : c.Pooled :=
  h.invariant (Connections.init_pooled alloc) fun _ _ _ hp ha => hp.call ha

/-! ## The nodes of the map -/

/-- The nodes of `connections_map`. -/
def Connections.nodes (c : Connections) : List (HashNode ConnectionKey Socket) :=
  match c.connectionsMap with
  | none => []
  | some m => m.nodes

/-- A node holds a socket, and it is what its key is bound to. -/
theorem Stores.node_value {m : HashMap ConnectionKey Socket} {pool : ConnectionKey → Option Socket}
    (h : Stores (some m) pool) {node : HashNode ConnectionKey Socket} (hnode : node ∈ m.nodes) :
    (pool node.key).map some = some node.value := by
  have hk := h.1.lawful lawfulKey_hashConnKey
  rw [← h.lookup, h.1.inv.lookup_eq_find hk,
    HashMap.find_eq_some_iff hk h.1.inv.distinct]
  exact ⟨node, hnode, hk.refl _, rfl⟩

theorem Stores.exists_node {m : HashMap ConnectionKey Socket}
    {pool : ConnectionKey → Option Socket} (h : Stores (some m) pool) (he : pool key = some s) :
    ∃ node ∈ m.nodes, node.key = key ∧ node.value = some s := by
  have hk := h.1.lawful lawfulKey_hashConnKey
  have hlookup := h.lookup key
  rw [he, Option.map_some, h.1.inv.lookup_eq_find hk,
    HashMap.find_eq_some_iff hk h.1.inv.distinct] at hlookup
  obtain ⟨node, hnode, heq, hvalue⟩ := hlookup
  rw [h.1.keyEqFunc_eq] at heq
  exact ⟨node, hnode, (eqConnKey_iff _ _).mp heq, hvalue⟩

/-- The nodes are the entries. -/
theorem Connections.Pooled.node_iff (h : c.Pooled) :
    (∃ node ∈ c.nodes, node.key = key ∧ node.value = some s) ↔ c.entry key = some s := by
  have hstores := h.stores
  obtain ⟨connectionsMap, o⟩ := c
  cases connectionsMap with
  | none =>
      constructor
      · rintro ⟨_, hnode, _⟩
        cases hnode
      · intro he
        cases he
  | some m =>
      constructor
      · rintro ⟨node, hnode, rfl, hvalue⟩
        have hbound := hstores.node_value hnode
        rw [hvalue] at hbound
        obtain ⟨s', hs', heq⟩ := Option.map_eq_some_iff.mp hbound
        cases heq
        exact hs'
      · exact hstores.exists_node

theorem Connections.Pooled.node_value (h : c.Pooled) {node : HashNode ConnectionKey Socket}
    (hnode : node ∈ c.nodes) : ∃ s, node.value = some s ∧ c.entry node.key = some s := by
  have hstores := h.stores
  obtain ⟨connectionsMap, o⟩ := c
  cases connectionsMap with
  | none => cases hnode
  | some m =>
      obtain ⟨s, hs, hvalue⟩ := Option.map_eq_some_iff.mp (hstores.node_value hnode)
      exact ⟨s, hvalue.symm, hs⟩

/-- No endpoint has two nodes. -/
theorem Connections.Pooled.keys_nodup (h : c.Pooled) : (c.nodes.map HashNode.key).Nodup := by
  have hstores := h.stores
  obtain ⟨connectionsMap, o⟩ := c
  cases connectionsMap with
  | none => exact List.nodup_nil
  | some m =>
      have hdistinct := hstores.1.inv.distinct
      rw [hstores.1.keyEqFunc_eq] at hdistinct
      refine hdistinct.imp fun {a b} hab hsame => ?_
      rw [(eqConnKey_iff a b).mpr hsame] at hab
      cases hab

/-- No socket is in two nodes. -/
theorem Connections.Pooled.values_nodup (h : c.Pooled) : (c.nodes.map HashNode.value).Nodup := by
  have hkeys := List.pairwise_map.mp h.keys_nodup
  refine List.pairwise_map.mpr (hkeys.imp_of_mem fun {a b} ha hb hne hsame => hne ?_)
  obtain ⟨s, hs, he⟩ := h.node_value ha
  obtain ⟨s', hs', he'⟩ := h.node_value hb
  rw [hsame, hs', Option.some.injEq] at hs
  subst hs
  exact h.entry_inj he he'

/-! ## What a call asks for -/

/-- The entries of the ledger that an event makes. -/
def ConnEvent.entries : ConnEvent → List (Ledger.Event ConnBlock)
  | .malloc block => [.acquire block 0]
  | .free block => [.release block]
  | .enter | .leave | .socket _ | .connect _ _ | .closesocket _ => []

/-- What a call does to the heap. -/
def ledger (events : List ConnEvent) : List (Ledger.Event ConnBlock) :=
  events.flatMap ConnEvent.entries

/-- The call does not enter the critical section, or it enters it first, leaves it last, and
does neither in between. -/
def Critical (events : List ConnEvent) : Prop :=
  events = [] ∨ ∃ inside, events = .enter :: (inside ++ [.leave]) ∧
    ConnEvent.enter ∉ inside ∧ ConnEvent.leave ∉ inside

/-- Every block that was allocated was freed, and none was allocated or freed twice. -/
def Balanced (events : List ConnEvent) : Prop :=
  Machine.exec Ledger.step [] (ledger events) = some [] ∧
    ∀ b, Ledger.released b (ledger events) = Ledger.acquired b (ledger events) ∧
      Ledger.acquired b (ledger events) ≤ 1

theorem Balanced.of_exec {events : List ConnEvent}
    (h : Machine.exec Ledger.step [] (ledger events) = some []) (bs : List ConnBlock)
    (hbs : Ledger.acquisitions (ledger events) = bs) (hnodup : bs.Nodup) : Balanced events :=
  ⟨h, fun b => ⟨(Ledger.acquired_eq_released h rfl).symm, Ledger.acquired_le_one bs hbs hnodup b⟩⟩

/-- What holds at every exit of `get_or_create_connection`. -/
structure ConnResult.Exits (r : ConnResult) : Prop where
  critical : Critical r.events
  balanced : r.ret = invalidSocket → Balanced r.events

section Exits

variable {m : HashMap ConnectionKey Socket} {events cleanup : List ConnEvent}

theorem ConnResult.Exits.failed (hin : ConnEvent.enter ∉ events ++ cleanup)
    (hout : ConnEvent.leave ∉ events ++ cleanup)
    (hexec : Machine.exec Ledger.step [] (ledger (events ++ cleanup ++ [.leave])) = some [])
    (bs : List ConnBlock)
    (hbs : Ledger.acquisitions (ledger (events ++ cleanup ++ [.leave])) = bs) (hnodup : bs.Nodup) :
    (connectionFailed m (.enter :: events) cleanup).Exits where
  critical := Or.inr ⟨events ++ cleanup, rfl, hin, hout⟩
  balanced := fun _ => .of_exec hexec bs hbs hnodup

/-- The part of the function that creates a connection, after the look-up. -/
theorem createConnection_exits
    (hput : putEvents (m.put key (some env.socket) env.put) = []) :
    (createConnection m key env
      [.enter, .malloc .tempKey, .malloc .tempAddress, .free .tempAddress, .free .tempKey]).Exits := by
  rw [createConnection]
  split
  · exact .failed (by simp) (by simp) rfl [.tempKey, .tempAddress] rfl (by decide)
  next hsocket =>
      split
      · exact .failed (by simp) (by simp) rfl [.tempKey, .tempAddress] rfl (by decide)
      split
      · exact .failed (by simp) (by simp) rfl [.tempKey, .tempAddress] rfl (by decide)
      split
      · exact .failed (by simp) (by simp) rfl [.tempKey, .tempAddress, .newKey] rfl (by decide)
      split
      · exact .failed (by simp) (by simp) rfl
          [.tempKey, .tempAddress, .newKey, .newAddress] rfl (by decide)
      simp only [hput, List.append_nil]
      split
      · exact .failed (by simp [connectionMade]) (by simp [connectionMade]) rfl
          [.tempKey, .tempAddress, .newKey, .newAddress, .socketCell] rfl (by decide)
      · exact
          { critical := Or.inr ⟨_, rfl, by simp [connectionMade], by simp [connectionMade]⟩
            balanced := fun hret => absurd hret hsocket }

end Exits

theorem Connections.Pooled.exits (h : c.Pooled) (key : ConnectionKey) (env : ConnectEnv) :
    (getOrCreateConnection c.connectionsMap key.address key.port env).Exits := by
  have hstores := h.stores
  cases hm : c.connectionsMap with
  | none =>
      exact
        { critical := Or.inl rfl
          balanced := fun _ => .of_exec rfl [] rfl (by decide) }
  | some m =>
      rw [hm] at hstores
      simp only [getOrCreateConnection, h.lookup_valid hstores]
      split
      · exact .failed (by simp) (by simp) rfl [] rfl (by decide)
      split
      · exact .failed (by simp) (by simp) rfl [.tempKey] rfl (by decide)
      split
      next s he =>
          exact
            { critical := Or.inr ⟨[.malloc .tempKey, .malloc .tempAddress, .free .tempAddress,
                .free .tempKey], rfl, by simp, by simp⟩
              balanced := fun hret => absurd hret (h.entries key s he).1 }
      next hnone => exact createConnection_exits (hstores.put hnone env.socket env.put).1

theorem critical_closeConnection (connectionsMap : Option (HashMap ConnectionKey Socket))
    (address : CString) (port : UInt16) :
    Critical (closeConnection connectionsMap address port).2 := by
  cases connectionsMap with
  | none => exact Or.inr ⟨[], rfl, List.not_mem_nil, List.not_mem_nil⟩
  | some m =>
      have hsocket (v : Option Socket) :
          ConnEvent.enter ∉ freeSocket v ∧ ConnEvent.leave ∉ freeSocket v := by
        cases v with
        | none => exact ⟨List.not_mem_nil, List.not_mem_nil⟩
        | some s =>
            rw [freeSocket]
            split <;> simp
      refine Or.inr ⟨removeEvents (m.remove { address, port }), rfl, ?_, ?_⟩
      · simp [removeEvents, freeConnKey, hsocket]
      · simp [removeEvents, freeConnKey, hsocket]

/-! ## The invariant -/

/-- In every state that calls lead to, whatever allocations, `socket`, `connect` and
`hashmap_put` did: a handle is open if and only if a node of the map holds it.  A node
holds a handle that is connected to the endpoint it is stored under, no handle is in two
nodes, no endpoint has two nodes, and two handles that are connected to one endpoint are
the same.  A call that returns `INVALID_SOCKET` leaves the entries and the open handles as
they were, and frees every block it allocated, once.  And every call that enters the
critical section leaves it once, at its end. -/
theorem connection_pool_invariant {alloc : Bool}
    (h : Machine.Reachable Connections.call (.init alloc) c) :
    (∀ s, c.sockets.handles s ≠ .closed ↔ ∃ node ∈ c.nodes, node.value = some s) ∧
    (∀ node ∈ c.nodes, ∃ s k, node.value = some s ∧ c.sockets.handles s = .connected k ∧
      c.sockets.endpoint k = some node.key) ∧
    (c.nodes.map HashNode.value).Nodup ∧ (c.nodes.map HashNode.key).Nodup ∧
    (∀ s s' k k' key, c.sockets.handles s = .connected k → c.sockets.endpoint k = some key →
      c.sockets.handles s' = .connected k' → c.sockets.endpoint k' = some key → s = s') ∧
    (∀ key env c' s, c.getOrCreate key env = some (c', s) → s = invalidSocket →
      (∀ key s, (∃ node ∈ c'.nodes, node.key = key ∧ node.value = some s) ↔
        ∃ node ∈ c.nodes, node.key = key ∧ node.value = some s) ∧
      c'.sockets.handles = c.sockets.handles) ∧
    (∀ address port env, (getOrCreateConnection c.connectionsMap address port env).Exits) ∧
    ∀ address port, Critical (closeConnection c.connectionsMap address port).2 := by
  have hpool := Connections.pooled_of_reachable h
  refine ⟨?_, ?_, hpool.values_nodup, hpool.keys_nodup, ?_, ?_,
    fun address port => hpool.exits { address, port }, critical_closeConnection c.connectionsMap⟩
  · intro s
    constructor
    · intro hs
      obtain ⟨key, he⟩ := hpool.opened s hs
      obtain ⟨node, hnode, _, hvalue⟩ := hpool.node_iff.mpr he
      exact ⟨node, hnode, hvalue⟩
    · rintro ⟨node, hnode, hvalue⟩
      obtain ⟨s', hs', he⟩ := hpool.node_value hnode
      rw [hvalue, Option.some.injEq] at hs'
      obtain ⟨_, k, hk, _⟩ := hpool.entries node.key s' he
      rw [hs', hk]
      exact Handle.noConfusion
  · intro node hnode
    obtain ⟨s, hs, he⟩ := hpool.node_value hnode
    obtain ⟨_, k, hk, hendpoint⟩ := hpool.entries node.key s he
    exact ⟨s, k, hs, hk, hendpoint⟩
  · intro s s' k k' key hs hk hs' hk'
    obtain ⟨key₁, hk₁, he⟩ := hpool.entry_of_connected hs
    obtain ⟨key₂, hk₂, he'⟩ := hpool.entry_of_connected hs'
    rw [hk, Option.some.injEq] at hk₁
    rw [hk', Option.some.injEq] at hk₂
    rw [← hk₁] at he
    rw [← hk₂, he, Option.some.injEq] at he'
    exact he'
  · intro key env c' s hg hs
    have hgot := hpool.got hg
    have hpool' := hpool.getOrCreate hgot
    cases hgot with
    | reused he => exact absurd hs (hpool.entries key s he).1
    | opened _ henv _ _ =>
        simp only [ConnectEnv.connects, Bool.and_eq_true, bne_iff_ne] at henv
        exact absurd hs henv.1
    | failed hmap _ =>
        refine ⟨fun key s => ?_, rfl⟩
        rw [hpool'.node_iff, hpool.node_iff, hmap.entry]

/-- The endpoint `127.0.0.1` and port 9000. -/
def localKey : ConnectionKey where
  address := strdup [49, 50, 55, 46, 48, 46, 48, 46, 49, 0]
  port := 9000

/-- A connection is made, a second call fails to make one to another port, and the first is
closed and made again with the same handle. -/
def localCalls : List ConnectionCall :=
  [.getOrCreate localKey { socket := 5 },
    .getOrCreate { localKey with port := 9001 } { socket := 6, put := { newNode := false } },
    .close localKey, .getOrCreate localKey { socket := 5 }]

theorem connection_pool_invariant_local :
    ∃ c, Machine.exec Connections.call (.init true) localCalls = some c ∧
      (c.nodes.map HashNode.value).Nodup ∧ (c.nodes.map HashNode.key).Nodup := by
  have hrun : (Machine.exec Connections.call (.init true) localCalls).isSome := by decide +kernel
  obtain ⟨c, hc⟩ := Option.isSome_iff_exists.mp hrun
  have h := connection_pool_invariant (Machine.exec_reachable hc)
  exact ⟨c, hc, h.2.2.1, h.2.2.2.1⟩

end DataPropagator
