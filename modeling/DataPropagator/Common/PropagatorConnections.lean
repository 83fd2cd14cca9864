import DataPropagator.Common.HashMapRuns
import DataPropagator.Common.PropagatorClient

/-!
# Pooled connections

`propagator_connections.c` keeps one connection for each endpoint in `connections_map`.
Both functions that use the map hold `conn_mutex` from their first step to their last,
so each is one step of its thread.

A function is translated to the map it leaves, its result and the list of what it asked
of the memory and of the system, in order.  `Sockets.apply` is what the system does on
one of these.  The handle of a closed socket may be handed out again, so a handle is not
the name of a connection: a connection is the number of connections made before it.
-/

namespace DataPropagator

open KeyMap (LawfulKey Write)

/-! ## Keys -/

/-- `SOCKET`. -/
abbrev Socket := UInt64

/-- `INVALID_SOCKET`. -/
def invalidSocket : Socket := 0xFFFFFFFFFFFFFFFF

/-- `ConnectionKey`. -/
structure ConnectionKey where
  address : CString
  port : UInt16
deriving DecidableEq, Repr

/-- A `char` widened to `size_t`.  It is signed. -/
def sizeOfChar (c : UInt8) : UInt64 := c.toInt8.toInt64.toUInt64

/-- `hash_conn_key`. -/
def hashConnKey (key : ConnectionKey) : UInt64 :=
  let h := key.address.bytes.foldl (fun (h : UInt64) c => ((h <<< 5) + h) + sizeOfChar c) 5381
  ((h <<< 5) + h) + key.port.toUInt64

/-- `eq_conn_key`. -/
def eqConnKey (a b : ConnectionKey) : Bool := eqString a.address b.address && a.port == b.port

theorem eqConnKey_iff (a b : ConnectionKey) : eqConnKey a b = true ↔ a = b := by
  rw [eqConnKey, Bool.and_eq_true, eqString_iff, beq_iff_eq, ConnectionKey.mk.injEq]

theorem lawfulKey_hashConnKey : LawfulKey hashConnKey eqConnKey :=
  KeyMap.lawfulKey_of_decides hashConnKey eqConnKey_iff

/-! ## What a call asks for -/

/-- The blocks of memory of one call of `get_or_create_connection`. -/
inductive ConnBlock where
  | tempKey
  | tempAddress
  | newKey
  | newAddress
  /-- The cell `s_ptr`. -/
  | socketCell
deriving DecidableEq, Repr

/-- What is asked of the memory and of the system. -/
inductive ConnEvent where
  /-- `EnterCriticalSection(&conn_mutex)`. -/
  | enter
  /-- `LeaveCriticalSection(&conn_mutex)`. -/
  | leave
  | malloc (block : ConnBlock)
  | free (block : ConnBlock)
  /-- `socket` returns a handle. -/
  | socket (s : Socket)
  /-- `connect` succeeds. -/
  | connect (s : Socket) (key : ConnectionKey)
  | closesocket (s : Socket)
deriving DecidableEq, Repr

/-- `free_conn_key` on the key of an entry. -/
def freeConnKey : List ConnEvent := [.free .newAddress, .free .newKey]

/-- `free_socket` on the cell of an entry. -/
def freeSocket (v : Option Socket) : List ConnEvent :=
  match v with
  | none => []
  | some s => if s ≠ invalidSocket then [.closesocket s, .free .socketCell] else []

/-- The callbacks that `hashmap_put` made. -/
def putEvents (r : PutResult ConnectionKey Socket) : List ConnEvent :=
  r.freedValues.flatMap freeSocket ++ r.freedKeys.flatMap fun _ => freeConnKey

/-- The callbacks that `hashmap_remove` made. -/
def removeEvents (r : RemoveResult ConnectionKey Socket) : List ConnEvent :=
  r.freedKeys.flatMap (fun _ => freeConnKey) ++ r.freedValues.flatMap freeSocket

/-- What a function leaves, returns and asks for. -/
structure ConnResult where
  connectionsMap : Option (HashMap ConnectionKey Socket)
  ret : Socket
  events : List ConnEvent

/-- The outcomes of what `get_or_create_connection` asks for. -/
structure ConnectEnv where
  tempKey : Bool := true
  tempAddress : Bool := true
  socket : Socket
  connect : Bool := true
  newKey : Bool := true
  newAddress : Bool := true
  socketCell : Bool := true
  put : PutAlloc := {}

/-! ## The functions -/

/-- `connections_init`.  The argument says whether the map is allocated. -/
def connectionsInit (alloc : Bool) : Option (HashMap ConnectionKey Socket) :=
  if alloc then hashmapCreate 16 hashConnKey eqConnKey true true else none

/-- `get_or_create_connection` cleans up, leaves the critical section and returns
`INVALID_SOCKET`. -/
def connectionFailed (m : HashMap ConnectionKey Socket) (events cleanup : List ConnEvent) :
    ConnResult where
  connectionsMap := some m
  ret := invalidSocket
  events := events ++ cleanup ++ [.leave]

/-- What is asked for on the way to a connection that is stored. -/
def connectionMade (s : Socket) (key : ConnectionKey) : List ConnEvent :=
  [.socket s, .connect s key, .malloc .newKey, .malloc .newAddress, .malloc .socketCell]

/-- `get_or_create_connection` from the call of `socket` on.  `events` is what was asked
for before. -/
def createConnection (m : HashMap ConnectionKey Socket) (key : ConnectionKey) (env : ConnectEnv)
    (events : List ConnEvent) : ConnResult :=
  let s := env.socket
  if s = invalidSocket then connectionFailed m events []
  else if !env.connect then connectionFailed m events [.socket s, .closesocket s]
  else if !env.newKey then connectionFailed m events [.socket s, .connect s key, .closesocket s]
  else if !env.newAddress then
    connectionFailed m events
      [.socket s, .connect s key, .malloc .newKey, .free .newKey, .closesocket s]
  else if !env.socketCell then
    connectionFailed m events
      [.socket s, .connect s key, .malloc .newKey, .malloc .newAddress, .free .newAddress,
        .free .newKey, .closesocket s]
  else
    let put := m.put key (some s) env.put
    let events := events ++ connectionMade s key ++ putEvents put
    if put.ret ≠ 0 then
      connectionFailed put.map events
        [.free .newAddress, .free .newKey, .free .socketCell, .closesocket s]
    else { connectionsMap := some put.map, ret := s, events := events ++ [.leave] }

/-- `get_or_create_connection`. -/
def getOrCreateConnection (connectionsMap : Option (HashMap ConnectionKey Socket))
    (address : CString) (port : UInt16) (env : ConnectEnv) : ConnResult :=
  match connectionsMap with
  | none => { connectionsMap := none, ret := invalidSocket, events := [] }
  | some m =>
      if !env.tempKey then connectionFailed m [.enter] []
      else if !env.tempAddress then connectionFailed m [.enter, .malloc .tempKey] [.free .tempKey]
      else
        match (m.get { address, port }).filter (· ≠ invalidSocket) with
        | some s =>
            { connectionsMap := some m
              ret := s
              events := [.enter, .malloc .tempKey, .malloc .tempAddress, .free .tempAddress,
                .free .tempKey, .leave] }
        | none =>
            createConnection m { address, port } env
              [.enter, .malloc .tempKey, .malloc .tempAddress, .free .tempAddress, .free .tempKey]

/-- `close_connection`. -/
def closeConnection (connectionsMap : Option (HashMap ConnectionKey Socket)) (address : CString)
    (port : UInt16) : Option (HashMap ConnectionKey Socket) × List ConnEvent :=
  match connectionsMap with
  | none => (none, [.enter, .leave])
  | some m =>
      let remove := m.remove { address, port }
      (some remove.map, [.enter] ++ removeEvents remove ++ [.leave])

/-! ## The system's side -/

/-- What a handle refers to. -/
inductive Handle where
  | closed
  /-- A socket that is not connected. -/
  | unconnected
  /-- The socket of a connection. -/
  | connected (conn : Nat)
deriving DecidableEq, Repr

/-- A connection: the endpoint it was made to, the bytes sent on it, and the warnings
whose frames they were taken from. -/
structure Conn where
  endpoint : ConnectionKey
  stream : Bytes
  senders : List Warning
deriving DecidableEq, Repr

/-- The open sockets of a process, and every connection it has made. -/
structure Sockets where
  handles : Socket → Handle
  conns : List Conn

/-- No socket has been opened. -/
def Sockets.init : Sockets where
  handles := fun _ => .closed
  conns := []

/-- What the system does. -/
def Sockets.apply (o : Sockets) : ConnEvent → Sockets
  | .socket s => { o with handles := Function.update o.handles s .unconnected }
  | .connect s key =>
      { handles := Function.update o.handles s (.connected o.conns.length)
        conns := o.conns ++ [{ endpoint := key, stream := [], senders := [] }] }
  | .closesocket s => { o with handles := Function.update o.handles s .closed }
  | _ => o

/-- What the system does on a list of requests, oldest first. -/
def Sockets.replay (o : Sockets) (events : List ConnEvent) : Sockets := events.foldl apply o

/-- The map and the sockets. -/
structure Connections where
  connectionsMap : Option (HashMap ConnectionKey Socket)
  sockets : Sockets

/-- After `connections_init`. -/
def Connections.init (alloc : Bool) : Connections where
  connectionsMap := connectionsInit alloc
  sockets := .init

/-- A call of `get_or_create_connection`.  The system hands out no handle that is open. -/
def Connections.getOrCreate (c : Connections) (key : ConnectionKey) (env : ConnectEnv) :
    Option (Connections × Socket) :=
  if c.sockets.handles env.socket = .closed then
    let r := getOrCreateConnection c.connectionsMap key.address key.port env
    some ({ connectionsMap := r.connectionsMap, sockets := c.sockets.replay r.events }, r.ret)
  else none

/-- The handles that were closed. -/
def closedHandles (events : List ConnEvent) : List Socket :=
  events.filterMap fun
    | .closesocket s => some s
    | _ => none

/-- A call of `close_connection`, and what the handles it closed referred to. -/
def Connections.close (c : Connections) (key : ConnectionKey) : Connections × List Handle :=
  let r := closeConnection c.connectionsMap key.address key.port
  ({ connectionsMap := r.1, sockets := c.sockets.replay r.2 },
    (closedHandles r.2).map c.sockets.handles)

/-! ## The map -/

/-- The map stores one socket under each bound endpoint, as `pool` says. -/
def Stores (connectionsMap : Option (HashMap ConnectionKey Socket))
    (pool : ConnectionKey → Option Socket) : Prop :=
  match connectionsMap with
  | none => pool = fun _ => none
  | some m => HashMap.Holds hashConnKey eqConnKey m (fun key => (pool key).map some) ∧
      m.freeValueFunc = true

theorem connectionsInit_stores (alloc : Bool) : Stores (connectionsInit alloc) fun _ => none := by
  cases alloc with
  | false => rfl
  | true =>
      obtain ⟨m, hm, hholds⟩ := HashMap.hashmapCreate_holds (V := Socket)
        (show 1 ≤ 16 by decide) hashConnKey eqConnKey true true
      have hfree : m.freeValueFunc = true := by
        rw [hashmapCreate, if_neg (by decide), Option.some.injEq] at hm
        rw [← hm]
      rw [connectionsInit, if_pos rfl, hm]
      exact ⟨hholds, hfree⟩

section Stores

variable {m : HashMap ConnectionKey Socket} {pool : ConnectionKey → Option Socket}

theorem Stores.lookup (h : Stores (some m) pool) (key : ConnectionKey) :
    m.lookup key = (pool key).map some :=
  congrFun h.1.lookup_eq key

theorem Stores.get (h : Stores (some m) pool) (key : ConnectionKey) : m.get key = pool key := by
  rw [HashMap.get_eq_lookup, h.lookup]
  cases pool key <;> rfl

/-- One binding of a pool changed, as a key comparison sees it. -/
theorem update_map_some (pool : ConnectionKey → Option Socket) (key : ConnectionKey)
    (v : Option Socket) (k : ConnectionKey) :
    (Function.update pool key v k).map some =
      if eqConnKey key k then v.map some else (pool k).map some := by
  rw [Function.update_apply]
  by_cases hk : k = key
  · rw [if_pos hk, if_pos ((eqConnKey_iff key k).mpr hk.symm)]
  · rw [if_neg hk, if_neg fun he => hk ((eqConnKey_iff key k).mp he).symm]

/-- A put under an endpoint that is not bound binds it or does nothing. -/
theorem Stores.put (h : Stores (some m) pool) {key : ConnectionKey} (hnone : pool key = none)
    (s : Socket) (alloc : PutAlloc) :
    let r := m.put key (some s) alloc
    putEvents r = [] ∧
      ((r.ret = 0 ∧ Stores (some r.map) (Function.update pool key (some s))) ∨
        (r.ret ≠ 0 ∧ Stores (some r.map) pool)) := by
  have hunbound : m.lookup key = none := by
    rw [h.lookup, hnone]
    rfl
  obtain ⟨hholds, hfree⟩ := h
  have hk := hholds.lawful lawfulKey_hashConnKey
  have hspec := HashMap.put_spec hholds.inv hk key (some s) alloc
  have hfreed := HashMap.put_freed_nil hholds.inv hk hunbound (some s) alloc
  have hfree' := hspec.funcs.freeValueFunc_eq.trans hfree
  have hhash := hspec.funcs.hashFunc_eq.trans hholds.hashFunc_eq
  have heq := hspec.funcs.keyEqFunc_eq.trans hholds.keyEqFunc_eq
  refine ⟨by rw [putEvents, hfreed.1, hfreed.2]; rfl, ?_⟩
  rcases hspec.ret with hret | hret
  · refine Or.inl ⟨hret, ⟨hspec.inv, hhash, heq, ?_⟩, hfree'⟩
    funext k
    rw [hspec.bound hret, hholds.keyEqFunc_eq, hholds.lookup_eq, update_map_some]
    rfl
  · refine Or.inr ⟨by rw [hret]; decide, ⟨hspec.inv, hhash, heq, ?_⟩, hfree'⟩
    funext k
    rw [hspec.unchanged hret, hholds.lookup_eq]

/-- A removal unbinds the endpoint and frees its socket. -/
theorem Stores.remove (h : Stores (some m) pool) (key : ConnectionKey) :
    Stores (some (m.remove key).map) (Function.update pool key none) ∧
      (m.remove key).freedValues = ((pool key).map some).toList := by
  obtain ⟨hholds, hfree⟩ := h
  have hspec := HashMap.remove_spec hholds.inv (hholds.lawful lawfulKey_hashConnKey) key
  refine ⟨⟨⟨hspec.inv, hspec.funcs.hashFunc_eq.trans hholds.hashFunc_eq,
    hspec.funcs.keyEqFunc_eq.trans hholds.keyEqFunc_eq, ?_⟩,
    hspec.funcs.freeValueFunc_eq.trans hfree⟩, ?_⟩
  · funext k
    rw [hspec.unbound, hholds.keyEqFunc_eq, hholds.lookup_eq, update_map_some]
    rfl
  · rw [HashMap.remove_freedValues, if_pos hfree, hholds.lookup_eq]

end Stores

/-! ## The pool -/

/-- The socket stored for an endpoint. -/
def Connections.entry (c : Connections) (key : ConnectionKey) : Option Socket :=
  hashmapGet c.connectionsMap key

/-- The endpoint of a connection. -/
def Sockets.endpoint (o : Sockets) (k : Nat) : Option ConnectionKey := o.conns[k]?.map Conn.endpoint

/-- A connection on which nothing was sent. -/
def Conn.fresh (key : ConnectionKey) : Conn where
  endpoint := key
  stream := []
  senders := []

/-- The sockets after a handle was opened and connected. -/
def Sockets.opened (o : Sockets) (s : Socket) (key : ConnectionKey) : Sockets where
  handles := Function.update o.handles s (.connected o.conns.length)
  conns := o.conns ++ [Conn.fresh key]

/-- `socket` and `connect` succeed. -/
def ConnectEnv.connects (env : ConnectEnv) : Bool := env.socket != invalidSocket && env.connect

/-- The stored sockets are the open sockets, and each is connected to the endpoint it is
stored under. -/
structure Connections.Pooled (c : Connections) : Prop where
  stores : Stores c.connectionsMap c.entry
  entries : ∀ key s, c.entry key = some s → s ≠ invalidSocket ∧
    ∃ k, c.sockets.handles s = .connected k ∧ c.sockets.endpoint k = some key
  opened : ∀ s, c.sockets.handles s ≠ .closed → ∃ key, c.entry key = some s

/-- Every way `get_or_create_connection` can go. -/
inductive Connections.Got (c : Connections) (key : ConnectionKey) (env : ConnectEnv) :
    Connections → Socket → Prop where
  | reused {s : Socket} : c.entry key = some s → Got c key env c s
  | opened {connectionsMap : Option (HashMap ConnectionKey Socket)} :
      c.entry key = none → env.connects = true → c.sockets.handles env.socket = .closed →
      Stores connectionsMap (Function.update c.entry key (some env.socket)) →
      Got c key env { connectionsMap, sockets := c.sockets.opened env.socket key } env.socket
  | failed {connectionsMap : Option (HashMap ConnectionKey Socket)} {conns : List Conn} :
      Stores connectionsMap c.entry →
      conns = c.sockets.conns ∨ conns = c.sockets.conns ++ [Conn.fresh key] →
      Got c key env { connectionsMap, sockets := { c.sockets with conns } } invalidSocket

variable {c c' : Connections} {key : ConnectionKey} {env : ConnectEnv} {s : Socket}

theorem Sockets.replay_append (o : Sockets) (es es' : List ConnEvent) :
    o.replay (es ++ es') = (o.replay es).replay es' :=
  List.foldl_append

section Got

variable {m : HashMap ConnectionKey Socket} {events cleanup : List ConnEvent} {o : Sockets}

/-- A call that fails after its clean-up has brought the handles back. -/
theorem Connections.Got.cleanedUp (hstores : Stores (some m) c.entry)
    (hev : c.sockets.replay events = o) (hhandles : (o.replay cleanup).handles = c.sockets.handles)
    (hconns : (o.replay cleanup).conns = c.sockets.conns ∨
      (o.replay cleanup).conns = c.sockets.conns ++ [Conn.fresh key]) :
    c.Got key env
      { connectionsMap := some m
        sockets := c.sockets.replay (connectionFailed m events cleanup).events } invalidSocket := by
  have hreplay : c.sockets.replay (connectionFailed m events cleanup).events =
      { c.sockets with conns := (o.replay cleanup).conns } := by
    rw [connectionFailed, Sockets.replay_append, Sockets.replay_append, hev]
    exact congrArg (fun handles => Sockets.mk handles (o.replay cleanup).conns) hhandles
  rw [hreplay]
  exact .failed hstores hconns

/-- The part of the function that creates a connection. -/
theorem Connections.Got.create (hstores : Stores (some m) c.entry) (hnone : c.entry key = none)
    (hclosed : c.sockets.handles env.socket = .closed) (hev : c.sockets.replay events = c.sockets) :
    c.Got key env
      { connectionsMap := (createConnection m key env events).connectionsMap
        sockets := c.sockets.replay (createConnection m key env events).events }
      (createConnection m key env events).ret := by
  -- a handle that was opened and closed again is as it was
  have hreset : ∀ v, Function.update (Function.update c.sockets.handles env.socket v)
      env.socket .closed = c.sockets.handles := fun v => by
    rw [Function.update_idem, Function.update_eq_self_iff, hclosed]
  have hreset' : ∀ v v', Function.update (Function.update (Function.update
      c.sockets.handles env.socket v) env.socket v') env.socket .closed = c.sockets.handles :=
    fun v v' => by rw [Function.update_idem, hreset]
  generalize hr : createConnection m key env events = r
  rw [createConnection] at hr
  split at hr
  · exact hr ▸ .cleanedUp hstores hev rfl (Or.inl rfl)
  next hsocket =>
      split at hr
      · exact hr ▸ .cleanedUp hstores hev (hreset _) (Or.inl rfl)
      next hconnect =>
          split at hr
          · exact hr ▸ .cleanedUp hstores hev (hreset' _ _) (Or.inr rfl)
          split at hr
          · exact hr ▸ .cleanedUp hstores hev (hreset' _ _) (Or.inr rfl)
          split at hr
          · exact hr ▸ .cleanedUp hstores hev (hreset' _ _) (Or.inr rfl)
          obtain ⟨hfreed, hput⟩ := hstores.put hnone env.socket env.put
          have hmade : c.sockets.replay (events ++ connectionMade env.socket key) =
              { c.sockets.opened env.socket key with
                handles := Function.update (Function.update c.sockets.handles env.socket
                  .unconnected) env.socket (.connected c.sockets.conns.length) } := by
            rw [Sockets.replay_append, hev]
            rfl
          simp only [hfreed, List.append_nil] at hr
          rcases hput with ⟨hret, hput⟩ | ⟨hret, hput⟩
          · rw [if_neg (not_not_intro hret)] at hr
            subst hr
            have hconnects : env.connects = true := by
              simp only [Bool.not_eq_true', Bool.not_eq_false] at hconnect
              simp [ConnectEnv.connects, hsocket, hconnect]
            rw [Sockets.replay_append, hmade, Function.update_idem]
            exact .opened hnone hconnects hclosed hput
          · rw [if_pos hret] at hr
            exact hr ▸ .cleanedUp hput hmade (hreset' _ _) (Or.inr rfl)

end Got

/-- The test of what the map gives for `INVALID_SOCKET` never fails. -/
theorem Connections.Pooled.lookup_valid (h : c.Pooled) {m : HashMap ConnectionKey Socket}
    (hstores : Stores (some m) c.entry) :
    (m.get key).filter (· ≠ invalidSocket) = c.entry key := by
  rw [hstores.get key]
  cases he : c.entry key with
  | none => rfl
  | some s => simp [(h.entries key s he).1]

theorem Connections.Pooled.got (h : c.Pooled) (hg : c.getOrCreate key env = some (c', s)) :
    c.Got key env c' s := by
  rw [Connections.getOrCreate] at hg
  split at hg
  next hclosed =>
      rw [Option.some.injEq, Prod.mk.injEq] at hg
      obtain ⟨rfl, rfl⟩ := hg
      have hstores := h.stores
      cases hm : c.connectionsMap with
      | none =>
          rw [hm] at hstores
          exact .failed hstores (Or.inl rfl)
      | some m =>
          rw [hm] at hstores
          generalize hr : getOrCreateConnection (some m) key.address key.port env = r
          simp only [getOrCreateConnection, h.lookup_valid hstores] at hr
          split at hr
          · exact hr ▸ .cleanedUp hstores rfl rfl (Or.inl rfl)
          split at hr
          · exact hr ▸ .cleanedUp hstores rfl rfl (Or.inl rfl)
          split at hr
          next s hs =>
              have hsame : c = { connectionsMap := some m, sockets := c.sockets } := by rw [← hm]
              exact hr ▸ hsame ▸ .reused hs
          next hnone => exact hr ▸ .create hstores hnone hclosed rfl
  next => cases hg

theorem Stores.entry {connectionsMap : Option (HashMap ConnectionKey Socket)}
    {pool : ConnectionKey → Option Socket} (h : Stores connectionsMap pool) (o : Sockets) :
    (Connections.mk connectionsMap o).entry = pool := by
  cases connectionsMap with
  | none => exact h.symm
  | some m => exact funext h.get

theorem Sockets.endpoint_append {o : Sockets} {k : Nat} (h : o.endpoint k = some key)
    {handles : Socket → Handle} (conns : List Conn) :
    (Sockets.mk handles (o.conns ++ conns)).endpoint k = some key := by
  obtain ⟨conn, hconn, he⟩ := Option.map_eq_some_iff.mp h
  have hlt := (List.getElem?_eq_some_iff.mp hconn).1
  rw [Sockets.endpoint, List.getElem?_append_left hlt, hconn, Option.map_some, he]

theorem Sockets.endpoint_opened (o : Sockets) (s : Socket) (key : ConnectionKey) :
    (o.opened s key).endpoint o.conns.length = some key := by
  simp [Sockets.endpoint, Sockets.opened, Conn.fresh]

/-- Two endpoints do not share a socket. -/
theorem Connections.Pooled.entry_inj (h : c.Pooled) {key key' : ConnectionKey}
    (he : c.entry key = some s) (he' : c.entry key' = some s) : key = key' := by
  obtain ⟨_, k, hs, hk⟩ := h.entries key s he
  obtain ⟨_, k', hs', hk'⟩ := h.entries key' s he'
  rw [hs, Handle.connected.injEq] at hs'
  rw [hs', hk', Option.some.injEq] at hk
  exact hk.symm

/-- The handle of a connection is the one stored for its endpoint. -/
theorem Connections.Pooled.entry_of_connected (h : c.Pooled) {k : Nat}
    (hs : c.sockets.handles s = .connected k) :
    ∃ key, c.sockets.endpoint k = some key ∧ c.entry key = some s := by
  obtain ⟨key, he⟩ := h.opened s (by rw [hs]; simp)
  obtain ⟨_, k', hs', hk'⟩ := h.entries key s he
  rw [hs, Handle.connected.injEq] at hs'
  exact ⟨key, hs' ▸ hk', he⟩

theorem Connections.init_pooled (alloc : Bool) : (Connections.init alloc).Pooled := by
  have hentry := (connectionsInit_stores alloc).entry .init
  refine ⟨hentry ▸ connectionsInit_stores alloc, ?_, fun s hs => absurd rfl hs⟩
  intro key s he
  rw [Connections.init, hentry] at he
  cases he

/-- A connection keeps its endpoint. -/
theorem Connections.Got.endpoint (hg : c.Got key env c' s) {k : Nat} {key' : ConnectionKey}
    (hk : c.sockets.endpoint k = some key') : c'.sockets.endpoint k = some key' := by
  cases hg with
  | reused _ => exact hk
  | opened _ _ _ _ => exact Sockets.endpoint_append hk _
  | failed _ hconns =>
      rcases hconns with rfl | rfl
      · exact hk
      · exact Sockets.endpoint_append hk _

theorem getElem?_append_fresh {conns : List Conn} {k : Nat} {conn : Conn}
    (h : (conns ++ [Conn.fresh key])[k]? = some conn) :
    (k < conns.length ∧ conns[k]? = some conn) ∨ conn = Conn.fresh key := by
  rcases Nat.lt_or_ge k conns.length with hlt | hge
  · rw [List.getElem?_append_left hlt] at h
    exact Or.inl ⟨hlt, h⟩
  · rw [List.getElem?_append_right hge] at h
    exact Or.inr (List.mem_singleton.mp (List.mem_of_getElem? h))

/-- A connection is as it was, with no other handle, or it is new. -/
theorem Connections.Got.conns (hg : c.Got key env c' s) {k : Nat} {conn : Conn}
    (hconn : c'.sockets.conns[k]? = some conn) :
    (c.sockets.conns[k]? = some conn ∧ ∀ h, c'.sockets.handles h = .connected k →
      c.sockets.handles h = .connected k) ∨ conn = Conn.fresh key := by
  cases hg with
  | reused _ => exact Or.inl ⟨hconn, fun _ hh => hh⟩
  | opened _ _ _ _ =>
      rcases getElem?_append_fresh hconn with ⟨hlt, hold⟩ | hfresh
      · refine Or.inl ⟨hold, ?_⟩
        intro h hh
        have hh' : Function.update c.sockets.handles env.socket
            (.connected c.sockets.conns.length) h = .connected k := hh
        rw [Function.update_apply] at hh'
        split at hh'
        · -- the new handle is that of a new connection
          rw [Handle.connected.injEq] at hh'
          omega
        · exact hh'
      · exact Or.inr hfresh
  | failed _ hconns =>
      rcases hconns with rfl | rfl
      · exact Or.inl ⟨hconn, fun _ hh => hh⟩
      · exact (getElem?_append_fresh hconn).imp (fun hold => ⟨hold.2, fun _ hh => hh⟩) id

theorem Connections.Pooled.getOrCreate (h : c.Pooled) (hg : c.Got key env c' s) : c'.Pooled := by
  have hkeep : ∀ {k key'}, c.sockets.endpoint k = some key' →
      c'.sockets.endpoint k = some key' := fun hk => hg.endpoint hk
  cases hg with
  | reused _ => exact h
  | opened hnone henv hclosed hmap =>
      have hentry := hmap.entry (c.sockets.opened env.socket key)
      refine ⟨hentry ▸ hmap, ?_, ?_⟩
      · intro key' s' he
        rw [hentry, Function.update_apply] at he
        split at he
        next hk =>
            cases he
            subst hk
            simp only [ConnectEnv.connects, Bool.and_eq_true, bne_iff_ne] at henv
            exact ⟨henv.1, _, Function.update_self .., Sockets.endpoint_opened ..⟩
        next =>
            obtain ⟨hne, k, hs', hk⟩ := h.entries key' s' he
            refine ⟨hne, k, ?_, hkeep hk⟩
            refine (Function.update_of_ne ?_ ..).trans hs'
            rintro rfl
            rw [hclosed] at hs'
            cases hs'
      · intro s' hs'
        rw [hentry]
        by_cases hss : s' = env.socket
        · exact ⟨key, by rw [Function.update_self, hss]⟩
        · have hold : (c.sockets.opened env.socket key).handles s' = c.sockets.handles s' :=
            Function.update_of_ne hss ..
          obtain ⟨key', he⟩ := h.opened s' (hold ▸ hs')
          refine ⟨key', (Function.update_of_ne ?_ ..).trans he⟩
          rintro rfl
          rw [hnone] at he
          cases he
  | @failed _ conns hmap hconns =>
      have hentry := hmap.entry { c.sockets with conns }
      refine ⟨hentry ▸ hmap, ?_, ?_⟩
      · intro key' s' he
        rw [hentry] at he
        obtain ⟨hne, k, hs', hk⟩ := h.entries key' s' he
        exact ⟨hne, k, hs', hkeep hk⟩
      · intro s' hs'
        rw [hentry]
        exact h.opened s' hs'

/-- Every way `close_connection` can go. -/
inductive Connections.Evicted (c : Connections) (key : ConnectionKey) :
    Connections × List Handle → Prop where
  | absent : c.entry key = none → Evicted c key (c, [])
  | present {connectionsMap : Option (HashMap ConnectionKey Socket)} {s : Socket} :
      c.entry key = some s → Stores connectionsMap (Function.update c.entry key none) →
      Evicted c key
        ({ connectionsMap
           sockets := { c.sockets with handles := Function.update c.sockets.handles s .closed } },
          [c.sockets.handles s])

/-- Freeing keys asks nothing of the system. -/
theorem replay_freeConnKey (o : Sockets) (keys : List ConnectionKey) :
    o.replay (keys.flatMap fun _ => freeConnKey) = o := by
  induction keys with
  | nil => rfl
  | cons key keys ih =>
      rw [List.flatMap_cons, Sockets.replay_append]
      exact ih

theorem closedHandles_append (es es' : List ConnEvent) :
    closedHandles (es ++ es') = closedHandles es ++ closedHandles es' :=
  List.filterMap_append

theorem closedHandles_freeConnKey (keys : List ConnectionKey) :
    closedHandles (keys.flatMap fun _ => freeConnKey) = [] := by
  induction keys with
  | nil => rfl
  | cons key keys ih =>
      rw [List.flatMap_cons, closedHandles_append, ih]
      rfl

theorem Connections.Pooled.evicted (h : c.Pooled) (key : ConnectionKey) :
    c.Evicted key (c.close key) := by
  obtain ⟨connectionsMap, o⟩ := c
  cases connectionsMap with
  | none => exact .absent rfl
  | some m =>
      have hstores := h.stores
      obtain ⟨hremove, hfreed⟩ := hstores.remove key
      cases he : (Connections.mk (some m) o).entry key with
      | none =>
          have hfind : m.findNode key = none := by
            rw [HashMap.findNode_eq_none_iff, hstores.lookup, he]
            rfl
          have hsame : m.remove key = { map := m, ret := false } := by simp [HashMap.remove, hfind]
          have hclose : (Connections.mk (some m) o).close key = (Connections.mk (some m) o, []) := by
            simp only [Connections.close, closeConnection, hsame]
            rfl
          exact hclose ▸ .absent he
      | some s =>
          have hevents : removeEvents (m.remove key) =
              (m.remove key).freedKeys.flatMap (fun _ => freeConnKey) ++
                [.closesocket s, .free .socketCell] := by
            rw [removeEvents, hfreed, he]
            simp [freeSocket, (h.entries key s he).1]
          have hreplay : o.replay ([.enter] ++ removeEvents (m.remove key) ++ [.leave]) =
              { o with handles := Function.update o.handles s .closed } := by
            rw [hevents, Sockets.replay_append, Sockets.replay_append, Sockets.replay_append,
              replay_freeConnKey]
            rfl
          have hclosed : closedHandles ([.enter] ++ removeEvents (m.remove key) ++ [.leave]) = [s] := by
            rw [hevents, closedHandles_append, closedHandles_append, closedHandles_append,
              closedHandles_freeConnKey]
            rfl
          have hclose : (Connections.mk (some m) o).close key =
              ({ connectionsMap := some (m.remove key).map
                 sockets := { o with handles := Function.update o.handles s .closed } },
                [o.handles s]) := by
            simp only [Connections.close, closeConnection, hreplay, hclosed, List.map_cons,
              List.map_nil]
          exact hclose ▸ .present he hremove

theorem Connections.Pooled.close (h : c.Pooled) {r : Connections × List Handle}
    (hr : c.Evicted key r) : r.1.Pooled := by
  cases hr with
  | absent _ => exact h
  | @present _ s he hmap =>
      have hentry := hmap.entry
        { c.sockets with handles := Function.update c.sockets.handles s .closed }
      refine ⟨hentry ▸ hmap, ?_, ?_⟩
      · intro key' s' he'
        rw [hentry, Function.update_apply] at he'
        split at he'
        · cases he'
        next hne =>
            obtain ⟨hvalid, k, hs', hk⟩ := h.entries key' s' he'
            refine ⟨hvalid, k, (Function.update_of_ne ?_ ..).trans hs', hk⟩
            rintro rfl
            exact hne (h.entry_inj he' he)
      · intro s' hs'
        rw [hentry]
        have hs'' : Function.update c.sockets.handles s .closed s' ≠ .closed := hs'
        rw [Function.update_apply] at hs''
        split at hs''
        · exact absurd rfl hs''
        next hne =>
            obtain ⟨key', he'⟩ := h.opened s' hs''
            refine ⟨key', (Function.update_of_ne ?_ ..).trans he'⟩
            rintro rfl
            rw [he, Option.some.injEq] at he'
            exact hne he'.symm

end DataPropagator
