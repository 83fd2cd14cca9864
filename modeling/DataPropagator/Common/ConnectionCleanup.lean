import DataPropagator.Common.ConnectionRuns
import DataPropagator.Common.HashMapOwnership

/-!
# The pool from its initialisation to its clean-up

What a process acquires and gives back for the pool between `connections_init` and
`connections_cleanup`: the critical section, the blocks of keys and cells, and the handles of
sockets.  It is written into one ledger, where an entry or an exit of the critical section and a
`connect` are uses of what must be there.

The blocks of a call are named by its endpoint.  So are those of an entry of the map, since no
endpoint has two entries.
-/

namespace DataPropagator

/-! ## What is acquired -/

/-- What a process acquires for the pool. -/
inductive Resource where
  /-- `conn_mutex`. -/
  | connMutex
  /-- A block that was allocated for an endpoint. -/
  | block (key : ConnectionKey) (block : ConnBlock)
  | handle (s : Socket)
deriving DecidableEq, Repr

/-- What is asked for in a call for the endpoint `key`, or for an entry under it. -/
def ConnEvent.uses (key : ConnectionKey) : ConnEvent → Ledger.Event Resource
  | .enter => .write .connMutex 0 0
  | .leave => .write .connMutex 0 0
  | .malloc block => .acquire (.block key block) 0
  | .free block => .release (.block key block)
  | .socket s => .acquire (.handle s) 0
  | .connect s _ => .write (.handle s) 0 0
  | .closesocket s => .release (.handle s)

/-- What `connections_init` does beside the map. -/
def connectionsInitUses (alloc : Bool) : List (Ledger.Event Resource) :=
  if alloc then [.acquire .connMutex 0] else []

/-- What `hashmap_destroy` does to an entry. -/
def destroyUses (x : ConnectionKey × Option Socket) : List (Ledger.Event Resource) :=
  (freeConnKey ++ freeSocket x.2).map (ConnEvent.uses x.1)

/-- `connections_cleanup`. -/
def connectionsCleanup (connectionsMap : Option (HashMap ConnectionKey Socket)) :
    Option (HashMap ConnectionKey Socket) × List (Ledger.Event Resource) :=
  match connectionsMap with
  | none => (none, [.release .connMutex])
  | some m =>
      (none, (m.destroy.freedKeys.zip m.destroy.freedValues).flatMap destroyUses ++
        [.release .connMutex])

/-! ## Runs -/

/-- The endpoint of a call. -/
def ConnectionCall.key : ConnectionCall → ConnectionKey
  | .getOrCreate key _ => key
  | .close key => key

/-- What a call asks for. -/
def Connections.events (c : Connections) : ConnectionCall → List ConnEvent
  | .getOrCreate key env =>
      (getOrCreateConnection c.connectionsMap key.address key.port env).events
  | .close key => (closeConnection c.connectionsMap key.address key.port).2

/-- The pool of a process, and everything that was done for it. -/
structure PoolLife where
  connections : Connections
  done : List (Ledger.Event Resource)

/-- After `connections_init`. -/
def PoolLife.init (alloc : Bool) : PoolLife where
  connections := .init alloc
  done := connectionsInitUses alloc

/-- A call. -/
def PoolLife.call (p : PoolLife) (a : ConnectionCall) : Option PoolLife :=
  (p.connections.call a).map fun c =>
    { connections := c
      done := p.done ++ (p.connections.events a).map (ConnEvent.uses a.key) }

/-- Everything that is done for the pool when `connections_cleanup` is called now. -/
def PoolLife.whole (p : PoolLife) : List (Ledger.Event Resource) :=
  p.done ++ (connectionsCleanup p.connections.connectionsMap).2

/-! ## What the pool holds -/

/-- The blocks of an entry. -/
def ConnBlock.stored : ConnBlock → Bool
  | .newKey | .newAddress | .socketCell => true
  | .tempKey | .tempAddress => false

/-- What is held between calls. -/
def Connections.holds (c : Connections) : Resource → Option Nat
  | .connMutex => some 0
  | .block key block => if (c.entry key).isSome && block.stored then some 0 else none
  | .handle s => if c.sockets.handles s = .closed then none else some 0

/-- What one call can name. -/
inductive CallResource where
  | connMutex
  | block (block : ConnBlock)
  | handle
deriving DecidableEq, Repr

/-- What it names in a call for an endpoint that opens or closes the socket `s`. -/
def CallResource.toResource (key : ConnectionKey) (s : Socket) : CallResource → Resource
  | .connMutex => .connMutex
  | .block b => .block key b
  | .handle => .handle s

/-- What is asked for, seen from the call. -/
def ConnEvent.localUses : ConnEvent → Ledger.Event CallResource
  | .enter => .write .connMutex 0 0
  | .leave => .write .connMutex 0 0
  | .malloc block => .acquire (.block block) 0
  | .free block => .release (.block block)
  | .socket _ => .acquire .handle 0
  | .connect _ _ => .write .handle 0 0
  | .closesocket _ => .release .handle

/-- The blocks of an entry. -/
def entryBlocks : List (CallResource × Nat) :=
  [(.block .socketCell, 0), (.block .newAddress, 0), (.block .newKey, 0)]

/-- What is held at the start of a call, when its own socket is not open. -/
def heldBefore (entry : Option Socket) : List (CallResource × Nat) :=
  if entry.isSome then entryBlocks ++ [(.connMutex, 0)] else [(.connMutex, 0)]

/-- What is held when there is an entry with the socket of the call. -/
def heldOpen : List (CallResource × Nat) := entryBlocks ++ [(.handle, 0), (.connMutex, 0)]

theorem toResource_injective (key : ConnectionKey) (s : Socket) :
    Function.Injective (CallResource.toResource key s) := by
  intro a b h
  cases a <;> cases b <;> simp_all [CallResource.toResource]

/-- The requests lead from one local ledger to another. -/
structure RunsLocally (key : ConnectionKey) (s : Socket) (es : List ConnEvent)
    (held held' : List (CallResource × Nat)) : Prop where
  named : es.map (ConnEvent.uses key) =
    (es.map ConnEvent.localUses).map (Ledger.Event.map (CallResource.toResource key s))
  exec : Machine.exec Ledger.step held (es.map ConnEvent.localUses) = some held'

/-- The requests of a call are served among everything that is held for other endpoints. -/
theorem RunsLocally.frame {key : ConnectionKey} {s : Socket} {es : List ConnEvent}
    {held held' : List (CallResource × Nat)} {live : List (Resource × Nat)}
    (h : RunsLocally key s es held held')
    (hagrees : Ledger.Agrees (CallResource.toResource key s) held live) :
    ∃ live', Machine.exec Ledger.step live (es.map (ConnEvent.uses key)) = some live' ∧
      Ledger.Agrees (CallResource.toResource key s) held' live' ∧
      (∀ key' block, key' ≠ key →
        live'.lookup (.block key' block) = live.lookup (.block key' block)) ∧
      ∀ s', s' ≠ s → live'.lookup (.handle s') = live.lookup (.handle s') := by
  obtain ⟨live', hexec, hagrees', hout⟩ :=
    Ledger.exec_frame (toResource_injective key s) h.exec hagrees
  refine ⟨live', h.named ▸ hexec, hagrees', ?_, ?_⟩
  · intro key' block hne
    refine hout _ ?_
    rintro (_ | _ | _) heq <;> cases heq
    exact hne rfl
  · intro s' hne
    refine hout _ ?_
    rintro (_ | _ | _) heq <;> cases heq
    exact hne rfl

/-! ## The calls -/

section Calls

variable {c c' : Connections} {m : HashMap ConnectionKey Socket} {key : ConnectionKey}
  {env : ConnectEnv} {s : Socket}

/-- What a call of `get_or_create_connection` does, by what it returns. -/
def GotLocally (key : ConnectionKey) (s : Socket) (entry : Option Socket) (r : ConnResult) : Prop :=
  RunsLocally key s r.events (heldBefore entry)
    (if entry = none ∧ r.ret ≠ invalidSocket then heldOpen else heldBefore entry)

theorem GotLocally.failed {entry : Option Socket} {events cleanup : List ConnEvent}
    (h : RunsLocally key s (events ++ cleanup ++ [.leave]) (heldBefore entry) (heldBefore entry)) :
    GotLocally key s entry (connectionFailed m events cleanup) := by
  rw [GotLocally, if_neg fun hret => hret.2 rfl]
  exact h

theorem createConnection_locally
    (hput : putEvents (m.put key (some env.socket) env.put) = []) :
    GotLocally key env.socket none (createConnection m key env
      [.enter, .malloc .tempKey, .malloc .tempAddress, .free .tempAddress, .free .tempKey]) := by
  rw [createConnection]
  split
  · exact .failed ⟨rfl, rfl⟩
  next hsocket =>
      split
      · exact .failed ⟨rfl, rfl⟩
      split
      · exact .failed ⟨rfl, rfl⟩
      split
      · exact .failed ⟨rfl, rfl⟩
      split
      · exact .failed ⟨rfl, rfl⟩
      simp only [hput, List.append_nil]
      split
      · exact .failed ⟨rfl, rfl⟩
      · rw [GotLocally, if_pos ⟨rfl, hsocket⟩]
        exact ⟨rfl, rfl⟩

theorem Connections.Pooled.getOrCreate_locally (h : c.Pooled)
    (hstores : Stores (some m) c.entry) (key : ConnectionKey) (env : ConnectEnv) :
    GotLocally key env.socket (c.entry key)
      (getOrCreateConnection (some m) key.address key.port env) := by
  simp only [getOrCreateConnection, h.lookup_valid hstores]
  split
  · refine .failed ⟨rfl, ?_⟩
    cases c.entry key <;> rfl
  split
  · refine .failed ⟨rfl, ?_⟩
    cases c.entry key <;> rfl
  split
  next s he =>
      rw [he, GotLocally, if_neg fun hret => Option.some_ne_none s hret.1]
      exact ⟨rfl, rfl⟩
  next hnone =>
      rw [hnone]
      exact createConnection_locally (hstores.put hnone env.socket env.put).1

theorem lookup_heldBefore (hclosed : c.sockets.handles s = .closed) (b : CallResource) :
    (heldBefore (c.entry key)).lookup b = c.holds (b.toResource key s) := by
  rw [heldBefore]
  cases b with
  | connMutex => split <;> rfl
  | block b =>
      rw [CallResource.toResource, Connections.holds]
      cases (c.entry key).isSome <;> cases b <;> rfl
  | handle =>
      rw [CallResource.toResource, Connections.holds, if_pos hclosed]
      split <;> rfl

theorem lookup_heldOpen (he : (c.entry key).isSome) (hopen : c.sockets.handles s ≠ .closed)
    (b : CallResource) : heldOpen.lookup b = c.holds (b.toResource key s) := by
  cases b with
  | connMutex => rfl
  | block b =>
      rw [CallResource.toResource, Connections.holds, he]
      cases b <;> rfl
  | handle => rw [CallResource.toResource, Connections.holds, if_neg hopen]; rfl

/-- A call that changes the pool at its endpoint and at its socket only. -/
theorem RunsLocally.holds {es : List ConnEvent} {held held' : List (CallResource × Nat)}
    {live : List (Resource × Nat)} (h : RunsLocally key s es held held')
    (hlive : ∀ r, live.lookup r = c.holds r)
    (hheld : ∀ b : CallResource, held.lookup b = c.holds (b.toResource key s))
    (hheld' : ∀ b : CallResource, held'.lookup b = c'.holds (b.toResource key s))
    (hentry : ∀ key', key' ≠ key → c'.entry key' = c.entry key')
    (hhandles : ∀ s', s' ≠ s → c'.sockets.handles s' = c.sockets.handles s') :
    ∃ live', Machine.exec Ledger.step live (es.map (ConnEvent.uses key)) = some live' ∧
      ∀ r, live'.lookup r = c'.holds r := by
  obtain ⟨live', hexec, hagrees, hblocks, hsockets⟩ :=
    h.frame fun b => (hlive _).trans (hheld b).symm
  have hown (b : CallResource) : live'.lookup (b.toResource key s) = c'.holds (b.toResource key s) :=
    (hagrees b).trans (hheld' b)
  refine ⟨live', hexec, ?_⟩
  intro r
  cases r with
  | connMutex => exact hown .connMutex
  | block key' block =>
      rcases eq_or_ne key' key with rfl | hne
      · exact hown (.block block)
      · rw [hblocks key' block hne, hlive, Connections.holds, Connections.holds, hentry key' hne]
  | handle s' =>
      rcases eq_or_ne s' s with rfl | hne
      · exact hown .handle
      · rw [hsockets s' hne, hlive, Connections.holds, Connections.holds, hhandles s' hne]

theorem Connections.Pooled.holds_getOrCreate (h : c.Pooled) {live : List (Resource × Nat)}
    (hmap : c.connectionsMap = some m) (hlive : ∀ r, live.lookup r = c.holds r)
    (hg : c.getOrCreate key env = some (c', s)) :
    ∃ live', Machine.exec Ledger.step live
      ((c.events (.getOrCreate key env)).map (ConnEvent.uses key)) = some live' ∧
      ∀ r, live'.lookup r = c'.holds r := by
  have hstores := h.stores
  have hgot := h.got hg
  rw [hmap] at hstores
  have hlocal := h.getOrCreate_locally hstores key env
  rw [Connections.getOrCreate] at hg
  split at hg
  next hclosed =>
      rw [Option.some.injEq, Prod.mk.injEq, hmap] at hg
      rw [Connections.events, hmap]
      generalize getOrCreateConnection (some m) key.address key.port env = r at hlocal hg ⊢
      have hret : r.ret = s := hg.2
      rw [GotLocally, hret] at hlocal
      have hbefore : ∀ b : CallResource,
          (heldBefore (c.entry key)).lookup b = c.holds (b.toResource key env.socket) :=
        lookup_heldBefore hclosed
      cases hgot with
      | reused he =>
          rw [if_neg fun hret => by rw [he] at hret; exact Option.some_ne_none _ hret.1] at hlocal
          exact hlocal.holds hlive hbefore hbefore (fun _ _ => rfl) fun _ _ => rfl
      | opened hnone henv _ hstores' =>
          simp only [ConnectEnv.connects, Bool.and_eq_true, bne_iff_ne] at henv
          rw [if_pos ⟨hnone, henv.1⟩] at hlocal
          have hentry := hstores'.entry (c.sockets.opened env.socket key)
          refine hlocal.holds hlive hbefore (lookup_heldOpen ?_ ?_) ?_ ?_
          · rw [hentry, Function.update_self]
            rfl
          · exact ((Function.update_self ..).trans_ne Handle.noConfusion)
          · intro key' hne
            rw [hentry, Function.update_of_ne hne]
          · exact fun s' hne => Function.update_of_ne hne ..
      | @failed _ conns hstores' _ =>
          rw [if_neg fun hret => hret.2 rfl] at hlocal
          have hentry := hstores'.entry { c.sockets with conns }
          refine hlocal.holds hlive hbefore ?_ ?_ fun _ _ => rfl
          · rw [← congrFun hentry key]
            exact lookup_heldBefore hclosed
          · exact fun key' _ => congrFun hentry key'
  next => cases hg

theorem removeEvents_present (howner : m.Owner) (hstores : Stores (some m) c.entry)
    (he : c.entry key = some s) :
    removeEvents (m.remove key) = freeConnKey ++ freeSocket (some s) := by
  have hlookup : m.lookup key = some (some s) := by
    rw [hstores.lookup, he]
    rfl
  rw [HashMap.lookup] at hlookup
  obtain ⟨node, hfind, hvalue⟩ := Option.map_eq_some_iff.mp hlookup
  simp [removeEvents, HashMap.remove, hfind, howner.freesKeys, howner.freesValues, hvalue]

theorem Connections.Pooled.holds_close (h : c.Pooled) (howner : m.Owner)
    {live : List (Resource × Nat)} (hmap : c.connectionsMap = some m)
    (hlive : ∀ r, live.lookup r = c.holds r) :
    ∃ live', Machine.exec Ledger.step live
      ((c.events (.close key)).map (ConnEvent.uses key)) = some live' ∧
      ∀ r, live'.lookup r = (c.close key).1.holds r := by
  have hstores := h.stores
  rw [hmap] at hstores
  have hmutex : live.lookup .connMutex = some 0 := hlive .connMutex
  rw [Connections.events, hmap]
  have hevicted := h.evicted key
  generalize c.close key = closed at hevicted ⊢
  cases hevicted with
  | absent hnone =>
      have hfind : m.findNode key = none := by
        rw [HashMap.findNode_eq_none_iff, hstores.lookup, hnone]
        rfl
      have hevents : (closeConnection (some m) key.address key.port).2 = [.enter, .leave] := by
        have hsame : m.remove key = { map := m, ret := false } := by simp [HashMap.remove, hfind]
        simp only [closeConnection, hsame]
        rfl
      refine ⟨live, ?_, hlive⟩
      rw [hevents, List.map_cons, List.map_cons, ConnEvent.uses, ConnEvent.uses,
        Ledger.exec_write hmutex (Nat.zero_le _), Ledger.exec_write hmutex (Nat.zero_le _)]
      rfl
  | @present connectionsMap s he hstores' =>
      obtain ⟨hs, k, hk, _⟩ := h.entries key s he
      have hevents : (closeConnection (some m) key.address key.port).2 =
          [.enter] ++ (freeConnKey ++ freeSocket (some s)) ++ [.leave] := by
        rw [closeConnection]
        exact congrArg (fun es => [.enter] ++ es ++ [.leave])
          (removeEvents_present howner hstores he)
      have hopen : c.sockets.handles s ≠ .closed := by
        rw [hk]
        exact Handle.noConfusion
      have hlocal : RunsLocally key s
          ([.enter] ++ (freeConnKey ++ freeSocket (some s)) ++ [.leave]) heldOpen
          (heldBefore none) := by
        rw [freeSocket, if_pos hs]
        exact ⟨rfl, rfl⟩
      have hentry := hstores'.entry
        { c.sockets with handles := Function.update c.sockets.handles s .closed }
      rw [hevents]
      refine hlocal.holds hlive (lookup_heldOpen (by rw [he]; rfl) hopen) ?_ ?_ ?_
      · have hnone := congrFun hentry key
        rw [Function.update_self] at hnone
        rw [← hnone]
        exact lookup_heldBefore (Function.update_self ..)
      · intro key' hne
        rw [hentry, Function.update_of_ne hne]
      · exact fun s' hne => Function.update_of_ne hne ..

theorem getOrCreateConnection_map (key : ConnectionKey) (env : ConnectEnv) :
    let r := getOrCreateConnection (some m) key.address key.port env
    r.connectionsMap = some m ∨
      r.connectionsMap = some (m.put key (some env.socket) env.put).map := by
  simp only [getOrCreateConnection, createConnection]
  split
  · exact Or.inl rfl
  split
  · exact Or.inl rfl
  split
  · exact Or.inl rfl
  split
  · exact Or.inl rfl
  split
  · exact Or.inl rfl
  split
  · exact Or.inl rfl
  split
  · exact Or.inl rfl
  split
  · exact Or.inl rfl
  split <;> exact Or.inr rfl

/-- Every call leaves a map, and `hashmap_destroy` frees the entries of every map. -/
theorem Connections.owner_call (howner : m.Owner) (hmap : c.connectionsMap = some m)
    {a : ConnectionCall} (ha : c.call a = some c') :
    ∃ m', c'.connectionsMap = some m' ∧ m'.Owner := by
  cases a with
  | getOrCreate key env =>
      obtain ⟨⟨c'', s⟩, hg, rfl⟩ := Option.map_eq_some_iff.mp ha
      rw [Connections.getOrCreate] at hg
      split at hg
      next =>
          rw [Option.some.injEq, Prod.mk.injEq] at hg
          rw [← hg.1, hmap]
          rcases getOrCreateConnection_map (m := m) key env with hsame | hput
          · exact ⟨m, hsame, howner⟩
          · exact ⟨_, hput, (howner.conserves (.put (some key) (some env.socket) env.put)).owner⟩
      next => cases hg
  | close key =>
      cases Option.some.inj ha
      rw [Connections.close, hmap]
      exact ⟨_, rfl, (howner.conserves (.remove (some key))).owner⟩

/-! ## The clean-up -/

/-- What is held when these entries are left. -/
def leftWith (xs : List (ConnectionKey × Socket)) : Resource → Option Nat
  | .connMutex => some 0
  | .block key block => if key ∈ xs.map Prod.fst ∧ block.stored = true then some 0 else none
  | .handle s => if s ∈ xs.map Prod.snd then some 0 else none

/-- One entry of `hashmap_destroy`. -/
theorem destroy_entry {xs : List (ConnectionKey × Socket)} {live : List (Resource × Nat)}
    (hkey : key ∉ xs.map Prod.fst) (hsocket : s ∉ xs.map Prod.snd) (hs : s ≠ invalidSocket)
    (hlive : ∀ r, live.lookup r = leftWith ((key, s) :: xs) r) :
    ∃ live', Machine.exec Ledger.step live (destroyUses (key, some s)) = some live' ∧
      ∀ r, live'.lookup r = leftWith xs r := by
  have hlocal : RunsLocally key s (freeConnKey ++ freeSocket (some s)) heldOpen
      (heldBefore none) := by
    rw [freeSocket, if_pos hs]
    exact ⟨rfl, rfl⟩
  have hagrees : Ledger.Agrees (CallResource.toResource key s) heldOpen live := by
    intro b
    rw [hlive]
    cases b with
    | connMutex => rfl
    | block b => cases b <;> simp [CallResource.toResource, leftWith, ConnBlock.stored] <;> rfl
    | handle => simp [CallResource.toResource, leftWith]; rfl
  obtain ⟨live', hexec, hagrees', hblocks, hhandles⟩ := hlocal.frame hagrees
  refine ⟨live', hexec, ?_⟩
  intro r
  cases r with
  | connMutex => exact hagrees' .connMutex
  | block key' block =>
      rcases eq_or_ne key' key with rfl | hne
      · rw [leftWith, if_neg fun hmem => hkey hmem.1]
        exact hagrees' (.block block)
      · rw [hblocks key' block hne, hlive]
        simp only [leftWith, List.map_cons, List.mem_cons, hne, false_or]
  | handle s' =>
      rcases eq_or_ne s' s with rfl | hne
      · rw [leftWith, if_neg hsocket]
        exact hagrees' .handle
      · rw [hhandles s' hne, hlive]
        simp only [leftWith, List.map_cons, List.mem_cons, hne, false_or]

theorem destroy_entries {xs : List (ConnectionKey × Socket)} {live : List (Resource × Nat)}
    (hkeys : (xs.map Prod.fst).Nodup) (hsockets : (xs.map Prod.snd).Nodup)
    (hs : invalidSocket ∉ xs.map Prod.snd) (hlive : ∀ r, live.lookup r = leftWith xs r) :
    ∃ live', Machine.exec Ledger.step live (xs.flatMap fun x => destroyUses (x.1, some x.2)) =
      some live' ∧ ∀ r, live'.lookup r = leftWith [] r := by
  induction xs generalizing live with
  | nil => exact ⟨live, rfl, hlive⟩
  | cons x xs ih =>
      obtain ⟨key, s⟩ := x
      rw [List.map_cons, List.nodup_cons] at hkeys hsockets
      rw [List.map_cons, List.mem_cons, not_or] at hs
      obtain ⟨live₁, hexec₁, hlive₁⟩ :=
        destroy_entry hkeys.1 hsockets.1 (Ne.symm hs.1) hlive
      obtain ⟨live', hexec, hlive'⟩ := ih hkeys.2 hsockets.2 hs.2 hlive₁
      refine ⟨live', ?_, hlive'⟩
      rw [List.flatMap_cons, Machine.exec_append, hexec₁, Option.bind_some, hexec]

/-- The entries of the map. -/
def HashMap.entries (m : HashMap ConnectionKey Socket) : List (ConnectionKey × Socket) :=
  m.nodes.map fun node => (node.key, node.value.getD invalidSocket)

theorem Connections.Pooled.entries_values (h : c.Pooled) (hmap : c.connectionsMap = some m) :
    m.entries.map (fun x => (x.1, some x.2)) =
      m.nodes.map fun node => (node.key, node.value) := by
  rw [HashMap.entries, List.map_map]
  refine List.map_congr_left ?_
  intro node hnode
  have hmem : node ∈ c.nodes := by
    rw [Connections.nodes, hmap]
    exact hnode
  obtain ⟨s, hs, _⟩ := h.node_value hmem
  rw [Function.comp, hs]
  rfl

theorem Connections.Pooled.mem_entries (h : c.Pooled) (hmap : c.connectionsMap = some m) :
    (key, s) ∈ m.entries ↔ c.entry key = some s := by
  have hnodes : c.nodes = m.nodes := by rw [Connections.nodes, hmap]
  have hsome : Function.Injective fun x : ConnectionKey × Socket => (x.1, some x.2) := by
    rintro ⟨_, _⟩ ⟨_, _⟩ heq
    cases heq
    rfl
  rw [← h.node_iff, ← List.mem_map_of_injective hsome, h.entries_values hmap, hnodes]
  simp

/-- What is held between calls is what the entries hold, and the critical section. -/
theorem Connections.Pooled.holds_eq (h : c.Pooled) (hmap : c.connectionsMap = some m)
    (r : Resource) : c.holds r = leftWith m.entries r := by
  cases r with
  | connMutex => rfl
  | block key block =>
      have hkey : (c.entry key).isSome = true ↔ key ∈ m.entries.map Prod.fst := by
        rw [Option.isSome_iff_exists, List.mem_map]
        constructor
        · rintro ⟨s, hs⟩
          exact ⟨(key, s), (h.mem_entries hmap).mpr hs, rfl⟩
        · rintro ⟨⟨key, s⟩, hmem, rfl⟩
          exact ⟨s, (h.mem_entries hmap).mp hmem⟩
      exact if_congr (by rw [Bool.and_eq_true, hkey]) rfl rfl
  | handle s =>
      have hopen : c.sockets.handles s ≠ .closed ↔ s ∈ m.entries.map Prod.snd := by
        rw [List.mem_map]
        constructor
        · intro hs
          obtain ⟨key, he⟩ := h.opened s hs
          exact ⟨(key, s), (h.mem_entries hmap).mpr he, rfl⟩
        · rintro ⟨⟨key, s⟩, hmem, rfl⟩
          obtain ⟨_, k, hk, _⟩ := h.entries key s ((h.mem_entries hmap).mp hmem)
          rw [hk]
          exact Handle.noConfusion
      rw [Connections.holds, leftWith, ← ite_not, if_congr hopen rfl rfl]

theorem Connections.Pooled.cleanup (h : c.Pooled) (hmap : c.connectionsMap = some m)
    (howner : m.Owner) {live : List (Resource × Nat)} (hlive : ∀ r, live.lookup r = c.holds r) :
    Machine.exec Ledger.step live (connectionsCleanup c.connectionsMap).2 = some [] := by
  have hnodes : c.nodes = m.nodes := by rw [Connections.nodes, hmap]
  have hvalues := h.entries_values hmap
  have hfst : m.entries.map Prod.fst = c.nodes.map HashNode.key := by
    rw [hnodes, HashMap.entries, List.map_map]
    rfl
  have hsnd : (m.entries.map Prod.snd).map some = c.nodes.map HashNode.value := by
    have hmapped := congrArg (List.map Prod.snd) hvalues
    rw [List.map_map, List.map_map, ← hnodes] at hmapped
    rw [List.map_map]
    exact hmapped
  have hinvalid : invalidSocket ∉ m.entries.map Prod.snd := by
    rw [List.mem_map]
    rintro ⟨⟨key, s⟩, hmem, hs⟩
    exact (h.entries key s ((h.mem_entries hmap).mp hmem)).1 hs
  have hzip : m.destroy.freedKeys.zip m.destroy.freedValues =
      m.entries.map fun x => (x.1, some x.2) := by
    rw [howner.destroy_eq, HashMap.keys, List.zip_map', hvalues]
  obtain ⟨live', hexec, hlive'⟩ := destroy_entries (hfst ▸ h.keys_nodup)
    (List.Nodup.of_map some (hsnd ▸ h.values_nodup)) hinvalid
    fun r => (hlive r).trans (h.holds_eq hmap r)
  have hempty : (live'.filter fun x => x.1 != Resource.connMutex) = [] := by
    refine Ledger.eq_nil_of_lookup fun r => ?_
    rw [Ledger.lookup_filter_ne, hlive']
    cases r <;> simp [leftWith]
  simp only [hmap, connectionsCleanup, hzip, List.flatMap_map]
  rw [Machine.exec_append, hexec, Option.bind_some, Ledger.exec_release (hlive' .connMutex), hempty]
  rfl

end Calls

/-! ## A whole life -/

/-- What holds between calls after a `connections_init` that got its map. -/
structure PoolLife.Kept (p : PoolLife) : Prop where
  pooled : p.connections.Pooled
  map : ∃ m, p.connections.connectionsMap = some m ∧ m.Owner
  ledger : ∃ live, Machine.exec Ledger.step [] p.done = some live ∧
    ∀ r, live.lookup r = p.connections.holds r

theorem PoolLife.init_kept : (PoolLife.init true).Kept where
  pooled := Connections.init_pooled true
  map := ⟨_, rfl, ⟨List.length_replicate, by decide⟩, rfl, rfl⟩
  ledger := by
    refine ⟨_, rfl, ?_⟩
    have hentry := (connectionsInit_stores true).entry .init
    intro r
    cases r with
    | connMutex => rfl
    | block key block =>
        rw [Connections.holds, PoolLife.init, Connections.init, hentry]
        rfl
    | handle s => rfl

theorem PoolLife.Kept.call {p p' : PoolLife} (h : p.Kept) {a : ConnectionCall}
    (ha : p.call a = some p') : p'.Kept := by
  obtain ⟨c', hc, rfl⟩ := Option.map_eq_some_iff.mp ha
  obtain ⟨m, hmap, howner⟩ := h.map
  obtain ⟨live, hexec, hlive⟩ := h.ledger
  have hrun : ∃ live', Machine.exec Ledger.step live
      ((p.connections.events a).map (ConnEvent.uses a.key)) = some live' ∧
      ∀ r, live'.lookup r = c'.holds r := by
    cases a with
    | getOrCreate key env =>
        obtain ⟨⟨c'', s⟩, hg, rfl⟩ := Option.map_eq_some_iff.mp hc
        exact h.pooled.holds_getOrCreate hmap hlive hg
    | close key =>
        cases Option.some.inj hc
        exact h.pooled.holds_close howner hmap hlive
  obtain ⟨live', hexec', hlive'⟩ := hrun
  refine ⟨h.pooled.call hc, Connections.owner_call howner hmap hc, live', ?_, hlive'⟩
  rw [Machine.exec_append, hexec, Option.bind_some, hexec']

/-- Nothing but `connections_init` initialises the critical section. -/
theorem acquired_connMutex_uses (key : ConnectionKey) (es : List ConnEvent) :
    Ledger.acquired Resource.connMutex (es.map (ConnEvent.uses key)) = 0 := by
  induction es with
  | nil => rfl
  | cons e es ih => cases e <;> simpa [ConnEvent.uses, Ledger.acquired] using ih

theorem acquired_append (r : Resource) (es es' : List (Ledger.Event Resource)) :
    Ledger.acquired r (es ++ es') = Ledger.acquired r es + Ledger.acquired r es' := by
  rw [Ledger.acquired_eq_count, Ledger.acquisitions_append, List.count_append,
    ← Ledger.acquired_eq_count, ← Ledger.acquired_eq_count]

/-- After a `connections_init` that got no map there is none, and no critical section. -/
theorem PoolLife.call_without_map {p p' : PoolLife} {a : ConnectionCall}
    (h : p.connections.connectionsMap = none ∧ Ledger.acquired .connMutex p.done = 0)
    (ha : p.call a = some p') :
    p'.connections.connectionsMap = none ∧ Ledger.acquired .connMutex p'.done = 0 := by
  obtain ⟨c', hc, rfl⟩ := Option.map_eq_some_iff.mp ha
  obtain ⟨hmap, hacquired⟩ := h
  refine ⟨?_, by rw [acquired_append, hacquired, acquired_connMutex_uses]⟩
  cases a with
  | getOrCreate key env =>
      obtain ⟨⟨c'', s⟩, hg, rfl⟩ := Option.map_eq_some_iff.mp hc
      rw [Connections.getOrCreate] at hg
      split at hg
      next =>
          rw [Option.some.injEq, Prod.mk.injEq, hmap] at hg
          exact hg.1 ▸ rfl
      next => cases hg
  | close key =>
      cases Option.some.inj hc
      rw [Connections.close, hmap]
      rfl

/-- From `connections_init` through any calls of `get_or_create_connection` and `close_connection`,
whatever fails in them, to `connections_cleanup`: if and only if `connections_init` got its map,
nothing is used, freed, closed or deleted that is not there, nothing is left in the end, and every
block, every socket and the critical section are given back as often as they are acquired. -/
theorem connections_given_back_iff {alloc : Bool} {p : PoolLife}
    (h : Machine.Reachable PoolLife.call (.init alloc) p) :
    (Machine.exec Ledger.step [] p.whole = some [] ↔ alloc = true) ∧
      (alloc = true → ∀ r, Ledger.acquired r p.whole = Ledger.released r p.whole) := by
  have hclean (halloc : alloc = true) : Machine.exec Ledger.step [] p.whole = some [] := by
    subst halloc
    have hkept := h.invariant PoolLife.init_kept fun _ _ _ hk ha => hk.call ha
    obtain ⟨m, hmap, howner⟩ := hkept.map
    obtain ⟨live, hexec, hlive⟩ := hkept.ledger
    rw [PoolLife.whole, Machine.exec_append, hexec, Option.bind_some]
    exact hkept.pooled.cleanup hmap howner hlive
  refine ⟨⟨?_, hclean⟩, fun halloc r => Ledger.acquired_eq_released (hclean halloc) rfl⟩
  intro hexec
  cases alloc with
  | true => rfl
  | false =>
      -- the critical section is deleted and was never initialised
      obtain ⟨hmap, hacquired⟩ := h.invariant ⟨rfl, rfl⟩ fun _ _ _ hp ha =>
        PoolLife.call_without_map hp ha
      rw [PoolLife.whole, hmap, connectionsCleanup, Machine.exec_append] at hexec
      obtain ⟨live, hdone, hdelete⟩ := Option.bind_eq_some_iff.mp hexec
      have hbalance := Ledger.balance Resource.connMutex hdone
      have hheld : Ledger.held live Resource.connMutex = 1 := by
        rw [Machine.exec, Ledger.step] at hdelete
        rw [Ledger.held]
        split at hdelete
        next hlive => rw [if_pos hlive]
        next => cases hdelete
      rw [hacquired, hheld] at hbalance
      simp [Ledger.held] at hbalance

theorem connections_given_back_iff_local :
    ∃ p, Machine.exec PoolLife.call (.init true) localCalls = some p ∧
      Machine.exec Ledger.step [] p.whole = some [] := by
  have hrun : (Machine.exec PoolLife.call (.init true) localCalls).isSome := by decide +kernel
  obtain ⟨p, hp⟩ := Option.isSome_iff_exists.mp hrun
  exact ⟨p, hp, (connections_given_back_iff (Machine.exec_reachable hp)).1.mpr rfl⟩

end DataPropagator
