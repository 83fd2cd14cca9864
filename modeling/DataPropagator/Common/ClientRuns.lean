import DataPropagator.Common.PropagatorConnections
import DataPropagator.Common.WireCodec
import DataPropagator.Lib.Machine

/-!
# Concurrent senders

Any number of calls of `send_warning_to` that share the pooled connections.  A call takes
three steps.  It looks its socket up under `conn_mutex`, it sends on it outside, and after
a failed send it evicts the connection of its endpoint, under `conn_mutex` again.  Between
its steps other calls may close the socket, and the system may hand its handle out again.

A call keeps a history: what its handle referred to when it called `send`, and what the
handles referred to that its `close_connection` closed.  `AtHome` is what a call may
expect, and `Orderly` is the condition on the schedule under which every call is at home.
-/

namespace DataPropagator

/-! ## The system -/

/-- Where a call of `send_warning_to` is. -/
inductive CallPc where
  /-- Before `get_or_create_connection`. -/
  | connecting
  /-- Before `send`, with the socket it was given. -/
  | sending (s : Socket)
  /-- Before `close_connection`. -/
  | evicting
  | returned (ret : Bool)
deriving DecidableEq, Repr

/-- A call of `send_warning_to` with its history. -/
structure ClientCall where
  endpoint : ConnectionKey
  warning : Warning
  pc : CallPc
  /-- What the handle referred to when `send` was called. -/
  sentOn : Option Handle
  /-- How many bytes `send` took. -/
  taken : Nat
  /-- What the handles referred to that `close_connection` closed. -/
  closed : List Handle
deriving DecidableEq, Repr

/-- A call that has just been made. -/
def ClientCall.start (endpoint : ConnectionKey) (w : Warning) : ClientCall where
  endpoint := endpoint
  warning := w
  pc := .connecting
  sentOn := none
  taken := 0
  closed := []

/-- The calls and what they share. -/
structure Client where
  connections : Connections
  calls : List ClientCall

/-- After `connections_init`, before any call. -/
def Client.init (alloc : Bool) : Client where
  connections := .init alloc
  calls := []

/-- A step of the system. -/
inductive ClientAction where
  /-- Some thread calls `send_warning_to`. -/
  | call (endpoint : ConnectionKey) (w : Warning)
  /-- Call `i` gets a connection or creates one. -/
  | connect (i : Nat) (env : ConnectEnv)
  /-- Call `i` sends.  The arguments say whether its buffer is allocated and how many
  bytes `send` takes, `none` when it fails. -/
  | send (i : Nat) (alloc : Bool) (taken : Option Nat)
  /-- Call `i` closes the connection of its endpoint. -/
  | evict (i : Nat)

/-- What `send` returns.  `SOCKET_ERROR` is −1. -/
def sendResult (taken : Option Nat) : Int :=
  match taken with
  | none => -1
  | some k => k

/-- Bytes are appended to a connection. -/
def Sockets.append (o : Sockets) (k : Nat) (w : Warning) (bytes : Bytes) : Sockets :=
  { o with
    conns := o.conns.modify k fun conn =>
      { conn with stream := conn.stream ++ bytes, senders := conn.senders ++ [w] } }

/-- `send`.  It takes bytes only on a handle that is connected, and no more than it was
given. -/
def Sockets.send (o : Sockets) (s : Socket) (w : Warning) (buf : Bytes) (n : Int) :
    Option Nat → Option Sockets
  | none => some o
  | some taken =>
      match o.handles s with
      | .connected k => if taken ≤ n then some (o.append k w (buf.take taken)) else none
      | _ => none

/-- A call that was given a socket, or `INVALID_SOCKET`. -/
def ClientCall.connected (c : ClientCall) (s : Socket) : ClientCall :=
  { c with pc := if s = invalidSocket then .returned false else .sending s }

/-- One step. -/
def Client.step (s : Client) : ClientAction → Option Client
  | .call endpoint w => some { s with calls := s.calls ++ [.start endpoint w] }
  | .connect i env =>
      s.calls[i]?.bind fun c =>
        if c.pc = .connecting then
          (s.connections.getOrCreate c.endpoint env).map fun r =>
            { connections := r.1, calls := s.calls.set i (c.connected r.2) }
        else none
  | .send i alloc taken =>
      s.calls[i]?.bind fun c =>
        match c.pc with
        | .sending h =>
            let o := s.connections.sockets
            let call := sendWarningTo true alloc (fun _ _ => sendResult taken) c.warning
            let pc := if call.evicts then .evicting else .returned call.ret
            match call.sent with
            | none => some { s with calls := s.calls.set i { c with pc } }
            | some (buf, n) =>
                (o.send h c.warning buf n taken).map fun sockets =>
                  { connections := { s.connections with sockets }
                    calls := s.calls.set i
                      { c with pc, sentOn := some (o.handles h), taken := taken.getD 0 } }
        | _ => none
  | .evict i =>
      s.calls[i]?.bind fun c =>
        if c.pc = .evicting then
          let r := s.connections.close c.endpoint
          some
            { connections := r.1
              calls := s.calls.set i { c with pc := .returned false, closed := r.2 } }
        else none

/-! ## What a call may expect -/

/-- The call sent on an open socket of a connection to its endpoint, and its
`close_connection` closed no socket but that one. -/
structure ClientCall.AtHome (c : ClientCall) (o : Sockets) : Prop where
  sent : ∀ h, c.sentOn = some h → ∃ k, h = .connected k ∧ o.endpoint k = some c.endpoint
  closed : ∀ h ∈ c.closed, h ≠ .closed → c.sentOn = some h

/-- The call has a socket and has not sent on it. -/
def ClientCall.isSending (c : ClientCall) : Bool :=
  match c.pc with
  | .sending _ => true
  | _ => false

/-- The schedules on which every call is at home.  A connection is made to an endpoint
only while no call waits to evict that endpoint, and an endpoint is evicted only while no
call has a socket for it that it has still to send on. -/
def Client.Orderly (s : Client) : ClientAction → Prop
  | .connect i env => ∀ c ∈ s.calls[i]?, s.connections.entry c.endpoint = none →
      env.connects = true → ∀ d ∈ s.calls, d.endpoint = c.endpoint → d.pc ≠ .evicting
  | .evict i => ∀ c ∈ s.calls[i]?, ∀ d ∈ s.calls, d.endpoint = c.endpoint → d.isSending = false
  | _ => True

instance Client.decidableOrderly (s : Client) : (a : ClientAction) → Decidable (s.Orderly a)
  | .connect _ _ => inferInstanceAs (Decidable (∀ c ∈ s.calls[_]?, _ → _ → _))
  | .evict _ => inferInstanceAs (Decidable (∀ c ∈ s.calls[_]?, _))
  | .call _ _ | .send _ _ _ => isTrue trivial

/-! ## The cases of a step -/

/-- A call after `send` has returned. -/
def ClientCall.sent (c : ClientCall) (handle : Handle) (taken : Option Nat) : ClientCall :=
  { c with
    pc := if sendResult taken = intOfU32 c.warning.bufLen then .returned true else .evicting
    sentOn := some handle
    taken := taken.getD 0 }

/-- Everything a step can be. -/
inductive Client.Step (s : Client) : ClientAction → Client → Prop where
  | call (endpoint : ConnectionKey) (w : Warning) :
      Step s (.call endpoint w) { s with calls := s.calls ++ [.start endpoint w] }
  | connect {i : Nat} {env : ConnectEnv} {c : ClientCall} {connections : Connections} {h : Socket} :
      s.calls[i]? = some c → c.pc = .connecting →
      s.connections.getOrCreate c.endpoint env = some (connections, h) →
      Step s (.connect i env) { connections, calls := s.calls.set i (c.connected h) }
  /-- The buffer is not allocated. -/
  | unsent {i : Nat} {taken : Option Nat} {c : ClientCall} {h : Socket} :
      s.calls[i]? = some c → c.pc = .sending h →
      Step s (.send i false taken) { s with calls := s.calls.set i { c with pc := .returned false } }
  | sent {i : Nat} {taken : Option Nat} {c : ClientCall} {h : Socket} {sockets : Sockets} :
      s.calls[i]? = some c → c.pc = .sending h →
      s.connections.sockets.send h c.warning c.warning.buffer (intOfU32 c.warning.bufLen) taken =
        some sockets →
      Step s (.send i true taken)
        { connections := { s.connections with sockets }
          calls := s.calls.set i (c.sent (s.connections.sockets.handles h) taken) }
  | evict {i : Nat} {c : ClientCall} :
      s.calls[i]? = some c → c.pc = .evicting →
      Step s (.evict i)
        { connections := (s.connections.close c.endpoint).1
          calls := s.calls.set i
            { c with pc := .returned false, closed := (s.connections.close c.endpoint).2 } }

theorem Client.step_cases {s s' : Client} {a : ClientAction} (h : s.step a = some s') :
    s.Step a s' := by
  cases a with
  | call endpoint w =>
      rw [Client.step, Option.some.injEq] at h
      exact h ▸ .call endpoint w
  | connect i env =>
      obtain ⟨c, hc, h⟩ := Option.bind_eq_some_iff.mp h
      split at h
      next hpc =>
          obtain ⟨⟨connections, sock⟩, hg, rfl⟩ := Option.map_eq_some_iff.mp h
          exact .connect hc hpc hg
      next => cases h
  | send i alloc taken =>
      obtain ⟨c, hc, h⟩ := Option.bind_eq_some_iff.mp h
      split at h
      next sock hpc =>
          cases alloc with
          | false =>
              simp only [sendWarningTo, Bool.not_true, Bool.not_false, Bool.false_eq_true, if_false,
                if_true, Option.some.injEq] at h
              exact h ▸ .unsent hc hpc
          | true =>
              simp only [sendWarningTo, Bool.not_true, Bool.false_eq_true, if_false] at h
              by_cases hn : sendResult taken = intOfU32 c.warning.bufLen
              · simp only [hn, ne_eq, not_true_eq_false, if_false, Bool.false_eq_true] at h
                obtain ⟨sockets, hs, rfl⟩ := Option.map_eq_some_iff.mp h
                have hstep := Client.Step.sent hc hpc hs
                simpa only [ClientCall.sent, hn, if_true] using hstep
              · simp only [hn, ne_eq, not_false_eq_true, if_true] at h
                obtain ⟨sockets, hs, rfl⟩ := Option.map_eq_some_iff.mp h
                have hstep := Client.Step.sent hc hpc hs
                simpa only [ClientCall.sent, hn, if_false] using hstep
      next => cases h
  | evict i =>
      obtain ⟨c, hc, h⟩ := Option.bind_eq_some_iff.mp h
      split at h
      next hpc =>
          rw [Option.some.injEq] at h
          exact h ▸ .evict hc hpc
      next => cases h

/-- What `send` does to the sockets. -/
theorem Sockets.send_cases {o o' : Sockets} {s : Socket} {w : Warning} {buf : Bytes} {n : Int}
    {taken : Option Nat} (h : o.send s w buf n taken = some o') :
    (taken = none ∧ o' = o) ∨ ∃ k t, taken = some t ∧ o.handles s = .connected k ∧ (t : Int) ≤ n ∧
      o' = o.append k w (buf.take t) := by
  cases taken with
  | none => exact Or.inl ⟨rfl, (Option.some.inj h).symm⟩
  | some t =>
      rw [Sockets.send] at h
      split at h
      next k hk =>
          split at h
          next hle => exact Or.inr ⟨k, t, rfl, hk, hle, (Option.some.inj h).symm⟩
          next => cases h
      next => cases h

theorem Sockets.endpoint_send_append (o : Sockets) (k : Nat) (w : Warning) (bytes : Bytes)
    (k' : Nat) : (o.append k w bytes).endpoint k' = o.endpoint k' := by
  rw [Sockets.endpoint, Sockets.append, List.getElem?_modify, Sockets.endpoint]
  cases o.conns[k']? with
  | none => rfl
  | some conn =>
      by_cases hk : k = k' <;> simp [hk]

/-- A send changes what was sent, and nothing else. -/
theorem Sockets.send_same {o o' : Sockets} {s : Socket} {w : Warning} {buf : Bytes} {n : Int}
    {taken : Option Nat} (h : o.send s w buf n taken = some o') :
    o'.handles = o.handles ∧ ∀ k, o'.endpoint k = o.endpoint k := by
  rcases Sockets.send_cases h with ⟨_, rfl⟩ | ⟨k, t, _, _, _, rfl⟩
  · exact ⟨rfl, fun _ => rfl⟩
  · exact ⟨rfl, Sockets.endpoint_send_append o k w _⟩

/-- A send leaves the pool as it was. -/
theorem Connections.Pooled.send {c : Connections} (h : c.Pooled) {sockets : Sockets}
    (hhandles : sockets.handles = c.sockets.handles)
    (hendpoint : ∀ k, sockets.endpoint k = c.sockets.endpoint k) :
    Connections.Pooled { c with sockets } where
  stores := h.stores
  entries := fun key s he => by
    obtain ⟨hvalid, k, hs, hk⟩ := h.entries key s he
    exact ⟨hvalid, k, (congrFun hhandles s).trans hs, (hendpoint k).trans hk⟩
  opened := fun s hs => h.opened s (by rwa [← hhandles])

/-! ## The invariant -/

/-- A call that has a socket has the one stored for its endpoint, and a call that waits to
evict its endpoint would close the socket it failed on or none. -/
structure ClientCall.Keeps (c : ClientCall) (p : Connections) : Prop where
  sending : ∀ h, c.pc = .sending h → p.entry c.endpoint = some h
  evicting : c.pc = .evicting → ∀ h, p.entry c.endpoint = some h →
    c.sentOn = some (p.sockets.handles h)
  unclosed : (∀ ret, c.pc ≠ .returned ret) → c.closed = []
  home : c.AtHome p.sockets

/-- What holds in every state an orderly schedule leads to. -/
structure Client.Inv (s : Client) : Prop where
  pooled : s.connections.Pooled
  keeps : ∀ c ∈ s.calls, c.Keeps s.connections

theorem Client.init_inv (alloc : Bool) : (Client.init alloc).Inv where
  pooled := Connections.init_pooled alloc
  keeps := fun c hc => by cases hc

/-- One call changes, and every other keeps what it kept. -/
theorem keeps_set {calls : List ClientCall} {p : Connections} {i : Nat} {c : ClientCall}
    (h : ∀ d ∈ calls, d.Keeps p) (hc : c.Keeps p) : ∀ d ∈ calls.set i c, d.Keeps p := by
  intro d hd
  rcases List.mem_or_eq_of_mem_set hd with hd | rfl
  · exact h d hd
  · exact hc

section Keeps

variable {c d : ClientCall} {p p' : Connections} {key : ConnectionKey} {env : ConnectEnv}
  {s : Socket}

theorem ClientCall.AtHome.mono {o o' : Sockets} (h : c.AtHome o)
    (ho : ∀ k key, o.endpoint k = some key → o'.endpoint k = some key) : c.AtHome o' where
  sent := fun handle hs => by
    obtain ⟨k, rfl, hk⟩ := h.sent handle hs
    exact ⟨k, rfl, ho k _ hk⟩
  closed := h.closed

/-- A call that looks on while another gets its connection. -/
theorem ClientCall.Keeps.getOrCreate (h : d.Keeps p) (hp : p.Pooled) (hg : p.Got key env p' s)
    (hok : p.entry key = none → env.connects = true → d.endpoint = key → d.pc ≠ .evicting) :
    d.Keeps p' := by
  have hhome := h.home.mono fun k key' hk => hg.endpoint hk
  cases hg with
  | reused _ => exact h
  | opened hnone henv hclosed hmap =>
      have hentry := hmap.entry (p.sockets.opened env.socket key)
      refine ⟨?_, ?_, h.unclosed, hhome⟩
      · intro h' hpc
        have he := h.sending h' hpc
        rw [hentry, Function.update_of_ne ?_, he]
        intro hkey
        rw [hkey, hnone] at he
        cases he
      · intro hpc h' he
        have hkey : d.endpoint ≠ key := fun hkey => hok hnone henv hkey hpc
        rw [hentry, Function.update_of_ne hkey] at he
        rw [h.evicting hpc h' he]
        refine congrArg some (Function.update_of_ne ?_ ..).symm
        rintro rfl
        obtain ⟨_, k, hs, _⟩ := hp.entries _ _ he
        rw [hclosed] at hs
        cases hs
  | @failed _ conns hmap hconns =>
      have hentry := hmap.entry { p.sockets with conns }
      refine ⟨?_, ?_, h.unclosed, hhome⟩
      · intro h' hpc
        rw [hentry, h.sending h' hpc]
      · intro hpc h' he
        rw [hentry] at he
        exact h.evicting hpc h' he

/-- A call that looks on while another evicts an endpoint. -/
theorem ClientCall.Keeps.close (h : d.Keeps p) (hp : p.Pooled) {r : Connections × List Handle}
    (hr : p.Evicted key r) (hok : d.endpoint = key → d.isSending = false) : d.Keeps r.1 := by
  cases hr with
  | absent _ => exact h
  | @present _ s he hmap =>
      have hentry := hmap.entry
        { p.sockets with handles := Function.update p.sockets.handles s .closed }
      refine ⟨?_, ?_, h.unclosed, h.home.mono fun _ _ hk => hk⟩
      · intro h' hpc
        rw [hentry, Function.update_of_ne ?_, h.sending h' hpc]
        intro hkey
        have hsend := hok hkey
        rw [ClientCall.isSending, hpc] at hsend
        cases hsend
      · intro hpc h' he'
        rw [hentry, Function.update_apply] at he'
        split at he'
        · cases he'
        next hkey =>
            rw [h.evicting hpc h' he']
            refine congrArg some (Function.update_of_ne ?_ ..).symm
            rintro rfl
            exact hkey (hp.entry_inj he' he)

/-- A call that looks on while another sends. -/
theorem ClientCall.Keeps.send (h : d.Keeps p) {sockets : Sockets}
    (hhandles : sockets.handles = p.sockets.handles)
    (hendpoint : ∀ k, sockets.endpoint k = p.sockets.endpoint k) :
    d.Keeps { p with sockets } where
  sending := h.sending
  evicting := fun hpc h' he => by
    rw [show sockets.handles = p.sockets.handles from hhandles]
    exact h.evicting hpc h' he
  unclosed := h.unclosed
  home := h.home.mono fun k _ hk => (hendpoint k).trans hk

end Keeps

section Steps

variable {s s' : Client}

theorem Client.Inv.connect (h : s.Inv) {i : Nat} {env : ConnectEnv} {c : ClientCall}
    {connections : Connections} {sock : Socket} (hok : s.Orderly (.connect i env))
    (hc : s.calls[i]? = some c) (hpc : c.pc = .connecting)
    (hg : s.connections.getOrCreate c.endpoint env = some (connections, sock)) :
    Client.Inv { connections, calls := s.calls.set i (c.connected sock) } := by
  have hgot := h.pooled.got hg
  have hpooled := h.pooled.getOrCreate hgot
  have hlook : ∀ d ∈ s.calls, d.Keeps connections := fun d hd =>
    (h.keeps d hd).getOrCreate h.pooled hgot fun hnone henv hkey =>
      hok c hc hnone henv d hd hkey
  refine ⟨hpooled, keeps_set hlook ?_⟩
  have hcall := hlook c (List.mem_of_getElem? hc)
  refine ⟨?_, ?_, ?_, ⟨hcall.home.sent, hcall.home.closed⟩⟩
  · intro h' hpc'
    rw [ClientCall.connected] at hpc' ⊢
    simp only at hpc' ⊢
    split at hpc'
    · cases hpc'
    next hvalid =>
        cases hpc'
        cases hgot with
        | reused he => exact he
        | opened _ _ _ hmap => rw [hmap.entry, Function.update_self]
        | failed _ _ => exact absurd rfl hvalid
  · intro hpc'
    rw [ClientCall.connected] at hpc'
    simp only at hpc'
    split at hpc' <;> cases hpc'
  · intro _
    exact hcall.unclosed (by rw [hpc]; simp)

theorem Client.Inv.unsent (h : s.Inv) {i : Nat} {c : ClientCall} (hc : s.calls[i]? = some c) :
    Client.Inv { s with calls := s.calls.set i { c with pc := .returned false } } := by
  have hcall := h.keeps c (List.mem_of_getElem? hc)
  refine ⟨h.pooled, keeps_set h.keeps ⟨?_, ?_, ?_, ?_⟩⟩
  · intro h' hpc'
    cases hpc'
  · intro hpc'
    cases hpc'
  · intro hret
    exact absurd rfl (hret false)
  · exact ⟨hcall.home.sent, hcall.home.closed⟩

theorem Client.Inv.sent (h : s.Inv) {i : Nat} {c : ClientCall} {sock : Socket}
    {taken : Option Nat} {sockets : Sockets} (hc : s.calls[i]? = some c)
    (hpc : c.pc = .sending sock)
    (hs : s.connections.sockets.send sock c.warning c.warning.buffer (intOfU32 c.warning.bufLen)
      taken = some sockets) :
    Client.Inv
      { connections := { s.connections with sockets }
        calls := s.calls.set i (c.sent (s.connections.sockets.handles sock) taken) } := by
  obtain ⟨hhandles, hendpoint⟩ := Sockets.send_same hs
  have hcall := h.keeps c (List.mem_of_getElem? hc)
  have hentry := hcall.sending sock hpc
  obtain ⟨_, k, hsock, hk⟩ := h.pooled.entries _ _ hentry
  have hclosed := hcall.unclosed (by rw [hpc]; simp)
  refine ⟨h.pooled.send hhandles hendpoint,
    keeps_set (fun d hd => (h.keeps d hd).send hhandles hendpoint) ?_⟩
  refine ⟨?_, ?_, fun _ => hclosed, ?_, ?_⟩
  · intro h' hpc'
    rw [ClientCall.sent] at hpc'
    simp only at hpc'
    split at hpc' <;> cases hpc'
  · intro _ h' he
    -- the socket stored for the endpoint is the one it sent on
    have he' : s.connections.entry c.endpoint = some h' := he
    rw [hentry, Option.some.injEq] at he'
    rw [show sockets.handles = _ from hhandles, ← he']
    rfl
  · rintro handle hsent
    cases hsent
    exact ⟨k, hsock, (hendpoint k).trans hk⟩
  · intro handle hmem
    rw [show (c.sent _ taken).closed = c.closed from rfl, hclosed] at hmem
    cases hmem

theorem Client.Inv.evict (h : s.Inv) {i : Nat} {c : ClientCall} (hok : s.Orderly (.evict i))
    (hc : s.calls[i]? = some c) (hpc : c.pc = .evicting) :
    Client.Inv
      { connections := (s.connections.close c.endpoint).1
        calls := s.calls.set i
          { c with pc := .returned false, closed := (s.connections.close c.endpoint).2 } } := by
  have hevicted := h.pooled.evicted c.endpoint
  have hlook : ∀ d ∈ s.calls, d.Keeps (s.connections.close c.endpoint).1 := fun d hd =>
    (h.keeps d hd).close h.pooled hevicted (hok c hc d hd)
  refine ⟨h.pooled.close hevicted, keeps_set hlook ?_⟩
  have hcall := hlook c (List.mem_of_getElem? hc)
  refine ⟨?_, ?_, ?_, hcall.home.sent, ?_⟩
  · intro h' hpc'
    cases hpc'
  · intro hpc'
    cases hpc'
  · intro hret
    exact absurd rfl (hret false)
  · -- what is closed is what the call failed on
    have hkeep := (h.keeps c (List.mem_of_getElem? hc)).evicting hpc
    intro handle hmem hne
    generalize s.connections.close c.endpoint = r at hevicted hmem
    cases hevicted with
    | absent _ => cases hmem
    | present he _ =>
        rw [List.mem_singleton] at hmem
        rw [hmem]
        exact hkeep _ he

/-- Every orderly step keeps the invariant. -/
theorem Client.Inv.step (h : s.Inv) {a : ClientAction} (hok : s.Orderly a)
    (hs : s.step a = some s') : s'.Inv := by
  cases Client.step_cases hs with
  | call endpoint w =>
      refine ⟨h.pooled, ?_⟩
      intro c hc
      rcases List.mem_append.mp hc with hc | hc
      · exact h.keeps c hc
      · rw [List.mem_singleton] at hc
        subst hc
        refine ⟨?_, ?_, fun _ => rfl, ?_, ?_⟩
        · intro h' hpc
          cases hpc
        · intro hpc
          cases hpc
        · intro handle hsent
          cases hsent
        · intro handle hmem
          cases hmem
  | connect hc hpc hg => exact h.connect hok hc hpc hg
  | unsent hc _ => exact h.unsent hc
  | sent hc hpc hsend => exact h.sent hc hpc hsend
  | evict hc hpc => exact h.evict hok hc hpc

end Steps

/-- On every orderly schedule every call is at home. -/
theorem calls_at_home {alloc : Bool} {as : List ClientAction} {s : Client}
    (h : Machine.Run Client.step Client.Orderly (.init alloc) as s) :
    ∀ c ∈ s.calls, c.AtHome s.connections.sockets := by
  have hinv : s.Inv :=
    h.invariant (Client.init_inv alloc) fun _ _ _ hi hok hs => hi.step hok hs
  exact fun c hc => (hinv.keeps c hc).home

/-- An endpoint. -/
def sampleKey : ConnectionKey where
  address := { bytes := [49], noZero := by decide }
  port := 5000

/-- Another one. -/
def otherKey : ConnectionKey where
  address := { bytes := [50], noZero := by decide }
  port := 5000

/-- Two calls share a connection.  The second fails after the first has sent, and then a
third makes a new connection, with the same handle. -/
def orderlyCalls : List ClientAction :=
  [.call sampleKey sampleWarning, .call sampleKey sampleWarning, .connect 0 { socket := 1 },
    .connect 1 { socket := 2 }, .send 0 true (some 30), .send 1 true none, .evict 1,
    .call sampleKey sampleWarning, .connect 2 { socket := 1 }, .send 2 true (some 30)]

theorem calls_at_home_orderlyCalls : ∃ s,
    Machine.Run Client.step Client.Orderly (.init true) orderlyCalls s ∧
      (s.calls.map fun c => (c.sentOn, c.closed)) =
        [(some (.connected 0), []), (some (.connected 0), [.connected 0]),
          (some (.connected 1), [])] ∧
      ∀ c ∈ s.calls, c.AtHome s.connections.sockets := by
  obtain ⟨s, hs, hcalls⟩ := Option.map_eq_some_iff.mp
    (show (Machine.execWhere Client.step Client.Orderly (.init true) orderlyCalls).map
      (fun s => s.calls.map fun c => (c.sentOn, c.closed)) =
        some [(some (.connected 0), []), (some (.connected 0), [.connected 0]),
          (some (.connected 1), [])] by decide +kernel)
  exact ⟨s, Machine.execWhere_run hs, hcalls, calls_at_home (Machine.execWhere_run hs)⟩

/-- Two calls share a connection.  The first fails and evicts it, a call to another
endpoint is given the handle, and the second call sends on it. -/
def strayRun : List ClientAction :=
  [.call sampleKey sampleWarning, .call sampleKey sampleWarning, .connect 0 { socket := 1 },
    .connect 1 { socket := 2 }, .send 0 true none, .evict 0, .call otherKey sampleWarning,
    .connect 2 { socket := 1 }, .send 1 true (some 30)]

/-- Two calls share a connection and fail.  The first evicts it, a third makes a new one
to the endpoint, and the second evicts that. -/
def evictionRun : List ClientAction :=
  [.call sampleKey sampleWarning, .call sampleKey sampleWarning, .connect 0 { socket := 1 },
    .connect 1 { socket := 2 }, .send 0 true none, .send 1 true none, .evict 0,
    .call sampleKey sampleWarning, .connect 2 { socket := 2 }, .evict 1]

/-- After `strayRun` a frame has been sent, whole, to an endpoint its call was not given,
and on `evictionRun` a call closes a socket on which it did not send. -/
theorem calls_not_at_home :
    (∃ s, Machine.exec Client.step (.init true) strayRun = some s ∧
      ∃ c ∈ s.calls, c.pc = .returned true ∧ c.endpoint = sampleKey ∧
        c.sentOn = some (.connected 1) ∧ s.connections.sockets.endpoint 1 = some otherKey ∧
        ¬ c.AtHome s.connections.sockets) ∧
    (∃ s, Machine.exec Client.step (.init true) evictionRun = some s ∧
      ∃ c ∈ s.calls, c.sentOn = some (.connected 0) ∧ c.closed = [.connected 1] ∧
        ¬ c.AtHome s.connections.sockets) := by
  constructor
  · obtain ⟨s, hs, hobs⟩ := Option.map_eq_some_iff.mp
      (show (Machine.exec Client.step (.init true) strayRun).map
        (fun s => (s.calls[1]?, s.connections.sockets.endpoint 1)) =
          some (some
            { endpoint := sampleKey
              warning := sampleWarning
              pc := .returned true
              sentOn := some (.connected 1)
              taken := 30
              closed := [] }, some otherKey) by decide +kernel)
    rw [Prod.mk.injEq] at hobs
    refine ⟨s, hs, _, List.mem_of_getElem? hobs.1, rfl, rfl, rfl, hobs.2, ?_⟩
    intro hhome
    obtain ⟨k, hk, hend⟩ := hhome.sent _ rfl
    cases hk
    rw [hobs.2] at hend
    exact absurd hend (by decide)
  · obtain ⟨s, hs, hobs⟩ := Option.map_eq_some_iff.mp
      (show (Machine.exec Client.step (.init true) evictionRun).map (fun s => s.calls[1]?) =
        some (some
          { endpoint := sampleKey
            warning := sampleWarning
            pc := .returned false
            sentOn := some (.connected 0)
            taken := 0
            closed := [.connected 1] }) by decide +kernel)
    refine ⟨s, hs, _, List.mem_of_getElem? hobs, rfl, rfl, ?_⟩
    intro hhome
    exact absurd (hhome.closed (.connected 1) (by decide) (by decide)) (by decide)

end DataPropagator
