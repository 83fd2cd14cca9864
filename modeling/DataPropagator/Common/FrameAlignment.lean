import DataPropagator.Common.ClientRuns
import DataPropagator.Lib.FramedStream

/-!
# Frames on a shared connection

The calls that share a connection append to one stream, and its receiver decodes the
stream front to back.  A send that is cut short leaves a part of a frame at the end of the
stream.  The call answers it by evicting the connection, at some later step, and until then
other calls may append to the stream.

`Conn.Aligned` is what the receiver relies on, and `FramesApart` is the condition on the
schedule under which every connection is aligned.  Unlike the condition for `AtHome` it
lets calls lose their sockets, as long as nothing is appended after a part of a frame.
-/

namespace DataPropagator

open FramedStream (Framed Torn)

/-! ## The receiver -/

/-- One call of the decoder: what was still to come when it began, and its result. -/
structure Received where
  start : Bytes
  result : Option Warning

/-- The loop of a receiver on one connection.  It ends with the first NULL.  The list says
which allocations succeed in each call. -/
def receiveLoop (decode : (Block → Bool) → Sock → Decoded) :
    List (Block → Bool) → Sock → List Received
  | [], _ => []
  | mem :: mems, s =>
      let d := decode mem s
      { start := s.stream, result := d.result } ::
        if d.result.isSome then receiveLoop decode mems d.sock else []

/-- A call of the decoder returned NULL or did what another one did. -/
def Decoded.Below (d d' : Decoded) : Prop :=
  d.result = none ∨ (d.result = d'.result ∧ d.sock = d'.sock)

theorem recvOrNull_below {s : Sock} {n : Int} {heap heap' : Bytes → List HeapEvent}
    {next next' : Bytes → Sock → Decoded} (hnext : ∀ b s, (next b s).Below (next' b s)) :
    (recvOrNull s n heap next).Below (recvOrNull s n heap' next') := by
  simp only [recvOrNull]
  split
  · exact Or.inl rfl
  · exact hnext _ _

/-- An allocation that fails makes the decoder return NULL, and nothing else. -/
theorem deserializeWarning_below (mem : Block → Bool) (s : Sock) :
    (deserializeWarning mem s).Below (deserializeWarning allAllocs s) := by
  simp only [deserializeWarning, allAllocs, Bool.not_true, Bool.false_eq_true, if_false]
  apply recvOrNull_below
  intro len s
  split
  · exact Or.inl rfl
  apply recvOrNull_below
  intro city s
  apply recvOrNull_below
  intro len s
  split
  · exact Or.inl rfl
  apply recvOrNull_below
  intro dest s
  apply recvOrNull_below
  intro type s
  apply recvOrNull_below
  intro value s
  apply recvOrNull_below
  intro ts s
  simp only [warningCreate]
  split
  · exact Or.inl rfl
  split
  · exact Or.inl rfl
  split
  · exact Or.inl rfl
  · exact Or.inr ⟨rfl, rfl⟩

/-- On a stream of frames with a torn end the receiver begins every call at the start of a
frame or of the end, and what it returns was sent. -/
theorem receiveLoop_frames {tail : Bytes} (htail : parseWarning tail = none) :
    ∀ (mems : List (Block → Bool)) (ws : List Warning) (s : Sock), (∀ w ∈ ws, w.Sendable) →
      s.stream = (ws.map wireFrame).flatten ++ tail →
      ∀ r ∈ receiveLoop deserializeWarning mems s,
        (∃ j, r.start = ((ws.drop j).map wireFrame).flatten ++ tail) ∧
          ∀ w, r.result = some w → w ∈ ws
  | [], _, _, _, _, r, hr => by cases hr
  | mem :: mems, ws, s, hws, hs, r, hr => by
      have hbelow := deserializeWarning_below mem s
      have hparse := deserializeWarning_parse s
      cases hres : (deserializeWarning mem s).result with
      | none =>
          rw [receiveLoop, hres] at hr
          rw [Option.isSome_none, if_neg Bool.false_ne_true, List.mem_singleton] at hr
          subst hr
          exact ⟨⟨0, hs⟩, fun w hw => by cases hw⟩
      | some w =>
          rcases hbelow with hnone | ⟨hsame, hsock⟩
          · rw [hres] at hnone
            cases hnone
          cases ws with
          | nil =>
              have hm := hparse.1
              rw [← hsame, hres, hs, List.map_nil, List.flatten_nil, List.nil_append, htail] at hm
              cases hm
          | cons v ws =>
              have hv := hws v (List.mem_cons_self ..)
              rw [hs, List.map_cons, List.flatten_cons, List.append_assoc,
                parseWarning_wireFrame hv] at hparse
              have hwv : w = v := by
                have hm := hparse.1
                rw [← hsame, hres] at hm
                exact Option.some.inj hm
              have hrest : (deserializeWarning mem s).sock.stream =
                  (ws.map wireFrame).flatten ++ tail := hsock ▸ hparse.2 _ _ rfl
              rw [receiveLoop, hres, Option.isSome_some, if_pos rfl, List.mem_cons] at hr
              rcases hr with rfl | hr
              · exact ⟨⟨0, hs⟩, fun w' hw' => by
                  cases hw'
                  exact hwv ▸ List.mem_cons_self ..⟩
              · obtain ⟨⟨j, hj⟩, hmem⟩ := receiveLoop_frames htail mems ws _
                  (fun u hu => hws u (List.mem_cons_of_mem _ hu)) hrest r hr
                exact ⟨⟨j + 1, hj⟩, fun u hu => List.mem_cons_of_mem _ (hmem u hu)⟩

/-! ## What the receiver relies on -/

/-- The stream is made of whole frames of warnings that were sent on it and at most one
proper prefix of such a frame, at its end.  Whatever part of it a receiver sees, it begins
no call in the middle of a frame and returns only warnings that were sent. -/
def Conn.Aligned (conn : Conn) : Prop :=
  ∃ ws tail, Framed wireFrame (· ∈ conn.senders) conn.stream ws tail ∧
    ∀ decode ∈ [CentralPropagator.deserializeWarning, DataDestination.deserializeWarning],
      ∀ s : Sock, s.stream <+: conn.stream → ∀ mems, ∀ r ∈ receiveLoop decode mems s,
        (∃ j, s.stream = ((ws.take j).map wireFrame).flatten ++ r.start) ∧
          ∀ w, r.result = some w → w ∈ conn.senders

theorem parseWarning_torn {S : Warning → Prop} (hS : ∀ w, S w → w.Sendable) {tail : Bytes}
    (h : Torn wireFrame S tail) : parseWarning tail = none := by
  rcases h with rfl | ⟨w, hw, hpre, hne⟩
  · rfl
  · exact parseWarning_prefix (hS w hw) hpre hne

/-- Frames that fit an `int` keep a connection aligned. -/
theorem Conn.aligned_of_framed {conn : Conn} {ws : List Warning} {tail : Bytes}
    (h : Framed wireFrame (fun w => w ∈ conn.senders ∧ w.Sendable) conn.stream ws tail) :
    conn.Aligned := by
  refine ⟨ws, tail, h.mono fun w hw => hw.1, ?_⟩
  intro decode hdecode s hs mems r hr
  have hr' : r ∈ receiveLoop deserializeWarning mems s := by
    rcases List.mem_cons.mp hdecode with rfl | hdecode
    · exact hr
    · rw [List.mem_singleton] at hdecode
      subst hdecode
      exact hr
  obtain ⟨k, tail', hseen⟩ := h.of_prefix hs
  obtain ⟨⟨j, hj⟩, hmem⟩ := receiveLoop_frames
    (parseWarning_torn (fun w hw => hw.2) hseen.torn) mems (ws.take k) s
    (fun w hw => (hseen.sent w hw).2) hseen.stream_eq r hr'
  refine ⟨⟨min j k, ?_⟩, fun w hw => (hseen.sent w (hmem w hw)).1⟩
  rw [← List.take_take, hj, hseen.stream_eq, ← List.append_assoc, ← List.flatten_append,
    ← List.map_append, List.take_append_drop]

/-! ## The condition on the schedule -/

/-- The number of bytes of a frame. -/
def Warning.frameSize (w : Warning) : Nat := strlen w.city + strlen w.destNode + 28

/-- `buf_len` is the size of the frame in 32 bits. -/
theorem Warning.toNat_bufLen (w : Warning) : w.bufLen.toNat = w.frameSize % 2 ^ 32 := by
  simp only [Warning.bufLen, Warning.cityLen, Warning.destLen, UInt32.toNat_add,
    UInt32.toNat_ofNat', UInt32.reduceToNat, Warning.frameSize]
  omega

/-- A frame shorter than 2³² bytes whose length is not a negative `int`. -/
theorem Warning.sendable_of_nonneg {w : Warning} (h : w.frameSize < 2 ^ 32)
    (hn : 0 ≤ intOfU32 w.bufLen) : w.Sendable := by
  have hlen := w.toNat_bufLen
  rw [Nat.mod_eq_of_lt h] at hlen
  by_contra hlong
  have hge : 2 ^ 31 ≤ w.bufLen.toNat := hlen ▸ Nat.le_of_not_lt hlong
  exact absurd hn (Int.not_le.mpr (intOfU32_neg hge))

/-- The call has sent a part of its frame on connection `k` and waits to evict it. -/
def ClientCall.cutOn (c : ClientCall) (k : Nat) : Bool :=
  c.pc = .evicting && c.sentOn = some (.connected k) && 0 < c.taken

/-- The connection behind the handle that a call is about to send on. -/
def Client.target (s : Client) (c : ClientCall) : Option Nat :=
  match c.pc with
  | .sending h =>
      match s.connections.sockets.handles h with
      | .connected k => some k
      | _ => none
  | _ => none

/-- The schedules on which frames stay apart.  Bytes are appended to a connection only
while no call that has cut its frame short there waits to evict it, a frame is cut short
only on a connection to the endpoint the call was given, and a frame of which bytes are
sent has a size that 32 bits can hold. -/
def Client.FramesApart (s : Client) : ClientAction → Prop
  | .send i true (some taken) => 0 < taken → ∀ c ∈ s.calls[i]?,
      c.warning.frameSize < 2 ^ 32 ∧ ∀ k ∈ s.target c, (∀ d ∈ s.calls, d.cutOn k = false) ∧
        (taken < c.warning.frameSize → s.connections.sockets.endpoint k = some c.endpoint)
  | _ => True

instance Client.decidableFramesApart (s : Client) : (a : ClientAction) → Decidable (s.FramesApart a)
  | .send _ true (some _) => inferInstanceAs (Decidable (_ → ∀ c ∈ s.calls[_]?, _))
  | .send _ true none | .send _ false _ => isTrue trivial
  | .call _ _ | .connect _ _ | .evict _ => isTrue trivial

/-! ## The invariant -/

/-- The stream of connection `k` is framed.  If its end is torn, nothing can be appended to
it any more, or a call waits to evict it. -/
def Client.FramedAt (s : Client) (k : Nat) (conn : Conn) : Prop :=
  ∃ ws tail, Framed wireFrame (fun w => w ∈ conn.senders ∧ w.Sendable) conn.stream ws tail ∧
    (tail ≠ [] → (∀ h, s.connections.sockets.handles h ≠ .connected k) ∨
      ∃ c ∈ s.calls, c.cutOn k = true)

/-- What holds in every state that a schedule which keeps frames apart leads to. -/
structure Client.Frames (s : Client) : Prop where
  pooled : s.connections.Pooled
  cuts : ∀ c ∈ s.calls, ∀ k, c.cutOn k = true →
    s.connections.sockets.endpoint k = some c.endpoint
  framed : ∀ k conn, s.connections.sockets.conns[k]? = some conn → s.FramedAt k conn

theorem Client.init_frames (alloc : Bool) : (Client.init alloc).Frames where
  pooled := Connections.init_pooled alloc
  cuts := fun c hc => by cases hc
  framed := fun k conn hconn => by cases hconn

theorem ClientCall.cutOn_iff {c : ClientCall} {k : Nat} : c.cutOn k = true ↔
    c.pc = .evicting ∧ c.sentOn = some (.connected k) ∧ 0 < c.taken := by
  simp [ClientCall.cutOn, and_assoc]

/-- A call other than the one that changes is still there. -/
theorem mem_set_of_ne {calls : List ClientCall} {i : Nat} {c c' d : ClientCall}
    (hc : calls[i]? = some c) (hd : d ∈ calls) (hne : d ≠ c) : d ∈ calls.set i c' := by
  obtain ⟨j, hj⟩ := List.mem_iff_getElem?.mp hd
  refine List.mem_iff_getElem?.mpr ⟨j, ?_⟩
  rw [List.getElem?_set_ne ?_, hj]
  rintro rfl
  rw [hc, Option.some.injEq] at hj
  exact hne hj.symm

/-- A connection on which nothing was sent. -/
theorem Client.framedAt_fresh (s : Client) (k : Nat) (key : ConnectionKey) :
    s.FramedAt k (Conn.fresh key) :=
  ⟨[], [], Framed.nil _ _, fun h => absurd rfl h⟩

section Steps

variable {s s' : Client} {k : Nat} {conn : Conn}

/-- A connection stays framed while nothing is sent on it, if its open handles stay its
only ones and the calls that wait to evict it are still there. -/
theorem Client.FramedAt.of_same (h : s.FramedAt k conn)
    (hhandles : ∀ h, s'.connections.sockets.handles h = .connected k →
      s.connections.sockets.handles h = .connected k)
    (hcalls : ∀ c ∈ s.calls, c.cutOn k = true →
      (∀ h, s'.connections.sockets.handles h ≠ .connected k) ∨ ∃ d ∈ s'.calls, d.cutOn k = true) :
    s'.FramedAt k conn := by
  obtain ⟨ws, tail, hframed, htail⟩ := h
  refine ⟨ws, tail, hframed, ?_⟩
  intro hne
  rcases htail hne with hclosed | ⟨c, hc, hcut⟩
  · exact Or.inl fun h hh => hclosed h (hhandles h hh)
  · exact hcalls c hc hcut

/-- What a call that waits to evict keeps when another call changes. -/
theorem cutOn_set {calls : List ClientCall} {i : Nat} {c c' : ClientCall}
    (hc : calls[i]? = some c) (hpc : c.pc ≠ .evicting) :
    ∀ d ∈ calls, d.cutOn k = true → ∃ d ∈ calls.set i c', d.cutOn k = true := by
  intro d hd hcut
  refine ⟨d, mem_set_of_ne hc hd ?_, hcut⟩
  rintro rfl
  exact hpc (ClientCall.cutOn_iff.mp hcut).1

theorem Client.Frames.connect (h : s.Frames) {i : Nat} {env : ConnectEnv} {c : ClientCall}
    {connections : Connections} {sock : Socket} (hc : s.calls[i]? = some c)
    (hpc : c.pc = .connecting)
    (hg : s.connections.getOrCreate c.endpoint env = some (connections, sock)) :
    Client.Frames { connections, calls := s.calls.set i (c.connected sock) } := by
  have hgot := h.pooled.got hg
  have hkeep : ∀ k, ∀ d ∈ s.calls, d.cutOn k = true →
      ∃ d ∈ s.calls.set i (c.connected sock), d.cutOn k = true := fun k =>
    cutOn_set hc (by rw [hpc]; simp)
  have hnew : ∀ k, (c.connected sock).cutOn k = false := fun k => by
    rw [Bool.eq_false_iff, Ne, ClientCall.cutOn_iff, ClientCall.connected]
    rintro ⟨hev, _⟩
    simp only at hev
    split at hev <;> cases hev
  refine ⟨h.pooled.getOrCreate hgot, ?_, ?_⟩
  · intro d hd k hcut
    rcases List.mem_or_eq_of_mem_set hd with hd | rfl
    · exact hgot.endpoint (h.cuts d hd k hcut)
    · rw [hnew] at hcut
      cases hcut
  · intro k conn hconn
    rcases hgot.conns hconn with ⟨hold, hhandles⟩ | rfl
    · exact (h.framed k conn hold).of_same hhandles fun d hd hcut => Or.inr (hkeep k d hd hcut)
    · exact Client.framedAt_fresh _ k _

theorem Client.Frames.unsent (h : s.Frames) {i : Nat} {c : ClientCall} {sock : Socket}
    (hc : s.calls[i]? = some c) (hpc : c.pc = .sending sock) :
    Client.Frames { s with calls := s.calls.set i { c with pc := .returned false } } := by
  refine ⟨h.pooled, ?_, ?_⟩
  · intro d hd k hcut
    rcases List.mem_or_eq_of_mem_set hd with hd | rfl
    · exact h.cuts d hd k hcut
    · cases (ClientCall.cutOn_iff.mp hcut).1
  · intro k conn hconn
    exact (h.framed k conn hconn).of_same (fun _ hh => hh) fun d hd hcut =>
      Or.inr (cutOn_set hc (by rw [hpc]; simp) d hd hcut)

theorem Client.Frames.evict (h : s.Frames) {i : Nat} {c : ClientCall}
    (hc : s.calls[i]? = some c) :
    Client.Frames
      { connections := (s.connections.close c.endpoint).1
        calls := s.calls.set i
          { c with pc := .returned false, closed := (s.connections.close c.endpoint).2 } } := by
  have hevicted := h.pooled.evicted c.endpoint
  have hpooled := h.pooled.close hevicted
  generalize hr : s.connections.close c.endpoint = r at hevicted hpooled
  have hconns : r.1.sockets.conns = s.connections.sockets.conns := by
    cases hevicted <;> rfl
  have hhandles : ∀ h' k, r.1.sockets.handles h' = .connected k →
      s.connections.sockets.handles h' = .connected k ∧
        s.connections.entry c.endpoint ≠ some h' := by
    intro h' k hh
    cases hevicted with
    | absent hnone => exact ⟨hh, by rw [hnone]; simp⟩
    | @present _ sock he _ =>
        have hh' : Function.update s.connections.sockets.handles sock .closed h' = .connected k := hh
        rw [Function.update_apply] at hh'
        split at hh'
        · cases hh'
        next hne =>
            refine ⟨hh', fun he' => hne ?_⟩
            rw [he, Option.some.injEq] at he'
            exact he'.symm
  refine ⟨hpooled, ?_, ?_⟩
  · intro d hd k hcut
    rw [show Sockets.endpoint _ k = s.connections.sockets.endpoint k by
      rw [Sockets.endpoint, hconns, Sockets.endpoint]]
    rcases List.mem_or_eq_of_mem_set hd with hd | rfl
    · exact h.cuts d hd k hcut
    · cases (ClientCall.cutOn_iff.mp hcut).1
  · intro k conn hconn
    rw [hconns] at hconn
    refine (h.framed k conn hconn).of_same (fun h' hh => (hhandles h' k hh).1) fun d hd hcut => ?_
    by_cases hdc : d = c
    · -- the connection it cut its frame short on is the one it evicts
      subst hdc
      refine Or.inl fun h' hh => ?_
      obtain ⟨hold, hother⟩ := hhandles h' k hh
      obtain ⟨key, hkey, hentry⟩ := h.pooled.entry_of_connected hold
      rw [h.cuts d hd k hcut, Option.some.injEq] at hkey
      exact hother (hkey ▸ hentry)
    · exact Or.inr ⟨d, mem_set_of_ne hc hd hdc, hcut⟩

/-- Bytes of a frame are appended to an open connection that no call waits to evict. -/
theorem Client.FramedAt.append (h : s.FramedAt k conn)
    (hopen : ∃ h, s.connections.sockets.handles h = .connected k)
    (hclear : ∀ d ∈ s.calls, d.cutOn k = false) {w : Warning} (hw : w.Sendable) (taken : Nat) :
    ∃ ws tail, Framed wireFrame (fun v => v ∈ conn.senders ++ [w] ∧ v.Sendable)
      (conn.stream ++ (wireFrame w).take taken) ws tail ∧
        (tail ≠ [] → 0 < taken ∧ taken < (wireFrame w).length) := by
  obtain ⟨ws, tail, hframed, htail⟩ := h
  have hclean : tail = [] := by
    by_contra hne
    rcases htail hne with hclosed | ⟨c, hc, hcut⟩
    · obtain ⟨h', hh⟩ := hopen
      exact hclosed h' hh
    · rw [hclear c hc] at hcut
      cases hcut
  subst hclean
  have hmono := hframed.mono (T := fun v => v ∈ conn.senders ++ [w] ∧ v.Sendable) fun v hv =>
    ⟨List.mem_append_left _ hv.1, hv.2⟩
  have hmem : w ∈ conn.senders ++ [w] ∧ w.Sendable := ⟨by simp, hw⟩
  rcases Nat.lt_or_ge taken (wireFrame w).length with hlt | hge
  · refine ⟨ws, (wireFrame w).take taken, hmono.cut hmem (List.take_prefix ..) ?_, fun hne => ⟨?_, hlt⟩⟩
    · intro he
      have := congrArg List.length he
      rw [List.length_take] at this
      omega
    · rcases Nat.eq_zero_or_pos taken with rfl | hpos
      · exact absurd rfl hne
      · exact hpos
  · rw [List.take_of_length_le hge]
    exact ⟨ws ++ [w], [], hmono.whole hmem, fun hne => absurd rfl hne⟩

/-- What the condition says of a send that takes bytes. -/
theorem Client.FramesApart.took {i t : Nat} {c : ClientCall} {sock : Socket}
    (hok : s.FramesApart (.send i true (some t))) (hc : s.calls[i]? = some c)
    (hpc : c.pc = .sending sock) (hk : s.connections.sockets.handles sock = .connected k)
    (hle : (t : Int) ≤ intOfU32 c.warning.bufLen) (hpos : 0 < t) :
    c.warning.Sendable ∧ (∀ d ∈ s.calls, d.cutOn k = false) ∧
      (t < (wireFrame c.warning).length →
        s.connections.sockets.endpoint k = some c.endpoint) := by
  obtain ⟨hsize, htarget⟩ := hok hpos c hc
  obtain ⟨hclear, hown⟩ := htarget k (by simp [Client.target, hpc, hk])
  refine ⟨Warning.sendable_of_nonneg hsize (by omega), hclear, fun hlt => hown ?_⟩
  rwa [wireFrame_length] at hlt

/-- A call that has just cut its frame short. -/
theorem ClientCall.cutOn_sent {c : ClientCall} {handle : Handle} {taken : Option Nat}
    (h : (c.sent handle taken).cutOn k = true) : handle = .connected k ∧
      ∃ t, taken = some t ∧ 0 < t ∧ (t : Int) ≠ intOfU32 c.warning.bufLen := by
  obtain ⟨hev, hon, hpos⟩ := ClientCall.cutOn_iff.mp h
  refine ⟨Option.some.inj hon, ?_⟩
  cases taken with
  | none => cases hpos
  | some t =>
      refine ⟨t, rfl, hpos, ?_⟩
      intro he
      simp only [ClientCall.sent, sendResult, he, if_true] at hev
      cases hev

theorem Sockets.conns_append {o : Sockets} {k' : Nat} {w : Warning} {bytes : Bytes}
    (h : (o.append k' w bytes).conns[k]? = some conn) : ∃ old, o.conns[k]? = some old ∧
      ((k' ≠ k ∧ conn = old) ∨ (k' = k ∧
        conn = { old with stream := old.stream ++ bytes, senders := old.senders ++ [w] })) := by
  rw [Sockets.append, List.getElem?_modify] at h
  obtain ⟨old, hold, he⟩ := Option.map_eq_some_iff.mp h
  refine ⟨old, hold, ?_⟩
  by_cases hkk : k' = k
  · rw [if_pos hkk] at he
    exact Or.inr ⟨hkk, he.symm⟩
  · rw [if_neg hkk] at he
    exact Or.inl ⟨hkk, he.symm⟩

theorem Client.Frames.sent (h : s.Frames) {i : Nat} {c : ClientCall} {sock : Socket}
    {taken : Option Nat} {sockets : Sockets} (hok : s.FramesApart (.send i true taken))
    (hc : s.calls[i]? = some c) (hpc : c.pc = .sending sock)
    (hs : s.connections.sockets.send sock c.warning c.warning.buffer (intOfU32 c.warning.bufLen)
      taken = some sockets) :
    Client.Frames
      { connections := { s.connections with sockets }
        calls := s.calls.set i (c.sent (s.connections.sockets.handles sock) taken) } := by
  obtain ⟨hhandles, hendpoint⟩ := Sockets.send_same hs
  have hkeep : ∀ k, ∀ d ∈ s.calls, d.cutOn k = true →
      ∃ d ∈ s.calls.set i (c.sent (s.connections.sockets.handles sock) taken),
        d.cutOn k = true := fun k => cutOn_set hc (by rw [hpc]; simp)
  have hsame : ∀ k conn, s.connections.sockets.conns[k]? = some conn →
      Client.FramedAt { connections := { s.connections with sockets }
                        calls := s.calls.set i (c.sent (s.connections.sockets.handles sock) taken) }
        k conn := fun k conn hconn =>
    (h.framed k conn hconn).of_same (fun h' hh => (congrFun hhandles h').symm.trans hh)
      fun d hd hcut => Or.inr (hkeep k d hd hcut)
  have hcases := Sockets.send_cases hs
  refine ⟨h.pooled.send hhandles hendpoint, ?_, ?_⟩
  · intro d hd k hcut
    rw [show Sockets.endpoint _ k = s.connections.sockets.endpoint k from hendpoint k]
    rcases List.mem_or_eq_of_mem_set hd with hd | rfl
    · exact h.cuts d hd k hcut
    · obtain ⟨hk, t, rfl, hpos, hne⟩ := ClientCall.cutOn_sent hcut
      rcases hcases with ⟨hnone, _⟩ | ⟨_, _, ht, _, hle, _⟩
      · cases hnone
      cases ht
      obtain ⟨hw, _, hown⟩ := hok.took hc hpc hk hle hpos
      rw [hw.intOfU32_bufLen] at hle hne
      exact hown (by omega)
  · intro k conn hconn
    rcases hcases with ⟨_, rfl⟩ | ⟨k', t, rfl, hk', hle, rfl⟩
    · exact hsame k conn hconn
    · obtain ⟨old, hold, hcases⟩ := Sockets.conns_append hconn
      rcases hcases with ⟨_, rfl⟩ | ⟨rfl, rfl⟩
      · exact hsame k conn hold
      rcases Nat.eq_zero_or_pos t with rfl | hpos
      · obtain ⟨ws, tail, hframed, htail⟩ := hsame k' old hold
        refine ⟨ws, tail, ?_, htail⟩
        rw [List.take_zero, List.append_nil]
        exact hframed.mono fun v hv => ⟨List.mem_append_left _ hv.1, hv.2⟩
      · obtain ⟨hw, hclear, _⟩ := hok.took hc hpc hk' hle hpos
        obtain ⟨ws, tail, hframed, htail⟩ :=
          (h.framed k' old hold).append ⟨sock, hk'⟩ hclear hw t
        rw [hw.buffer_eq]
        refine ⟨ws, tail, hframed, fun hne => Or.inr ?_⟩
        -- the call that has just cut its frame short waits to evict the connection
        have hlt := (htail hne).2
        have hcut : (c.sent (s.connections.sockets.handles sock) (some t)).cutOn k' = true := by
          refine ClientCall.cutOn_iff.mpr ⟨?_, congrArg some hk', hpos⟩
          rw [ClientCall.sent, sendResult, hw.intOfU32_bufLen]
          exact if_neg (by omega)
        refine ⟨_, List.mem_iff_getElem?.mpr ⟨i, ?_⟩, hcut⟩
        exact List.getElem?_set_self (List.getElem?_eq_some_iff.mp hc).1

/-- Every step that keeps frames apart keeps the invariant. -/
theorem Client.Frames.step (h : s.Frames) {a : ClientAction} (hok : s.FramesApart a)
    (hs : s.step a = some s') : s'.Frames := by
  cases Client.step_cases hs with
  | call endpoint w =>
      have hkeep : ∀ k, ∀ d ∈ s.calls, d.cutOn k = true →
          ∃ d ∈ s.calls ++ [ClientCall.start endpoint w], d.cutOn k = true := fun k d hd hcut =>
        ⟨d, List.mem_append_left _ hd, hcut⟩
      refine ⟨h.pooled, ?_, ?_⟩
      · intro d hd k hcut
        rcases List.mem_append.mp hd with hd | hd
        · exact h.cuts d hd k hcut
        · rw [List.mem_singleton.mp hd] at hcut
          cases hcut
      · intro k conn hconn
        exact (h.framed k conn hconn).of_same (fun _ hh => hh) fun d hd hcut =>
          Or.inr (hkeep k d hd hcut)
  | connect hc hpc hg => exact h.connect hc hpc hg
  | unsent hc hpc => exact h.unsent hc hpc
  | sent hc hpc hsend => exact h.sent hok hc hpc hsend
  | evict hc _ => exact h.evict hc

end Steps

/-- On every schedule that keeps frames apart every connection is aligned. -/
theorem connections_aligned {alloc : Bool} {as : List ClientAction} {s : Client}
    (h : Machine.Run Client.step Client.FramesApart (.init alloc) as s) :
    ∀ conn ∈ s.connections.sockets.conns, conn.Aligned := by
  have hinv : s.Frames :=
    h.invariant (Client.init_frames alloc) fun _ _ _ hi hok hs => hi.step hok hs
  intro conn hconn
  obtain ⟨k, hk⟩ := List.mem_iff_getElem?.mp hconn
  obtain ⟨ws, tail, hframed, _⟩ := hinv.framed k conn hk
  exact Conn.aligned_of_framed hframed

/-- Three calls share a connection.  The second cuts its frame short, the third fails on
the evicted connection, and a fourth makes a new one. -/
def apartCalls : List ClientAction :=
  [.call sampleKey sampleWarning, .call sampleKey sampleWarning, .call sampleKey sampleWarning,
    .connect 0 { socket := 1 }, .connect 1 { socket := 2 }, .connect 2 { socket := 2 },
    .send 0 true (some 30), .send 1 true (some 22), .evict 1, .send 2 true none,
    .call sampleKey sampleWarning, .connect 3 { socket := 1 }, .send 3 true (some 30)]

theorem connections_aligned_apartCalls : ∃ s,
    Machine.Run Client.step Client.FramesApart (.init true) apartCalls s ∧
      s.connections.sockets.conns.map Conn.stream =
        [wireFrame sampleWarning ++ (wireFrame sampleWarning).take 22, wireFrame sampleWarning] ∧
      ∀ conn ∈ s.connections.sockets.conns, conn.Aligned := by
  obtain ⟨s, hs, hstreams⟩ := Option.map_eq_some_iff.mp
    (show (Machine.execWhere Client.step Client.FramesApart (.init true) apartCalls).map
      (fun s => s.connections.sockets.conns.map Conn.stream) =
        some [wireFrame sampleWarning ++ (wireFrame sampleWarning).take 22,
          wireFrame sampleWarning] by decide +kernel)
  exact ⟨s, Machine.execWhere_run hs, hstreams, connections_aligned (Machine.execWhere_run hs)⟩

/-- Two calls share a connection.  The first cuts its frame short, and the second sends
its frame before the first has evicted the connection. -/
def cutRun : List ClientAction :=
  [.call sampleKey sampleWarning, .call sampleKey sampleWarning, .connect 0 { socket := 1 },
    .connect 1 { socket := 2 }, .send 0 true (some 22), .send 1 true (some 30)]

/-- What the receiver reads after that run. -/
def cutSock : Sock :=
  .closing [(wireFrame sampleWarning).take 22 ++ wireFrame sampleWarning] (by decide)

/-- What it decodes.  The time stamp is the head of the second frame. -/
def cutWarning : Warning := { sampleWarning with timestamp := 0x000000014e000000 }

/-- After `cutRun` the receiver decodes a warning that nobody sent. -/
theorem cut_frame_misaligns : ∃ s, Machine.exec Client.step (.init true) cutRun = some s ∧
    ∃ conn ∈ s.connections.sockets.conns, conn.senders = [sampleWarning, sampleWarning] ∧
      cutSock.stream = conn.stream ∧
      (CentralPropagator.deserializeWarning allAllocs cutSock).result = some cutWarning ∧
      cutWarning ∉ conn.senders ∧ ¬ conn.Aligned := by
  obtain ⟨s, hs, hobs⟩ := Option.map_eq_some_iff.mp
    (show (Machine.exec Client.step (.init true) cutRun).map
      (fun s => s.connections.sockets.conns) =
        some [{ endpoint := sampleKey
                stream := (wireFrame sampleWarning).take 22 ++ wireFrame sampleWarning
                senders := [sampleWarning, sampleWarning] }] by decide +kernel)
  have hdecode : (CentralPropagator.deserializeWarning allAllocs cutSock).result =
      some cutWarning := by decide +kernel
  have hforged : cutWarning ∉ [sampleWarning, sampleWarning] := by decide
  have hstream : cutSock.stream = (wireFrame sampleWarning).take 22 ++ wireFrame sampleWarning :=
    List.append_nil _
  refine ⟨s, hs, _, hobs ▸ List.mem_singleton_self _, rfl, hstream, hdecode, hforged, ?_⟩
  rintro ⟨ws, tail, _, hread⟩
  have hsent := (hread CentralPropagator.deserializeWarning (List.mem_cons_self ..) cutSock
    (hstream ▸ List.prefix_refl _) [allAllocs] _ (List.mem_cons_self ..)).2 cutWarning hdecode
  exact hforged hsent

end DataPropagator
