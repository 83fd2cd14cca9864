import DataPropagator.CentralPropagator.Routing
import DataPropagator.Common.FrameAlignment

/-!
# The connections into a listener

All warnings for one row are sent by one process, that of its parent or the data source,
and its cache keeps one connection open for the address of the row.  After a send that
failed the connection is closed, and the next send opens a new one.  The listener
accepts the connections in the order in which they were opened and reads each of them to
its end.

So a wire is a list of connections that nobody writes to any more and at most one that is
written to.  `Wire.Carries` says which warnings the listener will find on them: those whose
frames are whole, in order.  A frame that was cut short stands at the end of a closed
connection and is never taken for a warning.
-/

namespace DataPropagator

open FramedStream (Framed Torn)

/-- What is left to read on the connections into a listener. -/
structure Wire where
  /-- Those that are closed at the other end, oldest first. -/
  closed : List Bytes
  /-- The one that is open. -/
  live : Option Bytes
deriving DecidableEq

namespace Wire

/-- No connection was opened yet. -/
def empty : Wire where
  closed := []
  live := none

/-- Bytes are sent, on a new connection if none is open. -/
def write (v : Wire) (bytes : Bytes) : Wire := { v with live := some (v.live.getD [] ++ bytes) }

/-- The sender closes the open connection. -/
def hangUp (v : Wire) : Wire where
  closed := v.closed ++ v.live.toList
  live := none

/-- The open connection breaks.  Only so many of the bytes under way get through. -/
def reset (v : Wire) (k : Nat) : Wire where
  closed := v.closed ++ (v.live.map (List.take k)).toList
  live := none

/-- What the listener finds on the connection it reads. -/
def front (v : Wire) : Option Bytes := v.closed.head?.or v.live

/-- The listener has read from its connection. -/
def advance (v : Wire) (rest : Bytes) : Wire :=
  match v.closed with
  | [] => { v with live := some rest }
  | _ :: cs => { v with closed := rest :: cs }

/-- The listener closes its connection and accepts the next one. -/
def accept (v : Wire) : Wire :=
  match v.closed with
  | [] => { v with live := none }
  | _ :: cs => { v with closed := cs }

/-! ## What the listener will find -/

/-- The warnings on connections that are closed.  A frame at the end may be cut short. -/
inductive Lines : List Bytes → List Warning → Prop where
  | nil : Lines [] []
  | cons {line tail : Bytes} {ls : List Bytes} {us ws : List Warning} :
      Framed wireFrame Warning.Sendable line us tail → Lines ls ws → Lines (line :: ls) (us ++ ws)

/-- The warnings on all connections.  On the open one every frame is whole. -/
def Carries (v : Wire) (ws : List Warning) : Prop :=
  ∃ us vs, Lines v.closed us ∧ Framed wireFrame Warning.Sendable (v.live.getD []) vs [] ∧
    ws = us ++ vs

theorem Lines.snoc {ls : List Bytes} {ws us : List Warning} {line tail : Bytes} (h : Lines ls ws)
    (hline : Framed wireFrame Warning.Sendable line us tail) : Lines (ls ++ [line]) (ws ++ us) := by
  induction h with
  | nil =>
      rw [List.nil_append, List.nil_append, ← List.append_nil us]
      exact .cons hline .nil
  | cons hhead _ ih =>
      rw [List.cons_append, List.append_assoc]
      exact .cons hhead ih

theorem framed_nil {ws : List Warning} (h : Framed wireFrame Warning.Sendable [] ws []) :
    ws = [] := by
  cases ws with
  | nil => rfl
  | cons w ws =>
      have hlen := congrArg List.length h.stream_eq
      rw [List.map_cons, List.flatten_cons, List.append_nil, List.length_append,
        wireFrame_length, List.length_nil] at hlen
      omega

theorem parseWarning_framed_nil {line tail : Bytes}
    (h : Framed wireFrame Warning.Sendable line [] tail) : parseWarning line = none := by
  rw [h.stream_eq]
  exact parseWarning_torn (fun _ hw => hw) h.torn

/-- The parser finds the first of the frames. -/
theorem parseWarning_framed_cons {line tail : Bytes} {w : Warning} {ws : List Warning}
    (h : Framed wireFrame Warning.Sendable line (w :: ws) tail) :
    parseWarning line = some (w, (ws.map wireFrame).flatten ++ tail) := by
  rw [h.stream_eq, List.map_cons, List.flatten_cons, List.append_assoc]
  exact parseWarning_wireFrame (h.sent w (.head _)) _

/-- The decoder of every process does on a socket what the parser does on its stream. -/
theorem decoderOf_parse (node : NodeInfo) (s : Sock) :
    (decoderOf node s).Matches (parseWarning s.stream) := by
  rw [decoderOf]
  split <;> exact deserializeWarning_parse s

/-! ## Sending -/

theorem carries_empty : empty.Carries [] :=
  ⟨[], [], .nil, .nil _ _, rfl⟩

/-- A whole frame is sent. -/
theorem Carries.write {v : Wire} {ws : List Warning} {w : Warning} (h : v.Carries ws)
    (hw : w.Sendable) : (v.write (wireFrame w)).Carries (ws ++ [w]) := by
  obtain ⟨us, vs, hlines, hlive, rfl⟩ := h
  exact ⟨us, vs ++ [w], hlines, hlive.whole hw, List.append_assoc ..⟩

/-- A frame is cut short, and the sender gives the connection up. -/
theorem Carries.torn {v : Wire} {ws : List Warning} {w : Warning} {cut : Bytes}
    (h : v.Carries ws) (hw : w.Sendable) (hcut : cut <+: wireFrame w) (hne : cut ≠ wireFrame w) :
    (v.write cut).hangUp.Carries ws := by
  obtain ⟨us, vs, hlines, hlive, rfl⟩ := h
  exact ⟨us ++ vs, [], hlines.snoc (hlive.cut hw hcut hne), .nil _ _, (List.append_nil _).symm⟩

/-- What gets through when a connection breaks is the first of what was under way. -/
theorem Carries.reset {v : Wire} {ws : List Warning} (h : v.Carries ws) (k : Nat) :
    ∃ ws', ws'.Sublist ws ∧ (v.reset k).Carries ws' := by
  obtain ⟨us, vs, hlines, hlive, rfl⟩ := h
  cases hv : v.live with
  | none =>
      refine ⟨us, List.sublist_append_left .., us, [], ?_, .nil _ _, (List.append_nil us).symm⟩
      simpa [Wire.reset, hv] using hlines
  | some line =>
      rw [hv] at hlive
      obtain ⟨j, tail, hj⟩ := hlive.of_prefix (List.take_prefix k line)
      refine ⟨us ++ vs.take j, (List.take_sublist j vs).append_left us, us ++ vs.take j, [], ?_,
        .nil _ _, (List.append_nil _).symm⟩
      simpa [Wire.reset, hv] using hlines.snoc hj

/-! ## Receiving -/

/-- The listener closes a connection before its end. -/
theorem Carries.accept {v : Wire} {ws : List Warning} (h : v.Carries ws) :
    ∃ ws', ws'.Sublist ws ∧ v.accept.Carries ws' := by
  obtain ⟨us, vs, hlines, hlive, rfl⟩ := h
  cases hc : v.closed with
  | nil =>
      refine ⟨us, List.sublist_append_left .., us, [], ?_, ?_, (List.append_nil us).symm⟩
      · simpa [Wire.accept, hc] using hlines
      · simpa [Wire.accept, hc] using Framed.nil wireFrame Warning.Sendable
  | cons c cs =>
      rw [hc] at hlines
      cases hlines with
      | @cons _ _ _ us' rest _ hrest =>
          refine ⟨rest ++ vs, ?_, rest, vs, ?_, ?_, rfl⟩
          · exact (List.sublist_append_right us' rest).append_right vs
          · simpa [Wire.accept, hc] using hrest
          · simpa [Wire.accept, hc] using hlive

/-- At the end of a connection the listener has found all warnings on it. -/
theorem Carries.ended {v : Wire} {ws : List Warning} {node : NodeInfo} {s : Sock}
    (h : v.Carries ws) (hfront : v.front = some s.stream) (hclosed : v.closed ≠ [])
    (hnone : (decoderOf node s).result = none) : v.accept.Carries ws := by
  obtain ⟨us, vs, hlines, hlive, rfl⟩ := h
  cases hc : v.closed with
  | nil => exact absurd hc hclosed
  | cons c cs =>
      rw [hc] at hlines
      have hfront : c = s.stream := by simpa [Wire.front, hc] using hfront
      have hparse := (decoderOf_parse node s).1
      rw [hnone, ← hfront] at hparse
      cases hlines with
      | @cons _ _ _ us' rest hline hrest =>
          cases us' with
          | nil =>
              refine ⟨rest, vs, ?_, ?_, rfl⟩
              · simpa [Wire.accept, hc] using hrest
              · simpa [Wire.accept, hc] using hlive
          | cons w us' =>
              rw [parseWarning_framed_cons hline] at hparse
              cases hparse

/-- What the decoder returns is the first warning on the wire, and it leaves the others. -/
theorem Carries.read {v : Wire} {ws : List Warning} {node : NodeInfo} {s : Sock} {w : Warning}
    (h : v.Carries ws) (hfront : v.front = some s.stream)
    (hsome : (decoderOf node s).result = some w) :
    ∃ rest, ws = w :: rest ∧ (v.advance (decoderOf node s).sock.stream).Carries rest := by
  obtain ⟨us, vs, hlines, hlive, rfl⟩ := h
  have hmatch := decoderOf_parse node s
  -- the connection that was read, without its first frame
  have hread : ∀ {ts : List Warning} {tail : Bytes},
      Framed wireFrame Warning.Sendable s.stream ts tail → ∃ ts', ts = w :: ts' ∧
        Framed wireFrame Warning.Sendable (decoderOf node s).sock.stream ts' tail := by
    intro ts tail hf
    have hres := hmatch.1
    rw [hsome] at hres
    cases ts with
    | nil =>
        rw [parseWarning_framed_nil hf] at hres
        cases hres
    | cons t ts =>
        rw [parseWarning_framed_cons hf] at hres hmatch
        obtain rfl := Option.some.inj hres
        exact ⟨ts, rfl, fun u hu => hf.sent u (.tail _ hu), hf.torn, hmatch.2 _ _ rfl⟩
  cases hc : v.closed with
  | nil =>
      have hlive' : v.live = some s.stream := by simpa [Wire.front, hc] using hfront
      rw [hlive', Option.getD_some] at hlive
      rw [hc] at hlines
      cases hlines
      obtain ⟨vs', rfl, hrest⟩ := hread hlive
      refine ⟨vs', rfl, [], vs', ?_, ?_, rfl⟩
      · simpa [Wire.advance, hc] using Lines.nil
      · simpa [Wire.advance, hc] using hrest
  | cons c cs =>
      have hfront : c = s.stream := by simpa [Wire.front, hc] using hfront
      rw [hc] at hlines
      cases hlines with
      | @cons _ _ _ us' rest hline hrest =>
          rw [hfront] at hline
          obtain ⟨us'', rfl, hline'⟩ := hread hline
          refine ⟨us'' ++ rest ++ vs, rfl, us'' ++ rest, vs, ?_, ?_, rfl⟩
          · simpa [Wire.advance, hc] using Lines.cons hline' hrest
          · simpa [Wire.advance, hc] using hlive

/-- Where no connection was closed, the open one has the frame of the first warning at its
front. -/
theorem Carries.front {v : Wire} {w : Warning} {ws : List Warning} (h : v.Carries (w :: ws))
    (hclosed : v.closed = []) :
    ∃ line rest, v.front = some line ∧ parseWarning line = some (w, rest) := by
  obtain ⟨us, vs, hlines, hlive, hws⟩ := h
  rw [hclosed] at hlines
  cases hlines
  rw [List.nil_append] at hws
  subst hws
  cases hv : v.live with
  | none =>
      rw [hv] at hlive
      exact absurd (framed_nil hlive) (List.cons_ne_nil _ _)
  | some line =>
      rw [hv] at hlive
      exact ⟨line, _, by simp [Wire.front, hclosed, hv], parseWarning_framed_cons hlive⟩

end Wire

end DataPropagator
