import DataPropagator.Common.NodeLines
import DataPropagator.DataSource.Pipeline
import DataPropagator.Network.Delivery

/-!
# From the generator to the counters

The data source of `Pipeline` and the network of `System` run together.  They meet in one
step: when `network_sender_thread` calls `send_warning_to`, the frame goes on the wire into
the root.  Everything else either of them does on its own.

What the generator makes is always something that the network delivers, so nothing has to
be assumed about the warnings any more: `system_counts` follows them from the generator to
the counters of the destinations.
-/

namespace DataPropagator

open Forest Courier

/-! ## What the generator makes -/

/-- The type and the value of a warning are in the ranges that the generator draws from, and
its city is its destination. -/
structure Warning.Generated (nodes : List NodeInfo) (w : Warning) : Prop where
  sendable : w.Sendable
  isFor : ∃ d, w.IsFor nodes d
  type_lt : w.type.toNat < 4
  value : ∃ v, v < 100 ∧ w.value = doubleOfInt v
  city : w.city = w.destNode

theorem generateWarning_generated {nodes : List NodeInfo} (hload : Loaded nodes) {r : Choice}
    {w : Warning} (h : generateWarning nodes r = some w) : w.Generated nodes := by
  obtain ⟨j, hj, h⟩ := Option.bind_eq_some_iff.mp h
  obtain ⟨n, hn, h⟩ := Option.bind_eq_some_iff.mp h
  obtain ⟨node, hnode, hty⟩ := mem_destinations.mp (List.mem_of_getElem? hj)
  rw [hn, Option.some.injEq] at hnode
  subst hnode
  have hlen := hload.id_length_lt n (List.mem_of_getElem? hn)
  have hid : strdup (n.id.bytes ++ [0]) = n.id := by
    rw [strdup_append_zero]
    exact CString.ofBuffer_bytes n.id
  simp only [warningCreate, Bool.not_true, Bool.false_eq_true, if_false, Option.some.injEq,
    hid] at h
  subst h
  refine ⟨?_, ⟨j, n, hn, hty, rfl⟩, ?_, ⟨r.value % 100, Nat.mod_lt _ (by decide), rfl⟩, rfl⟩
  · show strlen n.id + strlen n.id + 28 < 2 ^ 31
    simp only [strlen]
    have : lineSize = 512 := rfl
    omega
  · have hlt := Nat.mod_lt r.type (show 0 < 4 by decide)
    show (UInt32.ofNat (r.type % 4)).toNat < 4
    rw [UInt32.toNat_ofNat_of_lt' (by show _ < 2 ^ 32; omega)]
    exact hlt

/-! ## The system -/

/-- The data source and the network. -/
structure WholeSystem where
  source : Source
  network : Network

/-- The threads of the data source have been created, and all processes listen. -/
def WholeSystem.init : WholeSystem where
  source := .init
  network := .init

/-- A step of the system. -/
inductive SystemAction where
  /-- A step of the data source that sends nothing. -/
  | source (a : SourceAction)
  /-- `network_sender_thread` calls `send_warning_to`. -/
  | send (e : Attempt)
  /-- A step of the network. -/
  | network (a : NetworkAction)

/-- Nothing fails in the step. -/
def SystemAction.clean : SystemAction → Bool
  | .source _ => true
  | .send e => e = .whole
  | .network a => a.clean

/-- Whether a step of the data source is its call of `send_warning_to`. -/
def SourceAction.isSend : SourceAction → Bool
  | .sender (.send _) => true
  | _ => false

/-- The step in which the sender gives a warning to the network.  One whose destination is
not found it only destroys. -/
def WholeSystem.sendStep (fuel : Nat) (content : Bytes) (nodes : List NodeInfo) (s : WholeSystem)
    (e : Attempt) : Option WholeSystem :=
  match s.source.sender with
  | .holding k =>
      (s.source.created[k]?).bind fun w =>
      (s.source.step nodes (.sender (.send (e = .whole)))).bind fun source =>
        match nodeFindById nodes w.destNode with
        | none => some { s with source }
        | some _ =>
            (s.network.step fuel content nodes (.send w e)).map fun network => { source, network }
  | _ => none

/-- One step. -/
def WholeSystem.step (fuel : Nat) (content : Bytes) (nodes : List NodeInfo) (s : WholeSystem) :
    SystemAction → Option WholeSystem
  | .source a =>
      if a.isSend then none
      else (s.source.step nodes a).map fun source => { s with source }
  | .send e => s.sendStep fuel content nodes e
  | .network a =>
      if a.isSend then none
      else (s.network.step fuel content nodes a).map fun network => { s with network }

/-! ## What the two have in common -/

section System

variable {content : Bytes} {nodes : List NodeInfo} {fuel : Nat}

/-- The generator only adds to the warnings that were created. -/
theorem Source.generate_created {s t : Source} {k : GeneratorStep} (hload : Loaded nodes)
    (hs : s.generate nodes k = some t) :
    t.sent = s.sent ∧ ∃ ws, t.created = s.created ++ ws ∧ ∀ w ∈ ws, w.Generated nodes := by
  have hsame : ∃ ws, s.created = s.created ++ ws ∧ ∀ w ∈ ws, w.Generated nodes :=
    ⟨[], (List.append_nil _).symm, fun _ hw => by cases hw⟩
  cases k with
  | count =>
      obtain ⟨_, rfl⟩ := Option.ite_some_none_eq_some.mp hs
      exact ⟨rfl, hsame⟩
  | test =>
      obtain ⟨_, rfl⟩ := Option.ite_some_none_eq_some.mp hs
      exact ⟨rfl, hsame⟩
  | create r =>
      obtain ⟨_, hs⟩ := Option.ite_none_right_eq_some.mp hs
      obtain ⟨w, hw, rfl⟩ := Option.map_eq_some_iff.mp hs
      refine ⟨rfl, [w], rfl, fun v hv => ?_⟩
      rw [List.mem_singleton.mp hv]
      exact generateWarning_generated hload hw
  | describe desc =>
      rw [Source.generate] at hs
      split at hs
      next =>
          cases hs
          exact ⟨rfl, hsame⟩
      next => cases hs
  | enqueue =>
      rw [Source.generate] at hs
      split at hs
      next =>
          obtain ⟨inbox, _, rfl⟩ := Option.map_eq_some_iff.mp hs
          exact ⟨rfl, hsame⟩
      next => cases hs
  | close =>
      obtain ⟨_, hs⟩ := Option.ite_none_right_eq_some.mp hs
      obtain ⟨inbox, _, rfl⟩ := Option.map_eq_some_iff.mp hs
      exact ⟨rfl, hsame⟩

theorem Source.takes_created (s : Source) (r : Inbox Nat × Option (Option Nat)) :
    (s.takes r).created = s.created ∧ (s.takes r).sent = s.sent := by
  obtain ⟨inbox, _ | _ | w⟩ := r <;> exact ⟨rfl, rfl⟩

/-- The sender creates nothing, and sends only where it calls `send_warning_to`. -/
theorem Source.send_created {s t : Source} {k : SenderStep} (hs : s.send nodes k = some t) :
    t.created = s.created ∧ ((SourceAction.sender k).isSend = false → t.sent = s.sent) := by
  cases k with
  | test =>
      obtain ⟨_, rfl⟩ := Option.ite_some_none_eq_some.mp hs
      exact ⟨rfl, fun _ => rfl⟩
  | dequeue =>
      obtain ⟨_, hs⟩ := Option.ite_none_right_eq_some.mp hs
      obtain ⟨r, _, rfl⟩ := Option.map_eq_some_iff.mp hs
      exact ⟨(s.takes_created r).1, fun _ => (s.takes_created r).2⟩
  | resume =>
      obtain ⟨_, hs⟩ := Option.ite_none_right_eq_some.mp hs
      obtain ⟨r, _, rfl⟩ := Option.map_eq_some_iff.mp hs
      exact ⟨(s.takes_created r).1, fun _ => (s.takes_created r).2⟩
  | spurious =>
      obtain ⟨_, hs⟩ := Option.ite_none_right_eq_some.mp hs
      obtain ⟨inbox, _, rfl⟩ := Option.map_eq_some_iff.mp hs
      exact ⟨rfl, fun _ => rfl⟩
  | send ok =>
      refine ⟨?_, fun hf => by cases hf⟩
      rw [Source.send] at hs
      split at hs
      next k hpc =>
          obtain ⟨w, _, hs⟩ := Option.bind_eq_some_iff.mp hs
          split at hs
          next => cases hs; rfl
          next =>
              obtain ⟨root, _, rfl⟩ := Option.map_eq_some_iff.mp hs
              rfl
      next => cases hs
  | destroy =>
      rw [Source.send] at hs
      split at hs
      next =>
          cases hs
          exact ⟨rfl, fun _ => rfl⟩
      next => cases hs

theorem Source.control_created {s t : Source} {k : SourceMainStep} (hs : s.control k = some t) :
    t.created = s.created ∧ t.sent = s.sent := by
  cases k <;>
  · obtain ⟨_, rfl⟩ := Option.ite_some_none_eq_some.mp hs
    exact ⟨rfl, rfl⟩

theorem Network.transfer_sent (s : Network) (e : Attempt) (x : Dispatch) :
    (s.transfer nodes e x).sent = s.sent := by
  rw [Network.transfer]
  split <;> rfl

/-- Only the data source sends. -/
theorem Network.step_sent {s t : Network} {a : NetworkAction}
    (hs : s.step fuel content nodes a = some t) :
    t.sent = match a with
      | .send w _ => s.sent ++ [w]
      | _ => s.sent := by
  cases a with
  | send w e =>
      obtain ⟨x, _, rfl⟩ := Option.map_eq_some_iff.mp hs
      exact Network.transfer_sent _ e x
  | receive i sock kept =>
      obtain ⟨node, _, hs⟩ := Option.bind_eq_some_iff.mp hs
      split at hs
      next =>
          rw [Network.listen] at hs
          split at hs
          next => cases hs; rfl
          next =>
              split at hs
              next => cases hs
              next => cases hs; rfl
      next => cases hs
  | abandon i => cases hs; rfl
  | reset i k => cases hs; rfl
  | take i =>
      rw [Network.step] at hs
      split at hs
      next =>
          split at hs
          next => cases hs
          next => cases hs; rfl
      next => cases hs
  | dispatch i j e =>
      obtain ⟨w, _, hs⟩ := Option.bind_eq_some_iff.mp hs
      obtain ⟨x, _, rfl⟩ := Option.map_eq_some_iff.mp hs
      exact Network.transfer_sent _ e x
  | count i =>
      rw [Network.step] at hs
      split at hs
      next =>
          split at hs
          next => cases hs
          next => cases hs; rfl
      next => cases hs

/-- What holds in every state of the system: both parts are where they can get on their
own, every warning is a generated one, and the network was given the first of them.
`strict` says that nothing failed so far. -/
structure WholeSystem.Inv (fuel : Nat) (content : Bytes) (nodes : List NodeInfo) (strict : Bool)
    (s : WholeSystem) : Prop where
  source : Machine.Reachable (Source.step nodes) .init s.source
  network : ∃ as, Machine.Run (Network.step fuel content nodes)
    (fun _ a => a.SendsFor nodes ∧ (strict = true → a.clean = true)) .init as s.network
  generated : ∀ w ∈ s.source.created, w.Generated nodes
  sent : s.network.sent = s.source.created.take s.source.sent.length

theorem WholeSystem.init_inv (strict : Bool) : WholeSystem.init.Inv fuel content nodes strict where
  source := .refl _ _
  network := ⟨[], .nil⟩
  generated _ hw := by cases hw
  sent := rfl

section Step

variable {s t : WholeSystem} {strict : Bool}

theorem WholeSystem.Inv.sourceStep (hload : Loaded nodes)
    (h : s.Inv fuel content nodes strict) {a : SourceAction} {source : Source}
    (ha : a.isSend = false) (hs : s.source.step nodes a = some source) :
    WholeSystem.Inv fuel content nodes strict { s with source } := by
  have hle := (Source.inv_of_reachable hload h.source).sent_le
  obtain ⟨hsent, ws, hcreated, hws⟩ : source.sent = s.source.sent ∧
      ∃ ws, source.created = s.source.created ++ ws ∧ ∀ w ∈ ws, w.Generated nodes := by
    cases a with
    | generator k => exact Source.generate_created hload hs
    | sender k =>
        obtain ⟨hcreated, hsent⟩ := Source.send_created hs
        exact ⟨hsent ha, [], by rw [hcreated, List.append_nil], fun _ hw => by cases hw⟩
    | main k =>
        obtain ⟨hcreated, hsent⟩ := Source.control_created hs
        exact ⟨hsent, [], by rw [hcreated, List.append_nil], fun _ hw => by cases hw⟩
  refine ⟨h.source.tail hs, h.network, fun w hw => ?_, ?_⟩
  · rw [hcreated] at hw
    exact (List.mem_append.mp hw).elim (h.generated w) (hws w)
  · show s.network.sent = source.created.take source.sent.length
    rw [hsent, hcreated, List.take_append_of_le_length hle]
    exact h.sent

theorem WholeSystem.Inv.sendStep (hload : Loaded nodes)
    (h : s.Inv fuel content nodes strict) {e : Attempt} (he : strict = true → e = .whole)
    (hs : s.sendStep fuel content nodes e = some t) : t.Inv fuel content nodes strict := by
  have hinv := Source.inv_of_reachable hload h.source
  rw [WholeSystem.sendStep] at hs
  split at hs
  next k hpc =>
      obtain ⟨w, hw, hs⟩ := Option.bind_eq_some_iff.mp hs
      obtain ⟨source, hsource, hs⟩ := Option.bind_eq_some_iff.mp hs
      have hk := hinv.holding k hpc
      have hgen := h.generated w (List.mem_of_getElem? hw)
      obtain ⟨hcreated, _⟩ := Source.send_created (k := .send (e = .whole)) hsource
      split at hs
      next hfind =>
          -- the destination of a generated warning is found
          obtain ⟨_, row, hrow, _, hdest⟩ := hgen.isFor
          obtain ⟨d, hd, _⟩ := nodeFindById_of_mem (List.mem_of_getElem? hrow)
          rw [hdest, hd] at hfind
          cases hfind
      next d hfind =>
          obtain ⟨network, hnetwork, rfl⟩ := Option.map_eq_some_iff.mp hs
          have hlen : source.sent.length = s.source.sent.length + 1 := by
            simp only [Source.step, Source.send, hpc, hw, Option.bind_some, hfind] at hsource
            obtain ⟨root, _, rfl⟩ := Option.map_eq_some_iff.mp hsource
            exact List.length_append
          have hfor : (NetworkAction.send w e).SendsFor nodes := ⟨hgen.sendable, hgen.isFor⟩
          obtain ⟨as, hrun⟩ := h.network
          refine ⟨h.source.tail hsource, ⟨_, hrun.snoc ⟨hfor, ?_⟩ hnetwork⟩,
            fun v hv => h.generated v (hcreated ▸ hv), ?_⟩
          · intro hstrict
            simp [NetworkAction.clean, he hstrict]
          · show network.sent = source.created.take source.sent.length
            rw [Network.step_sent hnetwork, hcreated, hlen, h.sent, List.take_add_one, ← hk, hw]
            rfl
  next => cases hs

/-- Every step keeps what holds. -/
theorem WholeSystem.Inv.step (hload : Loaded nodes) (h : s.Inv fuel content nodes strict)
    {a : SystemAction} (ha : strict = true → a.clean = true)
    (hs : s.step fuel content nodes a = some t) : t.Inv fuel content nodes strict := by
  cases a with
  | source a =>
      rw [WholeSystem.step] at hs
      split at hs
      next => cases hs
      next hsend =>
          obtain ⟨source, hsource, rfl⟩ := Option.map_eq_some_iff.mp hs
          exact h.sourceStep hload (by simpa using hsend) hsource
  | send e => exact h.sendStep hload (fun hst => by simpa [SystemAction.clean] using ha hst) hs
  | network a =>
      rw [WholeSystem.step] at hs
      split at hs
      next => cases hs
      next hsend =>
          obtain ⟨network, hnetwork, rfl⟩ := Option.map_eq_some_iff.mp hs
          obtain ⟨as, hrun⟩ := h.network
          have hfor : a.SendsFor nodes := by
            cases a with
            | send w e => exact absurd rfl hsend
            | receive | abandon | reset | take | dispatch | count => trivial
          refine ⟨h.source, ⟨_, hrun.snoc ⟨hfor, ha⟩ hnetwork⟩, h.generated, ?_⟩
          rw [← h.sent]
          have hsent := Network.step_sent hnetwork
          cases a with
          | send w e => exact absurd rfl hsend
          | receive | abandon | reset | take | dispatch | count => exact hsent

end Step

end System

end DataPropagator
