import DataPropagator.CentralPropagator.TreeWalks
import DataPropagator.Common.WireCodec

/-!
# Routing through the tree

The processes of a table work together.  `network_sender.c` sends a warning to the
root of its destination, every propagator that receives it sends it to the hop of
`dispatch_job_fn`, and a `DataDestination` keeps it.  Every process has loaded the same
file and was started with the id of its own row.

A hop is an address and a port, so a warning sent to a row arrives at the process that
listens there.  The network keeps the bytes of a transmission in order and cuts them as
it likes.  What the receiver decodes is what is sent on.
-/

namespace DataPropagator

open Forest

/-! ## The network -/

/-- The row whose process listens at an address and port. -/
def nodeAt (nodes : List NodeInfo) (address : CString) (port : UInt16) : Option Nat :=
  nodes.findIdx? fun node => eqString node.address address && node.port == port

/-- The pairs of address and port of a table are pairwise distinct. -/
def DistinctEndpoints (nodes : List NodeInfo) : Prop :=
  (nodes.map fun node => (node.address, node.port)).Nodup

instance (nodes : List NodeInfo) : Decidable (DistinctEndpoints nodes) :=
  inferInstanceAs (Decidable (List.Nodup _))

/-- The network: the socket on which the receiver of transmission `k` finds the bytes
sent.  They come first and in order, in any chunks, and anything may follow. -/
structure Tcp where
  sock : Nat → Bytes → Sock
  inOrder : ∀ k bytes, bytes <+: (sock k bytes).stream

/-- The decoder of the process of a row. -/
def decoderOf (node : NodeInfo) (s : Sock) : Decoded :=
  if node.type = .destination then DataDestination.deserializeWarning allAllocs s
  else CentralPropagator.deserializeWarning allAllocs s

/-- A call of `send_warning_to` for a row, the send taking all bytes it is given. -/
def sendTo (row : NodeInfo) (w : Warning) : Dispatch where
  address := row.address
  port := row.port
  call := sendWarningTo true true (fun _ len => len) w

/-- Transmission `k`: who receives what was sent, and what it decodes. -/
def transmit (nodes : List NodeInfo) (tcp : Tcp) (k : Nat) (x : Dispatch) :
    Option (Nat × Warning) :=
  (nodeAt nodes x.address x.port).bind fun n =>
  (nodes[n]?).bind fun node =>
  x.call.sent.bind fun buf =>
    (decoderOf node (tcp.sock k buf.1)).result.map fun v => (n, v)

/-! ## The hops -/

/-- The context of the propagator of row `c`.  A destination runs no propagator. -/
def contextOf (fuel : Nat) (content : Bytes) (nodes : List NodeInfo) (c : Nat) :
    Option CPContext :=
  (nodes[c]?).bind fun me =>
    if me.type = .destination then none else (cpContextCreate fuel (some content) me.id).join

/-- The row whose address and port the propagator of row `c` sends a warning for
`destNode` to. -/
def nextHop (fuel : Nat) (content : Bytes) (nodes : List NodeInfo) (destNode : CString) (c : Nat) :
    Option NodeInfo :=
  (contextOf fuel content nodes c).bind fun ctx =>
    (chooseHop fuel ctx destNode).bind fun hop => ctx.allNodes[hop]?

/-- The row whose process receives what the propagator of row `c` forwards. -/
def forwardsTo (fuel : Nat) (content : Bytes) (nodes : List NodeInfo) (destNode : CString)
    (c : Nat) : Option Nat :=
  (nextHop fuel content nodes destNode c).bind fun row => nodeAt nodes row.address row.port

/-- One turn of `network_sender_thread` for a warning it took from the queue. -/
def networkSend (fuel : Nat) (nodes : List NodeInfo) (w : Warning) : Option Dispatch :=
  (nodeFindById nodes w.destNode).bind fun dest =>
  (findRoot nodes fuel dest).bind fun root =>
  (nodes[root]?).map fun row => sendTo row w

/-- What the propagator of row `c` does with a warning it received. -/
def relay (fuel : Nat) (content : Bytes) (nodes : List NodeInfo) (w : Warning) (c : Nat) :
    Option Dispatch :=
  (contextOf fuel content nodes c).bind fun ctx =>
    dispatchJobFn fuel ctx true true (fun _ len => len) w

/-- The receptions of a warning from one on, up to the first at row `d`. -/
def receptionsFrom (fuel : Nat) (content : Bytes) (nodes : List NodeInfo) (tcp : Tcp) (d : Nat) :
    Nat → Nat → Nat × Warning → List (Nat × Warning)
  | 0, _, (c, w) => [(c, w)]
  | n + 1, k, (c, w) =>
      (c, w) ::
        if c = d then []
        else
          match (relay fuel content nodes w c).bind (transmit nodes tcp k) with
          | none => []
          | some next => receptionsFrom fuel content nodes tcp d n (k + 1) next

/-- Who receives a warning that the data source sends, up to the first arrival at row
`d`, and what it decodes. -/
def receptions (fuel : Nat) (content : Bytes) (nodes : List NodeInfo) (tcp : Tcp) (d : Nat)
    (w : Warning) : List (Nat × Warning) :=
  match (networkSend fuel nodes w).bind (transmit nodes tcp 0) with
  | none => []
  | some first => receptionsFrom fuel content nodes tcp d fuel 1 first

/-! ## One hop -/

theorem DistinctEndpoints.nodeAt {nodes : List NodeInfo} (h : DistinctEndpoints nodes) {i : Nat}
    {node : NodeInfo} (hi : nodes[i]? = some node) :
    nodeAt nodes node.address node.port = some i := by
  obtain ⟨hlt, hget⟩ := List.getElem?_eq_some_iff.mp hi
  refine List.findIdx?_eq_some_iff_getElem.mpr ⟨hlt, ?_, fun j hj => ?_⟩
  · rw [hget, Bool.and_eq_true, beq_iff_eq]
    exact ⟨(eqString_iff _ _).mpr rfl, rfl⟩
  · intro he
    rw [Bool.and_eq_true, beq_iff_eq, eqString_iff] at he
    have hij := eq_of_nodup_map h (List.getElem?_eq_getElem (by omega)) hi
      (show (nodes[j].address, nodes[j].port) = (node.address, node.port) by rw [he.1, he.2])
    omega

/-- A warning sent to a row arrives at the process of that row, unchanged. -/
theorem transmit_sendTo {nodes : List NodeInfo} (hends : DistinctEndpoints nodes) (tcp : Tcp)
    (k : Nat) {n : Nat} {row : NodeInfo} (hn : nodes[n]? = some row) {w : Warning}
    (hw : w.Sendable) : transmit nodes tcp k (sendTo row w) = some (n, w) := by
  obtain ⟨rest, hrest⟩ := tcp.inOrder k (wireFrame w)
  have hmatch := deserializeWarning_parse (tcp.sock k (wireFrame w))
  rw [← hrest, parseWarning_wireFrame hw] at hmatch
  have hdecode : (decoderOf row (tcp.sock k (wireFrame w))).result = some w := by
    rw [decoderOf]
    split <;> exact hmatch.1
  simp only [transmit, sendTo, hends.nodeAt hn, hn, hw.sent, Option.bind_some, hdecode]
  rfl

/-- A propagator sends a warning to the hop it chooses for its destination. -/
theorem relay_eq (fuel : Nat) (content : Bytes) (nodes : List NodeInfo) (w : Warning) (c : Nat) :
    relay fuel content nodes w c =
      (nextHop fuel content nodes w.destNode c).map fun row => sendTo row w := by
  rw [relay, nextHop, Option.map_bind]
  refine congrArg _ (funext ?_)
  intro ctx
  rw [dispatchJobFn, Function.comp_apply, Option.map_bind]
  rfl

section Hops

variable {content : Bytes} {nodes : List NodeInfo} {fuel : Nat}

/-- Every row that is not a destination has a context, around itself. -/
theorem context_of_row (hload : nodeLoadAll (some content) = .ok nodes) (hids : DistinctIds nodes)
    (hfuel : EnoughFuel nodes fuel) {c : Nat} {me : NodeInfo} (hc : nodes[c]? = some me) :
    ∃ ctx, cpContextCreate fuel (some content) me.id = some (some ctx) ∧ ctx.me = c ∧
      ctx.allNodes = nodes := by
  obtain ⟨l, hl⟩ := hfuel.listing c (List.getElem?_eq_some_iff.mp hc).1
  obtain ⟨ctx, hctx, hme⟩ := cpContextCreate_of_preorder hload (hids.lastRow hc) hl
  exact ⟨ctx, hctx, hme, (cpContextCreate_some hload hctx).2.1⟩

/-- For a row below its own a propagator chooses its child above that row. -/
theorem nextHop_below (hload : nodeLoadAll (some content) = .ok nodes)
    (hac : Acyclic (parentOf nodes)) (hids : DistinctIds nodes) (hfuel : EnoughFuel nodes fuel)
    {c x d : Nat} {me child row : NodeInfo} (hc : nodes[c]? = some me) (hx : nodes[x]? = some child)
    (hd : nodes[d]? = some row) (hparent : parentOf nodes x = some c)
    (habove : Above (parentOf nodes) x d) :
    nextHop fuel content nodes row.id c = some child := by
  obtain ⟨ctx, hctx, hme, hall⟩ := context_of_row hload hids hfuel hc
  have hstrict : StrictlyAbove (parentOf nodes) c d := Relation.TransGen.tail' habove hparent
  have hget := cpContextCreate_get_of_above hload hids hctx hd (hme ▸ hstrict.above)
  have hne : d ≠ c := by
    rintro rfl
    exact hac d hstrict
  have hty := Loaded.parent_type ⟨content, hload⟩ hparent hc
  have hwalk := hfuel.walk d (List.getElem?_eq_some_iff.mp hd).1 x c hparent habove
  rw [nextHop, contextOf, hc, Option.bind_some, if_neg hty, hctx]
  simp only [Option.join_some, Option.bind_some, chooseHop, hget, hme, hall, if_neg hne, hwalk, hx]

/-- For every other name a propagator chooses itself. -/
theorem nextHop_else (hload : nodeLoadAll (some content) = .ok nodes) (hids : DistinctIds nodes)
    (hfuel : EnoughFuel nodes fuel) {c : Nat} {me : NodeInfo} (hc : nodes[c]? = some me)
    (hty : me.type ≠ .destination) {s : CString}
    (hs : ∀ d row, nodes[d]? = some row → row.id = s → ¬ StrictlyAbove (parentOf nodes) c d) :
    nextHop fuel content nodes s c = some me := by
  obtain ⟨ctx, hctx, hme, hall⟩ := context_of_row hload hids hfuel hc
  have hhop : chooseHop fuel ctx s = some c := by
    rw [chooseHop]
    cases hget : hashmapGet ctx.map s with
    | none => exact congrArg some hme
    | some d =>
        obtain ⟨habove, hid⟩ := cpContextCreate_get hload hctx hget
        have hdc : d = ctx.me := by
          cases (Relation.reflTransGen_iff_eq_or_transGen).mp habove with
          | inl he => exact he.symm
          | inr ht =>
              obtain ⟨p, hp, _⟩ := Relation.TransGen.head'_iff.mp ht
              have hrow := List.getElem?_eq_getElem (parentOf_lt hp)
              rw [rowId_eq hrow] at hid
              exact absurd (hme ▸ ht) (hs d _ hrow hid)
        simp only [hdc, if_true, hme]
  rw [nextHop, contextOf, hc, Option.bind_some, if_neg hty, hctx]
  simp only [Option.join_some, Option.bind_some, hhop, hall, hc]

end Hops

/-- A network that delivers every byte on its own. -/
def Tcp.bytewise : Tcp where
  sock _ bytes := .closing (bytes.map fun b => [b]) (by simp)
  inOrder _ bytes := by
    refine ⟨[], ?_⟩
    rw [List.append_nil, Sock.stream]
    induction bytes with
    | nil => rfl
    | cons b bytes ih => exact congrArg (b :: ·) ih

/-! ## Delivery -/

section Delivery

variable {content : Bytes} {nodes : List NodeInfo} {fuel : Nat}

/-- A propagator forwards a warning for a row below its own to its child above that
row. -/
theorem forwardsTo_below (hload : nodeLoadAll (some content) = .ok nodes)
    (hac : Acyclic (parentOf nodes)) (hids : DistinctIds nodes) (hends : DistinctEndpoints nodes)
    (hfuel : EnoughFuel nodes fuel) {c x d : Nat} {row : NodeInfo} (hd : nodes[d]? = some row)
    (hparent : parentOf nodes x = some c) (habove : Above (parentOf nodes) x d) :
    forwardsTo fuel content nodes row.id c = some x := by
  have hme := List.getElem?_eq_getElem (Loaded.parent_lt ⟨content, hload⟩ hparent)
  have hx := List.getElem?_eq_getElem (parentOf_lt hparent)
  rw [forwardsTo, nextHop_below hload hac hids hfuel hme hx hd hparent habove, Option.bind_some]
  exact hends.nodeAt hx

/-- A warning for row `d` travels down the path to `d`, unchanged. -/
theorem receptionsFrom_path (hload : nodeLoadAll (some content) = .ok nodes)
    (hac : Acyclic (parentOf nodes)) (hids : DistinctIds nodes) (hends : DistinctEndpoints nodes)
    (hfuel : EnoughFuel nodes fuel) {d : Nat} {row : NodeInfo} (hd : nodes[d]? = some row)
    (tcp : Tcp) {w : Warning} (hw : w.Sendable) (hdest : w.destNode = row.id) {l : List Nat}
    {c : Nat} (hl : DownPath (parentOf nodes) l c d) : ∀ {n : Nat} (k : Nat), l.length ≤ n →
      receptionsFrom fuel content nodes tcp d n k (c, w) = l.map fun c => (c, w) := by
  induction hl with
  | here d =>
      intro n k hn
      obtain ⟨m, rfl⟩ : ∃ m, n = m + 1 := ⟨n - 1, by simp at hn; omega⟩
      rw [receptionsFrom, if_pos rfl]
      rfl
  | @down l c x d hx hl ih =>
      intro n k hn
      rw [List.length_cons] at hn
      obtain ⟨m, rfl⟩ : ∃ m, n = m + 1 := ⟨n - 1, by omega⟩
      have hne : c ≠ d := by
        rintro rfl
        exact hac c (Relation.TransGen.tail' hl.above hx)
      have hme := List.getElem?_eq_getElem (Loaded.parent_lt ⟨content, hload⟩ hx)
      have hrow := List.getElem?_eq_getElem (parentOf_lt hx)
      rw [receptionsFrom, if_neg hne, relay_eq, hdest,
        nextHop_below hload hac hids hfuel hme hrow hd hx hl.above, Option.map_some,
        Option.bind_some, transmit_sendTo hends tcp k hrow hw]
      exact congrArg _ (ih hd (k + 1) (by omega))

/-- In a table without cycles and with distinct ids and endpoints, a warning for row `d`
sent by the data source is received by exactly the ancestors of `d` from the root down
to `d`, in this order, and each of them decodes the warning that was sent.  The rows
before `d` run propagators. -/
theorem end_to_end_delivery (hload : nodeLoadAll (some content) = .ok nodes)
    (hac : Acyclic (parentOf nodes)) (hids : DistinctIds nodes) (hends : DistinctEndpoints nodes) :
    ∃ bound, ∀ fuel, bound ≤ fuel → ∀ (d : Nat) (row : NodeInfo), nodes[d]? = some row →
      ∀ (w : Warning), w.Sendable → w.destNode = row.id → ∀ tcp : Tcp,
        ∃ l, RootChain (parentOf nodes) l d ∧
          receptions fuel content nodes tcp d w = l.map (fun c => (c, w)) ∧
          ∀ c ∈ l.dropLast, ∃ node, nodes[c]? = some node ∧
            (node.type = .root ∨ node.type = .central) := by
  obtain ⟨bound, hbound⟩ := exists_enoughFuel ⟨content, hload⟩ hac
  refine ⟨max bound nodes.length, ?_⟩
  intro fuel hf d row hd w hw hdest tcp
  have hfuel := hbound fuel (le_trans (le_max_left _ _) hf)
  have hlt := (List.getElem?_eq_some_iff.mp hd).1
  obtain ⟨l, hl⟩ := (acyclic_iff_rootChain (parentOf_finite nodes)).mp hac d
  obtain ⟨r, hhead, hroot, _⟩ := hl.climb
  have hpath := hl.downPath hhead
  have hlen : l.length ≤ fuel :=
    le_trans (Loaded.rootChain_length_le ⟨content, hload⟩ hlt hl) (le_trans (le_max_right _ _) hf)
  refine ⟨l, hl, ?_, ?_⟩
  · have hrlt := Loaded.above_lt ⟨content, hload⟩ hlt hpath.above
    have hrow := List.getElem?_eq_getElem hrlt
    rw [receptions, networkSend, hdest, hids.nodeFindById hd, Option.bind_some,
      hfuel.climb d hlt l r hl hhead, Option.bind_some, hrow, Option.map_some, Option.bind_some,
      transmit_sendTo hends tcp 0 hrow hw]
    exact receptionsFrom_path hload hac hids hends hfuel hd tcp hw hdest hpath 1 hlen
  · intro c hc
    obtain ⟨y, hy, _⟩ := hpath.child_of_mem_dropLast hc
    have hclt := Loaded.parent_lt ⟨content, hload⟩ hy
    have hrow := List.getElem?_eq_getElem hclt
    have hty := Loaded.parent_type ⟨content, hload⟩ hy hrow
    refine ⟨_, hrow, ?_⟩
    cases ht : nodes[c].type with
    | root => exact Or.inl rfl
    | central => exact Or.inr rfl
    | destination => exact absurd ht hty

/-- The theorem at the two rows and a network of single bytes. -/
theorem end_to_end_delivery_twoRows : ∃ bound, ∀ fuel, bound ≤ fuel →
    receptions fuel twoRowFile twoRows Tcp.bytewise 1 { sampleWarning with destNode := nameB } =
      [(0, { sampleWarning with destNode := nameB }),
        (1, { sampleWarning with destNode := nameB })] := by
  obtain ⟨bound, h⟩ := end_to_end_delivery twoRowFile_load twoRows_acyclic (by decide) (by decide)
  refine ⟨bound, ?_⟩
  intro fuel hf
  obtain ⟨l, hl, hrec, _⟩ := h fuel hf 1 _ rfl { sampleWarning with destNode := nameB } (by decide)
    rfl Tcp.bytewise
  have hchain : RootChain (parentOf twoRows) ([0] ++ [1]) 1 := .child (.root rfl) rfl
  rw [hrec, hl.unique hchain]
  rfl

/-! ## Every destination string -/

/-- The chain of forwards from a row is finite, visits no row twice, and no propagator
on it forwards to its own address and port. -/
structure RoutingEnds (next : Nat → Option Nat) (c : Nat) : Prop where
  finite : ∃ n, ∀ m, n ≤ m → trail next m c = trail next n c
  nodup : ∀ n, (trail next n c).Nodup
  not_self : ∀ n, ∀ x ∈ trail next n c, next x ≠ some x

/-- A name that is the id of no row below a propagator is forwarded to the propagator
itself. -/
theorem forwardsTo_else (hload : nodeLoadAll (some content) = .ok nodes) (hids : DistinctIds nodes)
    (hends : DistinctEndpoints nodes) (hfuel : EnoughFuel nodes fuel) {c : Nat} {me : NodeInfo}
    (hc : nodes[c]? = some me) (hty : me.type ≠ .destination) {s : CString}
    (hs : ∀ d row, nodes[d]? = some row → row.id = s → ¬ StrictlyAbove (parentOf nodes) c d) :
    forwardsTo fuel content nodes s c = some c := by
  rw [forwardsTo, nextHop_else hload hids hfuel hc hty hs, Option.bind_some]
  exact hends.nodeAt hc

theorem forwardsTo_destination {c : Nat} {me : NodeInfo} (hc : nodes[c]? = some me)
    (hty : me.type = .destination) (s : CString) : forwardsTo fuel content nodes s c = none := by
  rw [forwardsTo, nextHop, contextOf, hc, Option.bind_some, if_pos hty, Option.bind_none,
    Option.bind_none]

/-- For a row below, the chain of forwards follows the path down to it. -/
theorem trail_forwardsTo (hload : nodeLoadAll (some content) = .ok nodes)
    (hac : Acyclic (parentOf nodes)) (hids : DistinctIds nodes) (hends : DistinctEndpoints nodes)
    (hfuel : EnoughFuel nodes fuel) {d : Nat} {row : NodeInfo} (hd : nodes[d]? = some row)
    {l : List Nat} {c : Nat} (hl : DownPath (parentOf nodes) l c d) {n : Nat}
    (hn : l.length ≤ n + 1) :
    trail (forwardsTo fuel content nodes row.id) n c =
      l.dropLast ++ trail (forwardsTo fuel content nodes row.id) (n + 1 - l.length) d :=
  hl.trail (fun _ _ _ hy hyd => forwardsTo_below hload hac hids hends hfuel hd hy hyd) hn

/-- A point that steps to itself ends no chain. -/
theorem not_routingEnds_of_self {next : Nat → Option Nat} {c x n : Nat}
    (hx : x ∈ trail next n c) (hself : next x = some x) : ¬ RoutingEnds next c :=
  fun h => h.not_self n x hx hself

/-- In a table without cycles and with distinct ids and endpoints, the chain of forwards
from a propagator ends without repetition exactly when the destination names a
`DESTINATION` row below it. -/
theorem routing_ends_iff (hload : nodeLoadAll (some content) = .ok nodes)
    (hac : Acyclic (parentOf nodes)) (hids : DistinctIds nodes) (hends : DistinctEndpoints nodes) :
    ∃ bound, ∀ fuel, bound ≤ fuel → ∀ (c : Nat) (me : NodeInfo), nodes[c]? = some me →
      me.type ≠ .destination → ∀ s : CString,
        (RoutingEnds (forwardsTo fuel content nodes s) c ↔
          ∃ d row, nodes[d]? = some row ∧ row.id = s ∧ row.type = .destination ∧
            StrictlyAbove (parentOf nodes) c d) := by
  obtain ⟨bound, hbound⟩ := exists_enoughFuel ⟨content, hload⟩ hac
  refine ⟨bound, fun fuel hf c me hc hty s => ⟨?_, ?_⟩⟩
  · intro h
    have hfuel := hbound fuel hf
    by_cases hs : ∃ d row, nodes[d]? = some row ∧ row.id = s ∧ StrictlyAbove (parentOf nodes) c d
    · obtain ⟨d, row, hd, rfl, hstrict⟩ := hs
      refine ⟨d, row, hd, rfl, ?_, hstrict⟩
      -- a row that is no destination forwards what is for itself to itself
      by_contra hrow
      obtain ⟨l, hl⟩ := exists_downPath hstrict.above
      have hself : forwardsTo fuel content nodes row.id d = some d := by
        refine forwardsTo_else hload hids hends hfuel hd hrow fun d' row' hd' hid => ?_
        rw [hids.eq_of_id hd' hd hid]
        exact hac d
      have hmem : d ∈ trail (forwardsTo fuel content nodes row.id) l.length c := by
        rw [trail_forwardsTo hload hac hids hends hfuel hd hl (Nat.le_succ _)]
        apply List.mem_append_right _
        rw [show l.length + 1 - l.length = 0 + 1 by omega, trail]
        exact List.mem_cons_self ..
      exact not_routingEnds_of_self hmem hself h
    · have hself : forwardsTo fuel content nodes s c = some c :=
        forwardsTo_else hload hids hends hfuel hc hty
          fun d row hd hid hstrict => hs ⟨d, row, hd, hid, hstrict⟩
      exact absurd h (not_routingEnds_of_self (n := 0) (List.mem_cons_self ..) hself)
  · rintro ⟨d, row, hd, rfl, hdest, hstrict⟩
    have hfuel := hbound fuel hf
    obtain ⟨l, hl⟩ := exists_downPath hstrict.above
    have hstop : forwardsTo fuel content nodes row.id d = none :=
      forwardsTo_destination hd hdest row.id
    have htrail : ∀ n, l.length ≤ n + 1 → trail (forwardsTo fuel content nodes row.id) n c = l := by
      intro n hn
      rw [trail_forwardsTo hload hac hids hends hfuel hd hl hn, trail_stop hstop,
        hl.dropLast_append]
    have hfront : ∀ n, trail (forwardsTo fuel content nodes row.id) n c <+: l := by
      intro n
      rw [← htrail (n + l.length) (by omega)]
      exact trail_prefix (Nat.le_add_right _ _)
    refine ⟨⟨l.length, fun m hm => ?_⟩, fun n => ?_, fun n x hx hself => ?_⟩
    · rw [htrail m (by omega), htrail l.length (by omega)]
    · exact (hl.nodup hac).sublist (hfront n).sublist
    · have hxl := (hfront n).subset hx
      have hmem := hl.mem_above hxl
      cases (Relation.reflTransGen_iff_eq_or_transGen).mp hmem.2 with
      | inl he =>
          subst he
          rw [hstop] at hself
          cases hself
      | inr ht =>
          obtain ⟨y, hdy, hy⟩ := Relation.TransGen.tail'_iff.mp ht
          rw [forwardsTo_below hload hac hids hends hfuel hd hy hdy, Option.some.injEq] at hself
          subst hself
          exact hac y (Relation.TransGen.single hy)

/-- The theorem at the two rows, for the name of the second. -/
theorem routing_ends_iff_twoRows : ∃ bound, ∀ fuel, bound ≤ fuel →
    RoutingEnds (forwardsTo fuel twoRowFile twoRows nameB) 0 := by
  obtain ⟨bound, h⟩ := routing_ends_iff twoRowFile_load twoRows_acyclic (by decide) (by decide)
  refine ⟨bound, fun fuel hf => (h fuel hf 0 _ rfl (by decide) nameB).mpr ?_⟩
  exact ⟨1, _, rfl, rfl, rfl, Relation.TransGen.single (show parentOf twoRows 1 = some 0 from rfl)⟩

/-- The root of the two rows forwards a warning for its own id to its own address and
port, again and again. -/
theorem own_id_is_forwarded_to_itself :
    nodeLoadAll (some twoRowFile) = .ok twoRows ∧ Acyclic (parentOf twoRows) ∧
      DistinctIds twoRows ∧ DistinctEndpoints twoRows ∧
      ∃ bound, ∀ fuel, bound ≤ fuel →
        forwardsTo fuel twoRowFile twoRows nameA 0 = some 0 ∧
          ¬ RoutingEnds (forwardsTo fuel twoRowFile twoRows nameA) 0 := by
  refine ⟨twoRowFile_load, twoRows_acyclic, by decide, by decide, ?_⟩
  obtain ⟨bound, hbound⟩ := exists_enoughFuel ⟨_, twoRowFile_load⟩ twoRows_acyclic
  have hids : DistinctIds twoRows := by decide
  refine ⟨bound, ?_⟩
  intro fuel hf
  have hself : forwardsTo fuel twoRowFile twoRows nameA 0 = some 0 := by
    apply forwardsTo_else twoRowFile_load hids (by decide) (hbound fuel hf) rfl (by decide)
    intro d row hd hid
    rw [hids.eq_of_id (j := 0) hd rfl hid]
    exact twoRows_acyclic 0
  exact ⟨hself, not_routingEnds_of_self (n := 0) (List.mem_cons_self ..) hself⟩

end Delivery

end DataPropagator
