import DataPropagator.Network.Tracking

/-!
# What the network delivers

Two results about all processes of a table together, for every order of their steps.

* `network_safe`: whatever fails, no process ever holds or counts a warning that was not
  sent, none is held or counted more often than it was sent, a warning passes only through
  the rows above its destination, and only its destination counts it.
* `network_delivers`: when nothing fails, the processes come to rest after a number of steps
  that the table and the number of warnings bound, and then every warning was counted by its
  destination exactly as often as it was sent.
-/

namespace DataPropagator

open Forest Courier

/-! ## At every moment -/

/-- What the network keeps, whatever fails. -/
structure Network.Safe (nodes : List NodeInfo) (s : Network) : Prop where
  /-- All that is queued, worked at or counted anywhere is a part of what was sent. -/
  once : ((List.range nodes.length).flatMap fun i =>
    s.queue i ++ s.busy i ++ s.counted i).Subperm s.sent
  /-- A row counts only what was sent to it. -/
  counted : ∀ d row, nodes[d]? = some row →
    (s.counted d).Subperm (s.sent.filter fun w => decide (w.destNode = row.id))
  /-- Only a `DESTINATION` counts. -/
  elsewhere : ∀ d, isDestination nodes d = false → s.counted d = []
  /-- A warning passes through the rows above its destination. -/
  passing : ∀ i, ∀ w ∈ s.queue i ++ s.busy i,
    ∃ d, w.IsFor nodes d ∧ Above (parentOf nodes) i d

section Delivery

variable {content : Bytes} {nodes : List NodeInfo} {fuel : Nat}

/-- What comes to rest is at its destination. -/
theorem Deployed.arrived (ht : Deployed fuel content nodes) {p : Place} {w : Warning}
    (h : OnTheWay nodes p w) (hnext : (warningRoute fuel content nodes).next p w = none) :
    p.2 = .queue ∧ w.IsFor nodes p.1 := by
  obtain ⟨i, st⟩ := p
  cases st with
  | wire => cases hnext
  | queue =>
      refine ⟨rfl, ?_⟩
      simp only [warningRoute] at hnext
      split at hnext
      next hdest =>
          rcases h.cases ht with hd | ⟨hno, _⟩
          · exact hd
          · exact absurd hdest (by simp [hno])
      next => cases hnext
  | busy =>
      obtain ⟨x, child, _, hsome, _⟩ := ht.relayBy (e := .whole) h
      rw [hnext] at hsome
      cases hsome

/-- The statuses of what a table has taken off the wires. -/
def heldStatuses (n : Nat) : List (Status Place) :=
  (List.range n).flatMap fun i => [movingAt .queue i, movingAt .busy i, arrivedAt i]

theorem heldStatuses_nodup (n : Nat) : (heldStatuses n).Nodup := by
  refine List.nodup_flatMap.mpr ⟨fun i _ => by simp, ?_⟩
  refine List.nodup_range.pairwise_of_forall_ne fun i _ j _ hij => ?_
  intro st hi hj
  simp only [List.mem_cons, List.not_mem_nil, or_false] at hi hj
  rcases hi with rfl | rfl | rfl <;> simp [hij] at hj

/-- A network whose log is in order is safe. -/
theorem Network.Tracks.safe (ht : Deployed fuel content nodes) {s : Network}
    {air : Nat → List Warning} {l : Log Place Warning} (h : s.Tracks air l)
    (hgood : l.Good (warningRoute fuel content nodes) (OnTheWay nodes)) : s.Safe nodes where
  once := by
    have hperm : ((heldStatuses nodes.length).flatMap l.items).Perm
        ((List.range nodes.length).flatMap fun i => s.queue i ++ s.busy i ++ s.counted i) := by
      rw [heldStatuses, List.flatMap_assoc]
      refine List.Perm.flatMap_left _ fun i _ => ?_
      simpa using ((h.queue i).append (h.busy i)).append (h.counted i)
    rw [← h.entered]
    exact hperm.symm.subperm.trans (Log.items_subperm (heldStatuses_nodup _) l)
  counted d row hd := by
    refine (h.counted d).symm.subperm.trans ?_
    rw [← h.entered, List.filter_map]
    refine List.Sublist.subperm (List.Sublist.map _ ?_)
    -- what row `d` counted is for row `d`
    have himp : ∀ y ∈ l, decide (y.2 = arrivedAt d) = true →
        ((fun w : Warning => decide (w.destNode = row.id)) ∘ Prod.fst) y = true := by
      rintro ⟨w, st⟩ hy hst
      obtain rfl := of_decide_eq_true hst
      obtain ⟨hway, hnext⟩ := (hgood _ _).2 hy
      obtain ⟨row', hrow', _, hdest⟩ := (ht.arrived hway hnext).2
      rw [hd, Option.some.injEq] at hrow'
      simpa [hrow'] using hdest
    have hfilter : l.filter (fun y => decide (y.2 = arrivedAt d)) =
        (l.filter ((fun w : Warning => decide (w.destNode = row.id)) ∘ Prod.fst)).filter
          (fun y => decide (y.2 = arrivedAt d)) := by
      rw [List.filter_filter]
      refine List.filter_congr fun y hy => ?_
      by_cases hst : decide (y.2 = arrivedAt d) = true
      · rw [hst, himp y hy hst]
        rfl
      · simp [hst]
    rw [hfilter]
    exact List.filter_sublist
  elsewhere d hd := by
    refine List.eq_nil_iff_forall_not_mem.mpr fun w hw => ?_
    have hmem := Log.mem_items.mp ((h.counted d).mem_iff.mpr hw)
    obtain ⟨hway, hnext⟩ := (hgood _ _).2 hmem
    have hdest := (ht.arrived hway hnext).2.isDestination
    simp [hd] at hdest
  passing i w hw := by
    rcases List.mem_append.mp hw with hw | hw
    · exact ((hgood _ _).1 (Log.mem_items.mp ((h.queue i).mem_iff.mpr hw))).above
    · exact ((hgood _ _).1 (Log.mem_items.mp ((h.busy i).mem_iff.mpr hw))).above

/-- Every state that is reached has a log that is in order. -/
theorem Deployed.safe (ht : Deployed fuel content nodes) {as : List NetworkAction} {s : Network}
    (hrun : Machine.Run (Network.step fuel content nodes) (fun _ a => a.SendsFor nodes) .init as s) :
    s.Safe nodes := by
  obtain ⟨air, l, htracks, hgood⟩ : ∃ air l, s.Tracks air l ∧
      l.Good (warningRoute fuel content nodes) (OnTheWay nodes) := by
    refine hrun.invariant (P := fun s => ∃ air l, s.Tracks air l ∧
      l.Good (warningRoute fuel content nodes) (OnTheWay nodes)) ?_ ?_
    · exact ⟨_, [], Network.init_tracks, Log.good_nil _ _⟩
    · rintro s a t ⟨air, l, htracks, hgood⟩ ha hs
      obtain ⟨air', l', htracks', hsteps, _⟩ := htracks.step ht hgood ha hs
      exact ⟨air', l', htracks', hsteps.good (fun _ => ht.onTheWay_start) ht.onTheWay_next hgood⟩
  exact htracks.safe ht hgood

end Delivery

/-! ## One warning for the two rows -/

/-- A warning for the second of the two rows. -/
def warningForB : Warning where
  city := nameB
  type := 1
  value := 0x4045000000000000
  timestamp := 1700000000
  destNode := nameB

/-- A socket that hands out its frame. -/
def frameSock : Sock := .closing [wireFrame warningForB] (by decide)

/-- The warning is taken off the wire and to work at the root, sent on and counted. -/
def wayOnToB : List NetworkAction :=
  [.receive 0 frameSock true, .take 0, .dispatch 0 0 .whole, .receive 1 frameSock true, .count 1]

/-- The whole way of the warning. -/
def wayToB : List NetworkAction := .send warningForB .whole :: wayOnToB

theorem warningForB_isFor : warningForB.IsFor twoRows 1 := ⟨_, rfl, rfl, rfl⟩

theorem wayToB_allowed : ∀ a ∈ wayToB, a.SendsFor twoRows ∧ a.clean = true := by
  simp only [wayToB, wayOnToB, List.forall_mem_cons]
  exact ⟨⟨⟨by decide, 1, warningForB_isFor⟩, rfl⟩, ⟨trivial, rfl⟩, ⟨trivial, rfl⟩, ⟨trivial, rfl⟩,
    ⟨trivial, rfl⟩, ⟨trivial, rfl⟩, fun _ hc => by cases hc⟩

/-- The network while the frame is on the wire into the root. -/
def sentToA : Network where
  wire := Function.update (fun _ => .empty) 0 ⟨[], some (wireFrame warningForB)⟩
  queue _ := []
  busy _ := []
  counted _ := []
  sent := [warningForB]

/-- The network while a worker of the root has the warning. -/
def takenByA : Network where
  wire := Function.update sentToA.wire 0 ⟨[], some []⟩
  queue := Function.update (Function.update sentToA.queue 0 [warningForB]) 0 []
  busy := Function.update sentToA.busy 0 [warningForB]
  counted _ := []
  sent := [warningForB]

/-- The network while the frame is on the wire into the destination. -/
def sentToB : Network where
  wire := Function.update takenByA.wire 1 ⟨[], some (wireFrame warningForB)⟩
  queue := takenByA.queue
  busy := Function.update takenByA.busy 0 []
  counted _ := []
  sent := [warningForB]

section WayToB

variable {fuel : Nat} (ht : Deployed fuel twoRowFile twoRows)
include ht

theorem Deployed.sentToA_step :
    Network.step fuel twoRowFile twoRows .init (.send warningForB .whole) = some sentToA := by
  obtain ⟨row, hrow⟩ : ∃ row, twoRows[0]? = some row := ⟨_, rfl⟩
  have hroot : findRoot twoRows fuel 1 = some 0 :=
    ht.enough.climb 1 (by decide) ([0] ++ [1]) 0 (.child (.root rfl) rfl) rfl
  have hsend : DataPropagator.networkSendBy fuel twoRows .whole warningForB =
      some (attemptTo row .whole warningForB) := by
    rw [DataPropagator.networkSendBy,
      show nodeFindById twoRows warningForB.destNode = some 1 by decide, Option.bind_some, hroot,
      Option.bind_some, hrow, Option.map_some]
  simp only [Network.step, hsend, Option.map_some, transfer_whole ht.ends hrow
    (show warningForB.Sendable by decide)]
  rfl

theorem Deployed.sentToB_step :
    Network.step fuel twoRowFile twoRows takenByA (.dispatch 0 0 .whole) = some sentToB := by
  obtain ⟨row, hrow⟩ : ∃ row, twoRows[1]? = some row := ⟨_, rfl⟩
  have hrelay := ht.relayBy_child warningForB_isFor rfl hrow (Above.refl 1) .whole
  have hbusy : takenByA.busy 0 = [warningForB] := rfl
  simp only [Network.step, hbusy, List.getElem?_cons_zero, Option.bind_some, hrelay,
    Option.map_some, transfer_whole ht.ends hrow (show warningForB.Sendable by decide)]
  rfl

theorem Deployed.wayOnToB_exec : ∃ s,
    Machine.exec (Network.step fuel twoRowFile twoRows) sentToA wayOnToB = some s ∧
      s.counted 1 = [warningForB] := by
  have htaken : Machine.exec (Network.step fuel twoRowFile twoRows) sentToA
      [.receive 0 frameSock true, .take 0] = some takenByA := rfl
  obtain ⟨s, hs, hcounted⟩ : ∃ s, Machine.exec (Network.step fuel twoRowFile twoRows) sentToB
      [.receive 1 frameSock true, .count 1] = some s ∧ s.counted 1 = [warningForB] :=
    ⟨_, rfl, rfl⟩
  have hsplit : wayOnToB = [.receive 0 frameSock true, .take 0] ++
      .dispatch 0 0 .whole :: [.receive 1 frameSock true, .count 1] := rfl
  refine ⟨s, ?_, hcounted⟩
  rw [hsplit, Machine.exec_append, htaken, Option.bind_some, Machine.exec, ht.sentToB_step,
    Option.bind_some, hs]

theorem Deployed.wayToB_exec : ∃ s,
    Machine.exec (Network.step fuel twoRowFile twoRows) .init wayToB = some s ∧
      s.counted 1 = [warningForB] := by
  obtain ⟨s, hs, hcounted⟩ := ht.wayOnToB_exec
  refine ⟨s, ?_, hcounted⟩
  rw [wayToB, Machine.exec, ht.sentToA_step, Option.bind_some, hs]

end WayToB

section Delivery

variable {content : Bytes} {nodes : List NodeInfo} {fuel : Nat}

/-- In a table without cycles and with distinct ids and endpoints, the network is safe in
every state that it reaches, whatever fails and in whatever order the processes take their
steps, as long as the data source sends what fits an `int` to `DESTINATION` rows. -/
theorem network_safe (hload : nodeLoadAll (some content) = .ok nodes)
    (hac : Acyclic (parentOf nodes)) (hids : DistinctIds nodes) (hends : DistinctEndpoints nodes) :
    ∃ bound, ∀ fuel, bound ≤ fuel → ∀ as s,
      Machine.Run (Network.step fuel content nodes) (fun _ a => a.SendsFor nodes) .init as s →
        s.Safe nodes := by
  obtain ⟨bound, hbound⟩ := exists_enoughFuel ⟨content, hload⟩ hac
  refine ⟨bound, ?_⟩
  intro fuel hf as s hrun
  exact Deployed.safe ⟨hload, hac, hids, hends, hbound fuel hf⟩ hrun

/-- The theorem at the two rows and the way of one warning. -/
theorem network_safe_wayToB : ∃ bound, ∀ fuel, bound ≤ fuel → ∃ s,
    Machine.exec (Network.step fuel twoRowFile twoRows) .init wayToB = some s ∧
      s.counted 1 = [warningForB] ∧ s.Safe twoRows := by
  obtain ⟨b₁, h⟩ := network_safe twoRowFile_load twoRows_acyclic (by decide) (by decide)
  obtain ⟨b₂, henough⟩ := exists_enoughFuel ⟨_, twoRowFile_load⟩ twoRows_acyclic
  refine ⟨max b₁ b₂, fun fuel hf => ?_⟩
  obtain ⟨s, hs, hcounted⟩ := Deployed.wayToB_exec ⟨twoRowFile_load, twoRows_acyclic, by decide,
    by decide, henough fuel (le_trans (le_max_right _ _) hf)⟩
  refine ⟨s, hs, hcounted, h fuel (le_trans (le_max_left _ _) hf) wayToB s ?_⟩
  exact Machine.exec_run hs fun a ha => (wayToB_allowed a ha).1

/-! ## When nothing fails -/

theorem Network.Unbroken.update {s : Network} (h : s.Unbroken) {n : Nat} {v : Wire}
    (hv : v.closed = []) (i : Nat) : (Function.update s.wire n v i).closed = [] := by
  by_cases hi : i = n
  · rw [hi, Function.update_self]
    exact hv
  · rw [Function.update_of_ne hi]
    exact h i

/-- A call of `send_warning_to` that succeeds gives no connection up. -/
theorem Network.Unbroken.transfer {s : Network} (h : s.Unbroken) (row : NodeInfo) (w : Warning) :
    (s.transfer nodes .whole (attemptTo row .whole w)).Unbroken := by
  intro i
  simp only [Network.transfer, attemptTo, sendWarningTo, Attempt.whole, Attempt.send]
  split
  · exact h.update (by simpa [Wire.write] using h _) i
  · exact h i

/-- A step in which nothing fails gives no connection up. -/
theorem Network.Unbroken.step {s t : Network} (h : s.Unbroken) {a : NetworkAction}
    (ha : a.clean = true) (hs : s.step fuel content nodes a = some t) : t.Unbroken := by
  cases a with
  | send w e =>
      obtain rfl : e = .whole := by simpa [NetworkAction.clean] using ha
      obtain ⟨x, hx, rfl⟩ := Option.map_eq_some_iff.mp hs
      obtain ⟨dest, _, hx⟩ := Option.bind_eq_some_iff.mp hx
      obtain ⟨root, _, hx⟩ := Option.bind_eq_some_iff.mp hx
      obtain ⟨row, _, rfl⟩ := Option.map_eq_some_iff.mp hx
      have hsame : Network.Unbroken { s with sent := s.sent ++ [w] } := h
      exact hsame.transfer row w
  | receive i sock kept =>
      obtain ⟨node, _, hs⟩ := Option.bind_eq_some_iff.mp hs
      split at hs
      next =>
          rw [Network.listen] at hs
          cases hres : (decoderOf node sock).result with
          | some w =>
              simp only [hres, Option.some.injEq] at hs
              subst hs
              exact h.update (by simp [Wire.advance, h i])
          | none =>
              simp only [hres, h i, if_true] at hs
              cases hs
      next => cases hs
  | abandon i => cases ha
  | reset i k => cases ha
  | take i =>
      rw [Network.step] at hs
      split at hs
      next =>
          split at hs
          next => cases hs
          next =>
              cases hs
              exact h
      next => cases hs
  | dispatch i j e =>
      obtain rfl : e = .whole := by simpa [NetworkAction.clean] using ha
      obtain ⟨w, _, hs⟩ := Option.bind_eq_some_iff.mp hs
      rw [relayBy_eq] at hs
      obtain ⟨x, hx, rfl⟩ := Option.map_eq_some_iff.mp hs
      obtain ⟨row, _, rfl⟩ := Option.map_eq_some_iff.mp hx
      have hsame : Network.Unbroken
          { s with busy := Function.update s.busy i ((s.busy i).eraseIdx j) } := h
      exact hsame.transfer row w
  | count i =>
      rw [Network.step] at hs
      split at hs
      next =>
          split at hs
          next => cases hs
          next =>
              cases hs
              exact h
      next => cases hs

/-- What holds after the steps `as` when nothing failed in them. -/
structure Network.Smooth (fuel : Nat) (content : Bytes) (nodes : List NodeInfo)
    (as : List NetworkAction) (s : Network) (air : Nat → List Warning) (l : Log Place Warning) :
    Prop where
  tracks : s.Tracks air l
  good : l.Good (warningRoute fuel content nodes) (OnTheWay nodes)
  whole : l.Whole
  unbroken : s.Unbroken
  /-- Every step that is not one of the data source was one of those that were left. -/
  steps : (as.filter fun a => !a.isSend).length + l.left (stepsLeft fuel content nodes) ≤
    3 * nodes.length * s.sent.length

/-- A step in which nothing fails keeps the account. -/
theorem Network.Smooth.snoc (ht : Deployed fuel content nodes) {as : List NetworkAction}
    {s t : Network} {air : Nat → List Warning} {l : Log Place Warning}
    (h : Network.Smooth fuel content nodes as s air l) {a : NetworkAction} (ha : a.SendsFor nodes)
    (hclean : a.clean = true) (hs : s.step fuel content nodes a = some t) :
    ∃ air' l', Network.Smooth fuel content nodes (as ++ [a]) t air' l' := by
  obtain ⟨air', l', htracks, hsteps, hlogged⟩ := h.tracks.step ht h.good ha hs
  have hgood := hsteps.good (fun _ => ht.onTheWay_start) ht.onTheWay_next h.good
  have hunbroken := h.unbroken.step hclean hs
  have hlen : l.length = s.sent.length := by rw [← h.tracks.entered, List.length_map]
  have hlen' : l'.length = t.sent.length := by rw [← htracks.entered, List.length_map]
  have hlog := hlogged hclean h.unbroken
  have hold := h.steps
  rw [NetworkAction.LoggedAs] at hlog
  cases hsend : a.isSend with
  | true =>
      rw [hsend, if_pos rfl] at hlog
      obtain ⟨w, hw, rfl⟩ := hlog
      have hstart := ht.stepsLeft_start hw
      rw [List.length_append, List.length_singleton, hlen] at hlen'
      refine ⟨air', _, htracks, hgood, h.whole.snoc w _, hunbroken, ?_⟩
      rw [← hlen', Nat.mul_succ, List.filter_append, Log.left_append]
      simp only [List.filter_cons, List.filter_nil, hsend, Bool.not_true, Bool.false_eq_true,
        if_false, List.append_nil, Log.left, Status.left]
      omega
  | false =>
      rw [hsend, if_neg Bool.false_ne_true] at hlog
      have hlt := hlog.left_lt ht.stepsLeft_pos ht.stepsLeft_next h.good
      have hsame : t.sent.length = s.sent.length := by
        rw [← hlen', ← hlen]
        cases hlog <;> simp
      refine ⟨air', l', htracks, hgood, hlog.whole h.whole, hunbroken, ?_⟩
      rw [hsame, List.filter_append, List.length_append]
      simp only [List.filter_cons, List.filter_nil, hsend, Bool.not_false, if_true,
        List.length_singleton]
      omega

/-- Where a warning is on its way, some process can take a step in which nothing fails. -/
theorem Network.Smooth.progress (ht : Deployed fuel content nodes) {as : List NetworkAction}
    {s : Network} {air : Nat → List Warning} {l : Log Place Warning}
    (h : Network.Smooth fuel content nodes as s air l) {w : Warning} {p : Place}
    (hmem : (w, .moving p) ∈ l) :
    ∃ a, a.clean = true ∧ a.isSend = false ∧ (s.step fuel content nodes a).isSome := by
  have hdispatch : ∀ {i : Nat} {w : Warning} {ws : List Warning}, s.busy i = w :: ws →
      ∃ a, a.clean = true ∧ a.isSend = false ∧ (s.step fuel content nodes a).isSome := by
    intro i w ws hbusy
    have hitem : w ∈ l.items (movingAt .busy i) :=
      (h.tracks.busy i).mem_iff.mpr (hbusy ▸ List.mem_cons_self ..)
    obtain ⟨x, child, _, _, hby⟩ :=
      ht.relayBy (e := .whole) ((h.good _ _).1 (Log.mem_items.mp hitem))
    refine ⟨.dispatch i 0 .whole, rfl, rfl, ?_⟩
    simp only [Network.step, hbusy, List.getElem?_cons_zero, Option.bind_some, hby,
      Option.isSome_map, Option.isSome_some]
  obtain ⟨i, st⟩ := p
  have hitem : w ∈ l.items (movingAt st i) := Log.mem_items.mpr hmem
  cases st with
  | wire =>
      have hair := (h.tracks.wire i).mem_iff.mp hitem
      cases hws : air i with
      | nil =>
          rw [hws] at hair
          cases hair
      | cons v ws =>
          have hcarry := h.tracks.carries i
          rw [hws] at hcarry
          obtain ⟨line, rest, hfront, hparse⟩ := hcarry.front (h.unbroken i)
          have hne : line ≠ [] := by
            rintro rfl
            cases hparse
          have hstream : (Sock.closing [line] (by simpa using hne)).stream = line := by
            simp [Sock.stream, Sock.closing]
          obtain ⟨d, ⟨row, hd, _⟩, habove⟩ := ((h.good _ _).1 hmem).above
          have hlt := Loaded.above_lt ⟨content, ht.load⟩ (List.getElem?_eq_some_iff.mp hd).1 habove
          have hnode := List.getElem?_eq_getElem hlt
          have hres := (Wire.decoderOf_parse nodes[i] (.closing [line] (by simpa using hne))).1
          rw [hstream, hparse] at hres
          refine ⟨.receive i (.closing [line] (by simpa using hne)) true, rfl, rfl, ?_⟩
          simp only [Network.step, hnode, Option.bind_some, hfront, hstream, if_true,
            Network.listen, hres, Option.map_some, Option.isSome_some]
  | queue =>
      have hq := (h.tracks.queue i).mem_iff.mp hitem
      cases hws : s.queue i with
      | nil =>
          rw [hws] at hq
          cases hq
      | cons v ws =>
          cases hdest : isDestination nodes i with
          | true =>
              refine ⟨.count i, rfl, rfl, ?_⟩
              simp only [Network.step, hdest, if_true, hws, Option.isSome_some]
          | false =>
              by_cases hbusy : (s.busy i).length < threadPoolSize
              · refine ⟨.take i, rfl, rfl, ?_⟩
                simp only [Network.step, hdest, hbusy, and_self, if_true, hws, Option.isSome_some]
              · cases hb : s.busy i with
                | nil =>
                    rw [hb] at hbusy
                    exact absurd (by decide) hbusy
                | cons v' ws' => exact hdispatch hb
  | busy =>
      have hbusy := (h.tracks.busy i).mem_iff.mp hitem
      cases hb : s.busy i with
      | nil =>
          rw [hb] at hbusy
          cases hbusy
      | cons v ws => exact hdispatch hb

/-- Where nothing is on its way any more, every destination has counted what was sent to it. -/
theorem Network.Smooth.settled (ht : Deployed fuel content nodes) {as : List NetworkAction}
    {s : Network} {air : Nat → List Warning} {l : Log Place Warning}
    (h : Network.Smooth fuel content nodes as s air l) (hrest : ∀ w p, (w, .moving p) ∉ l)
    {d : Nat} {row : NodeInfo} (hd : nodes[d]? = some row) :
    (s.counted d).Perm (s.sent.filter fun w => decide (w.destNode = row.id)) := by
  refine (h.tracks.counted d).symm.trans (.of_eq ?_)
  rw [← h.tracks.entered, List.filter_map, Log.items]
  refine congrArg _ (List.filter_congr ?_)
  rintro ⟨w, st⟩ hy
  cases st with
  | moving p => exact absurd hy (hrest w p)
  | dropped => exact absurd rfl (h.whole _ hy)
  | arrived p =>
      obtain ⟨hway, hnext⟩ := (h.good _ _).2 hy
      obtain ⟨hqueue, row', hrow', _, hdest⟩ := ht.arrived hway hnext
      obtain ⟨i, st⟩ := p
      simp only at hqueue hrow'
      subst hqueue
      simp only [Function.comp_apply, decide_eq_decide, hdest]
      constructor
      · intro he
        have hi : i = d := arrivedAt_inj.mp he
        subst hi
        rw [hd, Option.some.injEq] at hrow'
        rw [hrow']
      · intro he
        rw [ht.ids.eq_of_id hrow' hd he]
        rfl

/-- Every account is kept in a run in which nothing fails. -/
theorem Deployed.smooth (ht : Deployed fuel content nodes) {as : List NetworkAction} {s : Network}
    (hrun : Machine.Run (Network.step fuel content nodes)
      (fun _ a => a.SendsFor nodes ∧ a.clean = true) .init as s) :
    ∃ air l, Network.Smooth fuel content nodes as s air l := by
  induction hrun with
  | nil =>
      exact ⟨_, [], Network.init_tracks, Log.good_nil _ _, fun _ hy => (by cases hy),
        fun _ => rfl, Nat.zero_le _⟩
  | snoc _ hok hs ih =>
      obtain ⟨air, l, h⟩ := ih
      exact h.snoc ht hok.1 hok.2 hs

/-- Some process can take a step, or every row has counted what was sent to it. -/
theorem Network.Smooth.settles (ht : Deployed fuel content nodes) {as : List NetworkAction}
    {s : Network} {air : Nat → List Warning} {l : Log Place Warning}
    (h : Network.Smooth fuel content nodes as s air l) :
    (∃ a, a.clean = true ∧ a.isSend = false ∧ (s.step fuel content nodes a).isSome) ∨
      ∀ d row, nodes[d]? = some row →
        (s.counted d).Perm (s.sent.filter fun w => decide (w.destNode = row.id)) := by
  by_cases hrest : ∃ w p, (w, .moving p) ∈ l
  · obtain ⟨w, p, hmem⟩ := hrest
    exact Or.inl (h.progress ht hmem)
  · exact Or.inr fun d row hd => h.settled ht (fun w p hmem => hrest ⟨w, p, hmem⟩) hd

/-- In a table without cycles and with distinct ids and endpoints, when nothing fails: the
processes other than the data source take at most three steps for every row and every
warning that was sent, in whatever order they take them, and when none of them can take a
step any more, every row has counted exactly what was sent to it. -/
theorem network_delivers (hload : nodeLoadAll (some content) = .ok nodes)
    (hac : Acyclic (parentOf nodes)) (hids : DistinctIds nodes) (hends : DistinctEndpoints nodes) :
    ∃ bound, ∀ fuel, bound ≤ fuel → ∀ as s,
      Machine.Run (Network.step fuel content nodes)
        (fun _ a => a.SendsFor nodes ∧ a.clean = true) .init as s →
        (as.filter fun a => !a.isSend).length ≤ 3 * nodes.length * s.sent.length ∧
        ((∃ a, a.clean = true ∧ a.isSend = false ∧ (s.step fuel content nodes a).isSome) ∨
          ∀ d row, nodes[d]? = some row →
            (s.counted d).Perm (s.sent.filter fun w => decide (w.destNode = row.id))) := by
  obtain ⟨bound, hbound⟩ := exists_enoughFuel ⟨content, hload⟩ hac
  refine ⟨bound, ?_⟩
  intro fuel hf as s hrun
  have ht : Deployed fuel content nodes := ⟨hload, hac, hids, hends, hbound fuel hf⟩
  obtain ⟨air, l, h⟩ := ht.smooth hrun
  exact ⟨le_trans (Nat.le_add_right _ _) h.steps, h.settles ht⟩

/-- The theorem at the two rows and the way of one warning. -/
theorem network_delivers_wayToB : ∃ bound, ∀ fuel, bound ≤ fuel → ∃ s,
    Machine.exec (Network.step fuel twoRowFile twoRows) .init wayToB = some s ∧
      (wayToB.filter fun a => !a.isSend).length ≤ 3 * 2 * s.sent.length ∧
      ((∃ a, a.clean = true ∧ a.isSend = false ∧
          (s.step fuel twoRowFile twoRows a).isSome) ∨
        (s.counted 1).Perm (s.sent.filter fun w => decide (w.destNode = nameB))) := by
  obtain ⟨b₁, h⟩ := network_delivers twoRowFile_load twoRows_acyclic (by decide) (by decide)
  obtain ⟨b₂, henough⟩ := exists_enoughFuel ⟨_, twoRowFile_load⟩ twoRows_acyclic
  refine ⟨max b₁ b₂, fun fuel hf => ?_⟩
  obtain ⟨s, hs, _⟩ := Deployed.wayToB_exec ⟨twoRowFile_load, twoRows_acyclic, by decide,
    by decide, henough fuel (le_trans (le_max_right _ _) hf)⟩
  obtain ⟨hle, hrest⟩ := h fuel (le_trans (le_max_left _ _) hf) wayToB s
    (Machine.exec_run hs wayToB_allowed)
  exact ⟨s, hs, hle, hrest.imp_right fun hall => hall 1 _ rfl⟩

end Delivery

end DataPropagator
