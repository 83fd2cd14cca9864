import DataPropagator.Network.System

/-!
# The log of a network

Every warning that the data source sends has an entry in a log that says where it is: on
the wire into a row, in the queue of a row, with a worker of a row, counted by a row, or
dropped.  `Network.Tracks` says that the network holds what the log says, and
`Network.Tracks.step` that every step of the network is some steps of the log.  When
nothing fails, a step of the data source adds an entry and every other step hands one
warning on.
-/

namespace DataPropagator

open Forest Courier

/-! ## Where a warning can be -/

/-- The destination of a warning is row `d`, and that row is a `DESTINATION`. -/
def Warning.IsFor (nodes : List NodeInfo) (w : Warning) (d : Nat) : Prop :=
  ∃ row, nodes[d]? = some row ∧ row.type = .destination ∧ w.destNode = row.id

/-- Where a warning is at a row. -/
inductive Stage where
  | wire
  | queue
  | busy
deriving DecidableEq

/-- A row and a stage. -/
abbrev Place := Nat × Stage

/-- Where warnings enter and where they go. -/
def warningRoute (fuel : Nat) (content : Bytes) (nodes : List NodeInfo) : Route Place Warning where
  ok w := w.Sendable ∧ ∃ d, w.IsFor nodes d
  start w := (((nodeFindById nodes w.destNode).bind (findRoot nodes fuel)).getD 0, .wire)
  next p w :=
    match p.2 with
    | .wire => some (p.1, .queue)
    | .queue => if isDestination nodes p.1 then none else some (p.1, .busy)
    | .busy => (forwardsTo fuel content nodes w.destNode p.1).map fun n => (n, .wire)

/-- The warning is at a row that is above its destination, or is its destination. -/
structure OnTheWay (nodes : List NodeInfo) (p : Place) (w : Warning) : Prop where
  sendable : w.Sendable
  above : ∃ d, w.IsFor nodes d ∧ Above (parentOf nodes) p.1 d
  busy : p.2 = .busy → isDestination nodes p.1 = false

theorem isDestination_eq {nodes : List NodeInfo} {i : Nat} {node : NodeInfo}
    (h : nodes[i]? = some node) : isDestination nodes i = (node.type == .destination) := by
  rw [isDestination, h, Option.any_some]

theorem Warning.IsFor.isDestination {nodes : List NodeInfo} {w : Warning} {d : Nat}
    (h : w.IsFor nodes d) : isDestination nodes d = true := by
  obtain ⟨row, hd, hty, _⟩ := h
  rw [isDestination_eq hd, hty]
  rfl

/-- What the processes of a table rely on: they have all loaded it, its graph has no cycle,
no two rows have the same id or the same address and port, and the fuel is enough for every
walk. -/
structure Deployed (fuel : Nat) (content : Bytes) (nodes : List NodeInfo) : Prop where
  load : nodeLoadAll (some content) = .ok nodes
  acyclic : Acyclic (parentOf nodes)
  ids : DistinctIds nodes
  ends : DistinctEndpoints nodes
  enough : EnoughFuel nodes fuel

section Route

variable {content : Bytes} {nodes : List NodeInfo} {fuel : Nat} {w : Warning} {d : Nat}

/-- A row above a destination is that destination or has a child above it. -/
theorem OnTheWay.cases (ht : Deployed fuel content nodes) {p : Place} (h : OnTheWay nodes p w) :
    w.IsFor nodes p.1 ∨ (isDestination nodes p.1 = false ∧
      ∃ d x, w.IsFor nodes d ∧ parentOf nodes x = some p.1 ∧ Above (parentOf nodes) x d) := by
  obtain ⟨d, hd, habove⟩ := h.above
  rcases above_iff_child.mp habove with rfl | ⟨x, hx, hxd⟩
  · exact Or.inl hd
  · have hrow := List.getElem?_eq_getElem (Loaded.parent_lt ⟨content, ht.load⟩ hx)
    have hne := Loaded.parent_type ⟨content, ht.load⟩ hx hrow
    refine Or.inr ⟨?_, d, x, hd, hx, hxd⟩
    rw [isDestination_eq hrow, beq_eq_false_iff_ne]
    exact hne

/-- The root that the data source sends a warning to. -/
theorem Deployed.start_root (ht : Deployed fuel content nodes) (hd : w.IsFor nodes d) :
    ∃ l r root, DownPath (parentOf nodes) l r d ∧ nodes[r]? = some root ∧
      (nodeFindById nodes w.destNode).bind (findRoot nodes fuel) = some r := by
  obtain ⟨row, hrow, _, hdest⟩ := hd
  have hlt := (List.getElem?_eq_some_iff.mp hrow).1
  obtain ⟨l, hl⟩ := (acyclic_iff_rootChain (parentOf_finite nodes)).mp ht.acyclic d
  obtain ⟨r, hhead, hroot, _⟩ := hl.climb
  have hpath := hl.downPath hhead
  have hrlt := Loaded.above_lt ⟨content, ht.load⟩ hlt hpath.above
  refine ⟨l, r, _, hpath, List.getElem?_eq_getElem hrlt, ?_⟩
  rw [hdest, ht.ids.nodeFindById hrow, Option.bind_some, ht.enough.climb d hlt l r hl hhead]

/-- A worker above a destination forwards to its child above it. -/
theorem Deployed.forwardsTo (ht : Deployed fuel content nodes) (hd : w.IsFor nodes d) {c x : Nat}
    (hx : parentOf nodes x = some c) (hxd : Above (parentOf nodes) x d) :
    forwardsTo fuel content nodes w.destNode c = some x := by
  obtain ⟨row, hrow, _, hdest⟩ := hd
  rw [hdest]
  exact forwardsTo_below ht.load ht.acyclic ht.ids ht.ends ht.enough hrow hx hxd

theorem Deployed.onTheWay_start (ht : Deployed fuel content nodes)
    (hw : (warningRoute fuel content nodes).ok w) :
    OnTheWay nodes ((warningRoute fuel content nodes).start w) w := by
  obtain ⟨hsend, d, hd⟩ := hw
  obtain ⟨l, r, root, hpath, _, hroot⟩ := ht.start_root hd
  refine ⟨hsend, ⟨d, hd, ?_⟩, by simp [warningRoute]⟩
  simp only [warningRoute, hroot, Option.getD_some]
  exact hpath.above

theorem Deployed.onTheWay_next (ht : Deployed fuel content nodes) (p : Place) (w : Warning)
    (q : Place) (h : OnTheWay nodes p w)
    (hnext : (warningRoute fuel content nodes).next p w = some q) : OnTheWay nodes q w := by
  obtain ⟨i, st⟩ := p
  cases st with
  | wire =>
      cases hnext
      exact ⟨h.sendable, h.above, by simp⟩
  | queue =>
      simp only [warningRoute] at hnext
      split at hnext
      next => cases hnext
      next hdest =>
          cases hnext
          exact ⟨h.sendable, h.above, fun _ => by simpa using hdest⟩
  | busy =>
      rcases h.cases ht with hd | ⟨_, d, x, hd, hx, hxd⟩
      · exact absurd (h.busy rfl) (by simp [hd.isDestination])
      · simp only [warningRoute, ht.forwardsTo hd hx hxd, Option.map_some,
          Option.some.injEq] at hnext
        subst hnext
        exact ⟨h.sendable, ⟨d, hd, hxd⟩, by simp⟩

/-! ## How far a warning has to go -/

/-- How many rows a warning has to visit from a row on. -/
def rowsLeft (fuel : Nat) (content : Bytes) (nodes : List NodeInfo) (i : Nat) (w : Warning) : Nat :=
  (trail (DataPropagator.forwardsTo fuel content nodes w.destNode) nodes.length i).length

/-- How much of the three steps at a row is behind a warning.  One was taken to send it. -/
def Stage.behind : Stage → Nat
  | .wire => 1
  | .queue => 2
  | .busy => 3

/-- How many steps there are to the counting of a warning. -/
def stepsLeft (fuel : Nat) (content : Bytes) (nodes : List NodeInfo) (p : Place) (w : Warning) :
    Nat :=
  3 * rowsLeft fuel content nodes p.1 w - p.2.behind

/-- A path visits no row twice. -/
theorem Deployed.path_length_le (ht : Deployed fuel content nodes) (hd : w.IsFor nodes d)
    {l : List Nat} {c : Nat} (hl : DownPath (parentOf nodes) l c d) : l.length ≤ nodes.length := by
  obtain ⟨row, hrow, _, _⟩ := hd
  have hsub : ∀ x ∈ l, x < nodes.length := fun x hx =>
    Loaded.above_lt ⟨content, ht.load⟩ (List.getElem?_eq_some_iff.mp hrow).1 (hl.mem_above hx).2
  calc l.length ≤ (List.range nodes.length).length :=
        ((hl.nodup ht.acyclic).subperm fun x hx => List.mem_range.mpr (hsub x hx)).length_le
    _ = nodes.length := List.length_range

theorem Deployed.rowsLeft_path (ht : Deployed fuel content nodes) (hd : w.IsFor nodes d)
    {l : List Nat} {c : Nat} (hl : DownPath (parentOf nodes) l c d) :
    rowsLeft fuel content nodes c w = l.length := by
  have hlen := ht.path_length_le hd hl
  obtain ⟨row, hrow, hty, hdest⟩ := hd
  rw [rowsLeft, hdest, trail_forwardsTo ht.load ht.acyclic ht.ids ht.ends ht.enough hrow hl
    (by omega), trail_stop (forwardsTo_destination hrow hty row.id), hl.dropLast_append]

/-- From the parent of a row there is one row more to visit. -/
theorem Deployed.rowsLeft_parent (ht : Deployed fuel content nodes) (hd : w.IsFor nodes d)
    {c x : Nat} (hx : parentOf nodes x = some c) (hxd : Above (parentOf nodes) x d) :
    rowsLeft fuel content nodes c w = rowsLeft fuel content nodes x w + 1 := by
  obtain ⟨l, hl⟩ := exists_downPath hxd
  rw [ht.rowsLeft_path hd hl, ht.rowsLeft_path hd (.down hx hl), List.length_cons]

theorem rowsLeft_pos (fuel : Nat) (content : Bytes) (nodes : List NodeInfo) (i : Nat)
    (w : Warning) : 0 < rowsLeft fuel content nodes i w := by
  rw [rowsLeft, List.length_pos_iff]
  cases nodes.length <;> simp [trail]

theorem Deployed.stepsLeft_pos (ht : Deployed fuel content nodes) (p : Place) (w : Warning)
    (h : OnTheWay nodes p w) : 0 < stepsLeft fuel content nodes p w := by
  obtain ⟨i, st⟩ := p
  have hpos := rowsLeft_pos fuel content nodes i w
  cases st with
  | wire =>
      simp only [stepsLeft, Stage.behind]
      omega
  | queue =>
      simp only [stepsLeft, Stage.behind]
      omega
  | busy =>
      rcases h.cases ht with hd | ⟨_, d, x, hd, hx, hxd⟩
      · exact absurd (h.busy rfl) (by simp [hd.isDestination])
      · have hx' := rowsLeft_pos fuel content nodes x w
        have hparent : rowsLeft fuel content nodes i w = _ := ht.rowsLeft_parent hd hx hxd
        simp only [stepsLeft, Stage.behind]
        omega

theorem Deployed.stepsLeft_next (ht : Deployed fuel content nodes) (p : Place) (w : Warning)
    (q : Place) (h : OnTheWay nodes p w)
    (hnext : (warningRoute fuel content nodes).next p w = some q) :
    stepsLeft fuel content nodes q w < stepsLeft fuel content nodes p w := by
  obtain ⟨i, st⟩ := p
  have hpos := rowsLeft_pos fuel content nodes i w
  cases st with
  | wire =>
      cases hnext
      simp only [stepsLeft, Stage.behind]
      omega
  | queue =>
      simp only [warningRoute] at hnext
      split at hnext
      next => cases hnext
      next hdest =>
          cases hnext
          rcases h.cases ht with hd | ⟨_, d, x, hd, hx, hxd⟩
          · exact absurd hd.isDestination hdest
          · have hparent : rowsLeft fuel content nodes i w = _ := ht.rowsLeft_parent hd hx hxd
            have hx' := rowsLeft_pos fuel content nodes x w
            simp only [stepsLeft, Stage.behind]
            omega
  | busy =>
      rcases h.cases ht with hd | ⟨_, d, x, hd, hx, hxd⟩
      · exact absurd (h.busy rfl) (by simp [hd.isDestination])
      · have hparent : rowsLeft fuel content nodes i w = _ := ht.rowsLeft_parent hd hx hxd
        have hx' := rowsLeft_pos fuel content nodes x w
        simp only [warningRoute, ht.forwardsTo hd hx hxd, Option.map_some,
          Option.some.injEq] at hnext
        subst hnext
        simp only [stepsLeft, Stage.behind]
        omega

/-- No warning has farther to go than through all rows. -/
theorem Deployed.stepsLeft_start (ht : Deployed fuel content nodes)
    (hw : (warningRoute fuel content nodes).ok w) :
    stepsLeft fuel content nodes ((warningRoute fuel content nodes).start w) w ≤
      3 * nodes.length := by
  obtain ⟨_, d, hd⟩ := hw
  obtain ⟨l, r, root, hpath, _, hroot⟩ := ht.start_root hd
  have hlen := ht.path_length_le hd hpath
  simp only [warningRoute, hroot, Option.getD_some, stepsLeft, ht.rowsLeft_path hd hpath]
  omega

/-! ## Sending -/

/-- A propagator sends a warning to the hop it chooses for its destination. -/
theorem relayBy_eq (fuel : Nat) (content : Bytes) (nodes : List NodeInfo) (e : Attempt)
    (w : Warning) (c : Nat) : relayBy fuel content nodes e w c =
      (nextHop fuel content nodes w.destNode c).map fun row => attemptTo row e w := by
  rw [relayBy, nextHop, Option.map_bind]
  refine congrArg _ (funext ?_)
  intro ctx
  rw [dispatchJobFn, Function.comp_apply, Option.map_bind]
  rfl

/-- A worker above a destination sends to its child above it. -/
theorem Deployed.relayBy_child (ht : Deployed fuel content nodes) (hd : w.IsFor nodes d)
    {c x : Nat} {child : NodeInfo} (hx : parentOf nodes x = some c) (hchild : nodes[x]? = some child)
    (hxd : Above (parentOf nodes) x d) (e : Attempt) :
    relayBy fuel content nodes e w c = some (attemptTo child e w) := by
  obtain ⟨row, hrow, _, hdest⟩ := hd
  have hme := List.getElem?_eq_getElem (Loaded.parent_lt ⟨content, ht.load⟩ hx)
  rw [relayBy_eq, hdest, nextHop_below ht.load ht.acyclic ht.ids ht.enough hme hchild hrow hx hxd,
    Option.map_some]

/-- A worker that is at a warning sends it to the row that the route says. -/
theorem Deployed.relayBy (ht : Deployed fuel content nodes) {e : Attempt} {c : Nat}
    (h : OnTheWay nodes (c, .busy) w) :
    ∃ x child, nodes[x]? = some child ∧
      (warningRoute fuel content nodes).next (c, .busy) w = some (x, .wire) ∧
      relayBy fuel content nodes e w c = some (attemptTo child e w) := by
  rcases h.cases ht with hd | ⟨_, d, x, hd, hx, hxd⟩
  · exact absurd (h.busy rfl) (by simp [hd.isDestination])
  · have hchild := List.getElem?_eq_getElem (parentOf_lt hx)
    refine ⟨x, _, hchild, ?_, ht.relayBy_child hd hx hchild hxd e⟩
    simp only [warningRoute, ht.forwardsTo hd hx hxd, Option.map_some]

/-- The data source sends a warning to where its route begins. -/
theorem Deployed.networkSendBy (ht : Deployed fuel content nodes) {e : Attempt}
    (hw : (warningRoute fuel content nodes).ok w) :
    ∃ r root, nodes[r]? = some root ∧ (warningRoute fuel content nodes).start w = (r, .wire) ∧
      networkSendBy fuel nodes e w = some (attemptTo root e w) := by
  obtain ⟨_, d, hd⟩ := hw
  obtain ⟨l, r, root, _, hr, hroot⟩ := ht.start_root hd
  refine ⟨r, root, hr, ?_, ?_⟩
  · simp only [warningRoute, hroot, Option.getD_some]
  · rw [DataPropagator.networkSendBy, ← Option.bind_assoc, hroot, Option.bind_some, hr,
      Option.map_some]

end Route

/-- One wire carries other warnings. -/
theorem Wire.carries_update {wire : Nat → Wire} {air : Nat → List Warning}
    (h : ∀ i, (wire i).Carries (air i)) {n : Nat} {v : Wire} {ws : List Warning}
    (hv : v.Carries ws) (i : Nat) :
    (Function.update wire n v i).Carries (Function.update air n ws i) := by
  by_cases hi : i = n
  · subst hi
    rw [Function.update_self, Function.update_self]
    exact hv
  · rw [Function.update_of_ne hi, Function.update_of_ne hi]
    exact h i

/-- A call of `send_warning_to` on a socket and a buffer. -/
theorem Warning.Sendable.sendWarningTo {w : Warning} (h : w.Sendable) (send : Bytes → Int → Int) :
    sendWarningTo true true send w =
      { sent := some (wireFrame w, ((wireFrame w).length : Int))
        evicts := decide (send (wireFrame w) (wireFrame w).length ≠ (wireFrame w).length)
        ret := decide (send (wireFrame w) (wireFrame w).length = (wireFrame w).length) } := by
  simp only [DataPropagator.sendWarningTo, h.buffer_eq, h.intOfU32_bufLen]
  by_cases hs : send (wireFrame w) (wireFrame w).length = (wireFrame w).length <;> simp [hs]

/-- A call of `send_warning_to` puts the frame on the wire into the row, or what it puts
there carries nothing and the call did not succeed. -/
theorem transfer_carries {nodes : List NodeInfo} (hends : DistinctEndpoints nodes) {n : Nat}
    {row : NodeInfo} (hn : nodes[n]? = some row) {w : Warning} (hw : w.Sendable) (e : Attempt)
    (s : Network) {air : Nat → List Warning} (h : ∀ i, (s.wire i).Carries (air i)) :
    ∃ wire, s.transfer nodes e (attemptTo row e w) = { s with wire := wire } ∧
      ((∀ i, (wire i).Carries (Function.update air n (air n ++ [w]) i)) ∨
        (e ≠ .whole ∧ ∀ i, (wire i).Carries (air i))) := by
  obtain ⟨connected, alloc, taken⟩ := e
  cases connected with
  | false => exact ⟨s.wire, rfl, Or.inr ⟨by simp [Attempt.whole], h⟩⟩
  | true =>
  cases alloc with
  | false => exact ⟨s.wire, rfl, Or.inr ⟨by simp [Attempt.whole], h⟩⟩
  | true =>
  simp only [Network.transfer, attemptTo, hw.sendWarningTo, hends.nodeAt hn]
  refine ⟨_, rfl, ?_⟩
  cases taken with
  | none =>
      refine Or.inl (Wire.carries_update h ?_)
      simpa [Attempt.send, Attempt.carried] using (h n).write hw
  | some k =>
      by_cases hk : (wireFrame w).length ≤ k
      · have hmin : min (k : Int) (wireFrame w).length = (wireFrame w).length := by omega
        refine Or.inl (Wire.carries_update h ?_)
        simpa [Attempt.send, Attempt.carried, hmin, List.take_of_length_le hk] using (h n).write hw
      · have hmin : ¬ min (k : Int) (wireFrame w).length = (wireFrame w).length := by omega
        refine Or.inr ⟨by simp [Attempt.whole], fun i => ?_⟩
        have hcut : (wireFrame w).take k ≠ wireFrame w := by
          intro he
          have hlen := congrArg List.length he
          rw [List.length_take] at hlen
          omega
        have hcarry := Wire.carries_update (n := n) h
          ((h n).torn hw (List.take_prefix k _) hcut) i
        rw [Function.update_eq_self] at hcarry
        simpa [Attempt.send, Attempt.carried, hmin] using hcarry

/-- A call that succeeds puts the frame on the wire. -/
theorem transfer_whole {nodes : List NodeInfo} (hends : DistinctEndpoints nodes) {n : Nat}
    {row : NodeInfo} (hn : nodes[n]? = some row) {w : Warning} (hw : w.Sendable) (s : Network) :
    s.transfer nodes .whole (attemptTo row .whole w) =
      { s with wire := Function.update s.wire n ((s.wire n).write (wireFrame w)) } := by
  simp only [Network.transfer, attemptTo, Attempt.whole, hw.sendWarningTo, hends.nodeAt hn]
  simp [Attempt.send, Attempt.carried]

/-! ## The steps, written down -/

/-- A warning is at a stage of a row. -/
def movingAt (st : Stage) (i : Nat) : Status Place := .moving (i, st)

/-- A warning was counted by a row. -/
def arrivedAt (i : Nat) : Status Place := .arrived (i, .queue)

@[simp] theorem movingAt_inj {st st' : Stage} {i j : Nat} :
    movingAt st i = movingAt st' j ↔ st = st' ∧ i = j := by
  simp [movingAt, and_comm]

@[simp] theorem arrivedAt_inj {i j : Nat} : arrivedAt i = arrivedAt j ↔ i = j := by
  simp [arrivedAt]

@[simp] theorem movingAt_ne_arrivedAt (st : Stage) (i j : Nat) : movingAt st i ≠ arrivedAt j := by
  simp [movingAt, arrivedAt]

@[simp] theorem arrivedAt_ne_movingAt (st : Stage) (i j : Nat) : arrivedAt i ≠ movingAt st j := by
  simp [movingAt, arrivedAt]

@[simp] theorem movingAt_ne_dropped (st : Stage) (i : Nat) : movingAt st i ≠ .dropped := by
  simp [movingAt]

@[simp] theorem arrivedAt_ne_dropped (i : Nat) : arrivedAt i ≠ .dropped := by
  simp [arrivedAt]

@[simp] theorem dropped_ne_movingAt (st : Stage) (i : Nat) : .dropped ≠ movingAt st i := by
  simp [movingAt]

@[simp] theorem dropped_ne_arrivedAt (i : Nat) : .dropped ≠ arrivedAt i := by
  simp [arrivedAt]

/-- The network holds what the log says.  `air` are the warnings on the wires. -/
structure Network.Tracks (s : Network) (air : Nat → List Warning) (l : Log Place Warning) :
    Prop where
  entered : l.map Prod.fst = s.sent
  carries : ∀ i, (s.wire i).Carries (air i)
  wire : ∀ i, (l.items (movingAt .wire i)).Perm (air i)
  queue : ∀ i, (l.items (movingAt .queue i)).Perm (s.queue i)
  busy : ∀ i, (l.items (movingAt .busy i)).Perm (s.busy i)
  counted : ∀ i, (l.items (arrivedAt i)).Perm (s.counted i)

theorem Network.init_tracks : Network.init.Tracks (fun _ => []) [] where
  entered := rfl
  carries _ := Wire.carries_empty
  wire _ := .refl _
  queue _ := .refl _
  busy _ := .refl _
  counted _ := .refl _

theorem movingAt_injective (st : Stage) : Function.Injective (movingAt st) :=
  fun _ _ h => (movingAt_inj.mp h).2

theorem arrivedAt_injective : Function.Injective arrivedAt :=
  fun _ _ h => arrivedAt_inj.mp h

/-- How a step is written down: in some steps of the log, and where nothing fails in one
hand-over. -/
def Network.Logged (r : Route Place Warning) (clean : Bool) (l : Log Place Warning) (t : Network) :
    Prop :=
  ∃ air l', t.Tracks air l' ∧ Steps r l l' ∧ (clean = true → Advance r l l')

section Logged

variable {r : Route Place Warning} {s : Network} {air : Nat → List Warning}
  {l l' : Log Place Warning} {i : Nat} {w : Warning}

theorem Network.Tracks.logged {t : Network} {clean : Bool} (air : Nat → List Warning)
    (h : t.Tracks air l') (hadv : Advance r l l') : Network.Logged r clean l t :=
  ⟨air, l', h, .single (.advance hadv), fun _ => hadv⟩

/-- Warnings are lost on the wire into a row. -/
theorem Network.Tracks.lose (h : s.Tracks air l) {v : Wire} {ws : List Warning}
    (hsub : ws.Sublist (air i)) (hv : v.Carries ws) :
    Network.Logged r false l { s with wire := Function.update s.wire i v } := by
  obtain ⟨l', hsteps, hitems, hentered, hrest⟩ := Steps.drop_to r hsub (h.wire i)
  have hothers : ∀ st, st ≠ movingAt .wire i → st ≠ .dropped → l'.items st = l.items st := hrest
  refine ⟨Function.update air i ws, l', ⟨hentered.trans h.entered, ?_, ?_, ?_, ?_, ?_⟩, hsteps,
    fun hf => by cases hf⟩
  · exact Wire.carries_update h.carries hv
  · intro j
    by_cases hj : j = i
    · subst hj
      rw [Function.update_self]
      exact hitems
    · rw [Function.update_of_ne hj, hothers _ (by simp [hj]) (by simp)]
      exact h.wire j
  · intro j
    rw [hothers _ (by simp) (by simp)]
    exact h.queue j
  · intro j
    rw [hothers _ (by simp) (by simp)]
    exact h.busy j
  · intro j
    rw [hothers _ (by simp) (by simp)]
    exact h.counted j

/-- The listener of a row takes a warning off the wire. -/
theorem Network.Tracks.receive (h : s.Tracks air l) {v : Wire} {rest : List Warning} {kept : Bool}
    (hair : air i = w :: rest) (hv : v.Carries rest)
    (hnext : r.next (i, .wire) w = some (i, .queue)) :
    Network.Logged r kept l { s with
      wire := Function.update s.wire i v
      queue := if kept then Function.update s.queue i (s.queue i ++ [w]) else s.queue } := by
  have hmem : w ∈ l.items (movingAt .wire i) :=
    (h.wire i).mem_iff.mpr (hair ▸ List.mem_cons_self ..)
  have hcarries := Wire.carries_update (n := i) h.carries hv
  cases kept with
  | true =>
      obtain ⟨l', hl'⟩ := Log.change (movingAt .queue i) hmem (by simp)
      refine Network.Tracks.logged (Function.update air i rest) ⟨?_, hcarries, ?_, ?_, ?_, ?_⟩
        (hl'.move hnext)
      · exact hl'.entered.trans h.entered
      · exact hl'.leaves (movingAt_injective .wire) (by simp) h.wire (.of_eq hair)
      · exact hl'.enters (movingAt_injective .queue) (by simp) h.queue
      · exact hl'.elsewhere (by simp) (by simp) h.busy
      · exact hl'.elsewhere (by simp) (by simp) h.counted
  | false =>
      obtain ⟨l', hl'⟩ := Log.change .dropped hmem (by simp)
      refine ⟨Function.update air i rest, l', ⟨hl'.entered.trans h.entered, hcarries, ?_, ?_, ?_, ?_⟩,
        .single hl'.drop, fun hf => by cases hf⟩
      · exact hl'.leaves (movingAt_injective .wire) (by simp) h.wire (.of_eq hair)
      · exact hl'.elsewhere (by simp) (by simp) h.queue
      · exact hl'.elsewhere (by simp) (by simp) h.busy
      · exact hl'.elsewhere (by simp) (by simp) h.counted

/-- A worker takes a job. -/
theorem Network.Tracks.take (h : s.Tracks air l) {ws : List Warning} (hq : s.queue i = w :: ws)
    (hnext : r.next (i, .queue) w = some (i, .busy)) :
    Network.Logged r true l { s with
      queue := Function.update s.queue i ws
      busy := Function.update s.busy i (s.busy i ++ [w]) } := by
  have hmem : w ∈ l.items (movingAt .queue i) :=
    (h.queue i).mem_iff.mpr (hq ▸ List.mem_cons_self ..)
  obtain ⟨l', hl'⟩ := Log.change (movingAt .busy i) hmem (by simp)
  refine Network.Tracks.logged air ⟨?_, h.carries, ?_, ?_, ?_, ?_⟩ (hl'.move hnext)
  · exact hl'.entered.trans h.entered
  · exact hl'.elsewhere (by simp) (by simp) h.wire
  · exact hl'.leaves (movingAt_injective .queue) (by simp) h.queue (.of_eq hq)
  · exact hl'.enters (movingAt_injective .busy) (by simp) h.busy
  · exact hl'.elsewhere (by simp) (by simp) h.counted

/-- The processor of a destination counts a warning. -/
theorem Network.Tracks.count (h : s.Tracks air l) {ws : List Warning} (hq : s.queue i = w :: ws)
    (hnext : r.next (i, .queue) w = none) :
    Network.Logged r true l { s with
      queue := Function.update s.queue i ws
      counted := Function.update s.counted i (s.counted i ++ [w]) } := by
  have hmem : w ∈ l.items (movingAt .queue i) :=
    (h.queue i).mem_iff.mpr (hq ▸ List.mem_cons_self ..)
  obtain ⟨l', hl'⟩ := Log.change (arrivedAt i) hmem (by simp)
  refine Network.Tracks.logged air ⟨?_, h.carries, ?_, ?_, ?_, ?_⟩ (hl'.arrive hnext)
  · exact hl'.entered.trans h.entered
  · exact hl'.elsewhere (by simp) (by simp) h.wire
  · exact hl'.leaves (movingAt_injective .queue) (by simp) h.queue (.of_eq hq)
  · exact hl'.elsewhere (by simp) (by simp) h.busy
  · exact hl'.enters arrivedAt_injective (by simp) h.counted

/-- A worker has sent a warning on, or the call of `send_warning_to` did not succeed. -/
theorem Network.Tracks.dispatch (h : s.Tracks air l) {n : Nat} {A : List Warning} {e : Attempt}
    {wire : Nat → Wire} (hbusy : (s.busy i).Perm (w :: A))
    (hnext : r.next (i, .busy) w = some (n, .wire))
    (hwire : (∀ j, (wire j).Carries (Function.update air n (air n ++ [w]) j)) ∨
      (e ≠ .whole ∧ ∀ j, (wire j).Carries (air j))) :
    Network.Logged r (e = .whole) l
      { s with wire := wire, busy := Function.update s.busy i A } := by
  have hmem : w ∈ l.items (movingAt .busy i) :=
    ((h.busy i).trans hbusy).mem_iff.mpr (List.mem_cons_self ..)
  rcases hwire with hwire | ⟨hne, hwire⟩
  · obtain ⟨l', hl'⟩ := Log.change (movingAt .wire n) hmem (by simp)
    refine Network.Tracks.logged _ ⟨?_, hwire, ?_, ?_, ?_, ?_⟩ (hl'.move hnext)
    · exact hl'.entered.trans h.entered
    · exact hl'.enters (movingAt_injective .wire) (by simp) h.wire
    · exact hl'.elsewhere (by simp) (by simp) h.queue
    · exact hl'.leaves (movingAt_injective .busy) (by simp) h.busy hbusy
    · exact hl'.elsewhere (by simp) (by simp) h.counted
  · obtain ⟨l', hl'⟩ := Log.change .dropped hmem (by simp)
    refine ⟨air, l', ⟨hl'.entered.trans h.entered, hwire, ?_, ?_, ?_, ?_⟩, .single hl'.drop,
      fun he => absurd (by simpa using he) hne⟩
    · exact hl'.elsewhere (by simp) (by simp) h.wire
    · exact hl'.elsewhere (by simp) (by simp) h.queue
    · exact hl'.leaves (movingAt_injective .busy) (by simp) h.busy hbusy
    · exact hl'.elsewhere (by simp) (by simp) h.counted

/-- The data source sends a warning, or its call of `send_warning_to` does not succeed. -/
theorem Network.Tracks.enter (h : s.Tracks air l) {n : Nat} {e : Attempt} {wire : Nat → Wire}
    (hok : r.ok w) (hstart : r.start w = (n, .wire))
    (hwire : (∀ j, (wire j).Carries (Function.update air n (air n ++ [w]) j)) ∨
      (e ≠ .whole ∧ ∀ j, (wire j).Carries (air j))) :
    ∃ air' l', Network.Tracks { s with wire := wire, sent := s.sent ++ [w] } air' l' ∧
      Steps r l l' ∧ (e = .whole → l' = l ++ [(w, .moving (r.start w))]) := by
  have hst : Status.moving (r.start w) = movingAt .wire n := by
    rw [hstart]
    rfl
  have hentered : ∀ st, (l ++ [(w, st)]).map Prod.fst = s.sent ++ [w] := by
    intro st
    rw [List.map_append, h.entered]
    rfl
  have haccept : Steps r l (l ++ [(w, .moving (r.start w))]) := .single (.accept l hok)
  rcases hwire with hwire | ⟨hne, hwire⟩
  · refine ⟨Function.update air n (air n ++ [w]), _, ⟨hentered _, hwire, ?_, ?_, ?_, ?_⟩, haccept,
      fun _ => rfl⟩
    all_goals
      intro j
      rw [hst]
    · by_cases hj : n = j
      · subst hj
        rw [Function.update_self, Log.items_snoc_self]
        exact (h.wire n).append_right [w]
      · rw [Function.update_of_ne (Ne.symm hj), Log.items_snoc_ne _ _ (by simpa using hj)]
        exact h.wire j
    · rw [Log.items_snoc_ne _ _ (by simp)]
      exact h.queue j
    · rw [Log.items_snoc_ne _ _ (by simp)]
      exact h.busy j
    · rw [Log.items_snoc_ne _ _ (by simp)]
      exact h.counted j
  · refine ⟨air, l ++ [(w, .dropped)], ⟨hentered _, hwire, ?_, ?_, ?_, ?_⟩,
      haccept.tail (.drop l [] w _), fun he => absurd he hne⟩
    all_goals
      intro j
      rw [Log.items_snoc_ne _ _ (by simp)]
    · exact h.wire j
    · exact h.queue j
    · exact h.busy j
    · exact h.counted j

end Logged

/-! ## A step of the network -/

/-- What the data source sends fits an `int` and is for a `DESTINATION` row. -/
def NetworkAction.SendsFor (nodes : List NodeInfo) : NetworkAction → Prop
  | .send w _ => w.Sendable ∧ ∃ d, w.IsFor nodes d
  | _ => True

/-- No connection was given up. -/
def Network.Unbroken (s : Network) : Prop := ∀ i, (s.wire i).closed = []

/-- An entry is added by a step of the data source, and one warning is handed on by any
other step. -/
def NetworkAction.LoggedAs (r : Route Place Warning) (a : NetworkAction)
    (l l' : Log Place Warning) : Prop :=
  if a.isSend then ∃ w, r.ok w ∧ l' = l ++ [(w, .moving (r.start w))] else Advance r l l'

section Step

variable {fuel : Nat} {content : Bytes} {nodes : List NodeInfo} {s t : Network}
  {air : Nat → List Warning} {l : Log Place Warning}

/-- A call of the decoder by the listener of a row. -/
theorem Network.Tracks.listen (h : s.Tracks air l) {node : NodeInfo} {i : Nat} {sock : Sock}
    {kept : Bool} (hfront : (s.wire i).front = some sock.stream)
    (hs : s.listen i (decoderOf node sock) kept = some t) :
    Network.Logged (warningRoute fuel content nodes) kept l t ∨ (¬ s.Unbroken ∧
      Network.Logged (warningRoute fuel content nodes) false l t) := by
  rw [Network.listen] at hs
  cases hres : (decoderOf node sock).result with
  | some w =>
      simp only [hres, Option.some.injEq] at hs
      subst hs
      obtain ⟨rest, hair, hcarry⟩ := (h.carries i).read hfront hres
      exact Or.inl (h.receive hair hcarry rfl)
  | none =>
      simp only [hres] at hs
      split at hs
      next => cases hs
      next hclosed =>
          cases hs
          refine Or.inr ⟨fun hall => hclosed (hall i), ?_⟩
          exact h.lose (List.Sublist.refl _) ((h.carries i).ended hfront hclosed hres)

/-- Where every warning of the log is on its way, a step of the network is some steps of the
log.  If nothing fails in it, it adds an entry or hands one warning on. -/
theorem Network.Tracks.step (ht : Deployed fuel content nodes) (h : s.Tracks air l)
    (hgood : l.Good (warningRoute fuel content nodes) (OnTheWay nodes)) {a : NetworkAction}
    (ha : a.SendsFor nodes) (hs : s.step fuel content nodes a = some t) :
    ∃ air' l', t.Tracks air' l' ∧ Steps (warningRoute fuel content nodes) l l' ∧
      (a.clean = true → s.Unbroken → a.LoggedAs (warningRoute fuel content nodes) l l') := by
  have hlogged : ∀ {clean : Bool}, a.isSend = false →
      (a.clean = true → s.Unbroken → clean = true) →
      Network.Logged (warningRoute fuel content nodes) clean l t →
      ∃ air' l', t.Tracks air' l' ∧ Steps (warningRoute fuel content nodes) l l' ∧
        (a.clean = true → s.Unbroken → a.LoggedAs (warningRoute fuel content nodes) l l') := by
    rintro clean hsend hclean ⟨air', l', htracks, hsteps, hadv⟩
    refine ⟨air', l', htracks, hsteps, fun hc hu => ?_⟩
    rw [NetworkAction.LoggedAs, hsend]
    exact hadv (hclean hc hu)
  cases a with
  | send w e =>
      obtain ⟨r, root, hr, hstart, hby⟩ := ht.networkSendBy (e := e) ha
      simp only [Network.step, hby, Option.map_some, Option.some.injEq] at hs
      obtain ⟨wire, htransfer, hwire⟩ := transfer_carries ht.ends hr ha.1 e
        { s with sent := s.sent ++ [w] } h.carries
      rw [htransfer] at hs
      subst hs
      obtain ⟨air', l', htracks, hsteps, hwhole⟩ := h.enter ha hstart hwire
      refine ⟨air', l', htracks, hsteps, fun hc _ => ⟨w, ha, hwhole ?_⟩⟩
      simpa [NetworkAction.clean] using hc
  | receive i sock kept =>
      obtain ⟨node, _, hs⟩ := Option.bind_eq_some_iff.mp hs
      split at hs
      next hfront =>
          rcases h.listen hfront hs with hl | ⟨hbroken, hl⟩
          · exact hlogged rfl (fun hc _ => hc) hl
          · exact hlogged rfl (fun _ hu => absurd hu hbroken) hl
      next => cases hs
  | abandon i =>
      simp only [Network.step, Option.some.injEq] at hs
      subst hs
      obtain ⟨ws, hsub, hcarry⟩ := (h.carries i).accept
      exact hlogged rfl (fun hc _ => hc) (h.lose hsub hcarry)
  | reset i k =>
      simp only [Network.step, Option.some.injEq] at hs
      subst hs
      obtain ⟨ws, hsub, hcarry⟩ := (h.carries i).reset k
      exact hlogged rfl (fun hc _ => hc) (h.lose hsub hcarry)
  | take i =>
      rw [Network.step] at hs
      split at hs
      next hcan =>
          cases hq : s.queue i with
          | nil =>
              simp only [hq] at hs
              cases hs
          | cons w ws =>
              simp only [hq, Option.some.injEq] at hs
              subst hs
              refine hlogged rfl (fun hc _ => hc) (h.take hq ?_)
              simp [warningRoute, hcan.1]
      next => cases hs
  | dispatch i j e =>
      obtain ⟨w, hj, hs⟩ := Option.bind_eq_some_iff.mp hs
      obtain ⟨hlt, hw⟩ := List.getElem?_eq_some_iff.mp hj
      have hbusy : (s.busy i).Perm (w :: (s.busy i).eraseIdx j) := by
        rw [← hw]
        exact (List.getElem_cons_eraseIdx_perm hlt).symm
      have hmem : w ∈ l.items (movingAt .busy i) :=
        (h.busy i).mem_iff.mpr (List.mem_of_getElem? hj)
      have hway : OnTheWay nodes (i, .busy) w := (hgood _ _).1 (Log.mem_items.mp hmem)
      obtain ⟨n, child, hn, hnext, hby⟩ := ht.relayBy (e := e) hway
      simp only [hby, Option.map_some, Option.some.injEq] at hs
      obtain ⟨wire, htransfer, hwire⟩ := transfer_carries ht.ends hn hway.sendable e
        { s with busy := Function.update s.busy i ((s.busy i).eraseIdx j) } h.carries
      rw [htransfer] at hs
      subst hs
      exact hlogged rfl (fun hc _ => hc) (h.dispatch hbusy hnext hwire)
  | count i =>
      rw [Network.step] at hs
      split at hs
      next hcan =>
          cases hq : s.queue i with
          | nil =>
              simp only [hq] at hs
              cases hs
          | cons w ws =>
              simp only [hq, Option.some.injEq] at hs
              subst hs
              refine hlogged rfl (fun hc _ => hc) (h.count hq ?_)
              simp [warningRoute, hcan]
      next => cases hs

end Step

end DataPropagator
