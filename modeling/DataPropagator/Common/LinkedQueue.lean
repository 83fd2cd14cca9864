import DataPropagator.Common.TSQueue
import DataPropagator.Lib.LinkedChain

/-!
# The nodes of a queue

`queue.c` as it stands, on a heap of nodes.  The queue points to its first and to its last node,
and a new node is linked behind the last one.  An address may be given out again after its node
was freed.  To follow a pointer to a node that is not live is a fault.

`Shape` ties the two pointers, the size and the heap to one chain of nodes.  Every call keeps it
(`call_spec`) and does to the data along the chain what the queue of `Common/TSQueue.lean` does
to its list, so a queue of nodes refines a list.
-/

namespace DataPropagator

namespace LinkedQueue

open LinkedChain

variable {α β : Type} [DecidableEq α]

/-! ## Data -/

/-- A pointer to a node that is not live is followed. -/
inductive Fault where
  | dangling
  /-- The loop of `queue_destroy` was given too little fuel. -/
  | outOfFuel
deriving DecidableEq, Repr

/-- `Queue`, with the heap of its nodes.  An item is a pointer, and NULL is `none`. -/
structure State (α β : Type) where
  heap : Heap α (Option β)
  front : Option α
  rear : Option α
  size : Nat
  /-- `freeFunc` is not NULL. -/
  freeFunc : Bool

/-- A read of a node. -/
def load (heap : Heap α (Option β)) (a : α) : Except Fault (Cell α (Option β)) :=
  match heap a with
  | some cell => .ok cell
  | none => .error .dangling

/-- `queue_create`, its allocation succeeding. -/
def queueCreate (freeFunc : Bool) : State α β where
  heap := Heap.empty
  front := none
  rear := none
  size := 0
  freeFunc := freeFunc

/-- `queue_enqueue`: its result and the queue.  `node` is what `malloc` returned. -/
def queueEnqueue (q : State α β) (data : Option β) (node : Option α) :
    Except Fault (Int × State α β) :=
  match node with
  | none => .ok (-1, q)
  | some node =>
      let heap := q.heap.store node { data := data, next := none }
      match q.rear with
      | some rear => do
          let cell ← load heap rear
          return (0, { q with
            heap := heap.store rear { cell with next := some node }
            rear := some node
            size := q.size + 1 })
      | none =>
          return (0, { q with
            heap := heap, front := some node, rear := some node, size := q.size + 1 })

/-- `queue_dequeue`: its result and the queue. -/
def queueDequeue (q : State α β) : Except Fault (Option β × State α β) :=
  match q.front with
  | none => .ok (none, q)
  | some node => do
      let cell ← load q.heap node
      return (cell.data, { q with
        heap := q.heap.free node
        front := cell.next
        rear := if cell.next.isNone then none else q.rear
        size := q.size - 1 })

/-- `queue_peek`. -/
def queuePeek (q : State α β) : Except Fault (Option β) :=
  match q.front with
  | none => .ok none
  | some node => (load q.heap node).map Cell.data

/-- `queue_is_empty`. -/
def queueIsEmpty (q : State α β) : Bool := q.size == 0

/-- `queue_size`. -/
def queueSize (q : State α β) : Nat := q.size

/-- What `queue_destroy` has passed to `freeFunc`, what nodes it has freed, and the heap. -/
structure Destroyed (α β : Type) where
  items : List β := []
  nodes : List α := []
  heap : Heap α (Option β)

/-- The loop of `queue_destroy`. -/
def destroyLoop (freeFunc : Bool) :
    Nat → Option α → Destroyed α β → Except Fault (Destroyed α β)
  | _, none, d => .ok d
  | 0, some _, _ => .error .outOfFuel
  | fuel + 1, some cur, d => do
      let cell ← load d.heap cur
      destroyLoop freeFunc fuel cell.next
        { items := d.items ++ if freeFunc then cell.data.toList else []
          nodes := d.nodes ++ [cur]
          heap := d.heap.free cur }

/-- `queue_destroy`. -/
def queueDestroy (fuel : Nat) (q : State α β) : Except Fault (Destroyed α β) :=
  destroyLoop q.freeFunc fuel q.front { heap := q.heap }

/-! ## Calls -/

/-- A call on a queue. -/
inductive Call (α β : Type) where
  | enqueue (data : Option β) (node : Option α)
  | dequeue
  | peek
  | size
  | isEmpty
deriving DecidableEq, Repr

/-- What a call returns. -/
inductive Answer (β : Type) where
  | status (ret : Int)
  | item (data : Option β)
  | count (n : Nat)
  | flag (b : Bool)
deriving DecidableEq, Repr

/-- One call. -/
def call (q : State α β) : Call α β → Except Fault (Answer β × State α β)
  | .enqueue data node => (queueEnqueue q data node).map fun r => (.status r.1, r.2)
  | .dequeue => (queueDequeue q).map fun r => (.item r.1, r.2)
  | .peek => (queuePeek q).map fun data => (.item data, q)
  | .size => .ok (.count (queueSize q), q)
  | .isEmpty => .ok (.flag (queueIsEmpty q), q)

/-- A sequence of calls. -/
def calls (q : State α β) : List (Call α β) → Except Fault (List (Answer β) × State α β)
  | [] => .ok ([], q)
  | c :: cs => do
      let (answer, q) ← call q c
      let (answers, q) ← calls q cs
      return (answer :: answers, q)

/-- `malloc` never returns the address of a node that is live. -/
def Call.Possible (q : State α β) : Call α β → Prop
  | .enqueue _ (some node) => q.heap node = none
  | _ => True

/-- Every call of a sequence is possible when it is made. -/
def Possible (q : State α β) : List (Call α β) → Prop
  | [] => True
  | c :: cs => c.Possible q ∧ ∀ answer q', call q c = .ok (answer, q') → Possible q' cs

/-- What a call does to a list. -/
def listCall (q : List (Option β)) : Call α β → Answer β × List (Option β)
  | .enqueue data node =>
      let (ret, q) := DataPropagator.queueEnqueue q data node.isSome
      (.status ret, q)
  | .dequeue =>
      let (data, q) := DataPropagator.queueDequeue q
      (.item data, q)
  | .peek => (.item q.head?.join, q)
  | .size => (.count q.length, q)
  | .isEmpty => (.flag (DataPropagator.queueIsEmpty q), q)

/-- What a sequence of calls does to a list. -/
def listCalls (q : List (Option β)) : List (Call α β) → List (Answer β) × List (Option β)
  | [] => ([], q)
  | c :: cs =>
      let (answer, q) := listCall q c
      let (answers, q) := listCalls q cs
      (answer :: answers, q)

/-! ## The invariant -/

/-- The nodes are a chain from `front`, its last node is `rear`, `size` is their number, and no
other node is live. -/
structure Shape (q : State α β) (nodes : List (α × Option β)) : Prop where
  chain : Chain q.heap q.front nodes
  rear : q.rear = nodes.getLast?.map Prod.fst
  size : q.size = nodes.length
  live : ∀ a, (q.heap a).isSome ↔ a ∈ addresses nodes

variable {q q' : State α β} {nodes : List (α × Option β)} {heap : Heap α (Option β)} {a : α}

omit [DecidableEq α] in
theorem load_eq {cell : Cell α (Option β)} (h : heap a = some cell) : load heap a = .ok cell := by
  rw [load, h]

omit [DecidableEq α] in
theorem queueCreate_shape (freeFunc : Bool) :
    Shape (queueCreate freeFunc : State α β) [] where
  chain := .nil
  rear := rfl
  size := rfl
  live := by simp [queueCreate, Heap.empty]

omit [DecidableEq α] in
theorem Shape.fresh (h : Shape q nodes) (ha : q.heap a = none) : a ∉ addresses nodes := by
  intro hmem
  have hlive := (h.live a).mpr hmem
  rw [ha] at hlive
  cases hlive

/-- The first node of an empty queue. -/
theorem Shape.enqueue_first (h : Shape q []) (data : Option β) (a : α) :
    ∃ q', queueEnqueue q data (some a) = .ok (0, q') ∧ q'.freeFunc = q.freeFunc ∧
      Shape q' [(a, data)] := by
  refine ⟨_, by rw [queueEnqueue, h.rear]; rfl, ?_, ?_⟩
  · rfl
  exact
    { chain := .new q.heap a data
      rear := rfl
      size := congrArg (· + 1) h.size
      live := by
        intro b
        have hb := h.live b
        by_cases hba : b = a
        · simp [hba]
        · simpa [store_ne _ _ hba, hba] using hb }

/-- A node is linked behind the last one. -/
theorem Shape.enqueue_last {x : α × Option β} (h : Shape q nodes) (hx : nodes.getLast? = some x)
    (data : Option β) (ha : q.heap a = none) :
    ∃ q', queueEnqueue q data (some a) = .ok (0, q') ∧ q'.freeFunc = q.freeFunc ∧
      Shape q' (nodes ++ [(a, data)]) := by
  have hcell := h.chain.last hx
  have hxa : x.1 ≠ a := by
    rintro rfl
    rw [ha] at hcell
    cases hcell
  have hload : load (q.heap.store a { data := data, next := none }) x.1 =
      .ok { data := x.2, next := none } :=
    load_eq (by rw [store_ne _ _ hxa, hcell])
  refine ⟨_, by rw [queueEnqueue, h.rear, hx]; simp only [Option.map_some, hload]; rfl, ?_, ?_⟩
  · rfl
  exact
    { chain := h.chain.append hx (h.fresh ha)
      rear := by simp
      size := by rw [List.length_append, ← h.size]; rfl
      live := by
        intro b
        have hb := h.live b
        by_cases hbx : b = x.1
        · have hmem := (h.live x.1).mp (by rw [hcell]; rfl)
          simp [hbx, hmem]
        · by_cases hba : b = a
          · simp [hba, store_ne _ _ (Ne.symm hxa)]
          · simpa [store_ne _ _ hbx, store_ne _ _ hba, hba] using hb }

theorem Shape.enqueue (h : Shape q nodes) (data : Option β) (ha : q.heap a = none) :
    ∃ q', queueEnqueue q data (some a) = .ok (0, q') ∧ q'.freeFunc = q.freeFunc ∧
      Shape q' (nodes ++ [(a, data)]) := by
  cases hrear : nodes.getLast? with
  | none =>
      obtain rfl := List.getLast?_eq_none_iff.mp hrear
      exact h.enqueue_first data a
  | some x => exact h.enqueue_last hrear data ha

/-- The first node is taken off and freed. -/
theorem Shape.dequeue {data : Option β} (h : Shape q ((a, data) :: nodes)) :
      q.front = some a ∧ ∃ q', queueDequeue q = .ok (data, q') ∧ q'.freeFunc = q.freeFunc ∧
      Shape q' nodes := by
  have hfront : q.front = some a := by
    have hchain := h.chain
    generalize q.front = p at hchain
    cases hchain
    rfl
  have hchain := h.chain
  rw [hfront] at hchain
  obtain ⟨next, hcell, hrest⟩ := hchain.tail
  have hnodup := hchain.nodup
  rw [addresses_cons, List.nodup_cons] at hnodup
  refine ⟨hfront, _, by rw [queueDequeue, hfront]; simp only [load_eq hcell]; rfl, ?_, ?_⟩
  · rfl
  exact
    { chain := hrest
      rear := by
        show (if next.isNone then none else q.rear) = _
        cases nodes with
        | nil =>
            rw [hrest.start_eq_none_iff.mpr rfl]
            rfl
        | cons y ys =>
            have hnext : next.isNone = false := by
              rw [Bool.eq_false_iff, ne_eq, Option.isNone_iff_eq_none, hrest.start_eq_none_iff]
              simp
            rw [hnext, h.rear, List.getLast?_cons_cons]
            rfl
      size := by
        show q.size - 1 = _
        rw [h.size]
        rfl
      live := by
        intro b
        have hb := h.live b
        by_cases hba : b = a
        · simp [hba, hnodup.1]
        · simpa [free_ne _ hba, hba] using hb }

omit [DecidableEq α] in
theorem Shape.front_eq_none_iff (h : Shape q nodes) : q.front = none ↔ nodes = [] :=
  h.chain.start_eq_none_iff

omit [DecidableEq α] in
theorem Shape.rear_eq_none_iff (h : Shape q nodes) : q.rear = none ↔ nodes = [] := by
  rw [h.rear, Option.map_eq_none_iff, List.getLast?_eq_none_iff]

omit [DecidableEq α] in
theorem Shape.peek (h : Shape q nodes) :
    queuePeek q = .ok (nodes.map Prod.snd).head?.join := by
  have hchain := h.chain
  rw [queuePeek]
  generalize q.front = p at hchain
  cases hchain with
  | nil => rfl
  | cons live rest => simp [load_eq live, Except.map]

/-! ## Sequences of calls -/

/-- A call follows no dangling pointer, keeps the shape, and does to the data what it does to a
list.  A node of the chain was in the chain or is new. -/
theorem call_spec (h : Shape q nodes) (c : Call α β) (hc : c.Possible q) :
    ∃ q' nodes', call q c = .ok ((listCall (nodes.map Prod.snd) c).1, q') ∧ Shape q' nodes' ∧
      nodes'.map Prod.snd = (listCall (nodes.map Prod.snd) c).2 ∧ q'.freeFunc = q.freeFunc ∧
      ∀ a ∈ addresses nodes', a ∈ addresses nodes ∨ ∃ data, c = .enqueue data (some a) := by
  cases c with
  | enqueue data node =>
      cases node with
      | none => exact ⟨q, nodes, rfl, h, rfl, rfl, fun _ ha => Or.inl ha⟩
      | some a =>
          obtain ⟨q', hq', hfree, hshape⟩ := h.enqueue data hc
          refine ⟨q', _, ?_, hshape, by rw [List.map_append]; rfl, hfree, ?_⟩
          · rw [call, hq']
            rfl
          · intro b hb
            rw [addresses_append, List.mem_append] at hb
            rcases hb with hb | hb
            · exact Or.inl hb
            · rw [List.mem_singleton.mp hb]
              exact Or.inr ⟨data, rfl⟩
  | dequeue =>
      cases nodes with
      | nil =>
          refine ⟨q, [], ?_, h, rfl, rfl, fun _ ha => Or.inl ha⟩
          rw [call, queueDequeue, h.front_eq_none_iff.mpr rfl]
          rfl
      | cons x nodes =>
          obtain ⟨_, q', hq', hfree, hshape⟩ := h.dequeue
          refine ⟨q', nodes, ?_, hshape, rfl, hfree, fun _ ha => ?_⟩
          · rw [call, hq']
            rfl
          · exact Or.inl (List.mem_cons_of_mem _ ha)
  | peek =>
      refine ⟨q, nodes, ?_, h, rfl, rfl, fun _ ha => Or.inl ha⟩
      rw [call, h.peek]
      rfl
  | size =>
      refine ⟨q, nodes, ?_, h, rfl, rfl, fun _ ha => Or.inl ha⟩
      rw [call, queueSize, h.size, listCall, List.length_map]
  | isEmpty =>
      refine ⟨q, nodes, ?_, h, rfl, rfl, fun _ ha => Or.inl ha⟩
      rw [call, queueIsEmpty, h.size, listCall, DataPropagator.queueIsEmpty, List.length_map]

theorem calls_spec (cs : List (Call α β)) (h : Shape q nodes) (hcs : Possible q cs) :
    ∃ q' nodes', calls q cs = .ok ((listCalls (nodes.map Prod.snd) cs).1, q') ∧
      Shape q' nodes' ∧ nodes'.map Prod.snd = (listCalls (nodes.map Prod.snd) cs).2 ∧
      q'.freeFunc = q.freeFunc ∧
      ∀ a ∈ addresses nodes', a ∈ addresses nodes ∨ ∃ data, .enqueue data (some a) ∈ cs := by
  induction cs generalizing q nodes with
  | nil => exact ⟨q, nodes, rfl, h, rfl, rfl, fun _ ha => Or.inl ha⟩
  | cons c cs ih =>
      obtain ⟨q₁, nodes₁, hcall, hshape, hdata, hfree, hnodes⟩ := call_spec h c hcs.1
      obtain ⟨q', nodes', hcalls, hshape', hdata', hfree', hnodes'⟩ :=
        ih hshape (hcs.2 _ _ hcall)
      rw [hdata] at hcalls hdata'
      refine ⟨q', nodes', ?_, hshape', hdata', hfree'.trans hfree, ?_⟩
      · rw [calls, hcall]
        simp only [bind, Except.bind, hcalls]
        rfl
      · intro a ha
        rcases hnodes' a ha with hold | ⟨data, hmem⟩
        · rcases hnodes a hold with hold | ⟨data, rfl⟩
          · exact Or.inl hold
          · exact Or.inr ⟨data, List.mem_cons_self ..⟩
        · exact Or.inr ⟨data, List.mem_cons_of_mem _ hmem⟩

/-- The calls after some calls are possible, and lead where all of them lead. -/
theorem calls_append {pre post : List (Call α β)} {answers : List (Answer β)}
    (hcs : Possible q (pre ++ post)) (hpre : calls q pre = .ok (answers, q')) :
    Possible q pre ∧ Possible q' post ∧
      calls q (pre ++ post) = (calls q' post).map fun r => (answers ++ r.1, r.2) := by
  induction pre generalizing q answers with
  | nil =>
      cases hpre
      refine ⟨trivial, hcs, ?_⟩
      show calls q' post = _
      cases calls q' post <;> rfl
  | cons c pre ih =>
      rw [calls] at hpre
      cases hcall : call q c with
      | error e =>
          rw [hcall] at hpre
          cases hpre
      | ok r =>
          obtain ⟨answer, q₁⟩ := r
          rw [hcall] at hpre
          simp only [bind, Except.bind] at hpre
          cases hrest : calls q₁ pre with
          | error e =>
              rw [hrest] at hpre
              cases hpre
          | ok r =>
              obtain ⟨answers₁, q₂⟩ := r
              rw [hrest] at hpre
              cases hpre
              obtain ⟨hpossible, hpost, happ⟩ := ih (hcs.2 _ _ hcall) hrest
              refine ⟨⟨hcs.1, ?_⟩, hpost, ?_⟩
              · intro answer' q'' hcall'
                rw [hcall] at hcall'
                cases hcall'
                exact hpossible
              · rw [List.cons_append, calls, hcall]
                simp only [bind, Except.bind, happ]
                cases calls q₂ post <;> rfl

/-- A node that was dequeued is in no later chain, unless `malloc` has returned its address
again. -/
theorem dequeued_not_reached {pre post : List (Call α β)} {answers answers' : List (Answer β)}
    {q₁ q₂ : State α β} {nodes₂ : List (α × Option β)} (h : Shape q nodes)
    (hcs : Possible q (pre ++ .dequeue :: post)) (hpre : calls q pre = .ok (answers, q₁))
    (hall : calls q (pre ++ .dequeue :: post) = .ok (answers', q₂)) (h₂ : Shape q₂ nodes₂)
    (ha : q₁.front = some a) (hmem : a ∈ addresses nodes₂) :
    ∃ data, .enqueue data (some a) ∈ post := by
  obtain ⟨hpossible, hpost, happ⟩ := calls_append hcs hpre
  obtain ⟨q₁', nodes₁, hpre', h₁, _⟩ := calls_spec pre h hpossible
  rw [hpre, Except.ok.injEq, Prod.mk.injEq] at hpre'
  obtain ⟨-, rfl⟩ := hpre'
  cases nodes₁ with
  | nil =>
      rw [h₁.front_eq_none_iff.mpr rfl] at ha
      cases ha
  | cons x nodes₁ =>
      obtain ⟨hfront, q₃, hdeq, _, h₃⟩ := h₁.dequeue
      have hnodup := h₁.chain.nodup
      rw [addresses_cons, List.nodup_cons] at hnodup
      rw [hfront, Option.some.injEq] at ha
      have hcall : call q₁ .dequeue = .ok (.item x.2, q₃) := by
        rw [call, hdeq]
        rfl
      obtain ⟨q₄, nodes₄, hrest, h₄, _, _, hnodes⟩ := calls_spec post h₃ (hpost.2 _ _ hcall)
      -- both ways lead to one state, and its chain is unique
      have hq : q₄ = q₂ := by
        rw [happ, calls, hcall] at hall
        simp only [bind, Except.bind, hrest] at hall
        cases hall
        rfl
      have hsame : nodes₄ = nodes₂ := (hq ▸ h₄.chain).unique h₂.chain
      rcases hnodes a (hsame ▸ hmem) with hold | hnew
      · exact absurd (ha ▸ hold) hnodup.1
      · exact hnew

/-! ## Destroying -/

/-- The loop frees the nodes of its chain one after another. -/
theorem destroyLoop_eq (freeFunc : Bool) {p : Option α} {d : Destroyed α β} {fuel : Nat}
    (hchain : Chain d.heap p nodes) (hfuel : nodes.length ≤ fuel) :
    ∃ d', destroyLoop freeFunc fuel p d = .ok d' ∧ d'.nodes = d.nodes ++ addresses nodes ∧
      d'.items = d.items ++ (if freeFunc then (nodes.map Prod.snd).reduceOption else []) ∧
      ∀ a, d'.heap a = if a ∈ addresses nodes then none else d.heap a := by
  induction nodes generalizing p d fuel with
  | nil =>
      obtain rfl := hchain.start_eq_none_iff.mpr rfl
      cases fuel <;> exact ⟨d, rfl, by simp, by simp [List.reduceOption], by simp⟩
  | cons x nodes ih =>
      obtain ⟨a, data⟩ := x
      obtain ⟨fuel, rfl⟩ : ∃ n, fuel = n + 1 := ⟨fuel - 1, by simp at hfuel; omega⟩
      have hp : p = some a := by
        cases hchain
        rfl
      subst hp
      obtain ⟨next, hcell, hrest⟩ := hchain.tail
      obtain ⟨d', hd', hnodes, hitems, hheap⟩ := @ih next
        { items := d.items ++ if freeFunc then data.toList else [], nodes := d.nodes ++ [a],
          heap := d.heap.free a } fuel hrest (by simpa using hfuel)
      refine ⟨d', ?_, ?_, ?_, ?_⟩
      · rw [destroyLoop, load_eq hcell]
        exact hd'
      · rw [hnodes]
        simp
      · rw [hitems]
        cases freeFunc with
        | false => simp
        | true => cases data <;> simp [List.reduceOption]
      · intro b
        rw [hheap]
        by_cases hb : b = a
        · simp [hb]
        · simp [hb, free_ne _ hb]

theorem Shape.destroy (h : Shape q nodes) {fuel : Nat} (hfuel : nodes.length ≤ fuel) :
    ∃ d, queueDestroy fuel q = .ok d ∧ d.nodes = addresses nodes ∧
      d.items = (if q.freeFunc then (nodes.map Prod.snd).reduceOption else []) ∧
      ∀ a, d.heap a = none := by
  obtain ⟨d, hd, hnodes, hitems, hheap⟩ :=
    destroyLoop_eq (d := { heap := q.heap }) q.freeFunc h.chain hfuel
  refine ⟨d, hd, hnodes, hitems, ?_⟩
  intro a
  rw [hheap]
  split
  · rfl
  next hdead =>
      rw [← h.live a, Bool.not_eq_true, Option.isSome_eq_false_iff,
        Option.isNone_iff_eq_none] at hdead
      exact hdead

/-! ## The refinement -/

/-- For every sequence of calls from `queue_create`, whatever `malloc` returns: no call follows a
dangling pointer, and the answers are those of a list.  The nodes are a chain of distinct live
nodes from `front` to `rear`, they are `size` many, and their data is the list.  A node that was
dequeued is not among them unless `malloc` has returned its address again.  `queue_destroy` frees
each of them once, passes each item that is not NULL to `freeFunc` once, and leaves no node. -/
theorem queue_refines_list (freeFunc : Bool) (cs : List (Call α β))
    (hcs : Possible (queueCreate freeFunc) cs) :
    ∃ answers q nodes, calls (queueCreate freeFunc) cs = .ok (answers, q) ∧
      Chain q.heap q.front nodes ∧ (addresses nodes).Nodup ∧
      (∀ a ∈ addresses nodes, (q.heap a).isSome) ∧
      (∀ x, nodes.getLast? = some x →
        q.rear = some x.1 ∧ q.heap x.1 = some { data := x.2, next := none }) ∧
      (q.front = none ↔ q.rear = none) ∧ (q.rear = none ↔ q.size = 0) ∧
      q.size = nodes.length ∧
      answers = (listCalls [] cs).1 ∧ nodes.map Prod.snd = (listCalls [] cs).2 ∧
      (∀ pre post answers' q' a, cs = pre ++ .dequeue :: post →
        calls (queueCreate freeFunc) pre = .ok (answers', q') → q'.front = some a →
        a ∈ addresses nodes → ∃ data, .enqueue data (some a) ∈ post) ∧
      ∀ fuel, nodes.length ≤ fuel → ∃ d, queueDestroy fuel q = .ok d ∧
        d.nodes = addresses nodes ∧
        d.items = (if freeFunc then (nodes.map Prod.snd).reduceOption else []) ∧
        ∀ a, d.heap a = none := by
  have hinit : Shape (queueCreate freeFunc : State α β) [] := queueCreate_shape freeFunc
  obtain ⟨q, nodes, hcalls, h, hdata, hfree, _⟩ := calls_spec cs hinit hcs
  refine ⟨_, q, nodes, hcalls, h.chain, h.chain.nodup, fun a => (h.live a).mpr, ?_, ?_, ?_, h.size,
    rfl, hdata, ?_, ?_⟩
  · intro x hx
    exact ⟨by rw [h.rear, hx]; rfl, h.chain.last hx⟩
  · rw [h.front_eq_none_iff, h.rear_eq_none_iff]
  · rw [h.rear_eq_none_iff, h.size, List.length_eq_zero_iff]
  · rintro pre post answers' q' a rfl hpre ha hmem
    exact dequeued_not_reached hinit hcs hpre hcalls h ha hmem
  · intro fuel hfuel
    have hdestroy := h.destroy hfuel
    rwa [hfree] at hdestroy

/-- An address is given out again after its node was dequeued, and one allocation fails. -/
def sampleCalls : List (Call Nat Nat) :=
  [.enqueue (some 5) (some 1), .enqueue none (some 2), .dequeue, .enqueue (some 6) none,
    .enqueue (some 7) (some 1), .peek, .size]

theorem queue_refines_list_sample :
    ∃ answers q nodes, calls (queueCreate true) sampleCalls = .ok (answers, q) ∧
      Chain q.heap q.front nodes ∧ answers = (listCalls [] sampleCalls).1 ∧
      nodes.map Prod.snd = [none, some 7] := by
  have hcs : Possible (queueCreate true) sampleCalls := by
    simp [sampleCalls, Possible, Call.Possible, call, queueEnqueue, queueDequeue, queuePeek, load,
      queueCreate, Heap.empty, Heap.store, Heap.free, Function.update, bind, Except.bind, pure,
      Except.pure, Except.map]
  obtain ⟨answers, q, nodes, hcalls, hchain, _, _, _, _, _, _, hanswers, hdata, _⟩ :=
    queue_refines_list true sampleCalls hcs
  exact ⟨answers, q, nodes, hcalls, hchain, hanswers, hdata⟩

end LinkedQueue

end DataPropagator
