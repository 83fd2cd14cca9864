import DataPropagator.Lib.Machine
import Mathlib.Data.List.Nodup

/-!
# A ledger of blocks

What a piece of a program does to the heap, in order: it acquires a block with a size,
writes some bytes into a block, releases a block.  `step` keeps the blocks that are live.
It has no successor when a block is acquired that is live, when a write does not stay
inside a live block, and when a block is released that is not live.  So a list of events
that `Machine.exec` runs through writes out of no bounds and releases nothing twice, and
what is live after it was not released.

A block is named by its place in the program, so it may be acquired again after it was
released.
-/

namespace Ledger

variable {β : Type} [DecidableEq β]

/-- What is done to a block. -/
inductive Event (β : Type) where
  | acquire (b : β) (size : Nat)
  /-- So many bytes are written from an offset on. -/
  | write (b : β) (offset len : Nat)
  | release (b : β)
deriving DecidableEq, Repr

/-- One event.  The list holds the live blocks with their sizes, the newest first. -/
def step (live : List (β × Nat)) : Event β → Option (List (β × Nat))
  | .acquire b size => if (live.lookup b).isNone then some ((b, size) :: live) else none
  | .write b offset len =>
      (live.lookup b).bind fun size => if offset + len ≤ size then some live else none
  | .release b =>
      if (live.lookup b).isSome then some (live.filter fun x => x.1 != b) else none

/-- How often a block is acquired. -/
def acquired (b : β) : List (Event β) → Nat
  | [] => 0
  | .acquire b' _ :: es => (if b' = b then 1 else 0) + acquired b es
  | .write _ _ _ :: es => acquired b es
  | .release _ :: es => acquired b es

/-- How often a block is released. -/
def released (b : β) : List (Event β) → Nat
  | [] => 0
  | .acquire _ _ :: es => released b es
  | .write _ _ _ :: es => released b es
  | .release b' :: es => (if b' = b then 1 else 0) + released b es

/-- Whether a block is live. -/
def held (live : List (β × Nat)) (b : β) : Nat := if (live.lookup b).isSome then 1 else 0

variable {live live' : List (β × Nat)} {b : β}

/-! ## One event -/

section Exec

variable {es : List (Event β)} {size : Nat}

theorem exec_acquire (h : live.lookup b = none) :
    Machine.exec step live (.acquire b size :: es) = Machine.exec step ((b, size) :: live) es := by
  rw [Machine.exec, step, h]
  rfl

theorem exec_write {offset len : Nat} (h : live.lookup b = some size)
    (hle : offset + len ≤ size) :
    Machine.exec step live (.write b offset len :: es) = Machine.exec step live es := by
  rw [Machine.exec, step, h, Option.bind_some, if_pos hle]
  rfl

theorem exec_release (h : live.lookup b = some size) :
    Machine.exec step live (.release b :: es) =
      Machine.exec step (live.filter fun x => x.1 != b) es := by
  rw [Machine.exec, step, h]
  rfl

end Exec

/-! ## The acquisitions -/

/-- The blocks that are acquired, in order. -/
def acquisitions : List (Event β) → List β
  | [] => []
  | .acquire b _ :: es => b :: acquisitions es
  | .write _ _ _ :: es => acquisitions es
  | .release _ :: es => acquisitions es

omit [DecidableEq β] in
theorem acquisitions_append (es es' : List (Event β)) :
    acquisitions (es ++ es') = acquisitions es ++ acquisitions es' := by
  induction es with
  | nil => rfl
  | cons e es ih =>
      cases e with
      | acquire a size => exact congrArg (a :: ·) ih
      | write | release => exact ih

theorem acquired_eq_count (b : β) (es : List (Event β)) :
    acquired b es = (acquisitions es).count b := by
  induction es with
  | nil => rfl
  | cons e es ih =>
      cases e with
      | acquire a size =>
          rw [acquired, acquisitions, ih, List.count_cons, Nat.add_comm]
          simp only [beq_iff_eq]
      | write | release => exact ih

/-- A list that acquires these blocks and no others acquires each at most once when they are
different. -/
theorem acquired_le_one {es : List (Event β)} (bs : List β) (h : acquisitions es = bs)
    (hbs : bs.Nodup) (b : β) : acquired b es ≤ 1 := by
  rw [acquired_eq_count, h]
  exact List.nodup_iff_count_le_one.mp hbs b

/-! ## The balance -/

theorem held_cons (x : β × Nat) (h : (live.lookup x.1).isNone) :
    held (x :: live) b = (if x.1 = b then 1 else 0) + held live b := by
  obtain ⟨a, size⟩ := x
  rw [held, held, List.lookup_cons]
  by_cases hab : a = b
  · subst hab
    rw [Option.isNone_iff_eq_none] at h
    simp [show live.lookup a = none from h]
  · rw [beq_false_of_ne (Ne.symm hab), if_neg hab, Nat.zero_add]

theorem lookup_filter_ne (b b' : β) :
    (live.filter fun x => x.1 != b').lookup b = if b' = b then none else live.lookup b := by
  induction live with
  | nil => simp
  | cons x live ih =>
      obtain ⟨a, size⟩ := x
      by_cases hab' : a = b'
      · subst hab'
        rw [List.filter_cons_of_neg (by simp), ih, List.lookup_cons]
        by_cases hab : a = b
        · rw [if_pos hab, if_pos hab]
        · rw [if_neg hab, if_neg hab, beq_false_of_ne (Ne.symm hab)]
      · rw [List.filter_cons_of_pos (by simpa using hab'), List.lookup_cons, List.lookup_cons, ih]
        by_cases hb : b = a
        · subst hb
          simp [Ne.symm hab']
        · simp [beq_false_of_ne hb]

theorem held_filter (b b' : β) (h : (live.lookup b').isSome) :
    held live b = (if b' = b then 1 else 0) + held (live.filter fun x => x.1 != b') b := by
  rw [held, held, lookup_filter_ne]
  by_cases hb : b' = b
  · subst hb
    rw [if_pos h, if_pos rfl, if_pos rfl]
    rfl
  · rw [if_neg hb, if_neg hb, Nat.zero_add]

/-- A block is acquired as often as it is released, up to whether it is live at the start
and at the end. -/
theorem balance (b : β) {es : List (Event β)} (h : Machine.exec step live es = some live') :
    acquired b es + held live b = released b es + held live' b := by
  induction es generalizing live with
  | nil =>
      cases Option.some.inj h
      rfl
  | cons e es ih =>
      obtain ⟨mid, hmid, hrest⟩ := Option.bind_eq_some_iff.mp h
      have hbalance := ih hrest
      cases e with
      | acquire a size =>
          obtain ⟨hfree, rfl⟩ := Option.ite_some_none_eq_some.mp hmid
          have hnew : held ((a, size) :: live) b = (if a = b then 1 else 0) + held live b :=
            held_cons (a, size) hfree
          rw [acquired, released]
          omega
      | write a offset len =>
          obtain ⟨size, _, hsome⟩ := Option.bind_eq_some_iff.mp hmid
          obtain ⟨_, rfl⟩ := Option.ite_some_none_eq_some.mp hsome
          exact hbalance
      | release a =>
          obtain ⟨hheld, rfl⟩ := Option.ite_some_none_eq_some.mp hmid
          have hold := held_filter b a hheld
          rw [acquired, released]
          omega

/-- A run that starts and ends without a live block releases every block as often as it
acquires it. -/
theorem acquired_eq_released {es : List (Event β)} (h : Machine.exec step [] es = some live')
    (hb : live'.lookup b = none) : acquired b es = released b es := by
  have hbalance := balance b h
  rw [held, held, hb] at hbalance
  exact hbalance

/-! ## The frame rule

A piece of a program that is run on its own blocks does the same, under other names, among blocks
that it knows nothing of, and leaves those alone. -/

section Frame

variable {γ : Type} [DecidableEq γ] {f : β → γ} {whole : List (γ × Nat)}

/-- The event under other names. -/
def Event.map (f : β → γ) : Event β → Event γ
  | .acquire b size => .acquire (f b) size
  | .write b offset len => .write (f b) offset len
  | .release b => .release (f b)

/-- The blocks named by `f` are as they are in `live`. -/
def Agrees (f : β → γ) (live : List (β × Nat)) (whole : List (γ × Nat)) : Prop :=
  ∀ b, whole.lookup (f b) = live.lookup b

theorem step_frame (hf : Function.Injective f) {e : Event β} (h : step live e = some live')
    (hagrees : Agrees f live whole) :
    ∃ whole', step whole (e.map f) = some whole' ∧ Agrees f live' whole' ∧
      ∀ c, (∀ b, c ≠ f b) → whole'.lookup c = whole.lookup c := by
  cases e with
  | acquire a size =>
      obtain ⟨hfree, rfl⟩ := Option.ite_some_none_eq_some.mp h
      refine ⟨(f a, size) :: whole, if_pos (by rw [hagrees]; exact hfree), ?_, ?_⟩
      · intro b
        rw [List.lookup_cons, List.lookup_cons, hagrees, Bool.beq_eq_decide_eq,
          Bool.beq_eq_decide_eq, decide_eq_decide.mpr hf.eq_iff]
      · intro c hc
        rw [List.lookup_cons, beq_false_of_ne (hc a)]
  | write a offset len =>
      obtain ⟨size, hsize, hsome⟩ := Option.bind_eq_some_iff.mp h
      obtain ⟨hle, rfl⟩ := Option.ite_some_none_eq_some.mp hsome
      refine ⟨whole, ?_, hagrees, fun _ _ => rfl⟩
      rw [Event.map, step, hagrees, hsize, Option.bind_some, if_pos hle]
  | release a =>
      obtain ⟨hheld, rfl⟩ := Option.ite_some_none_eq_some.mp h
      refine ⟨_, if_pos (by rw [hagrees]; exact hheld), ?_, ?_⟩
      · intro b
        rw [lookup_filter_ne, lookup_filter_ne, hagrees, if_congr hf.eq_iff rfl rfl]
      · intro c hc
        rw [lookup_filter_ne, if_neg (hc a).symm]

theorem exec_frame (hf : Function.Injective f) {es : List (Event β)}
    (h : Machine.exec step live es = some live') (hagrees : Agrees f live whole) :
    ∃ whole', Machine.exec step whole (es.map (Event.map f)) = some whole' ∧
      Agrees f live' whole' ∧ ∀ c, (∀ b, c ≠ f b) → whole'.lookup c = whole.lookup c := by
  induction es generalizing live whole with
  | nil =>
      cases Option.some.inj h
      exact ⟨whole, rfl, hagrees, fun _ _ => rfl⟩
  | cons e es ih =>
      obtain ⟨mid, hmid, hrest⟩ := Option.bind_eq_some_iff.mp h
      obtain ⟨whole₁, hstep, hagrees₁, hout₁⟩ := step_frame hf hmid hagrees
      obtain ⟨whole', hexec, hagrees', hout⟩ := ih hrest hagrees₁
      refine ⟨whole', ?_, hagrees', fun c hc => (hout c hc).trans (hout₁ c hc)⟩
      rw [List.map_cons, Machine.exec, hstep, Option.bind_some, hexec]

end Frame

theorem eq_nil_of_lookup (h : ∀ b, live.lookup b = none) : live = [] := by
  cases live with
  | nil => rfl
  | cons x live =>
      have hx := h x.1
      rw [List.lookup_cons, beq_self_eq_true] at hx
      cases hx

end Ledger
