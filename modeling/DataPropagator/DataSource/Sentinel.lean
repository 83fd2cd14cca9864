import DataPropagator.DataSource.Pipeline
import Mathlib.Data.Set.List

/-!
# The end mark of the generator

`data_generator_thread` with every outcome of its allocations.  It enqueues what
`warning_create` returned, NULL or not, and a last NULL after its loop, and a sender stops at
the first NULL.  The loop counts the warnings that `warning_to_string` could describe, not
those that were enqueued.

What the generator enqueues is a list of warnings and one NULL after it if and only if no
creation of a round that is run fails.  If the event is never set, the list has
`NUMBER_OF_WARNINGS` elements if and only if no description fails either: each failure costs
one round more, and with failures in every round the loop does not end.
-/

namespace DataPropagator

/-! ## The generator -/

/-- What one round of the loop meets. -/
structure Round where
  /-- The test of the loop finds the stop event set. -/
  stopped : Bool
  choice : Choice
  /-- Which allocations of `warning_create` succeed. -/
  mem : Block → Bool
  /-- The text can be formatted: `needed` is not negative. -/
  formatted : Bool
  /-- The buffer of `warning_to_string` is allocated. -/
  buffer : Bool

/-- `warning_create` as the generator calls it.  The result `none` is NULL. -/
def createWarning (nodes : List NodeInfo) (r : Round) : Option Warning := do
  let j ← (destinations nodes)[r.choice.dest % (destinations nodes).length]?
  let n ← nodes[j]?
  let id := n.id.bytes ++ [0]
  (warningCreate r.mem id (UInt32.ofNat (r.choice.type % 4)) (doubleOfInt (r.choice.value % 100))
    r.choice.time id).1

/-- `warning_to_string` returns a text. -/
def describesWarning (r : Round) (w : Option Warning) : Bool :=
  w.isSome && r.formatted && r.buffer

/-- The loop of `data_generator_thread` from round `i` on, and the enqueuing of NULL after it:
the items that are enqueued.  The result `none` is a loop that the fuel did not let end. -/
def generatorLoop (nodes : List NodeInfo) (env : Nat → Round) :
    Nat → Nat → Nat → Option (List (Option Warning))
  | 0, _, _ => none
  | fuel + 1, i, counter =>
      if (env i).stopped = false ∧ counter < numberOfWarnings then
        let w := createWarning nodes (env i)
        let counter := if describesWarning (env i) w then counter + 1 else counter
        (generatorLoop nodes env fuel (i + 1) counter).map (w :: ·)
      else some [none]

/-- `data_generator_thread`, the array of destinations allocated: the items it enqueues. -/
def dataGeneratorThread (nodes : List NodeInfo) (env : Nat → Round) (fuel : Nat) :
    Option (List (Option Warning)) :=
  if (destinations nodes).length = 0 then some [] else generatorLoop nodes env fuel 0 0

/-- What is enqueued is a list of warnings and one NULL after it, of as many warnings as
there should be if the event is never set. -/
def SentinelMeansEnd (nodes : List NodeInfo) (env : Nat → Round) : Prop :=
  ∃ fuel items, dataGeneratorThread nodes env fuel = some items ∧
    ∃ ws : List Warning, items = ws.map some ++ [none] ∧
      ((∀ i, (env i).stopped = false) → ws.length = numberOfWarnings)

/-! ## The rounds that are run -/

/-- The allocations of `warning_create` succeed. -/
def Round.creates (r : Round) : Bool :=
  r.mem .warning && r.mem .warningCity && r.mem .warningDest

/-- A warning is created and described. -/
def Round.describes (r : Round) : Bool := r.creates && r.formatted && r.buffer

/-- How many of the first `n` rounds describe their warning. -/
def describedBefore (env : Nat → Round) (n : Nat) : Nat :=
  (List.range n).countP fun i => (env i).describes

/-- The loop runs round `i`. -/
def Runs (env : Nat → Round) (i : Nat) : Prop :=
  (∀ j, j ≤ i → (env j).stopped = false) ∧ describedBefore env i < numberOfWarnings

variable {nodes : List NodeInfo} {env : Nat → Round}

theorem describedBefore_succ (env : Nat → Round) (n : Nat) :
    describedBefore env (n + 1) =
      if (env n).describes then describedBefore env n + 1 else describedBefore env n := by
  rw [describedBefore, List.range_succ, List.countP_append, List.countP_singleton, describedBefore]
  split <;> rfl

theorem describedBefore_le (env : Nat → Round) (n : Nat) : describedBefore env n ≤ n := by
  have hle := List.countP_le_length (p := fun i => (env i).describes) (l := List.range n)
  rwa [List.length_range] at hle

theorem describedBefore_eq_iff (env : Nat → Round) (n : Nat) :
    describedBefore env n = n ↔ ∀ i, i < n → (env i).describes = true := by
  have heq := List.countP_eq_length (p := fun i => (env i).describes) (l := List.range n)
  simp only [List.length_range, List.mem_range] at heq
  exact heq

/-- A round is run only if the round before it is. -/
theorem Runs.pred {i : Nat} (h : Runs env (i + 1)) : Runs env i := by
  refine ⟨fun j hj => h.1 j (by omega), ?_⟩
  have hlt := h.2
  rw [describedBefore_succ] at hlt
  split at hlt <;> omega

theorem Runs.of_le {i j : Nat} (h : Runs env j) (hij : i ≤ j) : Runs env i := by
  induction hij with
  | refl => exact h
  | step _ ih => exact ih h.pred

theorem createWarning_isSome (hdest : destinations nodes ≠ []) (r : Round) :
    (createWarning nodes r).isSome = r.creates := by
  have hlt : r.choice.dest % (destinations nodes).length < (destinations nodes).length :=
    Nat.mod_lt _ (List.length_pos_iff.mpr hdest)
  obtain ⟨node, hnode, _⟩ := mem_destinations.mp (List.getElem_mem hlt)
  simp only [createWarning, List.getElem?_eq_getElem hlt, hnode, Option.bind_eq_bind,
    Option.bind_some, warningCreate, Round.creates]
  cases r.mem .warning <;> cases r.mem .warningCity <;> cases r.mem .warningDest <;> rfl

theorem describesWarning_eq (hdest : destinations nodes ≠ []) (r : Round) :
    describesWarning r (createWarning nodes r) = r.describes := by
  rw [describesWarning, createWarning_isSome hdest, Round.describes]

/-! ## What is enqueued -/

/-- The items of the rounds from `i` to `n`, and the NULL after the loop. -/
def itemsFrom (nodes : List NodeInfo) (env : Nat → Round) (i n : Nat) : List (Option Warning) :=
  (List.range' i (n - i)).map (fun j => createWarning nodes (env j)) ++ [none]

theorem itemsFrom_self (nodes : List NodeInfo) (env : Nat → Round) (n : Nat) :
    itemsFrom nodes env n n = [none] := by
  rw [itemsFrom, Nat.sub_self]
  rfl

theorem itemsFrom_succ (nodes : List NodeInfo) (env : Nat → Round) {i n : Nat} (h : i < n) :
    itemsFrom nodes env i n = createWarning nodes (env i) :: itemsFrom nodes env (i + 1) n := by
  obtain ⟨d, rfl⟩ : ∃ d, n = i + 1 + d := ⟨n - (i + 1), by omega⟩
  rw [itemsFrom, itemsFrom, show i + 1 + d - i = d + 1 by omega, show i + 1 + d - (i + 1) = d by omega,
    List.range'_succ]
  rfl

/-- The test of the loop, reached in round `i`. -/
theorem runs_iff_test {i : Nat} (h : ∀ j, j < i → Runs env j) :
    Runs env i ↔ (env i).stopped = false ∧ describedBefore env i < numberOfWarnings := by
  constructor
  · exact fun hi => ⟨hi.1 i le_rfl, hi.2⟩
  · rintro ⟨hstop, hlt⟩
    refine ⟨?_, hlt⟩
    intro j hj
    rcases Nat.lt_or_eq_of_le hj with hlt' | rfl
    · exact (h j hlt').1 j le_rfl
    · exact hstop

/-- A round that is run: the warning it made, and the rest of the loop. -/
theorem generatorLoop_runs (hdest : destinations nodes ≠ []) {i : Nat} (h : Runs env i)
    (fuel : Nat) : generatorLoop nodes env (fuel + 1) i (describedBefore env i) =
      (generatorLoop nodes env fuel (i + 1) (describedBefore env (i + 1))).map
        (createWarning nodes (env i) :: ·) := by
  rw [generatorLoop, if_pos ⟨h.1 i le_rfl, h.2⟩, describedBefore_succ]
  simp only [describesWarning_eq hdest]

/-- When round `n` is the first that is not run, the rounds before it are what is enqueued. -/
theorem generatorLoop_ends (hdest : destinations nodes ≠ []) {n : Nat}
    (hruns : ∀ j, j < n → Runs env j) (hstop : ¬ Runs env n) :
    ∀ (fuel i : Nat), i ≤ n → n - i < fuel →
      generatorLoop nodes env fuel i (describedBefore env i) = some (itemsFrom nodes env i n) := by
  intro fuel
  induction fuel with
  | zero => intro i _ hfuel; omega
  | succ fuel ih =>
      intro i hi hfuel
      rcases Nat.lt_or_eq_of_le hi with hlt | rfl
      · rw [generatorLoop_runs hdest (hruns i hlt), ih (i + 1) hlt (by omega),
          itemsFrom_succ nodes env hlt]
        rfl
      · rw [generatorLoop, if_neg fun htest => hstop ((runs_iff_test hruns).mpr htest),
          itemsFrom_self]

/-- A loop that ends has come to a round that is not run. -/
theorem generatorLoop_stops (hdest : destinations nodes ≠ []) :
    ∀ (fuel i : Nat) {items : List (Option Warning)},
      generatorLoop nodes env fuel i (describedBefore env i) = some items →
      (∀ j, j < i → Runs env j) →
        ∃ n, i ≤ n ∧ n - i < fuel ∧ (∀ j, j < n → Runs env j) ∧ ¬ Runs env n := by
  intro fuel
  induction fuel with
  | zero => intro i items h; cases h
  | succ fuel ih =>
      intro i items h hruns
      by_cases hi : Runs env i
      · rw [generatorLoop_runs hdest hi] at h
        obtain ⟨items', hrest, _⟩ := Option.map_eq_some_iff.mp h
        have hruns' : ∀ j, j < i + 1 → Runs env j := fun j hj => hi.of_le (by omega)
        obtain ⟨n, hn, hfuel, hbefore, hstop⟩ := ih (i + 1) hrest hruns'
        exact ⟨n, by omega, by omega, hbefore, hstop⟩
      · exact ⟨i, le_rfl, by omega, hruns, hi⟩

/-- The generator returns if and only if some round is not run, and has enqueued the items of
the rounds before the first such. -/
theorem dataGeneratorThread_returns_iff (hdest : destinations nodes ≠ [])
    {items : List (Option Warning)} :
    (∃ fuel, dataGeneratorThread nodes env fuel = some items) ↔
      ∃ n, (∀ j, j < n → Runs env j) ∧ ¬ Runs env n ∧ items = itemsFrom nodes env 0 n := by
  have hpos : ¬ (destinations nodes).length = 0 := fun h => hdest (List.length_eq_zero_iff.mp h)
  constructor
  · rintro ⟨fuel, h⟩
    rw [dataGeneratorThread, if_neg hpos] at h
    obtain ⟨n, _, hfuel, hruns, hstop⟩ :=
      generatorLoop_stops hdest fuel 0 h fun j hj => absurd hj (Nat.not_lt_zero j)
    have hends := generatorLoop_ends hdest hruns hstop fuel 0 (Nat.zero_le n) hfuel
    exact ⟨n, hruns, hstop, Option.some.inj (h.symm.trans hends)⟩
  · rintro ⟨n, hruns, hstop, rfl⟩
    refine ⟨n + 1, ?_⟩
    rw [dataGeneratorThread, if_neg hpos]
    exact generatorLoop_ends hdest hruns hstop (n + 1) 0 (Nat.zero_le n) (by omega)

/-! ## When the NULL means the end -/

theorem itemsFrom_zero_eq_iff (nodes : List NodeInfo) (env : Nat → Round) (n : Nat) :
    (∃ ws : List Warning, itemsFrom nodes env 0 n = ws.map some ++ [none]) ↔
      ∀ i, i < n → (createWarning nodes (env i)).isSome = true := by
  have hrange := Set.ext_iff.mp (Set.range_list_map (some : Warning → Option Warning))
    ((List.range n).map fun i => createWarning nodes (env i))
  simp only [Set.mem_range, Set.mem_ofPred_eq, List.mem_map, List.mem_range,
    forall_exists_index, and_imp, forall_apply_eq_imp_iff₂] at hrange
  constructor
  · rintro ⟨ws, hws⟩
    intro i hi
    rw [itemsFrom, Nat.sub_zero, ← List.range_eq_range'] at hws
    obtain ⟨w, hw⟩ := hrange.mp ⟨ws, (List.append_cancel_right hws).symm⟩ i hi
    rw [← hw]
    rfl
  · intro hsome
    obtain ⟨ws, hws⟩ := hrange.mpr fun i hi => by
      obtain ⟨w, hw⟩ := Option.isSome_iff_exists.mp (hsome i hi)
      exact ⟨w, hw.symm⟩
    refine ⟨ws, ?_⟩
    rw [itemsFrom, Nat.sub_zero, ← List.range_eq_range', hws]

theorem itemsFrom_zero_length (nodes : List NodeInfo) (env : Nat → Round) (n : Nat) :
    (itemsFrom nodes env 0 n).length = n + 1 := by
  rw [itemsFrom, List.length_append, List.length_map, List.length_range', Nat.sub_zero]
  rfl

/-- Of the rounds before the first that is not run there are as many as warnings wanted, the
event never set, if and only if each describes its warning. -/
theorem rounds_eq_iff {n : Nat} (hruns : ∀ j, j < n → Runs env j) (hend : ¬ Runs env n)
    (hstop : ∀ i, (env i).stopped = false) :
    n = numberOfWarnings ↔ ∀ i, Runs env i → (env i).describes = true := by
  have hlast : numberOfWarnings ≤ describedBefore env n := by
    by_contra hlt
    exact hend ⟨fun j _ => hstop j, by omega⟩
  have hle := describedBefore_le env n
  have hbefore : ∀ i, Runs env i ↔ i < n := by
    intro i
    constructor
    · intro hi
      by_contra hge
      exact hend (hi.of_le (by omega))
    · exact hruns i
  simp only [hbefore]
  rw [← describedBefore_eq_iff]
  constructor
  · intro hn
    omega
  · intro hall
    rcases Nat.eq_zero_or_pos n with rfl | hpos
    · rw [numberOfWarnings] at hlast
      omega
    · -- the round before the last test was run, with one warning missing
      have hprev : describedBefore env (n - 1) = n - 1 :=
        (describedBefore_eq_iff env (n - 1)).mpr fun i hi =>
          (describedBefore_eq_iff env n).mp hall i (by omega)
      have hlt := (hruns (n - 1) (by omega)).2
      omega

/-- What the generator enqueues is its warnings and one NULL after them, as many warnings as
there should be if the event is never set, if and only if every round that is run creates
its warning and, where the event is never set, also describes it. -/
theorem sentinel_means_end_iff (hdest : destinations nodes ≠ []) (env : Nat → Round) :
    SentinelMeansEnd nodes env ↔
      (∀ i, Runs env i → (env i).creates = true) ∧
        ((∀ i, (env i).stopped = false) → ∀ i, Runs env i → (env i).describes = true) := by
  constructor
  · rintro ⟨fuel, items, hret, ws, rfl, hlen⟩
    obtain ⟨n, hruns, hend, hitems⟩ := (dataGeneratorThread_returns_iff hdest).mp ⟨fuel, hret⟩
    constructor
    · intro i hi
      have hlt : i < n := by
        by_contra hge
        exact hend (hi.of_le (by omega))
      rw [← createWarning_isSome hdest]
      exact (itemsFrom_zero_eq_iff nodes env n).mp ⟨ws, hitems.symm⟩ i hlt
    · intro hstop
      have hcount := congrArg List.length hitems
      rw [itemsFrom_zero_length, List.length_append, List.length_map, List.length_singleton,
        hlen hstop] at hcount
      exact (rounds_eq_iff hruns hend hstop).mp (by omega)
  · rintro ⟨hcreates, hdescribes⟩
    by_cases hall : ∀ i, Runs env i
    · -- a loop that does not end has described every warning it should
      have hstop : ∀ i, (env i).stopped = false := fun i => (hall i).1 i le_rfl
      have hcount := (describedBefore_eq_iff env numberOfWarnings).mpr fun i _ =>
        hdescribes hstop i (hall i)
      exact absurd (hall numberOfWarnings).2 (by omega)
    · obtain ⟨n, hend, hfirst⟩ : ∃ n, ¬ Runs env n ∧ ∀ j, j < n → Runs env j := by
        classical
        have hex := not_forall.mp hall
        exact ⟨Nat.find hex, Nat.find_spec hex, fun j hj => not_not.mp (Nat.find_min hex hj)⟩
      obtain ⟨fuel, hret⟩ := (dataGeneratorThread_returns_iff hdest).mpr ⟨n, hfirst, hend, rfl⟩
      obtain ⟨ws, hws⟩ := (itemsFrom_zero_eq_iff nodes env n).mpr fun i hi => by
        rw [createWarning_isSome hdest]
        exact hcreates i (hfirst i hi)
      refine ⟨fuel, _, hret, ws, hws, ?_⟩
      intro hstop
      have hcount := congrArg List.length hws
      rw [itemsFrom_zero_length, List.length_append, List.length_map, List.length_singleton]
        at hcount
      have hn := (rounds_eq_iff hfirst hend hstop).mpr (hdescribes hstop)
      omega

/-- Rounds for `B`, without the block of the first warning, and the event set before the
third. -/
def sampleRounds (i : Nat) : Round where
  stopped := 2 ≤ i
  choice := { dest := 0, type := 1, value := 42, time := 0 }
  mem := fun _ => i ≠ 0
  formatted := true
  buffer := true

/-- Rounds that all succeed, the event set before the second. -/
theorem sentinel_means_end_iff_twoRows :
    SentinelMeansEnd twoRows (fun i => sampleRounds (i + 1)) :=
  (sentinel_means_end_iff (by decide) _).mpr
    ⟨by simp [sampleRounds, Round.creates],
      fun hstop => absurd (hstop 1) (by decide)⟩

/-- The first creation fails: NULL is enqueued, then a warning, then NULL. -/
theorem failed_creation_enqueues_null :
    destinations twoRows ≠ [] ∧
      (∃ fuel w, dataGeneratorThread twoRows sampleRounds fuel = some [none, some w, none]) ∧
        ¬ SentinelMeansEnd twoRows sampleRounds := by
  have hruns : ∀ j, j < 2 → Runs sampleRounds j := by
    intro j hj
    constructor
    · intro i hi
      simp only [sampleRounds, decide_eq_false_iff_not]
      omega
    · exact lt_of_le_of_lt (describedBefore_le _ j) (by simp only [numberOfWarnings]; omega)
  have hend : ¬ Runs sampleRounds 2 := fun h => absurd (h.1 2 le_rfl) (by decide)
  have hdest : destinations twoRows ≠ [] := by decide
  refine ⟨hdest, ?_, ?_⟩
  · obtain ⟨fuel, hret⟩ :=
      (dataGeneratorThread_returns_iff hdest).mpr ⟨2, hruns, hend, rfl⟩
    exact ⟨fuel, _, hret⟩
  · rintro ⟨fuel, items, hret, ws, hitems, _⟩
    obtain ⟨n, hn, hn', rfl⟩ := (dataGeneratorThread_returns_iff hdest).mp ⟨fuel, hret⟩
    have h0 := (itemsFrom_zero_eq_iff twoRows sampleRounds n).mp ⟨ws, hitems⟩ 0
    have hpos : 0 < n := by
      rcases Nat.eq_zero_or_pos n with rfl | hpos
      · exact absurd (hruns 0 (by decide)) hn'
      · exact hpos
    exact absurd (h0 hpos) (by decide)

end DataPropagator
