import Mathlib.Data.Set.Card
import Mathlib.Data.Setoid.Basic

/-!
# Maps over keys with an equality of their own

A map is a function `K → Option W`, read up to a key equality `eq : K → K → Bool`
that need not be the equality of `K`.  `assign` and `erase` change it at every
key equal to the given one.

A history is a list of writes.  `latest` reads a history backwards: the binding
of a key is decided by the last write under a key equal to it.  `replay` applies
the writes one after another.  Both give the same map (`replay_eq_latest`).
-/

namespace KeyMap

variable {K W : Type}

/-- What a hash function and a key comparison owe each other. -/
structure LawfulKey {H : Type} (hash : K → H) (eq : K → K → Bool) : Prop where
  refl : ∀ a, eq a a = true
  symm : ∀ a b, eq a b = true → eq b a = true
  trans : ∀ a b c, eq a b = true → eq b c = true → eq a c = true
  hash_eq : ∀ a b, eq a b = true → hash a = hash b

/-- Equal keys as a setoid. -/
def LawfulKey.setoid {H : Type} {hash : K → H} {eq : K → K → Bool} (h : LawfulKey hash eq) :
    Setoid K where
  r a b := eq a b = true
  iseqv := ⟨h.refl, fun {a b} => h.symm a b, fun {a b c} => h.trans a b c⟩

theorem LawfulKey.symm_iff {H : Type} {hash : K → H} {eq : K → K → Bool} (h : LawfulKey hash eq)
    (a b : K) : eq a b = eq b a := by
  rw [Bool.eq_iff_iff]
  exact ⟨h.symm a b, h.symm b a⟩

theorem LawfulKey.ne_symm {H : Type} {hash : K → H} {eq : K → K → Bool} (h : LawfulKey hash eq)
    {a b : K} (hab : eq a b = false) : eq b a = false := by
  rwa [h.symm_iff]

/-- Equal keys compare alike with any third key. -/
theorem LawfulKey.congr_left {H : Type} {hash : K → H} {eq : K → K → Bool}
    (h : LawfulKey hash eq) {a b : K} (hab : eq a b = true) (c : K) : eq a c = eq b c := by
  rw [Bool.eq_iff_iff]
  exact ⟨h.trans b a c (h.symm a b hab), h.trans a b c hab⟩

/-- A comparison that decides equality is lawful for every hash function. -/
theorem lawfulKey_of_decides {H : Type} (hash : K → H) {eq : K → K → Bool}
    (h : ∀ a b, eq a b = true ↔ a = b) : LawfulKey hash eq where
  refl a := (h a a).mpr rfl
  symm a b hab := (h b a).mpr ((h a b).mp hab).symm
  trans a b c hab hbc := (h a c).mpr (((h a b).mp hab).trans ((h b c).mp hbc))
  hash_eq a b hab := congrArg hash ((h a b).mp hab)

/-! ## Writes -/

/-- A write: bind a key or forget it. -/
inductive Write (K W : Type) where
  | assign : K → W → Write K W
  | erase : K → Write K W

/-- The key a write is about. -/
def Write.key : Write K W → K
  | .assign k _ => k
  | .erase k => k

/-- What a write leaves bound under its key. -/
def Write.result : Write K W → Option W
  | .assign _ w => some w
  | .erase _ => none

/-- Apply one write to a map. -/
def Write.apply (eq : K → K → Bool) (f : K → Option W) (w : Write K W) : K → Option W :=
  fun k => if eq w.key k then w.result else f k

/-- Apply a list of writes, oldest first. -/
def replay (eq : K → K → Bool) (f : K → Option W) (ws : List (Write K W)) : K → Option W :=
  ws.foldl (Write.apply eq) f

/-- The binding of `k` after a history: that of the last write under a key equal
to `k`, none if there is no such write. -/
def latest (eq : K → K → Bool) (ws : List (Write K W)) (k : K) : Option W :=
  (ws.reverse.find? fun w => eq w.key k).bind Write.result

theorem replay_append (eq : K → K → Bool) (f : K → Option W) (ws ws' : List (Write K W)) :
    replay eq f (ws ++ ws') = replay eq (replay eq f ws) ws' :=
  List.foldl_append

theorem latest_append_singleton (eq : K → K → Bool) (ws : List (Write K W)) (w : Write K W)
    (k : K) : latest eq (ws ++ [w]) k = if eq w.key k then w.result else latest eq ws k := by
  by_cases h : eq w.key k = true <;> simp [latest, h]

/-- Replaying a history from the empty map gives the latest bindings. -/
theorem replay_eq_latest (eq : K → K → Bool) (ws : List (Write K W)) :
    replay eq (fun _ => none) ws = latest eq ws := by
  induction ws using List.reverseRecOn with
  | nil => rfl
  | append_singleton ws w ih =>
      funext k
      rw [replay_append, ih, latest_append_singleton]
      rfl

/-! ## Assigning a list of pairs -/

/-- Bind every pair of a list in turn. -/
def assignAll (eq : K → K → Bool) (f : K → Option W) (ps : List (K × W)) : K → Option W :=
  replay eq f (ps.map fun p => .assign p.1 p.2)

/-- A key is bound by the last pair whose key equals it. -/
theorem assignAll_apply (eq : K → K → Bool) (f : K → Option W) (ps : List (K × W)) (k : K) :
    assignAll eq f ps k =
      match ps.reverse.find? (fun p => eq p.1 k) with
      | some p => some p.2
      | none => f k := by
  induction ps using List.reverseRecOn with
  | nil => rfl
  | append_singleton ps p ih =>
      have hstep : assignAll eq f (ps ++ [p]) k =
          if eq p.1 k then some p.2 else assignAll eq f ps k := by
        rw [assignAll, List.map_append, replay_append]
        rfl
      rw [hstep, ih]
      by_cases h : eq p.1 k = true <;> simp [h]

end KeyMap
