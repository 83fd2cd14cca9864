import Mathlib.Data.Nat.Log
import Mathlib.Tactic.Ring

/-!
# Single precision on natural numbers

The conversion of a natural number to a binary32 number, and the comparison of
the binary32 quotient of two such numbers with a constant, both rounded to the
nearest 24-bit significand with ties to even.  Only numbers far from the
overflow and underflow thresholds occur, so no exponent range is modelled.

`divLe_three_quarters` says when the comparison with `0.75f` is that of the
exact quotient.
-/

namespace Binary32

/-- The integer nearest to `a / b`, the even one of two. -/
def roundDiv (a b : Nat) : Nat :=
  let q := a / b
  let r := a % b
  if 2 * r < b then q else if b < 2 * r then q + 1 else q + q % 2

/-- `(float)n`. -/
def ofNat (n : Nat) : Nat :=
  if n < 2 ^ 24 then n
  else
    let e := n.log2 - 23
    roundDiv n (2 ^ e) * 2 ^ e

/-- A scale at which the quotient of `a` and `b` has 24 significant bits. -/
def quotScale (a b : Nat) : Nat :=
  let k := 23 + b.log2 - a.log2
  if 2 ^ 23 * b ≤ a * 2 ^ k then k else k + 1

/-- The binary32 quotient `a / b` is at most `p / 2 ^ s`. -/
def divLe (a b p s : Nat) : Bool :=
  let k := quotScale a b
  decide (roundDiv (a * 2 ^ k) b * 2 ^ s ≤ p * 2 ^ k)

/-! ## Bounds on the rounding -/

theorem roundDiv_le {x b m : Nat} (hb : 0 < b) (h : x ≤ m * b) : roundDiv x b ≤ m := by
  have hx := Nat.div_add_mod x b
  have hr := Nat.mod_lt x hb
  have hq : x / b ≤ m := Nat.div_le_of_le_mul (by rwa [Nat.mul_comm])
  have hrest : x / b = m → x % b = 0 := by
    intro he
    rw [he, Nat.mul_comm] at hx
    omega
  simp only [roundDiv]
  split
  · exact hq
  · split <;> rcases Nat.lt_or_ge (x / b) m with hlt | hge <;> omega

theorem le_roundDiv {x b m : Nat} (hb : 0 < b) (h : m * b ≤ x) : m ≤ roundDiv x b := by
  have hq : m ≤ x / b := (Nat.le_div_iff_mul_le hb).mpr h
  simp only [roundDiv]
  split
  · exact hq
  · split <;> omega

/-- More than half a unit above `m` rounds above `m`. -/
theorem lt_roundDiv {x b m r : Nat} (hb : 0 < b) (h : m * b + r ≤ x) (hr : b < 2 * r) :
    m < roundDiv x b := by
  have hq : m ≤ x / b := (Nat.le_div_iff_mul_le hb).mpr (by omega)
  have hx := Nat.div_add_mod x b
  rcases Nat.lt_or_ge m (x / b) with hlt | hge
  · simp only [roundDiv]
    split
    · exact hlt
    · split <;> omega
  · have he : x / b = m := by omega
    rw [he, Nat.mul_comm] at hx
    have hrem : b < 2 * (x % b) := by omega
    simp only [roundDiv, he]
    rw [if_neg (by omega), if_pos hrem]
    omega

theorem quotScale_spec {a b : Nat} (ha : 0 < a) :
    2 ^ 23 * b ≤ a * 2 ^ quotScale a b := by
  have hla : 2 ^ a.log2 ≤ a := Nat.log2_self_le (by omega)
  have hlb : b < 2 ^ (b.log2 + 1) := Nat.lt_log2_self
  simp only [quotScale]
  split
  · assumption
  · have hexp : 24 + b.log2 ≤ a.log2 + (23 + b.log2 - a.log2 + 1) := by omega
    calc 2 ^ 23 * b ≤ 2 ^ 23 * 2 ^ (b.log2 + 1) := Nat.mul_le_mul_left _ hlb.le
      _ = 2 ^ (24 + b.log2) := by rw [← Nat.pow_add]; congr 1; omega
      _ ≤ 2 ^ (a.log2 + (23 + b.log2 - a.log2 + 1)) := Nat.pow_le_pow_right (by omega) hexp
      _ = 2 ^ a.log2 * 2 ^ (23 + b.log2 - a.log2 + 1) := Nat.pow_add ..
      _ ≤ a * 2 ^ (23 + b.log2 - a.log2 + 1) := Nat.mul_le_mul_right _ hla

/-- For divisors below `2 ^ 23` the rounded quotient compares with three
quarters as the exact one does. -/
theorem divLe_three_quarters {a b : Nat} (ha : 0 < a) (hb : 0 < b) (hb' : b < 2 ^ 23) :
    divLe a b 3 2 = true ↔ 4 * a ≤ 3 * b := by
  have hscale := quotScale_spec (b := b) ha
  simp only [divLe, decide_eq_true_eq]
  generalize quotScale a b = k at hscale ⊢
  -- the quotient is below one exactly at the scales from 24 on
  rcases Nat.lt_or_ge k 24 with hk | hk
  · have hpow : 2 ^ k ≤ 2 ^ 23 := Nat.pow_le_pow_right (by omega) (by omega)
    have hround : 2 ^ 23 ≤ roundDiv (a * 2 ^ k) b := le_roundDiv hb hscale
    have hab : b ≤ a := by
      have := Nat.mul_le_mul_left a hpow
      rw [Nat.mul_comm a (2 ^ 23)] at this
      exact Nat.le_of_mul_le_mul_left (hscale.trans this) (by norm_num)
    have : 0 < 2 ^ k := Nat.two_pow_pos k
    constructor <;> intro h <;> omega
  · obtain ⟨j, rfl⟩ : ∃ j, k = j + 2 := ⟨k - 2, by omega⟩
    have hj : 2 ^ 22 ≤ 2 ^ j := Nat.pow_le_pow_right (by omega) (by omega)
    have hx : a * 2 ^ (j + 2) = 4 * a * 2 ^ j := by rw [Nat.pow_add]; ring
    rw [Nat.pow_add, show 3 * (2 ^ j * 2 ^ 2) = 3 * 2 ^ j * 2 ^ 2 by ring]
    rw [Nat.pow_add] at hx
    constructor
    · intro h
      by_contra hlt
      have hge : (3 * 2 ^ j) * b + 2 ^ j ≤ a * (2 ^ j * 2 ^ 2) := by
        rw [hx]
        calc (3 * 2 ^ j) * b + 2 ^ j = (3 * b + 1) * 2 ^ j := by ring
          _ ≤ 4 * a * 2 ^ j := Nat.mul_le_mul_right _ (by omega)
      have := lt_roundDiv hb hge (by omega)
      omega
    · intro h
      have hle : a * (2 ^ j * 2 ^ 2) ≤ (3 * 2 ^ j) * b := by
        rw [hx]
        calc 4 * a * 2 ^ j ≤ 3 * b * 2 ^ j := Nat.mul_le_mul_right _ h
          _ = 3 * 2 ^ j * b := by ring
      have := roundDiv_le hb hle
      omega

/-! ## Doubling -/

theorem roundDiv_double (a b : Nat) : roundDiv (2 * a) (2 * b) = roundDiv a b := by
  simp only [roundDiv, Nat.mul_div_mul_left a b two_pos, Nat.mul_mod_mul_left]
  have hlow : 2 * (2 * (a % b)) < 2 * b ↔ 2 * (a % b) < b := by omega
  have hhigh : 2 * b < 2 * (2 * (a % b)) ↔ b < 2 * (a % b) := by omega
  simp only [hlow, hhigh]

theorem ofNat_double (n : Nat) : ofNat (2 * n) = 2 * ofNat n := by
  rcases Nat.lt_or_ge n (2 ^ 23) with hsmall | hge
  · rw [ofNat, ofNat, if_pos (by omega), if_pos (by omega)]
  · have hn : n ≠ 0 := by omega
    have hlog : (2 * n).log2 = n.log2 + 1 := Nat.log2_two_mul hn
    have hbits : 23 ≤ n.log2 := (Nat.le_log2 hn).mpr hge
    have hexp : (2 * n).log2 - 23 = n.log2 - 23 + 1 := by omega
    have hdouble : ofNat (2 * n) = 2 * (roundDiv n (2 ^ (n.log2 - 23)) * 2 ^ (n.log2 - 23)) := by
      simp only [ofNat, hexp, Nat.pow_succ', roundDiv_double]
      rw [if_neg (by omega), Nat.mul_left_comm]
    rw [hdouble]
    rcases Nat.lt_or_ge n (2 ^ 24) with hlt | hge'
    · have hzero : n.log2 - 23 = 0 := by
        have := (Nat.log2_lt hn).mpr hlt
        omega
      rw [ofNat, if_pos hlt, hzero]
      simp [roundDiv, Nat.mod_one]
    · rw [ofNat, if_neg (by omega)]

theorem ofNat_pos {n : Nat} (hn : 0 < n) : 0 < ofNat n := by
  simp only [ofNat]
  split
  · exact hn
  · have hle : 1 * 2 ^ (n.log2 - 23) ≤ n := by
      rw [Nat.one_mul]
      exact (Nat.pow_le_pow_right two_pos (Nat.sub_le ..)).trans (Nat.log2_self_le hn.ne')
    exact Nat.mul_pos (le_roundDiv (Nat.two_pow_pos _) hle) (Nat.two_pow_pos _)

/-- A divisor twice as large needs one more bit of scale. -/
theorem quotScale_double {a b : Nat} (hb : b ≠ 0) (hscale : a.log2 ≤ 23 + b.log2) :
    quotScale a (2 * b) = quotScale a b + 1 := by
  have hk : 23 + (2 * b).log2 - a.log2 = 23 + b.log2 - a.log2 + 1 := by
    rw [Nat.log2_two_mul hb]
    omega
  have hiff : ∀ k, 2 ^ 23 * (2 * b) ≤ a * 2 ^ (k + 1) ↔ 2 ^ 23 * b ≤ a * 2 ^ k := by
    intro k
    rw [@Nat.pow_succ' 2 k, Nat.mul_left_comm, Nat.mul_left_comm a]
    exact Nat.mul_le_mul_left_iff two_pos
  simp only [quotScale, hk, hiff]
  split <;> rfl

/-- A quotient that is at most a constant stays so when the divisor doubles. -/
theorem divLe_double {a b p s : Nat} (ha : 0 < a) (hb : 0 < b) (hp : p < 2 ^ (23 + s))
    (h : divLe a b p s = true) : divLe a (2 * b) p s = true := by
  have hscale := quotScale_spec (b := b) ha
  simp only [divLe, decide_eq_true_eq] at h ⊢
  rcases le_or_gt a.log2 (23 + b.log2) with hle | hlt
  · rw [quotScale_double hb.ne' hle, Nat.pow_succ', Nat.mul_left_comm, roundDiv_double,
      Nat.mul_left_comm]
    exact h.trans (Nat.le_mul_of_pos_left _ two_pos)
  · -- the quotient is so large that it cannot be at most the constant
    have hzero : quotScale a b = 0 := by
      have hlarge : 2 ^ 23 * b ≤ a := by
        calc 2 ^ 23 * b ≤ 2 ^ 23 * 2 ^ (b.log2 + 1) :=
              Nat.mul_le_mul_left _ Nat.lt_log2_self.le
          _ = 2 ^ (23 + b.log2 + 1) := by rw [← Nat.pow_add]; rfl
          _ ≤ 2 ^ a.log2 := Nat.pow_le_pow_right two_pos hlt
          _ ≤ a := Nat.log2_self_le ha.ne'
      rw [quotScale, Nat.sub_eq_zero_of_le hlt.le]
      exact if_pos (by rwa [Nat.pow_zero, Nat.mul_one])
    rw [hzero, Nat.pow_zero, Nat.mul_one] at h hscale
    have hround : 2 ^ 23 * 2 ^ s ≤ roundDiv a b * 2 ^ s :=
      Nat.mul_le_mul_right _ (le_roundDiv hb hscale)
    rw [Nat.pow_add] at hp
    omega

/-! ## Order -/

theorem roundDiv_mono {x y : Nat} (b : Nat) (h : x ≤ y) : roundDiv x b ≤ roundDiv y b := by
  have hx := Nat.div_add_mod x b
  have hy := Nat.div_add_mod y b
  have hq : x / b ≤ y / b := Nat.div_le_div_right h
  rcases Nat.lt_or_ge (x / b) (y / b) with hlt | hge
  · simp only [roundDiv]
    split_ifs <;> omega
  · have heq : x / b = y / b := by omega
    rw [heq] at hx
    have hr : x % b ≤ y % b := by omega
    simp only [roundDiv, heq]
    split_ifs <;> omega

/-- Rounding stays between the powers of two around a number. -/
theorem ofNat_bounds {n : Nat} (hn : n ≠ 0) : 2 ^ n.log2 ≤ ofNat n ∧ ofNat n ≤ 2 ^ (n.log2 + 1) := by
  have hle : 2 ^ n.log2 ≤ n := Nat.log2_self_le hn
  have hlt : n < 2 ^ (n.log2 + 1) := Nat.lt_log2_self
  rw [ofNat]
  split
  · exact ⟨hle, hlt.le⟩
  next hge =>
      have hbits : 23 ≤ n.log2 := (Nat.le_log2 hn).mpr (by omega)
      have hpow : 2 ^ n.log2 = 2 ^ 23 * 2 ^ (n.log2 - 23) := by
        rw [← Nat.pow_add]
        congr 1
        omega
      have hpow' : 2 ^ (n.log2 + 1) = 2 ^ 24 * 2 ^ (n.log2 - 23) := by
        rw [← Nat.pow_add]
        congr 1
        omega
      rw [hpow] at hle ⊢
      rw [hpow'] at hlt ⊢
      exact ⟨Nat.mul_le_mul_right _ (le_roundDiv (Nat.two_pow_pos _) hle),
        Nat.mul_le_mul_right _ (roundDiv_le (Nat.two_pow_pos _) hlt.le)⟩

theorem ofNat_mono {m n : Nat} (h : m ≤ n) : ofNat m ≤ ofNat n := by
  rcases Nat.eq_zero_or_pos m with rfl | hm
  · exact Nat.zero_le _
  have hlog : m.log2 ≤ n.log2 := (Nat.le_log2 (by omega)).mpr ((Nat.log2_self_le hm.ne').trans h)
  rcases Nat.lt_or_ge m.log2 n.log2 with hlt | hge
  · calc ofNat m ≤ 2 ^ (m.log2 + 1) := (ofNat_bounds hm.ne').2
      _ ≤ 2 ^ n.log2 := Nat.pow_le_pow_right two_pos hlt
      _ ≤ ofNat n := (ofNat_bounds (by omega)).1
  · have heq : m.log2 = n.log2 := by omega
    have hsmall : m < 2 ^ 24 ↔ n < 2 ^ 24 := by
      rw [← Nat.log2_lt hm.ne', ← Nat.log2_lt (by omega : n ≠ 0), heq]
    simp only [ofNat, hsmall, heq]
    split
    · exact h
    · exact Nat.mul_le_mul_right _ (roundDiv_mono _ h)

/-- The quotient of a number and one twice as large is below three quarters. -/
theorem divLe_of_half {a b : Nat} (ha : 0 < a) (h : 2 * a ≤ b) : divLe a b 3 2 = true := by
  have hscale := quotScale_spec (b := b) ha
  simp only [divLe, decide_eq_true_eq]
  generalize quotScale a b = k at hscale ⊢
  obtain ⟨j, rfl⟩ : ∃ j, k = j + 1 := by
    rcases k with _ | j
    · rw [Nat.pow_zero] at hscale
      omega
    · exact ⟨j, rfl⟩
  have hround : roundDiv (a * 2 ^ (j + 1)) b ≤ 2 ^ j := by
    refine roundDiv_le (by omega) ?_
    calc a * 2 ^ (j + 1) = 2 ^ j * (2 * a) := by rw [Nat.pow_succ']; ring
      _ ≤ 2 ^ j * b := Nat.mul_le_mul_left _ h
  have hpow : 2 ^ (j + 1) = 2 * 2 ^ j := Nat.pow_succ'
  generalize roundDiv (a * 2 ^ (j + 1)) b = r at hround ⊢
  omega

/-- The quotient of a number and one that is not larger is above three quarters. -/
theorem divLe_of_le {a b : Nat} (hb : 0 < b) (h : b ≤ a) : divLe a b 3 2 = false := by
  simp only [divLe, decide_eq_false_iff_not, not_le]
  generalize quotScale a b = k
  have hround : 2 ^ k ≤ roundDiv (a * 2 ^ k) b := by
    refine le_roundDiv hb ?_
    rw [Nat.mul_comm]
    exact Nat.mul_le_mul_right _ h
  have hpos := Nat.two_pow_pos k
  omega

end Binary32
