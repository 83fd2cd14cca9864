import Mathlib.Tactic.Ring

/-!
# Byte order

A number stored in `n` bytes, least significant byte first, is `store n x`.  Reading
the bytes back is `load`.  The big-endian bytes of a number are the reverse of its
little-endian bytes, so swapping the byte order of a word is storing it and loading
the reverse.

Numbers that do not fit are truncated, as a store to memory truncates them.
-/

namespace ByteOrder

/-- The `n` low bytes of `x`, the least significant first. -/
def store : Nat → Nat → List UInt8
  | 0, _ => []
  | n + 1, x => UInt8.ofNat x :: store n (x / 256)

/-- The number whose bytes, the least significant first, are given. -/
def load : List UInt8 → Nat
  | [] => 0
  | b :: bs => b.toNat + 256 * load bs

/-- The `n` low bytes of `x`, the most significant first. -/
def bigEndian (n x : Nat) : List UInt8 := (store n x).reverse

/-- The number with the bytes of `x` in the other order. -/
def swap (n x : Nat) : Nat := load (store n x).reverse

@[simp] theorem store_length (n x : Nat) : (store n x).length = n := by
  induction n generalizing x with
  | zero => rfl
  | succ n ih => rw [store, List.length_cons, ih]

@[simp] theorem bigEndian_length (n x : Nat) : (bigEndian n x).length = n := by
  rw [bigEndian, List.length_reverse, store_length]

theorem load_lt (bs : List UInt8) : load bs < 256 ^ bs.length := by
  induction bs with
  | nil => exact Nat.one_pos
  | cons b bs ih =>
      have hb := b.toNat_lt
      rw [load, List.length_cons, Nat.pow_succ]
      omega

theorem load_store (n : Nat) {x : Nat} (hx : x < 256 ^ n) : load (store n x) = x := by
  induction n generalizing x with
  | zero =>
      rw [Nat.pow_zero] at hx
      rw [store, load]
      omega
  | succ n ih =>
      rw [Nat.pow_succ] at hx
      rw [store, load, ih (by omega), UInt8.toNat_ofNat']
      omega

theorem store_load (bs : List UInt8) : store bs.length (load bs) = bs := by
  induction bs with
  | nil => rfl
  | cons b bs ih =>
      have hb := b.toNat_lt
      have hlow : UInt8.ofNat (b.toNat + 256 * load bs) = b := by
        apply UInt8.toNat_inj.mp
        rw [UInt8.toNat_ofNat']
        omega
      have hhigh : (b.toNat + 256 * load bs) / 256 = load bs := by omega
      rw [List.length_cons, load, store, hlow, hhigh, ih]

theorem swap_lt (n x : Nat) : swap n x < 256 ^ n := by
  have h := load_lt (store n x).reverse
  rwa [List.length_reverse, store_length] at h

/-- Storing a swapped number writes the big-endian bytes of the number. -/
theorem store_swap (n x : Nat) : store n (swap n x) = bigEndian n x := by
  have h := store_load (store n x).reverse
  rwa [List.length_reverse, store_length] at h

/-- Swapping twice gives the number back. -/
theorem swap_swap (n : Nat) {x : Nat} (hx : x < 256 ^ n) : swap n (swap n x) = x := by
  rw [swap, store_swap, bigEndian, List.reverse_reverse, load_store n hx]

/-- A number of two halves is stored as its low half and then its high half. -/
theorem store_add (m n : Nat) {lo : Nat} (hi : Nat) (hlo : lo < 256 ^ m) :
    store (m + n) (lo + 256 ^ m * hi) = store m lo ++ store n hi := by
  induction m generalizing lo with
  | zero =>
      rw [Nat.pow_zero] at hlo ⊢
      rw [show lo = 0 by omega, Nat.zero_add, Nat.zero_add, Nat.one_mul]
      rfl
  | succ m ih =>
      rw [Nat.pow_succ] at hlo
      have hpow : 256 ^ (m + 1) * hi = 256 * (256 ^ m * hi) := by ring
      have hlow : UInt8.ofNat (lo + 256 * (256 ^ m * hi)) = UInt8.ofNat lo := by
        apply UInt8.toNat_inj.mp
        rw [UInt8.toNat_ofNat', UInt8.toNat_ofNat']
        omega
      have hhigh : (lo + 256 * (256 ^ m * hi)) / 256 = lo / 256 + 256 ^ m * hi := by omega
      rw [show m + 1 + n = m + n + 1 by omega, store, store, hpow, hlow, hhigh, ih (by omega)]
      rfl

end ByteOrder
