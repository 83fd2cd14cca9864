import DataPropagator.Lib.KeyMap
import Mathlib.Data.List.TakeWhile

/-!
# C strings

A C string is its bytes up to the terminating zero, so none of them is zero.
The functions of the C library that the program reads its node table with are
here, in the C locale and on the bytes of a buffer: `isspace`, `strtok` with one
delimiter, `atoi`, `fgets`.

`atoi` follows the runtime the program is built with, which clamps a number out
of range to the nearest `int`.
-/

namespace DataPropagator

/-- The contents of a buffer or of a file. -/
abbrev Bytes := List UInt8

/-- A zero-terminated string: the bytes before the zero. -/
structure CString where
  bytes : Bytes
  noZero : (0 : UInt8) ∉ bytes
deriving DecidableEq, Repr

/-- The string at the start of a buffer. -/
def CString.ofBuffer (b : Bytes) : CString where
  bytes := b.takeWhile (· ≠ 0)
  noZero := fun h => by simpa using List.mem_takeWhile_imp h

/-- `_strdup`, its allocation succeeding. -/
def strdup (b : Bytes) : CString := CString.ofBuffer b

/-- `strlen`. -/
def strlen (s : CString) : Nat := s.bytes.length

/-- `strcmp(a, b) == 0`. -/
def eqString (a b : CString) : Bool := a.bytes == b.bytes

@[ext] theorem CString.ext {a b : CString} (h : a.bytes = b.bytes) : a = b := by
  cases a
  cases b
  cases h
  rfl

theorem eqString_iff (a b : CString) : eqString a b = true ↔ a = b := by
  rw [eqString, beq_iff_eq]
  exact ⟨CString.ext, congrArg CString.bytes⟩

/-- A buffer without a zero byte is a string as a whole. -/
theorem CString.bytes_ofBuffer {b : Bytes} (h : (0 : UInt8) ∉ b) :
    (CString.ofBuffer b).bytes = b := by
  apply List.takeWhile_eq_self_iff.mpr
  intro c hc
  have hne : c ≠ 0 := fun h0 => h (h0 ▸ hc)
  simpa using hne

/-- Copying a string copies its bytes. -/
theorem CString.ofBuffer_bytes (s : CString) : CString.ofBuffer s.bytes = s :=
  CString.ext (CString.bytes_ofBuffer s.noZero)

/-- The zero at the end of a buffer is no part of the string. -/
theorem strdup_append_zero (b : Bytes) : strdup (b ++ [0]) = strdup b := by
  apply CString.ext
  show (b ++ [0]).takeWhile _ = b.takeWhile _
  rw [List.takeWhile_append]
  split
  next h =>
      have hb : b.takeWhile (· ≠ 0) = b :=
        (List.takeWhile_prefix _).eq_of_length h
      rw [hb, List.takeWhile_cons_of_neg (by simp), List.append_nil]
  next => rfl

/-- `hash_string`. -/
def hashString (s : CString) : UInt64 :=
  s.bytes.foldl (fun h c => ((h <<< 5) + h) + c.toUInt64) 5381

theorem lawfulKey_hashString : KeyMap.LawfulKey hashString eqString :=
  KeyMap.lawfulKey_of_decides hashString eqString_iff

/-! ## The C library -/

/-- `isspace` in the C locale. -/
def isspace (c : UInt8) : Bool := c == 32 || (9 ≤ c && c ≤ 13)

/-- The comma. -/
def comma : UInt8 := 44

/-- The line feed. -/
def lineFeed : UInt8 := 10

/-- The carriage return. -/
def carriageReturn : UInt8 := 13

/-- One call of `strtok` with the delimiter `","`: the token, if there is one, and
what the next call reads. -/
def strtok (s : Bytes) : Option Bytes × Bytes :=
  match s.dropWhile (· == comma) with
  | [] => (none, [])
  | c :: cs => (some ((c :: cs).takeWhile (· != comma)), ((c :: cs).dropWhile (· != comma)).drop 1)

/-- The value of a run of decimal digits. -/
def digitsValue (ds : Bytes) : Nat :=
  ds.foldl (fun n d => 10 * n + (d.toNat - 48)) 0

/-- A decimal digit. -/
def isdigit (c : UInt8) : Bool := 48 ≤ c && c ≤ 57

/-- A number clamped to the range of `int`. -/
def clampInt (n : Int) : Int := max (-2 ^ 31) (min (2 ^ 31 - 1) n)

/-- `atoi`. -/
def atoi (s : Bytes) : Int :=
  match s.dropWhile isspace with
  | [] => 0
  | c :: cs =>
      if c == 45 then clampInt (-(digitsValue (cs.takeWhile isdigit)))
      else if c == 43 then clampInt (digitsValue (cs.takeWhile isdigit))
      else clampInt (digitsValue ((c :: cs).takeWhile isdigit))

/-- Read at most `room` bytes of a line, its line feed included: what was read and
what is left. -/
def readLine : Nat → Bytes → Bytes × Bytes
  | 0, rest => ([], rest)
  | _ + 1, [] => ([], [])
  | room + 1, c :: rest =>
      if c == lineFeed then ([c], rest)
      else ((c :: (readLine room rest).1), (readLine room rest).2)

/-- `fgets` into a buffer of `n` bytes.  `none` is the result NULL at the end of
the file. -/
def fgets (n : Nat) : Bytes → Option (Bytes × Bytes)
  | [] => none
  | c :: rest => some (readLine (n - 1) (c :: rest))

/-- The bytes of a string literal. -/
def ascii (text : String) : Bytes := text.toList.map fun c => UInt8.ofNat c.toNat

/-- `snprintf` into a buffer of `n` bytes: the text up to the zero it writes. -/
def snprintf (n : Nat) (text : Bytes) : Bytes := text.take (n - 1)

theorem snprintf_of_lt {n : Nat} {text : Bytes} (h : text.length < n) : snprintf n text = text :=
  List.take_of_length_le (by omega)

theorem snprintf_length_lt {n : Nat} (hn : 0 < n) (text : Bytes) :
    (snprintf n text).length < n := by
  rw [snprintf, List.length_take]
  omega

theorem readLine_append : ∀ (room : Nat) (s : Bytes), (readLine room s).1 ++ (readLine room s).2 = s
  | 0, _ => rfl
  | _ + 1, [] => rfl
  | room + 1, c :: rest => by
      rw [readLine]
      split
      · rfl
      · rw [List.cons_append, readLine_append room rest]

theorem readLine_length_le : ∀ (room : Nat) (s : Bytes), (readLine room s).1.length ≤ room
  | 0, _ => le_rfl
  | _ + 1, [] => Nat.zero_le _
  | room + 1, c :: rest => by
      have ih := readLine_length_le room rest
      rw [readLine]
      split
      · exact Nat.succ_le_succ (Nat.zero_le room)
      · exact Nat.succ_le_succ ih

/-- A line is read off the front of the file, and it is not empty. -/
theorem fgets_spec {n : Nat} (hn : 2 ≤ n) {s l rest : Bytes} (h : fgets n s = some (l, rest)) :
    s = l ++ rest ∧ l ≠ [] := by
  cases s with
  | nil => cases h
  | cons c s =>
      rw [fgets, Option.some.injEq] at h
      have happ := readLine_append (n - 1) (c :: s)
      rw [h] at happ
      refine ⟨happ.symm, ?_⟩
      obtain ⟨k, hk⟩ : ∃ k, n - 1 = k + 1 := ⟨n - 2, by omega⟩
      rw [hk, readLine] at h
      split at h
      · rw [Prod.mk.injEq] at h
        exact h.1 ▸ List.cons_ne_nil _ _
      · rw [Prod.mk.injEq] at h
        exact h.1 ▸ List.cons_ne_nil _ _

end DataPropagator
