import DataPropagator.Common.WireMessage
import Mathlib.Data.Int.Order.Basic

/-!
# The text of a warning

`warning_to_string` describes every warning that a CentralPropagator receives and every one that
a DataDestination takes out of its queue.  The type and the time stamp come from the network.  The
type is compared with both bounds before it is an index, as the `int` that the enumeration is.  The
time stamp becomes a `time_t`, which is signed, and the result of `localtime_s` is not looked at.

`localtime_s` and the conversion of a `double` belong to the C library and are parameters.  A
`localtime_s` that fails leaves fields that are no date, and `strftime` must not be given such
fields, so that is the fault `invalidTm`.
-/

namespace DataPropagator

/-! ## The C library -/

/-- `struct tm`, the fields that the format uses. -/
structure Tm where
  mday : Int
  mon : Int
  year : Int
  hour : Int
  min : Int
  sec : Int
deriving DecidableEq, Repr

/-- What `strftime` requires of the fields that the format uses. -/
def Tm.Valid (tm : Tm) : Prop :=
  (1 ≤ tm.mday ∧ tm.mday ≤ 31) ∧ (0 ≤ tm.mon ∧ tm.mon ≤ 11) ∧
    (-1900 ≤ tm.year ∧ tm.year ≤ 8099) ∧ (0 ≤ tm.hour ∧ tm.hour ≤ 23) ∧
    (0 ≤ tm.min ∧ tm.min ≤ 59) ∧ (0 ≤ tm.sec ∧ tm.sec ≤ 60)

instance (tm : Tm) : Decidable tm.Valid :=
  inferInstanceAs (Decidable ((_ ∧ _) ∧ (_ ∧ _) ∧ (_ ∧ _) ∧ (_ ∧ _) ∧ (_ ∧ _) ∧ (_ ∧ _)))

/-- The functions of the C library that depend on the time zone or on floating point. -/
structure Crt where
  /-- `localtime_s`: its result, which is 0 if it succeeds, and the fields it leaves. -/
  localtimeS : Int → Int × Tm
  /-- `%.2f` of a `double`, given by its bits. -/
  printDouble : UInt64 → Bytes

/-- The last second of the year 3000. -/
def lastSecond : Int := 32535215999

/-- `localtime_s` converts the times from 1970 to the end of the year 3000 and no others. -/
structure Crt.Documented (crt : Crt) : Prop where
  fails : ∀ t, t < 0 ∨ lastSecond < t →
    (crt.localtimeS t).1 ≠ 0 ∧ ¬ (crt.localtimeS t).2.Valid
  succeeds : ∀ t, 0 ≤ t → t ≤ lastSecond →
    (crt.localtimeS t).1 = 0 ∧ (crt.localtimeS t).2.Valid

/-- What must not happen while a text is made. -/
inductive TextFault where
  /-- `strftime` is given fields that are no date. -/
  | invalidTm
  /-- A read outside `WarningTypeNames`. -/
  | outOfBounds
deriving DecidableEq, Repr

/-- A number with leading zeros. -/
def digits : Nat → Nat → Bytes
  | 0, _ => []
  | k + 1, n => digits k (n / 10) ++ [UInt8.ofNat (48 + n % 10)]

/-- `strftime` with the format `"%d.%m.%Y %H:%M:%S"`, into a buffer that is large enough. -/
def strftime (tm : Tm) : Except TextFault Bytes :=
  if tm.Valid then
    .ok (digits 2 tm.mday.toNat ++ ascii "." ++ digits 2 (tm.mon + 1).toNat ++ ascii "." ++
      digits 4 (tm.year + 1900).toNat ++ ascii " " ++ digits 2 tm.hour.toNat ++ ascii ":" ++
      digits 2 tm.min.toNat ++ ascii ":" ++ digits 2 tm.sec.toNat)
  else .error .invalidTm

/-! ## The text -/

/-- `WarningTypeNames`. -/
def warningTypeNames : List Bytes :=
  [ascii "Flood alert", ascii "Fire alert", ascii "Storm alert", ascii "Other alert"]

/-- `WARNING_TYPE_OTHER`. -/
def warningTypeOther : Int := 3

/-- `warning_type_to_string`.  The enumeration is an `int`. -/
def warningTypeToString (t : UInt32) : Except TextFault Bytes :=
  if intOfU32 t < 0 ∨ warningTypeOther < intOfU32 t then .ok (ascii "Unknown warning type")
  else
    match warningTypeNames[(intOfU32 t).toNat]? with
    | some name => .ok name
    | none => .error .outOfBounds

/-- `(time_t)ts`. -/
def timeT (ts : UInt64) : Int := ts.toBitVec.toInt

/-- `format_local_time`. -/
def formatLocalTime (crt : Crt) (ts : UInt64) : Except TextFault Bytes :=
  strftime (crt.localtimeS (timeT ts)).2

/-- `warning_to_string` on a warning that is not NULL.  `alloc` is the outcome of its `malloc`.
`_scprintf` returns a negative number when the text is longer than an `int` can say. -/
def warningToString (crt : Crt) (alloc : Bool) (w : Warning) :
    Except TextFault (Option Bytes) := do
  let typeStr ← warningTypeToString w.type
  let timebuf ← formatLocalTime crt w.timestamp
  let text := ascii "city=" ++ w.city.bytes ++ ascii ", type=" ++ typeStr ++ ascii ", value=" ++
    crt.printDouble w.value ++ ascii ", time=" ++ timebuf ++ ascii ", dest=" ++ w.destNode.bytes
  if 2 ^ 31 ≤ text.length then return none
  if !alloc then return none
  return some text

/-- `strftime` is reached with fields that `localtime_s` filled, and nothing goes wrong while the
text is made. -/
structure SafeText (crt : Crt) (alloc : Bool) (w : Warning) : Prop where
  filled : (crt.localtimeS (timeT w.timestamp)).1 = 0
  noFault : ∃ text, warningToString crt alloc w = .ok text

/-! ## The type -/

/-- Every word is the name of a type or none, and no name is read outside the table. -/
theorem warningTypeToString_ok (t : UInt32) : ∃ name, warningTypeToString t = .ok name := by
  rw [warningTypeToString]
  split
  · exact ⟨_, rfl⟩
  next hrange =>
      rw [warningTypeOther] at hrange
      have hlt : (intOfU32 t).toNat < warningTypeNames.length := by
        show (intOfU32 t).toNat < 4
        omega
      rw [List.getElem?_eq_getElem hlt]
      exact ⟨_, rfl⟩

/-! ## The time -/

variable {crt : Crt} {alloc : Bool} {w : Warning}

/-- A time stamp is a time that can be converted if and only if it is not too large as a number
without sign. -/
theorem timeT_range_iff (ts : UInt64) :
    (0 ≤ timeT ts ∧ timeT ts ≤ lastSecond) ↔ (ts.toNat : Int) ≤ lastSecond := by
  have hlt := ts.toNat_lt
  rw [timeT, BitVec.toInt_eq_toNat_cond, UInt64.toNat_toBitVec, lastSecond]
  split <;> omega

theorem formatLocalTime_ok_iff (crt : Crt) (ts : UInt64) :
    (∃ text, formatLocalTime crt ts = .ok text) ↔ (crt.localtimeS (timeT ts)).2.Valid := by
  rw [formatLocalTime, strftime]
  split
  next hvalid => exact ⟨fun _ => hvalid, fun _ => ⟨_, rfl⟩⟩
  next hinvalid =>
      constructor
      · rintro ⟨text, htext⟩
        cases htext
      · exact fun hvalid => absurd hvalid hinvalid

/-- The text is made if and only if the time can be written. -/
theorem warningToString_ok_iff (crt : Crt) (alloc : Bool) (w : Warning) :
    (∃ text, warningToString crt alloc w = .ok text) ↔
      ∃ text, formatLocalTime crt w.timestamp = .ok text := by
  obtain ⟨name, hname⟩ := warningTypeToString_ok w.type
  rw [warningToString, hname]
  cases formatLocalTime crt w.timestamp with
  | error e =>
      constructor
      · rintro ⟨text, htext⟩
        cases htext
      · rintro ⟨text, htext⟩
        cases htext
  | ok timebuf =>
      refine ⟨fun _ => ⟨timebuf, rfl⟩, fun _ => ?_⟩
      simp only [bind, Except.bind, pure, Except.pure]
      split
      · exact ⟨none, rfl⟩
      · split <;> exact ⟨_, rfl⟩

theorem warningToString_inBounds (crt : Crt) (alloc : Bool) (w : Warning) :
    warningToString crt alloc w ≠ .error .outOfBounds := by
  obtain ⟨name, hname⟩ := warningTypeToString_ok w.type
  intro h
  cases htime : formatLocalTime crt w.timestamp with
  | error e =>
      rw [warningToString, hname, htime] at h
      rw [formatLocalTime, strftime] at htime
      split at htime
      · cases htime
      · cases htime
        cases h
  | ok timebuf =>
      obtain ⟨text, htext⟩ := (warningToString_ok_iff crt alloc w).mpr ⟨timebuf, htime⟩
      rw [htext] at h
      cases h

/-- The text of a warning is safe if and only if its time stamp is not after the year 3000. -/
theorem safeText_iff (hcrt : crt.Documented) (alloc : Bool) (w : Warning) :
    SafeText crt alloc w ↔ (w.timestamp.toNat : Int) ≤ lastSecond := by
  rw [← timeT_range_iff]
  constructor
  · intro h
    by_contra hrange
    have hout : timeT w.timestamp < 0 ∨ lastSecond < timeT w.timestamp := by omega
    exact (hcrt.fails _ hout).1 h.filled
  · rintro ⟨hpos, hle⟩
    obtain ⟨hfilled, hvalid⟩ := hcrt.succeeds _ hpos hle
    have htime := (formatLocalTime_ok_iff crt w.timestamp).mpr hvalid
    exact ⟨hfilled, (warningToString_ok_iff crt alloc w).mpr htime⟩

/-- For every stream and every warning that the decoder of either program returns from it: what is
read is a message, the type of the warning is never an index out of bounds, and the text is safe
if and only if the time stamp of the message, as a number without sign, is not after the year
3000. -/
theorem received_warning_safe_iff (hcrt : crt.Documented) {mem : Block → Bool} {s : Sock}
    (h : (CentralPropagator.deserializeWarning mem s).result = some w ∨
      (DataDestination.deserializeWarning mem s).result = some w) (alloc : Bool) :
    ∃ m : Message, m.warning = w ∧
      s.stream = m.encode ++ (deserializeWarning mem s).sock.stream ∧
      warningToString crt alloc w ≠ .error .outOfBounds ∧
      (SafeText crt alloc w ↔ (m.timestamp.toNat : Int) ≤ lastSecond) := by
  have hresult : (deserializeWarning mem s).result = some w := h.elim id id
  obtain ⟨m, _, rfl, hstream⟩ := deserializeWarning_message hresult
  exact ⟨m, rfl, hstream, warningToString_inBounds crt alloc _, safeText_iff hcrt alloc _⟩

/-- A C library whose clock shows 22:13:20 on November 14, 2023 for every time it converts. -/
def sampleCrt : Crt where
  localtimeS t :=
    if 0 ≤ t ∧ t ≤ lastSecond then
      (0, { mday := 14, mon := 10, year := 123, hour := 22, min := 13, sec := 20 })
    else (22, { mday := -1, mon := -1, year := -1, hour := -1, min := -1, sec := -1 })
  printDouble _ := ascii "42.00"

theorem sampleCrt_documented : sampleCrt.Documented where
  fails := by
    intro t ht
    simp only [sampleCrt]
    rw [if_neg (by omega)]
    decide
  succeeds := by
    intro t hpos hle
    simp only [sampleCrt]
    rw [if_pos ⟨hpos, hle⟩]
    decide

theorem received_warning_safe_iff_sample : ∃ m : Message, m.warning = sampleWarning ∧
    sampleSock.stream = m.encode ++ (deserializeWarning allAllocs sampleSock).sock.stream ∧
    warningToString sampleCrt true sampleWarning ≠ .error .outOfBounds ∧
    (SafeText sampleCrt true sampleWarning ↔ (m.timestamp.toNat : Int) ≤ lastSecond) :=
  @received_warning_safe_iff _ _ sampleCrt_documented allAllocs sampleSock (Or.inl (by decide)) true

/-- The sample warning with the largest time stamp. -/
def lateMessage : Message := { sampleWarning.message with timestamp := 0xffffffffffffffff }

/-- The message in one chunk. -/
def lateSock : Sock := .closing [lateMessage.encode] (by decide)

/-- The time stamp is a negative time, and `strftime` is given fields that are no date. -/
theorem late_warning_reaches_strftime :
    (CentralPropagator.deserializeWarning allAllocs lateSock).result = some lateMessage.warning ∧
      sampleCrt.Documented ∧ timeT lateMessage.warning.timestamp = -1 ∧
      warningToString sampleCrt true lateMessage.warning = .error .invalidTm ∧
      ¬ SafeText sampleCrt true lateMessage.warning := by
  have hfault : warningToString sampleCrt true lateMessage.warning = .error .invalidTm := by decide
  refine ⟨by decide, sampleCrt_documented, by decide, hfault, ?_⟩
  rintro ⟨_, text, htext⟩
  rw [hfault] at htext
  cases htext

end DataPropagator
