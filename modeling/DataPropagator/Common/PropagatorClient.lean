import DataPropagator.Common.Utils
import DataPropagator.Common.Warning

/-!
# Sending a warning

`send_warning_to` of `propagator_client.c`.  It computes the size of the frame in 32
bits, allocates that much, copies seven pieces one after another into the buffer and
hands the buffer to one call of `send`.  The lengths that the pieces are copied with
are the same 32-bit numbers, so on strings of 4 GiB the size wraps around and the
copies do not.
-/

namespace DataPropagator

/-- A `uint32_t` converted to `int`. -/
def intOfU32 (x : UInt32) : Int := x.toBitVec.toInt

theorem intOfU32_of_lt {x : UInt32} (h : x.toNat < 2 ^ 31) : intOfU32 x = x.toNat := by
  rw [intOfU32, BitVec.toInt_eq_toNat_of_lt]
  · rfl
  · show 2 * x.toNat < 2 ^ 32
    omega

theorem intOfU32_neg {x : UInt32} (h : 2 ^ 31 ≤ x.toNat) : intOfU32 x < 0 := by
  have hx := x.toNat_lt
  rw [intOfU32, BitVec.toInt_eq_toNat_cond]
  have : x.toBitVec.toNat = x.toNat := rfl
  rw [if_neg (by omega)]
  omega

/-- `city_len`. -/
def Warning.cityLen (w : Warning) : UInt32 := UInt32.ofNat (strlen w.city)

/-- `dest_len`. -/
def Warning.destLen (w : Warning) : UInt32 := UInt32.ofNat (strlen w.destNode)

/-- `buf_len`.  The sum is taken in 32 bits and widened after. -/
def Warning.bufLen (w : Warning) : UInt32 := 4 + w.cityLen + 4 + w.destLen + 4 + 8 + 8

/-- What the `memcpy` calls write from the start of the buffer on. -/
def Warning.written (w : Warning) : Bytes :=
  bytesOfU32 (htonl w.cityLen) ++ w.city.bytes.take w.cityLen.toNat ++
    bytesOfU32 (htonl w.destLen) ++ w.destNode.bytes.take w.destLen.toNat ++
    bytesOfU32 (htonl w.type) ++
    bytesOfU64 (hostToNetwork64 w.value) ++
    bytesOfU64 (hostToNetwork64 w.timestamp)

/-- The `memcpy` calls stay inside the buffer. -/
def Warning.fits (w : Warning) : Bool := w.written.length ≤ w.bufLen.toNat

/-- The bytes at `buf` that `send` may read. -/
def Warning.buffer (w : Warning) : Bytes := w.written.take w.bufLen.toNat

/-- What one call of `send_warning_to` does. -/
structure SendCall where
  /-- The buffer and the length given to `send`, if it is reached. -/
  sent : Option (Bytes × Int)
  /-- Whether `close_connection` is called. -/
  evicts : Bool
  ret : Bool
deriving DecidableEq, Repr

/-- `send_warning_to`.  `connected` says that `get_or_create_connection` returned a
socket, `alloc` that the buffer was allocated, and `send` is the result of `send` on
that socket. -/
def sendWarningTo (connected alloc : Bool) (send : Bytes → Int → Int) (w : Warning) : SendCall :=
  if !connected then { sent := none, evicts := false, ret := false }
  else if !alloc then { sent := none, evicts := false, ret := false }
  else
    let n := intOfU32 w.bufLen
    let sent := send w.buffer n
    if sent ≠ n then { sent := some (w.buffer, n), evicts := true, ret := false }
    else { sent := some (w.buffer, n), evicts := false, ret := true }

/-! ## The frame -/

/-- The frame of a warning as it is documented: two length-prefixed strings, the type,
the bits of the value and the time stamp, every number big-endian. -/
def wireFrame (w : Warning) : Bytes :=
  ByteOrder.bigEndian 4 (strlen w.city) ++ w.city.bytes ++
    ByteOrder.bigEndian 4 (strlen w.destNode) ++ w.destNode.bytes ++
    ByteOrder.bigEndian 4 w.type.toNat ++
    ByteOrder.bigEndian 8 w.value.toNat ++
    ByteOrder.bigEndian 8 w.timestamp.toNat

/-- A warning whose frame has a length that is a positive `int`. -/
def Warning.Sendable (w : Warning) : Prop := strlen w.city + strlen w.destNode + 28 < 2 ^ 31

instance (w : Warning) : Decidable w.Sendable := inferInstanceAs (Decidable (_ < _))

theorem wireFrame_length (w : Warning) :
    (wireFrame w).length = strlen w.city + strlen w.destNode + 28 := by
  simp only [wireFrame, strlen, List.length_append, ByteOrder.bigEndian_length]
  omega

section Sendable

variable {w : Warning} (h : w.Sendable)
include h

theorem Warning.Sendable.toNat_cityLen : w.cityLen.toNat = strlen w.city := by
  have := show strlen w.city + strlen w.destNode + 28 < 2 ^ 31 from h
  exact UInt32.toNat_ofNat_of_lt' (by show _ < 2 ^ 32; omega)

theorem Warning.Sendable.toNat_destLen : w.destLen.toNat = strlen w.destNode := by
  have := show strlen w.city + strlen w.destNode + 28 < 2 ^ 31 from h
  exact UInt32.toNat_ofNat_of_lt' (by show _ < 2 ^ 32; omega)

theorem Warning.Sendable.toNat_bufLen :
    w.bufLen.toNat = strlen w.city + strlen w.destNode + 28 := by
  have hlt := show strlen w.city + strlen w.destNode + 28 < 2 ^ 31 from h
  simp only [Warning.bufLen, UInt32.toNat_add, h.toNat_cityLen, h.toNat_destLen, UInt32.reduceToNat]
  omega

theorem Warning.Sendable.written_eq : w.written = wireFrame w := by
  simp only [Warning.written, wireFrame, bytesOfU32_htonl, bytesOfU64_hostToNetwork64,
    h.toNat_cityLen, h.toNat_destLen]
  rw [strlen, strlen, List.take_length, List.take_length]

/-- The buffer is filled with exactly the frame. -/
theorem Warning.Sendable.buffer_eq : w.buffer = wireFrame w := by
  rw [Warning.buffer, h.written_eq, h.toNat_bufLen, ← wireFrame_length, List.take_length]

theorem Warning.Sendable.fits : w.fits = true := by
  rw [Warning.fits, h.written_eq, h.toNat_bufLen, wireFrame_length, decide_eq_true_eq]

theorem Warning.Sendable.intOfU32_bufLen : intOfU32 w.bufLen = (wireFrame w).length := by
  have hlt := show strlen w.city + strlen w.destNode + 28 < 2 ^ 31 from h
  rw [intOfU32_of_lt (by rw [h.toNat_bufLen]; exact hlt), h.toNat_bufLen, wireFrame_length]

/-- Given a connection and a buffer, the frame is handed to one call of `send` whole. -/
theorem Warning.Sendable.sent (send : Bytes → Int → Int) :
    (sendWarningTo true true send w).sent = some (wireFrame w, ((wireFrame w).length : Int)) := by
  simp only [sendWarningTo, h.buffer_eq, h.intOfU32_bufLen]
  by_cases hs : send (wireFrame w) (wireFrame w).length = (wireFrame w).length <;> simp [hs]

end Sendable

end DataPropagator
