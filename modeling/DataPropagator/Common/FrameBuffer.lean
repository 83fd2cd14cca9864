import DataPropagator.Common.WireMessage

/-!
# The size of the frame buffer

`send_warning_to` writes `4 + city_len + 4 + dest_len + 4 + 8 + 8` into a `size_t`.  Every
operand is an `int` or a `uint32_t`, so the sum is taken in 32 bits and widened after.  The
copies use the two lengths one by one and never wrap.  For the strings that a decoder
accepts the buffer is as long as the frame if and only if the frame is shorter than 2³²
bytes, and two strings that are both accepted may be longer than that together.
-/

namespace DataPropagator

/-- The warnings of the program: a decoder has returned it, or it has been made from strings
shorter than 2³¹ bytes. -/
inductive Warning.Built : Warning → Prop
  | decoded {mem : Block → Bool} {s : Sock} {w : Warning}
      (returned : (CentralPropagator.deserializeWarning mem s).result = some w) : Built w
  | created {mem : Block → Bool} {city dest : Bytes} {type : UInt32} {value timestamp : UInt64}
      {w : Warning} (cityShort : strlen (strdup city) < 2 ^ 31)
      (destShort : strlen (strdup dest) < 2 ^ 31)
      (returned : (warningCreate mem city type value timestamp dest).1 = some w) : Built w

variable {w : Warning}

/-- A warning that has been made holds copies of the strings it was made from. -/
theorem warningCreate_strings {mem : Block → Bool} {city dest : Bytes} {type : UInt32}
    {value timestamp : UInt64} (h : (warningCreate mem city type value timestamp dest).1 = some w) :
    w.city = strdup city ∧ w.destNode = strdup dest := by
  simp only [warningCreate] at h
  split at h
  · cases h
  · split at h
    · cases h
    · split at h
      · cases h
      · cases h
        exact ⟨rfl, rfl⟩

theorem Warning.Built.short (h : w.Built) :
    strlen w.city < 2 ^ 31 ∧ strlen w.destNode < 2 ^ 31 := by
  cases h with
  | decoded returned =>
      obtain ⟨m, hshort, rfl, _⟩ := deserializeWarning_message returned
      exact ⟨(strdup_length_le m.city).trans_lt hshort.1,
        (strdup_length_le m.dest).trans_lt hshort.2⟩
  | created cityShort destShort returned =>
      obtain ⟨hcity, hdest⟩ := warningCreate_strings returned
      exact ⟨hcity ▸ cityShort, hdest ▸ destShort⟩

/-- The copies write the whole frame, whatever the size of the buffer. -/
theorem Warning.written_length (h : strlen w.city < 2 ^ 31 ∧ strlen w.destNode < 2 ^ 31) :
    w.written.length = w.frameSize := by
  have hcity : w.cityLen.toNat = w.city.bytes.length :=
    UInt32.toNat_ofNat_of_lt' (by have := h.1; show strlen w.city < 2 ^ 32; omega)
  have hdest : w.destLen.toNat = w.destNode.bytes.length :=
    UInt32.toNat_ofNat_of_lt' (by have := h.2; show strlen w.destNode < 2 ^ 32; omega)
  simp only [Warning.written, bytesOfU32_htonl, bytesOfU64_hostToNetwork64, hcity, hdest,
    List.take_length, List.length_append, ByteOrder.bigEndian_length, Warning.frameSize, strlen]
  omega

/-- The buffer is as long as the frame if and only if the frame is shorter than 2³² bytes. -/
theorem bufLen_eq_written_iff (h : w.Built) :
    (w.bufLen.toNat = w.written.length ∧
        w.written.length = strlen w.city + strlen w.destNode + 28) ↔
      strlen w.city + strlen w.destNode + 28 < 2 ^ 32 := by
  have hwritten := Warning.written_length h.short
  have hbuf := w.toNat_bufLen
  rw [hwritten, hbuf, Warning.frameSize]
  constructor
  · rintro ⟨hmod, _⟩
    rw [← hmod]
    exact Nat.mod_lt _ (Nat.two_pow_pos 32)
  · intro hlt
    exact ⟨Nat.mod_eq_of_lt hlt, rfl⟩

theorem bufLen_eq_written_iff_sample :
    (sampleWarning.bufLen.toNat = sampleWarning.written.length ∧
        sampleWarning.written.length =
          strlen sampleWarning.city + strlen sampleWarning.destNode + 28) ↔
      strlen sampleWarning.city + strlen sampleWarning.destNode + 28 < 2 ^ 32 :=
  bufLen_eq_written_iff
    (.decoded (show (CentralPropagator.deserializeWarning allAllocs sampleSock).result =
      some sampleWarning by decide))

/-- A message with two strings of `n` bytes. -/
def longMessage (n : Nat) : Message where
  city := List.replicate n 97
  dest := List.replicate n 97
  type := 0
  value := 0
  timestamp := 0

theorem longMessage_encode_length (n : Nat) : (longMessage n).encode.length = n + n + 28 := by
  rw [Message.encode_length]
  simp [longMessage]

/-- The bytes of a long message in one chunk. -/
def longSock (n : Nat) : Sock :=
  .closing [(longMessage n).encode] (by
    intro c hc he
    have hlen := longMessage_encode_length n
    rw [← List.mem_singleton.mp hc, he, List.length_nil] at hlen
    omega)

theorem longMessage_decoded {n : Nat} (hn : n < 2 ^ 31) :
    (CentralPropagator.deserializeWarning allAllocs (longSock n)).result =
      some (longMessage n).warning := by
  have hshort : (longMessage n).Short := by
    simp only [Message.Short, longMessage, List.length_replicate]
    exact ⟨hn, hn⟩
  have hstream : (longSock n).stream = (longMessage n).encode ++ [] := by
    simp [Sock.stream, longSock, Sock.closing]
  exact deserializeWarning_encode hshort hstream

theorem longMessage_frameSize (n : Nat) : (longMessage n).warning.frameSize = n + n + 28 := by
  have hzero : (0 : UInt8) ∉ List.replicate n (97 : UInt8) := by
    intro hmem
    exact absurd (List.eq_of_mem_replicate hmem) (by decide)
  have hbytes : (strdup (List.replicate n 97)).bytes = List.replicate n 97 :=
    (strdup_bytes_eq_iff _).mpr hzero
  simp only [Warning.frameSize, Message.warning, longMessage, strlen, hbytes, List.length_replicate]

/-- The decoder accepts a message with two strings of 2³¹ - 1 bytes.  The buffer for its frame
has 26 bytes, and 2³² + 26 bytes are written into it. -/
theorem bufLen_wraps :
    (CentralPropagator.deserializeWarning allAllocs (longSock (2 ^ 31 - 1))).result =
        some (longMessage (2 ^ 31 - 1)).warning ∧
      (longMessage (2 ^ 31 - 1)).warning.bufLen.toNat = 26 ∧
      (longMessage (2 ^ 31 - 1)).warning.written.length = 2 ^ 32 + 26 := by
  have hdecoded := longMessage_decoded (show 2 ^ 31 - 1 < 2 ^ 31 by omega)
  have hsize := longMessage_frameSize (2 ^ 31 - 1)
  have hshort := (Warning.Built.decoded hdecoded).short
  generalize (longMessage (2 ^ 31 - 1)).warning = w at hdecoded hsize hshort ⊢
  have hsize' : w.frameSize = 2 ^ 32 + 26 := hsize
  refine ⟨hdecoded, ?_, ?_⟩
  · have hlen := w.toNat_bufLen
    omega
  · rw [Warning.written_length hshort, hsize']

end DataPropagator
