import DataPropagator.Common.Receive

/-!
# The wire codec

How a stream is cut into chunks does not matter to the decoder: `parseWarning` reads
the same warning off the front of a byte string, and `deserializeWarning_parse` says
that the decoder does on a socket what `parseWarning` does on its stream.  The codec is
then a statement about byte strings.  `parseWarning` takes the frame of a warning off
the front of a string, and it finds nothing in a proper prefix of a frame.
-/

namespace DataPropagator

/-! ## The decoder on a byte string -/

/-- The first `n` bytes of a string and the rest, if there are so many. -/
def takeBytes (n : Nat) (b : Bytes) : Option (Bytes × Bytes) :=
  if n ≤ b.length then some (b.take n, b.drop n) else none

/-- A length prefix and the bytes it announces. -/
def parseString (b : Bytes) : Option (Bytes × Bytes) :=
  (takeBytes 4 b).bind fun p =>
    let len := ntohl (u32OfBytes p.1)
    if len.toNat < 2 ^ 31 then takeBytes len.toNat p.2 else none

/-- The first warning of a byte string and the rest of it. -/
def parseWarning (b : Bytes) : Option (Warning × Bytes) :=
  (parseString b).bind fun city =>
  (parseString city.2).bind fun dest =>
  (takeBytes 4 dest.2).bind fun type =>
  (takeBytes 8 type.2).bind fun value =>
  (takeBytes 8 value.2).bind fun ts =>
    some
      ({ city := strdup city.1
         type := ntohl (u32OfBytes type.1)
         value := networkToHost64 (u64OfBytes value.1)
         timestamp := networkToHost64 (u64OfBytes ts.1)
         destNode := strdup dest.1 }, ts.2)

/-- A call of the decoder did on its socket what a parser did on the stream. -/
def Decoded.Matches (d : Decoded) (p : Option (Warning × Bytes)) : Prop :=
  d.result = p.map Prod.fst ∧ ∀ w rest, p = some (w, rest) → d.sock.stream = rest

theorem Decoded.matches_none {d : Decoded} (h : d.result = none) : d.Matches none :=
  ⟨h, fun _ _ hp => by cases hp⟩

/-- One field of a fixed length. -/
theorem matches_recv {s : Sock} {n : Nat} {m : Int} (hm : m = n) {heap : Bytes → List HeapEvent}
    {next : Bytes → Sock → Decoded} {g : Bytes × Bytes → Option (Warning × Bytes)}
    (hnext : ∀ bytes s', (next bytes s').Matches (g (bytes, s'.stream))) :
    (recvOrNull s m heap next).Matches ((takeBytes n s.stream).bind g) := by
  subst hm
  rw [recvOrNull]
  by_cases h : n ≤ s.stream.length
  · obtain ⟨s', hs', hstream, _⟩ := recvAll_full h
    rw [takeBytes, if_pos h, Option.bind_some, hs', ← hstream]
    simp only [ne_eq, not_true_eq_false, if_false]
    exact hnext _ s'
  · rw [takeBytes, if_neg h]
    simp only [ne_eq, recvAll_ret_ne (show s.stream.length < n by omega), not_false_eq_true, if_true]
    exact Decoded.matches_none rfl

/-- A string of an announced length.  A length from 2³¹ on is a negative `int`:
`recv_all` returns 0 at once, and that is not the length. -/
theorem matches_recvString {s : Sock} {len : UInt32} {heap : Bytes → List HeapEvent}
    {next : Bytes → Sock → Decoded} {g : Bytes × Bytes → Option (Warning × Bytes)}
    (hnext : ∀ bytes s', (next bytes s').Matches (g (bytes, s'.stream))) :
    (recvOrNull s (intOfU32 len) heap next).Matches
      ((if len.toNat < 2 ^ 31 then takeBytes len.toNat s.stream else none).bind g) := by
  by_cases h : len.toNat < 2 ^ 31
  · rw [if_pos h]
    exact matches_recv (intOfU32_of_lt h) hnext
  · have hneg := intOfU32_neg (Nat.le_of_not_lt h)
    have hzero : recvAll s (intOfU32 len) = (0, [], s) := by
      rw [recvAll, Int.toNat_of_nonpos (by omega)]
      rfl
    rw [if_neg h, recvOrNull, hzero]
    simp only [ne_eq, show ¬ (0 : Int) = intOfU32 len by omega, not_false_eq_true, if_true]
    exact Decoded.matches_none rfl

/-- With all its allocations the decoder reads a warning off the front of the stream,
however the stream is cut. -/
theorem deserializeWarning_parse (s : Sock) :
    (deserializeWarning allAllocs s).Matches (parseWarning s.stream) := by
  simp only [deserializeWarning, parseWarning, parseString, allAllocs, Bool.not_true,
    Bool.false_eq_true, if_false, Option.bind_assoc]
  apply matches_recv rfl
  intro len s
  apply matches_recvString
  intro city s
  apply matches_recv rfl
  intro len s
  apply matches_recvString
  intro dest s
  apply matches_recv rfl
  intro type s
  apply matches_recv rfl
  intro value s
  apply matches_recv rfl
  intro ts s
  constructor
  · simp [warningCreate, strdup_append_zero, allAllocs]
  · intro w rest hp
    rw [Option.some.injEq, Prod.mk.injEq] at hp
    exact hp.2

/-! ## Frames -/

theorem takeBytes_append (a b : Bytes) : takeBytes a.length (a ++ b) = some (a, b) := by
  rw [takeBytes, if_pos (by rw [List.length_append]; omega), List.take_left, List.drop_left]

/-- What was found at the front of a string is found when the string goes on. -/
theorem takeBytes_more {n : Nat} {b a rest : Bytes} (h : takeBytes n b = some (a, rest))
    (t : Bytes) : takeBytes n (b ++ t) = some (a, rest ++ t) := by
  rw [takeBytes] at h
  split at h
  next hn =>
      rw [Option.some.injEq, Prod.mk.injEq] at h
      rw [takeBytes, if_pos (by rw [List.length_append]; omega), List.take_append_of_le_length hn,
        List.drop_append_of_le_length hn, h.1, h.2]
  next => cases h

theorem parseString_more {b a rest : Bytes} (h : parseString b = some (a, rest)) (t : Bytes) :
    parseString (b ++ t) = some (a, rest ++ t) := by
  obtain ⟨⟨len, b₁⟩, h₁, h₂⟩ := Option.bind_eq_some_iff.mp h
  refine Option.bind_eq_some_iff.mpr ⟨(len, b₁ ++ t), takeBytes_more h₁ t, ?_⟩
  simp only at h₂ ⊢
  split at h₂
  next hlt =>
      rw [if_pos hlt]
      exact takeBytes_more h₂ t
  next => cases h₂

theorem parseWarning_more {b rest : Bytes} {w : Warning} (h : parseWarning b = some (w, rest))
    (t : Bytes) : parseWarning (b ++ t) = some (w, rest ++ t) := by
  obtain ⟨⟨city, b₁⟩, h₁, h⟩ := Option.bind_eq_some_iff.mp h
  obtain ⟨⟨dest, b₂⟩, h₂, h⟩ := Option.bind_eq_some_iff.mp h
  obtain ⟨⟨type, b₃⟩, h₃, h⟩ := Option.bind_eq_some_iff.mp h
  obtain ⟨⟨value, b₄⟩, h₄, h⟩ := Option.bind_eq_some_iff.mp h
  obtain ⟨⟨ts, b₅⟩, h₅, h⟩ := Option.bind_eq_some_iff.mp h
  rw [Option.some.injEq, Prod.mk.injEq] at h
  rw [parseWarning, parseString_more h₁ t, Option.bind_some, parseString_more h₂ t,
    Option.bind_some, takeBytes_more h₃ t, Option.bind_some, takeBytes_more h₄ t,
    Option.bind_some, takeBytes_more h₅ t, Option.bind_some, ← h.1, ← h.2]

/-- The decoder undoes the byte order of a 32-bit number. -/
theorem ntohl_bigEndian (x : UInt32) :
    ntohl (u32OfBytes (ByteOrder.bigEndian 4 x.toNat)) = x := by
  rw [← bytesOfU32_htonl, u32OfBytes_bytesOfU32, ntohl_htonl]

/-- The decoder undoes the byte order of a 64-bit number. -/
theorem networkToHost64_bigEndian (x : UInt64) :
    networkToHost64 (u64OfBytes (ByteOrder.bigEndian 8 x.toNat)) = x := by
  rw [← bytesOfU64_hostToNetwork64, u64OfBytes_bytesOfU64, networkToHost64_hostToNetwork64]

theorem takeBytes_bigEndian (n x : Nat) (rest : Bytes) :
    takeBytes n (ByteOrder.bigEndian n x ++ rest) = some (ByteOrder.bigEndian n x, rest) := by
  have h := takeBytes_append (ByteOrder.bigEndian n x) rest
  rwa [ByteOrder.bigEndian_length] at h

theorem parseString_frame {b : Bytes} (hb : b.length < 2 ^ 31) (rest : Bytes) :
    parseString (ByteOrder.bigEndian 4 b.length ++ (b ++ rest)) = some (b, rest) := by
  have hlen : (UInt32.ofNat b.length).toNat = b.length :=
    UInt32.toNat_ofNat_of_lt' (by show _ < 2 ^ 32; omega)
  have hntohl := ntohl_bigEndian (UInt32.ofNat b.length)
  rw [hlen] at hntohl
  rw [parseString, takeBytes_bigEndian, Option.bind_some]
  simp only [hntohl, hlen, hb, if_true]
  exact takeBytes_append b rest

/-- The five fields of a message as they are on the wire.  The strings are counted, and a
zero is a byte like any other. -/
structure Message where
  city : Bytes
  dest : Bytes
  type : UInt32
  value : UInt64
  timestamp : UInt64
deriving DecidableEq, Repr

/-- The bytes of a message. -/
def Message.encode (m : Message) : Bytes :=
  ByteOrder.bigEndian 4 m.city.length ++ m.city ++
    ByteOrder.bigEndian 4 m.dest.length ++ m.dest ++
    ByteOrder.bigEndian 4 m.type.toNat ++
    ByteOrder.bigEndian 8 m.value.toNat ++
    ByteOrder.bigEndian 8 m.timestamp.toNat

/-- Both lengths are an `int`. -/
def Message.Short (m : Message) : Prop := m.city.length < 2 ^ 31 ∧ m.dest.length < 2 ^ 31

/-- The warning that is made of a message. -/
def Message.warning (m : Message) : Warning where
  city := strdup m.city
  type := m.type
  value := m.value
  timestamp := m.timestamp
  destNode := strdup m.dest

/-- The message that is sent for a warning. -/
def Warning.message (w : Warning) : Message where
  city := w.city.bytes
  dest := w.destNode.bytes
  type := w.type
  value := w.value
  timestamp := w.timestamp

theorem Warning.message_encode (w : Warning) : w.message.encode = wireFrame w := rfl

theorem Warning.message_warning (w : Warning) : w.message.warning = w := by
  simp only [Message.warning, Warning.message, strdup, CString.ofBuffer_bytes]

/-- A message is taken off the front of a string. -/
theorem parseWarning_encode {m : Message} (h : m.Short) (rest : Bytes) :
    parseWarning (m.encode ++ rest) = some (m.warning, rest) := by
  simp only [Message.encode, List.append_assoc]
  rw [parseWarning, parseString_frame h.1, Option.bind_some, parseString_frame h.2,
    Option.bind_some, takeBytes_bigEndian, Option.bind_some, takeBytes_bigEndian,
    Option.bind_some, takeBytes_bigEndian, Option.bind_some]
  simp only [ntohl_bigEndian, networkToHost64_bigEndian]
  rfl

/-- The frame of a warning is taken off the front of a string, and it is that warning. -/
theorem parseWarning_wireFrame {w : Warning} (h : w.Sendable) (rest : Bytes) :
    parseWarning (wireFrame w ++ rest) = some (w, rest) := by
  have hlt := show strlen w.city + strlen w.destNode + 28 < 2 ^ 31 from h
  rw [strlen, strlen] at hlt
  have hshort : w.message.Short :=
    ⟨show w.city.bytes.length < 2 ^ 31 by omega, show w.destNode.bytes.length < 2 ^ 31 by omega⟩
  have hparse := parseWarning_encode hshort rest
  rwa [w.message_encode, w.message_warning] at hparse

/-- Nothing is found in a proper prefix of a frame. -/
theorem parseWarning_prefix {w : Warning} (h : w.Sendable) {pre : Bytes}
    (hpre : pre <+: wireFrame w) (hne : pre ≠ wireFrame w) : parseWarning pre = none := by
  obtain ⟨t, ht⟩ := hpre
  cases hp : parseWarning pre with
  | none => rfl
  | some p =>
      obtain ⟨w', rest⟩ := p
      have hwhole := parseWarning_wireFrame h []
      rw [← ht, List.append_nil, parseWarning_more hp t, Option.some.injEq, Prod.mk.injEq,
        List.append_eq_nil_iff] at hwhole
      rw [hwhole.2.2, List.append_nil] at ht
      exact absurd ht hne

/-- A decoder that reads what `parseWarning` reads returns the warnings of a
concatenation of frames in order, and then nothing from the front of a further
frame. -/
theorem decodeTimes_frames {decode : Sock → Decoded}
    (hdecode : ∀ s, (decode s).Matches (parseWarning s.stream)) {pre : Bytes}
    (hpre : parseWarning pre = none) : ∀ (ws : List Warning) (s : Sock),
    (∀ w ∈ ws, w.Sendable) → s.stream = (ws.map wireFrame).flatten ++ pre →
      decodeTimes decode (ws.length + 1) s = ws.map some ++ [none]
  | [], s, _, hs => by
      have hm := (hdecode s).1
      rw [hs, List.map_nil, List.flatten_nil, List.nil_append, hpre] at hm
      rw [List.length_nil, Nat.zero_add, decodeTimes, decodeTimes, hm]
      rfl
  | w :: ws, s, hws, hs => by
      have hw := hws w (List.mem_cons_self ..)
      have hm := hdecode s
      rw [hs, List.map_cons, List.flatten_cons, List.append_assoc, parseWarning_wireFrame hw] at hm
      rw [List.length_cons, decodeTimes, hm.1,
        decodeTimes_frames hdecode hpre ws _ (fun v hv => hws v (List.mem_cons_of_mem _ hv))
          (hm.2 _ _ rfl)]
      rfl

/-- For every list of warnings with frames shorter than 2³¹ bytes: `send_warning_to`
hands the documented frame of each to `send`, filling its buffer exactly, and both
decoders return exactly these warnings, in order, and then NULL, from a socket that
delivers the frames and a proper prefix of one more, however the bytes are cut into
chunks. -/
theorem warnings_over_stream {ws : List Warning} {next : Warning} {pre : Bytes} {s : Sock}
    (hws : ∀ w ∈ ws, w.Sendable) (hnext : next.Sendable) (hpre : pre <+: wireFrame next)
    (hne : pre ≠ wireFrame next) (hs : s.stream = (ws.map wireFrame).flatten ++ pre) :
    (∀ w ∈ ws, w.fits = true ∧ ∀ send, (sendWarningTo true true send w).sent =
      some (wireFrame w, ((wireFrame w).length : Int))) ∧
    decodeTimes (CentralPropagator.deserializeWarning allAllocs) (ws.length + 1) s =
      ws.map some ++ [none] ∧
    decodeTimes (DataDestination.deserializeWarning allAllocs) (ws.length + 1) s =
      ws.map some ++ [none] := by
  have hstop := parseWarning_prefix hnext hpre hne
  refine ⟨fun w hw => ⟨(hws w hw).fits, (hws w hw).sent⟩, ?_, ?_⟩
  · exact decodeTimes_frames deserializeWarning_parse hstop ws s hws hs
  · exact decodeTimes_frames deserializeWarning_parse hstop ws s hws hs

/-- A warning for the node `D` about the city `N`. -/
def sampleWarning : Warning where
  city := { bytes := [78], noZero := by decide }
  type := 1
  value := 0x4045000000000000
  timestamp := 1700000000
  destNode := { bytes := [68], noZero := by decide }

/-- The frame of the warning twice, the second cut off, in chunks of other lengths. -/
def sampleSock : Sock :=
  .closing
    [[0, 0], [0, 1, 78, 0, 0, 0, 1, 68, 0, 0, 0, 1, 0x40, 0x45],
      [0, 0, 0, 0, 0, 0, 0, 0, 0, 0, 0x65, 0x53, 0xf1, 0, 0, 0, 0], [1, 78]]
    (by decide)

/-- The theorem at one warning, cut within its length prefix and within its value. -/
theorem warnings_over_stream_sample :
    decodeTimes (CentralPropagator.deserializeWarning allAllocs) 2 sampleSock =
        [some sampleWarning, none] ∧
      decodeTimes (DataDestination.deserializeWarning allAllocs) 2 sampleSock =
        [some sampleWarning, none] :=
  (@warnings_over_stream [sampleWarning] sampleWarning [0, 0, 0, 1, 78] sampleSock
    (by decide) (by decide) (by decide) (by decide) (by decide)).2

end DataPropagator
