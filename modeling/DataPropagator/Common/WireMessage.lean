import DataPropagator.Common.FrameAlignment

/-!
# What a relay passes on

A decoder accepts counted strings with any bytes in them, and a warning holds C strings.
So a field is cut at its first zero when the warning is made, and the frame that is sent
for it has the cut fields with their own lengths.  A relay passes on the bytes it read if
and only if neither field has a zero in it.  What it passes on is a frame without zeros in
its fields, so the relays after it change nothing any more, and every receiver makes the
same warning of it.
-/

namespace DataPropagator

/-! ## What the decoder accepts -/

theorem takeBytes_eq_some {n : Nat} {b a rest : Bytes} (h : takeBytes n b = some (a, rest)) :
    a.length = n ∧ b = a ++ rest := by
  rw [takeBytes] at h
  split at h
  next hn =>
      rw [Option.some.injEq, Prod.mk.injEq] at h
      obtain ⟨rfl, rfl⟩ := h
      exact ⟨List.length_take_of_le hn, (List.take_append_drop n b).symm⟩
  next => cases h

theorem parseString_eq_some {b a rest : Bytes} (h : parseString b = some (a, rest)) :
    a.length < 2 ^ 31 ∧ b = ByteOrder.bigEndian 4 a.length ++ a ++ rest := by
  obtain ⟨⟨len, b₁⟩, h₁, h₂⟩ := Option.bind_eq_some_iff.mp h
  simp only at h₂
  split at h₂
  next hlt =>
      obtain ⟨hlen, rfl⟩ := takeBytes_eq_some h₁
      obtain ⟨ha, rfl⟩ := takeBytes_eq_some h₂
      rw [ha, bigEndian_ntohl hlen, List.append_assoc]
      exact ⟨hlt, rfl⟩
  next => cases h₂

/-- The decoder accepts exactly the messages with lengths that are an `int`. -/
theorem parseWarning_eq_some_iff {b rest : Bytes} {w : Warning} :
    parseWarning b = some (w, rest) ↔
      ∃ m : Message, m.Short ∧ m.warning = w ∧ b = m.encode ++ rest := by
  constructor
  · intro h
    obtain ⟨⟨city, b₁⟩, h₁, h⟩ := Option.bind_eq_some_iff.mp h
    obtain ⟨⟨dest, b₂⟩, h₂, h⟩ := Option.bind_eq_some_iff.mp h
    obtain ⟨⟨type, b₃⟩, h₃, h⟩ := Option.bind_eq_some_iff.mp h
    obtain ⟨⟨value, b₄⟩, h₄, h⟩ := Option.bind_eq_some_iff.mp h
    obtain ⟨⟨ts, b₅⟩, h₅, h⟩ := Option.bind_eq_some_iff.mp h
    rw [Option.some.injEq, Prod.mk.injEq] at h
    obtain ⟨rfl, rfl⟩ := h
    obtain ⟨hcity, rfl⟩ := parseString_eq_some h₁
    obtain ⟨hdest, rfl⟩ := parseString_eq_some h₂
    obtain ⟨htype, rfl⟩ := takeBytes_eq_some h₃
    obtain ⟨hvalue, rfl⟩ := takeBytes_eq_some h₄
    obtain ⟨hts, rfl⟩ := takeBytes_eq_some h₅
    refine ⟨{ city, dest, type := ntohl (u32OfBytes type)
              value := networkToHost64 (u64OfBytes value)
              timestamp := networkToHost64 (u64OfBytes ts) }, ⟨hcity, hdest⟩, rfl, ?_⟩
    simp only [Message.encode, bigEndian_ntohl htype, bigEndian_networkToHost64 hvalue,
      bigEndian_networkToHost64 hts, List.append_assoc]
  · rintro ⟨m, hshort, rfl, rfl⟩
    exact parseWarning_encode hshort rest

/-- A call of the decoder that returns a warning has read a message. -/
theorem deserializeWarning_message {mem : Block → Bool} {s : Sock} {w : Warning}
    (h : (deserializeWarning mem s).result = some w) :
    ∃ m : Message, m.Short ∧ m.warning = w ∧
      s.stream = m.encode ++ (deserializeWarning mem s).sock.stream := by
  rcases deserializeWarning_below mem s with hnone | ⟨hsame, hsock⟩
  · rw [h] at hnone
    cases hnone
  · have hparse := deserializeWarning_parse s
    cases hp : parseWarning s.stream with
    | none =>
        have hm := hparse.1
        rw [← hsame, h, hp] at hm
        cases hm
    | some p =>
        obtain ⟨v, rest⟩ := p
        have hm := hparse.1
        rw [← hsame, h, hp, Option.map_some, Option.some.injEq] at hm
        obtain ⟨m, hshort, hwarning, hstream⟩ := parseWarning_eq_some_iff.mp hp
        exact ⟨m, hshort, hwarning.trans hm.symm, by rw [hsock, hparse.2 v rest hp, hstream]⟩

/-! ## What is written -/

/-- The message with both fields cut at their first zero. -/
def Message.cut (m : Message) : Message where
  city := (strdup m.city).bytes
  dest := (strdup m.dest).bytes
  type := m.type
  value := m.value
  timestamp := m.timestamp

variable {m : Message}

theorem Message.encode_length (m : Message) :
    m.encode.length = m.city.length + m.dest.length + 28 := by
  simp only [Message.encode, List.length_append, ByteOrder.bigEndian_length]
  omega

theorem Message.short_of_encode (h : m.encode.length < 2 ^ 31) : m.Short := by
  rw [m.encode_length] at h
  exact ⟨by omega, by omega⟩

theorem strdup_length_le (b : Bytes) : (strdup b).bytes.length ≤ b.length :=
  (List.takeWhile_prefix _).length_le

/-- A string is cut if and only if it has a zero. -/
theorem strdup_bytes_eq_iff (b : Bytes) : (strdup b).bytes = b ↔ (0 : UInt8) ∉ b := by
  constructor
  · intro h
    exact h ▸ (strdup b).noZero
  · intro h
    exact congrArg CString.bytes (CString.ofBuffer_bytes ⟨b, h⟩)

theorem strdup_bytes_eq_of_length {b : Bytes} (h : (strdup b).bytes.length = b.length) :
    (strdup b).bytes = b :=
  (List.takeWhile_prefix _).eq_of_length h

/-- Cutting a message changes its bytes if and only if one of its fields has a zero. -/
theorem Message.cut_encode_eq_iff (m : Message) :
    m.cut.encode = m.encode ↔ (0 : UInt8) ∉ m.city ∧ (0 : UInt8) ∉ m.dest := by
  rw [← strdup_bytes_eq_iff, ← strdup_bytes_eq_iff]
  constructor
  · intro h
    have hlen := congrArg List.length h
    rw [m.cut.encode_length, m.encode_length] at hlen
    have hcity := strdup_length_le m.city
    have hdest := strdup_length_le m.dest
    have hcut : m.cut.city.length = (strdup m.city).bytes.length ∧
        m.cut.dest.length = (strdup m.dest).bytes.length := ⟨rfl, rfl⟩
    exact ⟨strdup_bytes_eq_of_length (by omega), strdup_bytes_eq_of_length (by omega)⟩
  · rintro ⟨hcity, hdest⟩
    simp only [Message.encode, Message.cut, hcity, hdest]

theorem Message.cut_warning (m : Message) : m.cut.warning = m.warning := by
  simp only [Message.warning, Message.cut, strdup, CString.ofBuffer_bytes]

theorem Message.cut_encode_lt (h : m.encode.length < 2 ^ 31) : m.cut.encode.length < 2 ^ 31 := by
  have hcity := strdup_length_le m.city
  have hdest := strdup_length_le m.dest
  have hcut : m.cut.city.length = (strdup m.city).bytes.length ∧
      m.cut.dest.length = (strdup m.dest).bytes.length := ⟨rfl, rfl⟩
  rw [m.encode_length] at h
  rw [m.cut.encode_length]
  omega

theorem Message.sendable (h : m.encode.length < 2 ^ 31) : m.warning.Sendable := by
  have hlt := Message.cut_encode_lt h
  rwa [m.cut.encode_length] at hlt

/-! ## Relays -/

/-- The bytes that the last of `n` propagators in a row writes for a message, when the
first of them reads `b`. -/
inductive Relayed (b : Bytes) : Nat → Bytes → Prop where
  | start : Relayed b 0 b
  | relay {n : Nat} {b' b'' rest : Bytes} {mem : Block → Bool} {s : Sock} {w : Warning}
      {send : Bytes → Int → Int} {len : Int} :
      Relayed b n b' → s.stream = b' ++ rest →
      (CentralPropagator.deserializeWarning mem s).result = some w →
      (sendWarningTo true true send w).sent = some (b'', len) → Relayed b (n + 1) b''

/-- A decoder makes of a message, whatever follows it, its warning. -/
theorem deserializeWarning_encode (h : m.Short) {s : Sock} {rest : Bytes}
    (hs : s.stream = m.encode ++ rest) :
    (deserializeWarning allAllocs s).result = some m.warning := by
  have hparse := (deserializeWarning_parse s).1
  rwa [hs, parseWarning_encode h] at hparse

/-- Every relay writes the cut message. -/
theorem Relayed.cut (h : m.encode.length < 2 ^ 31) {n : Nat} {b : Bytes}
    (hr : Relayed m.encode n b) :
    (b = m.encode ∨ b = m.cut.encode) ∧ (0 < n → b = m.cut.encode) := by
  induction hr with
  | start => exact ⟨Or.inl rfl, fun hpos => absurd hpos (Nat.lt_irrefl 0)⟩
  | @relay n b' b'' rest mem s w send len _ hs hw hsent ih =>
      have hall : (deserializeWarning allAllocs s).result = some w := by
        rcases deserializeWarning_below mem s with hnone | ⟨hsame, _⟩
        · exact absurd (hw.symm.trans hnone) (Option.some_ne_none w)
        · exact hsame.symm.trans hw
      have hwarning : w = m.warning := by
        rcases ih.1 with rfl | rfl
        · rw [deserializeWarning_encode (Message.short_of_encode h) hs] at hall
          exact (Option.some.inj hall).symm
        · rw [deserializeWarning_encode (Message.short_of_encode (Message.cut_encode_lt h)) hs,
            m.cut_warning] at hall
          exact (Option.some.inj hall).symm
      rw [hwarning, (Message.sendable h).sent send, Option.some.injEq, Prod.mk.injEq] at hsent
      exact ⟨Or.inr hsent.1.symm, fun _ => hsent.1.symm⟩

/-- Whatever the decoder of a propagator accepts as a message of less than 2³¹ bytes: what
`send_warning_to` writes for the warning is the message with both fields cut at their first
zero.  It is byte for byte what was read if and only if neither field has a zero.  The last
of any number of relays writes the same, and whoever reads that makes the same warning of
it. -/
theorem relay_transparent_iff {mem : Block → Bool} {s : Sock} {w : Warning}
    (h : (CentralPropagator.deserializeWarning mem s).result = some w) :
    ∃ m : Message,
      s.stream = m.encode ++ (CentralPropagator.deserializeWarning mem s).sock.stream ∧
      (m.encode.length < 2 ^ 31 →
        (∀ send, (sendWarningTo true true send w).sent =
          some (m.cut.encode, (m.cut.encode.length : Int))) ∧
        (m.cut.encode = m.encode ↔ (0 : UInt8) ∉ m.city ∧ (0 : UInt8) ∉ m.dest) ∧
        ∀ n b, Relayed m.encode n b → (0 < n → b = m.cut.encode) ∧
          ∀ s' rest, s'.stream = b ++ rest →
            (CentralPropagator.deserializeWarning allAllocs s').result = some w ∧
            (DataDestination.deserializeWarning allAllocs s').result = some w) := by
  obtain ⟨m, hshort, rfl, hstream⟩ := deserializeWarning_message h
  refine ⟨m, hstream, fun hlt => ⟨?_, m.cut_encode_eq_iff, ?_⟩⟩
  · intro send
    exact (Message.sendable hlt).sent send
  · intro n b hr
    obtain ⟨hb, hpos⟩ := hr.cut hlt
    refine ⟨hpos, fun s' rest hs' => ?_⟩
    have hres : (deserializeWarning allAllocs s').result = some m.warning := by
      rcases hb with rfl | rfl
      · exact deserializeWarning_encode hshort hs'
      · have hcut := Message.short_of_encode (Message.cut_encode_lt hlt)
        rw [deserializeWarning_encode hcut hs', m.cut_warning]
    exact ⟨hres, hres⟩

theorem relay_transparent_iff_sample : ∃ m : Message,
    sampleSock.stream = m.encode ++
      (CentralPropagator.deserializeWarning allAllocs sampleSock).sock.stream ∧
    (m.encode.length < 2 ^ 31 →
      (m.cut.encode = m.encode ↔ (0 : UInt8) ∉ m.city ∧ (0 : UInt8) ∉ m.dest)) := by
  obtain ⟨m, hm, h⟩ := @relay_transparent_iff allAllocs sampleSock sampleWarning (by decide)
  exact ⟨m, hm, fun hlt => (h hlt).2.1⟩

/-- The message about the city `N\0S` for the node `D`. -/
def zeroMessage : Message where
  city := [78, 0, 83]
  dest := [68]
  type := 1
  value := 0x4045000000000000
  timestamp := 1700000000

/-- The message in one chunk. -/
def zeroSock : Sock := .closing [zeroMessage.encode] (by decide)

/-- The message is accepted, and two bytes of it are not passed on. -/
theorem relay_cuts_zero :
    (CentralPropagator.deserializeWarning allAllocs zeroSock).result = some zeroMessage.warning ∧
      zeroSock.stream = zeroMessage.encode ∧ zeroMessage.encode.length = 32 ∧
      ∃ b, (sendWarningTo true true (fun _ n => n) zeroMessage.warning).sent = some (b, 30) ∧
        b ≠ zeroMessage.encode := by
  refine ⟨by decide, by decide, by decide, zeroMessage.cut.encode, by decide, by decide⟩

end DataPropagator
