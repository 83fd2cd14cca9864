import DataPropagator.Common.PropagatorClient

/-!
# Receiving warnings

The two programs that listen, `cp_listener.c` and `data_destination.c`, hold the same
text of `recv_all` and `deserialize_warning`.  It is translated once, and each program
has it under its own namespace.

A socket is the list of chunks the network will hand out, then a result that is not
positive: 0 at the end of the stream, negative on an error.  A call of `recv` takes
the next chunk or, when the chunk is longer than the room, the front of it.  So every
way to cut a stream is some list of chunks.
-/

namespace DataPropagator

/-! ## The socket -/

/-- The receiving side of a connection. -/
structure Sock where
  /-- What the next calls of `recv` hand out. -/
  chunks : List Bytes
  /-- What `recv` returns when no chunk is left. -/
  final : Int
  /-- `recv` never hands out an empty chunk. -/
  chunks_ne_nil : ∀ c ∈ chunks, c ≠ []
  final_nonpos : final ≤ 0

/-- The bytes still to come. -/
def Sock.stream (s : Sock) : Bytes := s.chunks.flatten

/-- A socket whose sender closes it after some chunks. -/
def Sock.closing (chunks : List Bytes) (h : ∀ c ∈ chunks, c ≠ []) : Sock where
  chunks := chunks
  final := 0
  chunks_ne_nil := h
  final_nonpos := le_rfl

/-- What is left after the first chunk was taken, up to `room` bytes of it. -/
def dropChunk (room : Nat) : List Bytes → List Bytes
  | [] => []
  | c :: cs => if room < c.length then c.drop room :: cs else cs

theorem dropChunk_ne_nil {room : Nat} {cs : List Bytes} (h : ∀ c ∈ cs, c ≠ []) :
    ∀ c ∈ dropChunk room cs, c ≠ [] := by
  cases cs with
  | nil => exact h
  | cons c cs =>
      rw [dropChunk]
      split
      next hlt =>
          intro d hd
          cases List.mem_cons.mp hd with
          | inl he =>
              subst he
              rw [Ne, List.drop_eq_nil_iff]
              omega
          | inr hm => exact h d (List.mem_cons_of_mem _ hm)
      next => exact fun d hd => h d (List.mem_cons_of_mem _ hd)

/-- The socket after a call of `recv` with room for `room` bytes. -/
def Sock.advance (s : Sock) (room : Nat) : Sock where
  chunks := dropChunk room s.chunks
  final := s.final
  chunks_ne_nil := dropChunk_ne_nil s.chunks_ne_nil
  final_nonpos := s.final_nonpos

/-- `recv`: its result, the bytes it stores and the socket after it. -/
def recv (s : Sock) (room : Nat) : Int × Bytes × Sock :=
  match s.chunks with
  | [] => (s.final, [], s)
  | c :: _ => ((c.take room).length, c.take room, s.advance room)

/-- The loop of `recv_all`.  It stores at `buf + total`, so `got` has `total` bytes. -/
def recvLoop : Nat → Sock → Int → Bytes → Int × Bytes × Sock
  | 0, s, _, got => (got.length, got, s)
  | fuel + 1, s, n, got =>
      if (got.length : Int) < n then
        let (r, bytes, s) := recv s (n - got.length).toNat
        if r ≤ 0 then (r, got ++ bytes, s) else recvLoop fuel s n (got ++ bytes)
      else (got.length, got, s)

/-- `recv_all`: its result, the bytes stored from `buf` on and the socket after it.
Every turn of the loop stores a byte, so `n` turns are enough. -/
def recvAll (s : Sock) (n : Int) : Int × Bytes × Sock :=
  recvLoop n.toNat s n []

/-! ## The decoder -/

/-- What a call of `deserialize_warning` leaves: its result (`none` is NULL), the
socket and what was done to the heap. -/
structure Decoded where
  result : Option Warning
  sock : Sock
  heap : List HeapEvent

/-- Receive `n` bytes into a buffer and return NULL if `recv_all` does not return `n`.
`heap` is what was done to the heap by the time of that return. -/
def recvOrNull (s : Sock) (n : Int) (heap : Bytes → List HeapEvent)
    (next : Bytes → Sock → Decoded) : Decoded :=
  let (r, bytes, s) := recvAll s n
  if r ≠ n then { result := none, sock := s, heap := heap bytes } else next bytes s

/-- `deserialize_warning`.  `mem` says which allocations succeed.  The sizes of the two
buffers are computed in 32 bits, and a buffer is its bytes with the terminating zero. -/
def deserializeWarning (mem : Block → Bool) (s : Sock) : Decoded :=
  recvOrNull s 4 (fun _ => []) fun len32 s =>
  let cityLen := ntohl (u32OfBytes len32)
  if !mem .city then { result := none, sock := s, heap := [] } else
  let heap := [.malloc .city (cityLen + 1).toNat]
  recvOrNull s (intOfU32 cityLen)
    (fun city => heap ++ [.write .city 0 city.length, .free .city]) fun city s =>
  let heap := heap ++ [.write .city 0 city.length, .write .city cityLen.toNat 1]
  recvOrNull s 4 (fun _ => heap ++ [.free .city]) fun len32 s =>
  let destLen := ntohl (u32OfBytes len32)
  if !mem .dest then { result := none, sock := s, heap := heap ++ [.free .city] } else
  let heap := heap ++ [.malloc .dest (destLen + 1).toNat]
  recvOrNull s (intOfU32 destLen)
    (fun dest => heap ++ [.write .dest 0 dest.length, .free .city, .free .dest]) fun dest s =>
  let heap := heap ++ [.write .dest 0 dest.length, .write .dest destLen.toNat 1]
  recvOrNull s 4 (fun _ => heap ++ [.free .city, .free .dest]) fun len32 s =>
  let type := ntohl (u32OfBytes len32)
  recvOrNull s 8 (fun _ => heap ++ [.free .city, .free .dest]) fun vbits s =>
  let value := networkToHost64 (u64OfBytes vbits)
  recvOrNull s 8 (fun _ => heap ++ [.free .city, .free .dest]) fun ts s =>
  let ts := networkToHost64 (u64OfBytes ts)
  let (w, created) := warningCreate mem (city ++ [0]) type value ts (dest ++ [0])
  { result := w, sock := s, heap := heap ++ created ++ [.free .city, .free .dest] }

/-- `deserialize_warning` of `cp_listener.c`. -/
def CentralPropagator.deserializeWarning (mem : Block → Bool) (s : Sock) : Decoded :=
  DataPropagator.deserializeWarning mem s

/-- `deserialize_warning` of `data_destination.c`. -/
def DataDestination.deserializeWarning (mem : Block → Bool) (s : Sock) : Decoded :=
  DataPropagator.deserializeWarning mem s

/-- Every allocation succeeds. -/
def allAllocs : Block → Bool := fun _ => true

/-- The results of so many calls of a decoder on one socket. -/
def decodeTimes (decode : Sock → Decoded) : Nat → Sock → List (Option Warning)
  | 0, _ => []
  | n + 1, s => (decode s).result :: decodeTimes decode n (decode s).sock

/-! ## What `recv_all` stores -/

theorem stream_advance {s : Sock} {c : Bytes} {cs : List Bytes} (hs : s.chunks = c :: cs)
    (room : Nat) : c.take room ++ (s.advance room).stream = s.stream := by
  show c.take room ++ (dropChunk room s.chunks).flatten = s.chunks.flatten
  rw [hs, dropChunk, List.flatten_cons]
  split
  · rw [List.flatten_cons, ← List.append_assoc, List.take_append_drop]
  next hge => rw [List.take_of_length_le (by omega)]

theorem recv_nil {s : Sock} (hc : s.chunks = []) (room : Nat) :
    recv s room = (s.final, [], s) := by
  simp [recv, hc]

theorem recv_cons {s : Sock} {c : Bytes} {cs : List Bytes} (hc : s.chunks = c :: cs)
    (room : Nat) :
    recv s room = (((c.take room).length : Int), c.take room, s.advance room) := by
  simp only [recv]
  split
  next h => rw [hc] at h; cases h
  next c' _ h =>
      rw [hc, List.cons.injEq] at h
      rw [h.1]

/-- A loop that still has bytes to store either stores them all or meets the end of
the stream. -/
theorem recvLoop_spec (fuel : Nat) (s : Sock) (want : Nat) (got : Bytes) (hw : want ≤ fuel) :
    (want ≤ s.stream.length → ∃ s', recvLoop fuel s ((got.length + want : Nat) : Int) got =
      (((got.length + want : Nat) : Int), got ++ s.stream.take want, s') ∧
        s'.stream = s.stream.drop want ∧ s'.final = s.final) ∧
    (s.stream.length < want → ∃ s', recvLoop fuel s ((got.length + want : Nat) : Int) got =
      (s.final, got ++ s.stream, s') ∧ s'.stream = [] ∧ s'.final = s.final) := by
  induction fuel generalizing s want got with
  | zero =>
      obtain rfl : want = 0 := by omega
      refine ⟨fun _ => ⟨s, ?_, rfl, rfl⟩, fun h => absurd h (Nat.not_lt_zero _)⟩
      simp [recvLoop]
  | succ fuel ih =>
      rcases Nat.eq_zero_or_pos want with rfl | hpos
      · refine ⟨fun _ => ⟨s, ?_, rfl, rfl⟩, fun h => absurd h (Nat.not_lt_zero _)⟩
        simp [recvLoop]
      · have hlt : (got.length : Int) < ((got.length + want : Nat) : Int) := by omega
        have hroom : (((got.length + want : Nat) : Int) - got.length).toNat = want := by omega
        rw [recvLoop, if_pos hlt, hroom]
        cases hc : s.chunks with
        | nil =>
            have hnil : s.stream = [] := by rw [Sock.stream, hc, List.flatten_nil]
            simp only [recv_nil hc, if_pos s.final_nonpos]
            refine ⟨?_, fun _ => ⟨s, ?_, hnil, rfl⟩⟩
            · intro h
              rw [hnil, List.length_nil] at h
              omega
            · rw [hnil]
        | cons c cs =>
            have hne : c ≠ [] := s.chunks_ne_nil c (by rw [hc]; exact List.mem_cons_self ..)
            have hcpos := List.length_pos_iff.mpr hne
            have hlen : 0 < (c.take want).length := by
              rw [List.length_take]
              omega
            have hle : (c.take want).length ≤ want := by
              rw [List.length_take]
              omega
            have hstream := stream_advance hc want
            simp only [recv_cons hc, if_neg (show ¬ ((c.take want).length : Int) ≤ 0 by omega)]
            -- the rest of the loop, after the chunk that was just stored
            have hrest := ih (s.advance want) (want - (c.take want).length) (got ++ c.take want)
              (by omega)
            have htotal : (got ++ c.take want).length + (want - (c.take want).length) =
                got.length + want := by
              rw [List.length_append]
              omega
            have hslen : s.stream.length = (c.take want).length + (s.advance want).stream.length := by
              rw [← hstream, List.length_append]
            rw [htotal] at hrest
            constructor
            · intro h
              obtain ⟨s', hloop, hs', hfin⟩ := hrest.1 (by omega)
              refine ⟨s', ?_, ?_, hfin⟩
              · rw [hloop, ← hstream, List.take_append, List.take_take, Nat.min_self,
                  List.append_assoc]
              · rw [hs', ← hstream, List.drop_append, List.drop_of_length_le hle, List.nil_append]
            · intro h
              obtain ⟨s', hloop, hs', hfin⟩ := hrest.2 (by omega)
              refine ⟨s', ?_, hs', hfin⟩
              rw [hloop, List.append_assoc, hstream]
              rfl

/-- Enough bytes are to come: they are stored, however they are cut. -/
theorem recvAll_full {s : Sock} {n : Nat} (h : n ≤ s.stream.length) :
    ∃ s', recvAll s n = ((n : Int), s.stream.take n, s') ∧ s'.stream = s.stream.drop n ∧
      s'.final = s.final := by
  obtain ⟨s', hl, hs', hf⟩ := (recvLoop_spec n s n [] le_rfl).1 h
  refine ⟨s', ?_, hs', hf⟩
  rw [List.length_nil, Nat.zero_add, List.nil_append] at hl
  rw [recvAll, Int.toNat_natCast]
  exact hl

/-- Too few bytes are to come: the result is not the number asked for. -/
theorem recvAll_short {s : Sock} {n : Nat} (h : s.stream.length < n) :
    ∃ s', recvAll s n = (s.final, s.stream, s') ∧ s'.stream = [] ∧ s'.final = s.final := by
  obtain ⟨s', hl, hs', hf⟩ := (recvLoop_spec n s n [] le_rfl).2 h
  refine ⟨s', ?_, hs', hf⟩
  rw [List.length_nil, Nat.zero_add, List.nil_append] at hl
  rw [recvAll, Int.toNat_natCast]
  exact hl

/-- `recv_all` returns the number asked for exactly when that many bytes were to
come. -/
theorem recvAll_ret_ne {s : Sock} {n : Nat} (h : s.stream.length < n) :
    (recvAll s n).1 ≠ n := by
  obtain ⟨s', hs', _, _⟩ := recvAll_short h
  rw [hs']
  have := s.final_nonpos
  show s.final ≠ n
  omega

end DataPropagator
