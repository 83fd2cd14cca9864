import DataPropagator.Common.WireMessage
import DataPropagator.Lib.Ledger

/-!
# What the decoder does to the heap

A peer chooses both lengths.  A buffer has the length plus one byte, computed in 32 bits,
`recv_all` gets the length as an `int`, and its result is compared with that `int`.  From
2³¹ on the length is negative: `recv_all` stores nothing, and its result 0 is not the
length, so the decoder returns before it writes the terminating zero.  Below 2³¹ the sum
does not wrap around.

`Decoded.Clean` is checked at every exit of the decoder.
-/

namespace DataPropagator

/-! ## The loop of `recv_all` ends -/

/-- A run of the loop of `recv_all` to its end, with the bytes stored so far. -/
inductive RecvLoop (n : Int) : Sock → Bytes → Int × Bytes × Sock → Prop where
  | full {s : Sock} {got : Bytes} : ¬ (got.length : Int) < n → RecvLoop n s got (got.length, got, s)
  | stop {s s' : Sock} {got bytes : Bytes} {r : Int} : (got.length : Int) < n →
      recv s (n - got.length).toNat = (r, bytes, s') → r ≤ 0 →
      RecvLoop n s got (r, got ++ bytes, s')
  | turn {s s' : Sock} {got bytes : Bytes} {r : Int} {result : Int × Bytes × Sock} :
      (got.length : Int) < n → recv s (n - got.length).toNat = (r, bytes, s') → 0 < r →
      RecvLoop n s' (got ++ bytes) result → RecvLoop n s got result

/-- A positive result of `recv` is the number of bytes stored. -/
theorem recv_pos {s s' : Sock} {room : Nat} {r : Int} {bytes : Bytes}
    (h : recv s room = (r, bytes, s')) (hr : 0 < r) : r = bytes.length := by
  cases hc : s.chunks with
  | nil =>
      have hfinal := s.final_nonpos
      rw [recv_nil hc, Prod.mk.injEq] at h
      omega
  | cons c cs =>
      rw [recv_cons hc, Prod.mk.injEq, Prod.mk.injEq] at h
      rw [← h.1, ← h.2.1]

theorem recvLoop_ends {n : Int} (fuel : Nat) (s : Sock) (got : Bytes)
    (hfuel : n - got.length ≤ fuel) : RecvLoop n s got (recvLoop fuel s n got) := by
  induction fuel generalizing s got with
  | zero => exact .full (by omega)
  | succ fuel ih =>
      rw [recvLoop]
      split
      next hlt =>
          generalize hrecv : recv s (n - got.length).toNat = received
          obtain ⟨r, bytes, s'⟩ := received
          simp only
          split
          next hr => exact .stop hlt hrecv hr
          next hr =>
              have hlen := recv_pos hrecv (by omega)
              refine .turn hlt hrecv (by omega) (ih s' (got ++ bytes) ?_)
              rw [List.length_append]
              omega
      next hge => exact .full hge

/-- Every call of `recv_all` ends. -/
theorem recvAll_ends (s : Sock) (n : Int) : RecvLoop n s [] (recvAll s n) := by
  refine recvLoop_ends n.toNat s [] ?_
  rw [List.length_nil]
  omega

/-- `recv_all` stores no more than `n` bytes, and it returns `n` only when it has stored so
many. -/
theorem recvAll_stores (s : Sock) (n : Int) :
    (recvAll s n).2.1.length ≤ n.toNat ∧
      ((recvAll s n).1 = n → 0 ≤ n ∧ (recvAll s n).2.1.length = n.toNat) := by
  rcases Int.lt_or_le n 0 with hneg | hpos
  · have hzero : recvAll s n = (0, [], s) := by
      rw [recvAll, Int.toNat_of_nonpos (by omega)]
      rfl
    rw [hzero]
    exact ⟨Nat.zero_le _, fun h => absurd h (by simp only; omega)⟩
  · obtain ⟨k, rfl⟩ := Int.eq_ofNat_of_zero_le hpos
    by_cases hk : k ≤ s.stream.length
    · obtain ⟨s', hs', _, _⟩ := recvAll_full hk
      have hlen : (s.stream.take k).length = k := List.length_take_of_le hk
      rw [hs']
      exact ⟨by simp only [hlen, Int.toNat_natCast, Nat.le_refl],
        fun _ => ⟨hpos, by simp only [hlen, Int.toNat_natCast]⟩⟩
    · have hlt : s.stream.length < k := by omega
      refine ⟨?_, fun h => absurd h (recvAll_ret_ne hlt)⟩
      obtain ⟨s', hs', _, _⟩ := recvAll_short hlt
      rw [hs']
      simp only [Int.toNat_natCast]
      omega

/-! ## The ledger of a call -/

/-- The entry of the ledger that an event is. -/
def HeapEvent.entry : HeapEvent → Ledger.Event Block
  | .malloc block size => .acquire block size
  | .write block offset len => .write block offset len
  | .free block => .release block

/-- After these events so much is live. -/
def Leaves (heap : List HeapEvent) (live : List (Block × Nat)) : Prop :=
  Machine.exec Ledger.step [] (heap.map HeapEvent.entry) = some live

/-- The call writes out of no bounds and frees nothing twice, it allocates no block twice,
and what is left after it are the blocks of the warning it returns. -/
def Decoded.Clean (d : Decoded) : Prop :=
  ∃ live, Leaves d.heap live ∧
    live.map Prod.fst =
      (if d.result.isSome then [.warningDest, .warningCity, .warning] else []) ∧
    ∀ b, Ledger.acquired b (d.heap.map HeapEvent.entry) ≤ 1

theorem Leaves.append {heap : List HeapEvent} {live live' : List (Block × Nat)}
    (h : Leaves heap live) (es : List HeapEvent)
    (hes : Machine.exec Ledger.step live (es.map HeapEvent.entry) = some live') :
    Leaves (heap ++ es) live' := by
  rw [Leaves, List.map_append, Machine.exec_append, h]
  exact hes

/-- An exit with NULL is clean when nothing is live and the blocks it has allocated are
different. -/
theorem Decoded.Clean.null {heap : List HeapEvent} {s : Sock} (h : Leaves heap [])
    (bs : List Block) (hbs : Ledger.acquisitions (heap.map HeapEvent.entry) = bs)
    (hnodup : bs.Nodup) : Decoded.Clean { result := none, sock := s, heap := heap } :=
  ⟨[], h, rfl, Ledger.acquired_le_one bs hbs hnodup⟩

/-- What holds at the exit that a field takes and after it is received holds of the call. -/
theorem recvOrNull_rule {P : Decoded → Prop} {s : Sock} {n : Int} {heap : Bytes → List HeapEvent}
    {next : Bytes → Sock → Decoded}
    (hnull : ∀ bytes s', bytes.length ≤ n.toNat → P { result := none, sock := s', heap := heap bytes })
    (hnext : ∀ bytes s', 0 ≤ n → bytes.length = n.toNat → P (next bytes s')) :
    P (recvOrNull s n heap next) := by
  obtain ⟨hle, hfull⟩ := recvAll_stores s n
  rw [recvOrNull]
  generalize recvAll s n = received at hle hfull
  obtain ⟨r, bytes, s'⟩ := received
  simp only
  split
  · exact hnull bytes s' hle
  next heq =>
      obtain ⟨hpos, hlen⟩ := hfull (not_not.mp heq)
      exact hnext bytes s' hpos hlen

/-- The buffer for a string holds what `recv_all` stores in it, and the terminating zero
after a string that was received in full. -/
theorem buffer_fits (len : UInt32) : (intOfU32 len).toNat ≤ (len + 1).toNat ∧
    (0 ≤ intOfU32 len → len.toNat + 1 ≤ (len + 1).toNat) := by
  have hsum : (len + 1).toNat = (len.toNat + 1) % 2 ^ 32 := by
    rw [UInt32.toNat_add]
    rfl
  rcases Nat.lt_or_ge len.toNat (2 ^ 31) with hlt | hge
  · rw [intOfU32_of_lt hlt, Int.toNat_natCast, hsum]
    omega
  · have hneg := intOfU32_neg hge
    exact ⟨by omega, fun h => by omega⟩

/-- `warning_create` adds the blocks of the record, or it undoes what it did. -/
theorem Leaves.created {heap : List HeapEvent} {citySize destSize : Nat}
    (h : Leaves heap [(.dest, destSize), (.city, citySize)]) (mem : Block → Bool)
    (city dest : Bytes) (type : UInt32) (value timestamp : UInt64) :
    let created := warningCreate mem city type value timestamp dest
    (created.1 = none ∧
      Leaves (heap ++ created.2) [(.dest, destSize), (.city, citySize)]) ∨
    ∃ w size sizeCity sizeDest, created.1 = some w ∧
      Leaves (heap ++ created.2) [(.warningDest, sizeDest), (.warningCity, sizeCity),
        (.warning, size), (.dest, destSize), (.city, citySize)] := by
  have hle (n : Nat) : 0 + n ≤ n := Nat.le_of_eq (Nat.zero_add n)
  simp only [warningCreate]
  split
  · exact Or.inl ⟨rfl, by rwa [List.append_nil]⟩
  split
  · refine Or.inl ⟨rfl, h.append _ ?_⟩
    exact (Ledger.exec_acquire rfl).trans (Ledger.exec_release rfl)
  split
  · refine Or.inl ⟨rfl, h.append _ ?_⟩
    exact (Ledger.exec_acquire rfl).trans ((Ledger.exec_acquire rfl).trans
      ((Ledger.exec_write rfl (hle _)).trans ((Ledger.exec_release rfl).trans
        (Ledger.exec_release rfl))))
  · refine Or.inr ⟨_, sizeofWarning, strlen (strdup city) + 1, strlen (strdup dest) + 1, rfl,
      h.append _ ?_⟩
    exact (Ledger.exec_acquire rfl).trans ((Ledger.exec_acquire rfl).trans
      ((Ledger.exec_write rfl (hle _)).trans ((Ledger.exec_acquire rfl).trans
        (Ledger.exec_write rfl (hle _)))))

/-- `warning_create` allocates the blocks of the record, or the first of them. -/
theorem acquisitions_created (mem : Block → Bool) (city dest : Bytes) (type : UInt32)
    (value timestamp : UInt64) :
    (Ledger.acquisitions
      ((warningCreate mem city type value timestamp dest).2.map HeapEvent.entry)).Sublist
        [.warning, .warningCity, .warningDest] := by
  simp only [warningCreate]
  split
  · exact List.nil_sublist _
  split
  · exact .cons_cons _ (List.nil_sublist _)
  split
  · exact .cons_cons _ (.cons_cons _ (List.nil_sublist _))
  · exact List.Sublist.refl _

/-- The last exit: the record is made, or not, and both buffers are freed. -/
theorem Leaves.last {heap : List HeapEvent} {citySize destSize : Nat}
    (h : Leaves heap [(.dest, destSize), (.city, citySize)])
    (hacq : Ledger.acquisitions (heap.map HeapEvent.entry) = [.city, .dest])
    (mem : Block → Bool) (city dest : Bytes) (type : UInt32) (value timestamp : UInt64) (s : Sock) :
    let created := warningCreate mem city type value timestamp dest
    Decoded.Clean
      { result := created.1, sock := s, heap := heap ++ created.2 ++ [.free .city, .free .dest] } := by
  have hcreated := h.created mem city dest type value timestamp
  have hevents := acquisitions_created mem city dest type value timestamp
  generalize warningCreate mem city type value timestamp dest = created at hcreated hevents ⊢
  obtain ⟨w, events⟩ := created
  have hall : Ledger.acquisitions
      ((heap ++ events ++ [HeapEvent.free .city, .free .dest]).map HeapEvent.entry) =
        [.city, .dest] ++ Ledger.acquisitions (events.map HeapEvent.entry) := by
    rw [List.map_append, List.map_append, Ledger.acquisitions_append, Ledger.acquisitions_append,
      hacq]
    exact List.append_nil _
  have hnodup : ([Block.city, .dest] ++ Ledger.acquisitions (events.map HeapEvent.entry)).Nodup :=
    (hevents.append_left [Block.city, .dest]).nodup (by decide)
  rcases hcreated with ⟨rfl, hleaves⟩ | ⟨w, size, sizeCity, sizeDest, rfl, hleaves⟩
  · exact .null (hleaves.append _ ((Ledger.exec_release rfl).trans (Ledger.exec_release rfl))) _
      hall hnodup
  · exact ⟨[(.warningDest, sizeDest), (.warningCity, sizeCity), (.warning, size)],
      hleaves.append _ ((Ledger.exec_release rfl).trans (Ledger.exec_release rfl)), rfl,
      Ledger.acquired_le_one _ hall hnodup⟩

/-- Every exit of the decoder is clean. -/
theorem deserializeWarning_clean (mem : Block → Bool) (s : Sock) :
    (deserializeWarning mem s).Clean := by
  simp only [deserializeWarning]
  refine recvOrNull_rule (fun _ s _ => .null rfl [] rfl (by decide)) ?_
  intro len s _ _
  split
  · exact .null rfl [] rfl (by decide)
  obtain ⟨hfits, hzero⟩ := buffer_fits (ntohl (u32OfBytes len))
  generalize ntohl (u32OfBytes len) = cityLen at hfits hzero ⊢
  have hbuffer : Leaves [.malloc .city (cityLen + 1).toNat] [(.city, (cityLen + 1).toNat)] := rfl
  refine recvOrNull_rule (fun city s hlen => ?_) fun city s hpos hlen => ?_
  · refine .null (hbuffer.append _ ?_) [.city] rfl (by decide)
    exact (Ledger.exec_write rfl (by omega)).trans (Ledger.exec_release rfl)
  -- the city was received in full
  have hcity := hbuffer.append [.write .city 0 city.length, .write .city cityLen.toNat 1]
    ((Ledger.exec_write rfl (by omega)).trans (Ledger.exec_write rfl (hzero hpos)))
  refine recvOrNull_rule (fun _ s _ => ?_) fun len s _ _ => ?_
  · exact .null (hcity.append _ (Ledger.exec_release rfl)) [.city] rfl (by decide)
  split
  · exact .null (hcity.append _ (Ledger.exec_release rfl)) [.city] rfl (by decide)
  obtain ⟨hfits, hzero⟩ := buffer_fits (ntohl (u32OfBytes len))
  generalize ntohl (u32OfBytes len) = destLen at hfits hzero ⊢
  have hbuffer := hcity.append [.malloc .dest (destLen + 1).toNat] (Ledger.exec_acquire rfl)
  refine recvOrNull_rule (fun dest s hlen => ?_) fun dest s hpos hlen => ?_
  · refine .null (hbuffer.append _ ?_) [.city, .dest] rfl (by decide)
    exact (Ledger.exec_write rfl (by omega)).trans ((Ledger.exec_release rfl).trans
      (Ledger.exec_release rfl))
  -- the destination was received in full
  have hdest := hbuffer.append [.write .dest 0 dest.length, .write .dest destLen.toNat 1]
    ((Ledger.exec_write rfl (by omega)).trans (Ledger.exec_write rfl (hzero hpos)))
  have hfreed := hdest.append [.free .city, .free .dest]
    ((Ledger.exec_release rfl).trans (Ledger.exec_release rfl))
  refine recvOrNull_rule (fun _ s _ => ?_) fun type s _ _ => ?_
  · exact .null hfreed [.city, .dest] rfl (by decide)
  refine recvOrNull_rule (fun _ s _ => ?_) fun value s _ _ => ?_
  · exact .null hfreed [.city, .dest] rfl (by decide)
  refine recvOrNull_rule (fun _ s _ => ?_) fun ts s _ _ => ?_
  · exact .null hfreed [.city, .dest] rfl (by decide)
  exact hdest.last rfl mem (city ++ [0]) (dest ++ [0]) _ _ _ s

/-! ## Hostile streams -/

/-- A temporary buffer is freed as often as it was allocated, and that is at most once. -/
theorem Decoded.Clean.buffers {d : Decoded} (h : d.Clean) {b : Block}
    (hb : b ∈ [Block.city, .dest]) :
    Ledger.released b (d.heap.map HeapEvent.entry) =
        Ledger.acquired b (d.heap.map HeapEvent.entry) ∧
      Ledger.acquired b (d.heap.map HeapEvent.entry) ≤ 1 := by
  obtain ⟨live, hleaves, hlive, hacq⟩ := h
  refine ⟨(Ledger.acquired_eq_released hleaves ?_).symm, hacq b⟩
  rw [List.lookup_eq_none_iff]
  intro x hx
  have hmem : x.1 ∈ live.map Prod.fst := List.mem_map_of_mem hx
  rw [hlive] at hmem
  have hne : ∀ c ∈ [Block.warningDest, .warningCity, .warning], b ≠ c := by
    rcases List.mem_cons.mp hb with rfl | hb
    · decide
    · cases List.mem_singleton.mp hb
      decide
  split at hmem
  · simpa using hne x.1 hmem
  · cases hmem

/-- For every stream of bytes, every way `recv` cuts it and ends it, and every outcome of
the allocations, in both programs: every call of `recv_all` ends.  The decoder writes
nothing outside of a block it has allocated, frees nothing twice, frees each of its two
buffers exactly as often as it allocated it, at most once, and leaves nothing but the
warning it returns.  And it returns a warning only when all five fields of a message were
received. -/
theorem decoders_safe (mem : Block → Bool) (s : Sock) :
    (∀ (s : Sock) (n : Int), RecvLoop n s [] (recvAll s n)) ∧
    ∀ decode ∈ [CentralPropagator.deserializeWarning, DataDestination.deserializeWarning],
      (decode mem s).Clean ∧
      (∀ b ∈ [Block.city, .dest],
        Ledger.released b ((decode mem s).heap.map HeapEvent.entry) =
            Ledger.acquired b ((decode mem s).heap.map HeapEvent.entry) ∧
          Ledger.acquired b ((decode mem s).heap.map HeapEvent.entry) ≤ 1) ∧
      ∀ w, (decode mem s).result = some w → ∃ m : Message, m.Short ∧ m.warning = w ∧
        s.stream = m.encode ++ (decode mem s).sock.stream := by
  refine ⟨recvAll_ends, ?_⟩
  intro decode hdecode
  have heq : decode = deserializeWarning := by
    rcases List.mem_cons.mp hdecode with rfl | hdecode
    · rfl
    · exact List.mem_singleton.mp hdecode
  subst heq
  have hclean := deserializeWarning_clean mem s
  exact ⟨hclean, fun b hb => hclean.buffers hb, fun w hw => deserializeWarning_message hw⟩

end DataPropagator
