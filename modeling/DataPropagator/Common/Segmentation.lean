import DataPropagator.Common.FrameAlignment

/-!
# What a receiver makes of any bytes

The bytes of a connection may come from anyone, cut into chunks in any way, and the allocations of
each call of the decoder may fail.  `Decoded.Continues` compares a call with the same call where
more bytes are to come: it returns NULL, or both return the same and leave the same bytes behind, up
to the bytes to come.

So what a receiver has made of some bytes is not changed by more of them, and how the bytes are cut
is not seen.
-/

namespace DataPropagator

/-- The warnings a receiver takes from a connection. -/
def received (decode : (Block → Bool) → Sock → Decoded) (mems : List (Block → Bool)) (s : Sock) :
    List Warning :=
  (receiveLoop decode mems s).filterMap Received.result

/-- The call returned NULL, or the second one did the same before `tail`. -/
def Decoded.Continues (tail : Bytes) (d d' : Decoded) : Prop :=
  d.result = none ∨ (d.result = d'.result ∧ d'.sock.stream = d.sock.stream ++ tail)

/-- What `recv_all` takes from a socket that has enough bytes, it takes from one with more. -/
theorem recvAll_continues {s s' : Sock} {tail : Bytes} (h : s'.stream = s.stream ++ tail) (n : Int) :
    (recvAll s n).1 ≠ n ∨ ∃ bytes t t', recvAll s n = (n, bytes, t) ∧ recvAll s' n = (n, bytes, t') ∧
      t'.stream = t.stream ++ tail := by
  rcases lt_or_ge n 0 with hneg | hpos
  · refine Or.inl ?_
    have hzero : recvAll s n = (0, [], s) := by
      rw [recvAll, Int.toNat_of_nonpos hneg.le]
      rfl
    rw [hzero]
    exact hneg.ne'
  · obtain ⟨k, rfl⟩ := Int.eq_ofNat_of_zero_le hpos
    rcases Nat.lt_or_ge s.stream.length k with hshort | henough
    · exact Or.inl (recvAll_ret_ne hshort)
    · obtain ⟨t, ht, hstream, _⟩ := recvAll_full henough
      have hmore : k ≤ s'.stream.length := by
        rw [h, List.length_append]
        omega
      obtain ⟨t', ht', hstream', _⟩ := recvAll_full hmore
      rw [h, List.take_append_of_le_length henough] at ht'
      refine Or.inr ⟨_, t, t', ht, ht', ?_⟩
      rw [hstream', hstream, h, List.drop_append_of_le_length henough]

theorem recvOrNull_continues {s s' : Sock} {tail : Bytes} (h : s'.stream = s.stream ++ tail)
    {n : Int} {heap heap' : Bytes → List HeapEvent} {next next' : Bytes → Sock → Decoded}
    (hnext : ∀ b t t', t'.stream = t.stream ++ tail → (next b t).Continues tail (next' b t')) :
    (recvOrNull s n heap next).Continues tail (recvOrNull s' n heap' next') := by
  rcases recvAll_continues h n with hne | ⟨bytes, t, t', ht, ht', hstream⟩
  · refine Or.inl ?_
    simp only [recvOrNull]
    rw [if_pos hne]
  · simp only [recvOrNull, ht, ht', ne_eq, not_true_eq_false, if_false]
    exact hnext bytes t t' hstream

theorem deserializeWarning_continues (mem : Block → Bool) {s s' : Sock} {tail : Bytes}
    (h : s'.stream = s.stream ++ tail) :
    (deserializeWarning mem s).Continues tail (deserializeWarning mem s') := by
  simp only [deserializeWarning]
  apply recvOrNull_continues h
  intro len s s' h
  split
  · exact Or.inl rfl
  apply recvOrNull_continues h
  intro city s s' h
  apply recvOrNull_continues h
  intro len s s' h
  split
  · exact Or.inl rfl
  apply recvOrNull_continues h
  intro dest s s' h
  apply recvOrNull_continues h
  intro type s s' h
  apply recvOrNull_continues h
  intro value s s' h
  apply recvOrNull_continues h
  intro ts s s' h
  exact Or.inr ⟨rfl, h⟩

/-- The same bytes, cut in another way. -/
theorem deserializeWarning_same (mem : Block → Bool) {s s' : Sock} (h : s'.stream = s.stream) :
    (deserializeWarning mem s').result = (deserializeWarning mem s).result ∧
      ((deserializeWarning mem s).result.isSome →
        (deserializeWarning mem s').sock.stream = (deserializeWarning mem s).sock.stream) := by
  have hforth := deserializeWarning_continues mem (h.trans (List.append_nil _).symm)
  have hback := deserializeWarning_continues mem (h.symm.trans (List.append_nil _).symm)
  rcases hforth with hnull | ⟨hresult, hstream⟩
  · rcases hback with hnull' | ⟨hresult, _⟩
    · exact ⟨hnull'.trans hnull.symm, fun hsome => by rw [hnull] at hsome; cases hsome⟩
    · exact ⟨hresult, fun hsome => by rw [hnull] at hsome; cases hsome⟩
  · exact ⟨hresult.symm, fun _ => hstream.trans (List.append_nil _)⟩

/-- Whatever bytes are sent on a connection and whatever allocations fail: what a receiver takes
from some of them it takes, first and in the same order, when more of them follow; and two sockets
with the same bytes, in whatever chunks and with whatever end, give the same calls of the decoder
with the same results. -/
theorem received_bytes_only :
    ∀ decode ∈ [CentralPropagator.deserializeWarning, DataDestination.deserializeWarning],
      ∀ (mems : List (Block → Bool)) (s s' : Sock),
        (s.stream <+: s'.stream → received decode mems s <+: received decode mems s') ∧
        (s.stream = s'.stream → receiveLoop decode mems s = receiveLoop decode mems s') := by
  have hone : ∀ (mems : List (Block → Bool)) (s s' : Sock),
      (s.stream <+: s'.stream →
        received deserializeWarning mems s <+: received deserializeWarning mems s') ∧
      (s.stream = s'.stream →
        receiveLoop deserializeWarning mems s = receiveLoop deserializeWarning mems s') := by
    intro mems
    induction mems with
    | nil => exact fun _ _ => ⟨fun _ => List.prefix_rfl, fun _ => rfl⟩
    | cons mem mems ih =>
        intro s s'
        constructor
        · rintro ⟨tail, htail⟩
          have hcontinues := deserializeWarning_continues mem htail.symm
          rw [received, received, receiveLoop, receiveLoop]
          generalize deserializeWarning mem s = d at hcontinues ⊢
          generalize deserializeWarning mem s' = d' at hcontinues ⊢
          rcases hcontinues with hnull | ⟨hresult, hstream⟩
          · simp [hnull]
          · rw [hresult]
            cases hd : d'.result with
            | none => simp
            | some w =>
                have hrest := (ih d.sock d'.sock).1 ⟨tail, hstream.symm⟩
                simpa [received] using hrest
        · intro hsame
          obtain ⟨hresult, hstream⟩ := deserializeWarning_same mem hsame.symm
          rw [receiveLoop, receiveLoop, hsame, hresult]
          split
          next hsome => rw [(ih _ _).2 (hstream hsome).symm]
          next => rfl
  intro decode hdecode
  rcases List.mem_pair.mp hdecode with rfl | rfl
  · exact hone
  · exact hone

/-- The bytes of `sampleSock` in one chunk. -/
def wholeSock : Sock := .closing [sampleSock.stream] (by decide)

theorem received_bytes_only_sample :
    receiveLoop CentralPropagator.deserializeWarning [allAllocs, allAllocs] sampleSock =
      receiveLoop CentralPropagator.deserializeWarning [allAllocs, allAllocs] wholeSock :=
  (received_bytes_only CentralPropagator.deserializeWarning (List.mem_cons_self ..)
    [allAllocs, allAllocs] sampleSock wholeSock).2 rfl

end DataPropagator
