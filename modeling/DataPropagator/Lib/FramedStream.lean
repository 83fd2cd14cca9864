import Mathlib.Data.List.Basic

/-!
# Streams of frames

A sender writes frames one after another, and the last one may be cut short.  `Torn` is
what can stand at the end of such a stream: nothing, or a proper prefix of a frame.
`Framed` is a stream of whole frames with a torn end.

A whole frame may be appended only at a clean end, and so may a part of one.  A reader
that has seen a part of a stream has seen a framed stream (`Framed.of_prefix`), with whole
frames that are the first ones of the stream.
-/

namespace FramedStream

variable {ω β : Type}

/-- What can stand at the end of a stream of frames of things in `S`. -/
def Torn (frame : ω → List β) (S : ω → Prop) (tail : List β) : Prop :=
  tail = [] ∨ ∃ w, S w ∧ tail <+: frame w ∧ tail ≠ frame w

/-- The frames of a list of things in `S`, and a torn end. -/
structure Framed (frame : ω → List β) (S : ω → Prop) (stream : List β) (ws : List ω)
    (tail : List β) : Prop where
  sent : ∀ w ∈ ws, S w
  torn : Torn frame S tail
  stream_eq : stream = (ws.map frame).flatten ++ tail

variable {frame : ω → List β} {S T : ω → Prop} {stream seen tail : List β} {ws : List ω} {w : ω}

theorem Torn.mono (h : Torn frame S tail) (hS : ∀ w, S w → T w) : Torn frame T tail := by
  rcases h with h | ⟨w, hw, hpre, hne⟩
  · exact Or.inl h
  · exact Or.inr ⟨w, hS w hw, hpre, hne⟩

theorem Torn.of_prefix (h : Torn frame S tail) (hseen : seen <+: tail) : Torn frame S seen := by
  rcases h with rfl | ⟨w, hw, hpre, hne⟩
  · exact Or.inl (List.prefix_nil.mp hseen)
  · refine Or.inr ⟨w, hw, hseen.trans hpre, ?_⟩
    rintro rfl
    exact hne (hpre.eq_of_length (Nat.le_antisymm hpre.length_le hseen.length_le))

namespace Framed

theorem nil (frame : ω → List β) (S : ω → Prop) : Framed frame S [] [] [] where
  sent := fun _ hw => by cases hw
  torn := Or.inl rfl
  stream_eq := rfl

theorem mono (h : Framed frame S stream ws tail) (hS : ∀ w, S w → T w) :
    Framed frame T stream ws tail where
  sent := fun w hw => hS w (h.sent w hw)
  torn := h.torn.mono hS
  stream_eq := h.stream_eq

/-- A whole frame at a clean end leaves a clean end. -/
theorem whole (h : Framed frame S stream ws []) (hw : S w) :
    Framed frame S (stream ++ frame w) (ws ++ [w]) [] where
  sent := fun v hv => by
    rcases List.mem_append.mp hv with hv | hv
    · exact h.sent v hv
    · exact List.mem_singleton.mp hv ▸ hw
  torn := Or.inl rfl
  stream_eq := by
    rw [h.stream_eq, List.append_nil, List.append_nil, List.map_append, List.flatten_append]
    simp

/-- A part of a frame at a clean end is a torn end. -/
theorem cut (h : Framed frame S stream ws []) (hw : S w) (hpre : tail <+: frame w)
    (hne : tail ≠ frame w) : Framed frame S (stream ++ tail) ws tail where
  sent := h.sent
  torn := Or.inr ⟨w, hw, hpre, hne⟩
  stream_eq := by rw [h.stream_eq, List.append_nil]

/-- What has been seen of a framed stream is its first frames and a torn end. -/
theorem of_prefix {ws : List ω} {stream seen : List β} (h : Framed frame S stream ws tail)
    (hseen : seen <+: stream) : ∃ k tail', Framed frame S seen (ws.take k) tail' := by
  induction ws generalizing stream seen with
  | nil =>
      rw [h.stream_eq, List.map_nil, List.flatten_nil, List.nil_append] at hseen
      exact ⟨0, seen, ⟨(fun _ hw => by cases hw), h.torn.of_prefix hseen, rfl⟩⟩
  | cons w ws ih =>
      have hw := h.sent w (List.mem_cons_self ..)
      rw [h.stream_eq, List.map_cons, List.flatten_cons, List.append_assoc] at hseen
      rcases List.prefix_or_prefix_of_prefix hseen (List.prefix_append ..) with hin | ⟨rest, hrest⟩
      · by_cases hne : seen = frame w
        · refine ⟨1, [], ⟨?_, Or.inl rfl, ?_⟩⟩
          · intro v hv
            rw [List.take_succ_cons, List.take_zero, List.mem_singleton] at hv
            exact hv ▸ hw
          · rw [hne]
            simp
        · exact ⟨0, seen, ⟨(fun _ hv => by cases hv), Or.inr ⟨w, hw, hin, hne⟩, rfl⟩⟩
      · -- the first frame was seen whole
        rw [← hrest, List.prefix_append_right_inj] at hseen
        have htail : Framed frame S ((ws.map frame).flatten ++ tail) ws tail :=
          ⟨fun v hv => h.sent v (List.mem_cons_of_mem _ hv), h.torn, rfl⟩
        obtain ⟨k, tail', hk⟩ := ih htail hseen
        refine ⟨k + 1, tail', ⟨?_, hk.torn, ?_⟩⟩
        · intro v hv
          exact h.sent v (List.mem_of_mem_take hv)
        · rw [← hrest, hk.stream_eq, List.take_succ_cons, List.map_cons, List.flatten_cons,
            List.append_assoc]

end Framed

end FramedStream
