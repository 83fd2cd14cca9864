import Mathlib.Data.List.Basic
import Mathlib.Data.List.TakeWhile

/-!
# Fields, lines and pieces

A list with separators in it is cut at them by `List.splitOn`.  A tokenizer that skips the
separators in front of a token sees the non-empty fields only, one after the other
(`next_fst`, `nonEmpty_next`), so that the place of a field among them is not its place in
the line.

A stream is cut into lines behind each end mark, and a reader with a buffer of bounded size
cuts a long line further, into pieces.  The pieces of a stream are those of its lines, in
order (`pieces_eq`), and a line that fits is one piece (`pieces_line`).  Where a line is cut within
a field, the fields of the two parts are glued there (`splitOn_append`).
-/

namespace Fields

variable {α : Type} [DecidableEq α] {sep mark : α} {n : Nat}

/-! ## Fields -/

/-- The non-empty fields. -/
def nonEmpty (sep : α) (s : List α) : List (List α) :=
  (s.splitOn sep).filter (· ≠ [])

/-- The next token and what is left behind it. -/
def next (sep : α) (s : List α) : Option (List α) × List α :=
  match s.dropWhile (· == sep) with
  | [] => (none, [])
  | c :: cs => (some ((c :: cs).takeWhile (· != sep)), ((c :: cs).dropWhile (· != sep)).drop 1)

theorem nonEmpty_sep (sep : α) (s : List α) : nonEmpty sep (sep :: s) = nonEmpty sep s := by
  rw [nonEmpty, List.splitOn_cons_eq_if_modifyHead, if_pos (beq_self_eq_true sep)]
  rfl

/-- Separators in front make no field. -/
theorem nonEmpty_dropWhile (sep : α) (s : List α) :
    nonEmpty sep (s.dropWhile (· == sep)) = nonEmpty sep s := by
  induction s with
  | nil => rfl
  | cons c s ih =>
      by_cases hc : c = sep
      · subst hc
        rw [List.dropWhile_cons, if_pos (beq_self_eq_true c), ih, nonEmpty_sep]
      · rw [List.dropWhile_cons_of_neg (by simpa using hc)]

/-- The first field is what comes before the first separator. -/
theorem splitOn_eq (sep : α) (s : List α) : s.splitOn sep = s.takeWhile (· != sep) ::
    match s.dropWhile (· != sep) with
    | [] => []
    | _ :: rest => rest.splitOn sep := by
  induction s with
  | nil => rfl
  | cons c s ih =>
      rw [List.splitOn_cons_eq_if_modifyHead]
      by_cases hc : c = sep
      · subst hc
        simp
      · have hne : (c != sep) = true := bne_iff_ne.mpr hc
        rw [if_neg (by simpa using hc), ih, List.takeWhile_cons, if_pos hne, List.dropWhile_cons,
          if_pos hne]
        rfl

/-- A list that does not begin with a separator begins with its first non-empty field. -/
theorem nonEmpty_cons {c : α} (hc : c ≠ sep) (s : List α) :
    nonEmpty sep (c :: s) = (c :: s).takeWhile (· != sep) ::
      nonEmpty sep (((c :: s).dropWhile (· != sep)).drop 1) := by
  have hfirst : (c :: s).takeWhile (· != sep) ≠ [] := by
    rw [List.takeWhile_cons, if_pos (bne_iff_ne.mpr hc)]
    exact List.cons_ne_nil _ _
  rw [nonEmpty, splitOn_eq, List.filter_cons, if_pos (decide_eq_true hfirst)]
  cases (c :: s).dropWhile (· != sep) with
  | nil => rfl
  | cons _ rest => rfl

/-- A token is the first non-empty field. -/
theorem next_fst (sep : α) (s : List α) : (next sep s).1 = (nonEmpty sep s).head? := by
  rw [next, ← nonEmpty_dropWhile]
  split
  next h => rw [h]; rfl
  next c cs h =>
      have hc : c ≠ sep := by
        have hhead := List.head_dropWhile_not (p := (· == sep)) (l := s) (by rw [h]; simp)
        simpa [h] using hhead
      rw [h, nonEmpty_cons hc]
      rfl

/-- The next call sees the other ones. -/
theorem nonEmpty_next (sep : α) (s : List α) :
    nonEmpty sep (next sep s).2 = (nonEmpty sep s).tail := by
  rw [next, ← nonEmpty_dropWhile sep s]
  split
  next h => rw [h]; rfl
  next c cs h =>
      have hc : c ≠ sep := by
        have hhead := List.head_dropWhile_not (p := (· == sep)) (l := s) (by rw [h]; simp)
        simpa [h] using hhead
      rw [h, nonEmpty_cons hc]
      rfl

/-- What stands in a field stands in the list. -/
theorem mem_of_mem_splitOn {s f : List α} (hf : f ∈ s.splitOn sep) {c : α} (hc : c ∈ f) :
    c ∈ s := by
  induction s generalizing f with
  | nil =>
      rw [List.splitOn_nil, List.mem_singleton] at hf
      exact hf ▸ hc
  | cons d s ih =>
      rw [List.splitOn_cons_eq_if_modifyHead] at hf
      split at hf
      next =>
          rcases List.mem_cons.mp hf with rfl | hf
          · cases hc
          · exact List.mem_cons_of_mem _ (ih hf hc)
      next =>
          cases hs : s.splitOn sep with
          | nil => exact absurd hs (List.splitOn_ne_nil sep s)
          | cons l ls =>
              rw [hs] at hf ih
              rcases List.mem_cons.mp hf with rfl | hf
              · rcases List.mem_cons.mp hc with rfl | hc
                · exact List.mem_cons_self ..
                · exact List.mem_cons_of_mem _ (ih (List.mem_cons_self ..) hc)
              · exact List.mem_cons_of_mem _ (ih (List.mem_cons_of_mem _ hf) hc)

theorem mem_of_mem_nonEmpty {s f : List α} (hf : f ∈ nonEmpty sep s) {c : α} (hc : c ∈ f) :
    c ∈ s :=
  mem_of_mem_splitOn (List.mem_of_mem_filter hf) hc

/-- The last of some fields and the first of others put together. -/
def glue : List (List α) → List (List α) → List (List α)
  | [], gs => gs
  | [f], g :: gs => (f ++ g) :: gs
  | f :: fs, gs => f :: glue fs gs

omit [DecidableEq α] in
theorem glue_cons_cons (f f' : List α) (fs gs : List (List α)) :
    glue (f :: f' :: fs) gs = f :: glue (f' :: fs) gs := by
  cases gs <;> rfl

omit [DecidableEq α] in
theorem glue_modifyHead (c : α) {fs gs : List (List α)} (hfs : fs ≠ []) (hgs : gs ≠ []) :
    glue (fs.modifyHead (List.cons c)) gs = (glue fs gs).modifyHead (List.cons c) := by
  obtain ⟨f, fs, rfl⟩ := List.exists_cons_of_ne_nil hfs
  obtain ⟨g, gs, rfl⟩ := List.exists_cons_of_ne_nil hgs
  cases fs <;> rfl

/-- The fields of a list that is cut somewhere. -/
theorem splitOn_append (sep : α) (s t : List α) :
    (s ++ t).splitOn sep = glue (s.splitOn sep) (t.splitOn sep) := by
  have ht := List.splitOn_ne_nil sep t
  induction s with
  | nil =>
      obtain ⟨g, gs, hg⟩ := List.exists_cons_of_ne_nil ht
      rw [List.nil_append, List.splitOn_nil, hg]
      rfl
  | cons c s ih =>
      have hs := List.splitOn_ne_nil sep s
      rw [List.cons_append, List.splitOn_cons_eq_if_modifyHead, List.splitOn_cons_eq_if_modifyHead, ih]
      split
      next =>
          obtain ⟨f, fs, hf⟩ := List.exists_cons_of_ne_nil hs
          rw [hf, glue_cons_cons]
      next => rw [glue_modifyHead c hs ht]

/-- A list without separators is one field. -/
theorem splitOn_of_not_mem {s : List α} (h : sep ∉ s) : s.splitOn sep = [s] := by
  rw [splitOn_eq, List.takeWhile_eq_self_iff.mpr, List.dropWhile_eq_nil_iff.mpr]
  · exact fun c hc => bne_iff_ne.mpr fun heq => h (heq ▸ hc)
  · exact fun c hc => bne_iff_ne.mpr fun heq => h (heq ▸ hc)

/-! ## Lines -/

/-- Put an element in front of the first piece. -/
def consFirst (c : α) : List (List α) → List (List α)
  | [] => [[c]]
  | l :: ls => (c :: l) :: ls

/-- The lines of a stream, each with its end mark. -/
def lines (mark : α) : List α → List (List α)
  | [] => []
  | c :: s => if c = mark then [c] :: lines mark s else consFirst c (lines mark s)

/-- The pieces of a stream that a reader of at most `n` elements takes, when it has room for
`room` elements in the first. -/
def pieces (mark : α) (n : Nat) : Nat → List α → List (List α)
  | _, [] => []
  | room, c :: s =>
      if c = mark ∨ room ≤ 1 then [c] :: pieces mark n n s
      else consFirst c (pieces mark n (room - 1) s)

theorem lines_append_mark {t : List α} (ht : mark ∉ t) (s : List α) :
    lines mark (t ++ mark :: s) = (t ++ [mark]) :: lines mark s := by
  induction t with
  | nil => rw [List.nil_append, lines, if_pos rfl]; rfl
  | cons c t ih =>
      obtain ⟨hc, ht⟩ := not_or.mp (mt List.mem_cons.mpr ht)
      rw [List.cons_append, lines, if_neg (Ne.symm hc), ih ht]
      rfl

/-- Lines put together are read apart again. -/
theorem lines_of_marked {ts : List (List α)} (hts : ∀ t ∈ ts, mark ∉ t) :
    lines mark (ts.flatMap (· ++ [mark])) = ts.map (· ++ [mark]) := by
  induction ts with
  | nil => rfl
  | cons t ts ih =>
      rw [List.flatMap_cons, List.append_assoc, List.singleton_append,
        lines_append_mark (hts t (List.mem_cons_self ..)),
        ih fun u hu => hts u (List.mem_cons_of_mem _ hu)]
      rfl

/-- Only the last element of a line can be the end mark. -/
theorem mem_lines {s l : List α} (h : l ∈ lines mark s) :
    ∃ t, mark ∉ t ∧ (l = t ++ [mark] ∨ l = t ∧ t ≠ []) := by
  induction s generalizing l with
  | nil => cases h
  | cons c s ih =>
      rw [lines] at h
      split at h
      next hc =>
          rcases List.mem_cons.mp h with rfl | h
          · exact ⟨[], List.not_mem_nil, .inl (by rw [hc]; rfl)⟩
          · exact ih h
      next hc =>
          have hcons : ∀ {t}, mark ∉ t → mark ∉ c :: t := fun ht =>
            not_or.mpr ⟨Ne.symm hc, ht⟩ ∘ List.mem_cons.mp
          cases hls : lines mark s with
          | nil =>
              rw [hls, consFirst, List.mem_singleton] at h
              exact ⟨[c], hcons List.not_mem_nil, .inr ⟨h, List.cons_ne_nil _ _⟩⟩
          | cons l' ls =>
              rw [hls] at ih h
              rcases List.mem_cons.mp h with rfl | h
              · obtain ⟨t, ht, rfl | ⟨rfl, _⟩⟩ := ih (List.mem_cons_self ..)
                · exact ⟨c :: t, hcons ht, .inl rfl⟩
                · exact ⟨c :: l', hcons ht, .inr ⟨rfl, List.cons_ne_nil _ _⟩⟩
              · exact ih (List.mem_cons_of_mem _ h)

theorem lines_unmarked {t : List α} (ht : mark ∉ t) (hne : t ≠ []) : lines mark t = [t] := by
  induction t with
  | nil => exact absurd rfl hne
  | cons c t ih =>
      obtain ⟨hc, ht⟩ := not_or.mp (mt List.mem_cons.mpr ht)
      rw [lines, if_neg (Ne.symm hc)]
      cases t with
      | nil => rfl
      | cons d t => rw [ih ht (List.cons_ne_nil _ _)]; rfl

/-! ## Pieces -/

theorem pieces_ne_nil {s : List α} (h : s ≠ []) (room : Nat) : pieces mark n room s ≠ [] := by
  cases s with
  | nil => exact absurd rfl h
  | cons c s =>
      rw [pieces]
      split
      next => exact List.cons_ne_nil _ _
      next => cases pieces mark n (room - 1) s <;> exact List.cons_ne_nil _ _

omit [DecidableEq α] in
theorem flatten_consFirst (c : α) (ls : List (List α)) :
    (consFirst c ls).flatten = c :: ls.flatten := by
  cases ls <;> rfl

/-- The pieces are the stream. -/
theorem flatten_pieces (mark : α) (n : Nat) (s : List α) (room : Nat) :
    (pieces mark n room s).flatten = s := by
  induction s generalizing room with
  | nil => rfl
  | cons c s ih =>
      rw [pieces]
      split
      next => rw [List.flatten_cons, ih, List.singleton_append]
      next => rw [flatten_consFirst, ih]

theorem ne_nil_of_mem_pieces {s : List α} {room : Nat} : ∀ p ∈ pieces mark n room s, p ≠ [] := by
  induction s generalizing room with
  | nil => exact fun _ hp => by cases hp
  | cons c s ih =>
      rw [pieces]
      split
      next => exact List.forall_mem_cons.mpr ⟨List.cons_ne_nil _ _, ih⟩
      next =>
          have hrest := @ih (room - 1)
          cases hps : pieces mark n (room - 1) s with
          | nil => exact List.forall_mem_singleton.mpr (List.cons_ne_nil _ _)
          | cons p ps =>
              rw [hps] at hrest
              exact List.forall_mem_cons.mpr
                ⟨List.cons_ne_nil _ _, (List.forall_mem_cons.mp hrest).2⟩

/-- The pieces of a line followed by a stream. -/
theorem pieces_append_mark {t : List α} (ht : mark ∉ t) (s : List α) : ∀ room,
    pieces mark n room (t ++ mark :: s) =
      pieces mark n room (t ++ [mark]) ++ pieces mark n n s := by
  induction t with
  | nil =>
      intro room
      simp only [List.nil_append, pieces, true_or, if_true]
      rfl
  | cons c t ih =>
      intro room
      obtain ⟨_, ht⟩ := not_or.mp (mt List.mem_cons.mpr ht)
      simp only [List.cons_append, pieces]
      split
      next => rw [ih ht, List.cons_append]
      next =>
          have hne : pieces mark n (room - 1) (t ++ [mark]) ≠ [] := pieces_ne_nil (by simp) _
          obtain ⟨p, ps, hp⟩ := List.exists_cons_of_ne_nil hne
          rw [ih ht, hp]
          rfl

/-- The pieces of a stream are the pieces of its lines. -/
theorem pieces_eq (mark : α) (n : Nat) (s : List α) :
    pieces mark n n s = (lines mark s).flatMap (pieces mark n n) := by
  induction hlen : s.length using Nat.strong_induction_on generalizing s with
  | _ k ih =>
      by_cases hmem : mark ∈ s
      · obtain ⟨t, rest, rfl, ht⟩ := List.eq_append_cons_of_mem hmem
        rw [pieces_append_mark ht, lines_append_mark ht, List.flatMap_cons]
        congr 1
        apply ih rest.length ?_ rest rfl
        rw [← hlen, List.length_append, List.length_cons]
        omega
      · cases s with
        | nil => rfl
        | cons c s => rw [lines_unmarked hmem (List.cons_ne_nil _ _), List.flatMap_singleton]

/-- A line that fits is one piece. -/
theorem pieces_marked {t : List α} (ht : mark ∉ t) : ∀ {room : Nat}, t.length + 1 ≤ room →
    pieces mark n room (t ++ [mark]) = [t ++ [mark]] := by
  induction t with
  | nil =>
      intro room _
      rw [List.nil_append, pieces, if_pos (.inl rfl)]
      rfl
  | cons c t ih =>
      intro room hroom
      obtain ⟨hc, ht⟩ := not_or.mp (mt List.mem_cons.mpr ht)
      rw [List.length_cons] at hroom
      rw [List.cons_append, pieces, if_neg (not_or.mpr ⟨Ne.symm hc, by omega⟩), ih ht (by omega)]
      rfl

/-- So is a last line without its end mark. -/
theorem pieces_unmarked {t : List α} (ht : mark ∉ t) (hne : t ≠ []) : ∀ {room : Nat},
    t.length ≤ room → pieces mark n room t = [t] := by
  induction t with
  | nil => exact absurd rfl hne
  | cons c t ih =>
      intro room hroom
      obtain ⟨hc, ht⟩ := not_or.mp (mt List.mem_cons.mpr ht)
      rw [List.length_cons] at hroom
      cases t with
      | nil =>
          rw [pieces]
          split <;> rfl
      | cons d t =>
          rw [List.length_cons] at hroom
          rw [pieces, if_neg (not_or.mpr ⟨Ne.symm hc, by omega⟩),
            ih ht (List.cons_ne_nil _ _) (by rw [List.length_cons]; omega)]
          rfl

theorem pieces_line {s l : List α} (hl : l ∈ lines mark s) (hlen : l.length ≤ n) :
    pieces mark n n l = [l] := by
  obtain ⟨t, ht, rfl | ⟨rfl, hne⟩⟩ := mem_lines hl
  · rw [List.length_append, List.length_singleton] at hlen
    exact pieces_marked ht hlen
  · exact pieces_unmarked ht hne hlen

end Fields
