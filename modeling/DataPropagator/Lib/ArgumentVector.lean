import Mathlib.Data.List.Basic

/-!
# Command lines

How a C run-time library for Windows takes a command line apart.  Arguments end at blanks.  A
quote begins or ends a part in which blanks do not count, two quotes in such a part are one that
is meant, and backslashes count only in front of a quote: two are one that is meant, and one left
over makes the quote one that is meant.  The first argument, the name of the program, knows no
backslashes.

`quoted_iff` says which texts come back when they are put between quotes.
-/

namespace ArgumentVector

/-- The characters with a meaning. -/
structure Marks (α : Type) where
  backslash : α
  quote : α
  blank : α → Bool
  backslash_ne_quote : backslash ≠ quote
  quote_not_blank : blank quote = false
  backslash_not_blank : blank backslash = false

/-- Where in an argument a reader is: outside of quotes, inside, or right behind a quote that ended
a quoted part. -/
inductive Mode where
  | plain
  | quoted
  | closed
deriving DecidableEq, Repr

/-- The mode behind a character that is not a quote. -/
def Mode.after : Mode → Mode
  | .plain => .plain
  | .quoted => .quoted
  | .closed => .plain

/-- The mode behind a quote that is not meant as a character, or is the second of two. -/
def Mode.toggle : Mode → Mode
  | .plain => .quoted
  | .quoted => .closed
  | .closed => .quoted

variable {α : Type} [DecidableEq α]

/-- Characters in front of an argument. -/
def emit (out : List α) (r : List α × List α) : List α × List α := (out ++ r.1, r.2)

/-- An argument and what follows it.  `n` backslashes have been read and not yet been given a
meaning. -/
def argument (m : Marks α) : Mode → Nat → List α → List α × List α
  | _, n, [] => (List.replicate n m.backslash, [])
  | mode, n, c :: s =>
      if c = m.backslash then argument m mode.after (n + 1) s
      else if c = m.quote then
        if n % 2 = 1 then
          emit (List.replicate (n / 2) m.backslash ++ [m.quote]) (argument m mode 0 s)
        else
          emit (List.replicate (n / 2) m.backslash ++ if mode = .closed then [m.quote] else [])
            (argument m mode.toggle 0 s)
      else if mode ≠ .quoted ∧ m.blank c then (List.replicate n m.backslash, c :: s)
      else emit (List.replicate n m.backslash ++ [c]) (argument m mode.after 0 s)

/-- The name of the program and what follows it. -/
def programName (m : Marks α) : Bool → List α → List α × List α
  | _, [] => ([], [])
  | inQuotes, c :: s =>
      if c = m.quote then programName m (!inQuotes) s
      else if !inQuotes && m.blank c then ([], s)
      else emit [c] (programName m inQuotes s)

variable {m : Marks α} {mode : Mode} {n : Nat} {s t out rest used : List α} {b c : α}

/-! ## One character -/

theorem argument_backslash :
    argument m mode n (m.backslash :: s) = argument m mode.after (n + 1) s := by
  rw [argument, if_pos rfl]

theorem argument_quote_odd (hn : n % 2 = 1) : argument m mode n (m.quote :: s) =
    emit (List.replicate (n / 2) m.backslash ++ [m.quote]) (argument m mode 0 s) := by
  rw [argument, if_neg m.backslash_ne_quote.symm, if_pos rfl, if_pos hn]

theorem argument_quote_even (hn : ¬ n % 2 = 1) : argument m mode n (m.quote :: s) =
    emit (List.replicate (n / 2) m.backslash ++ if mode = .closed then [m.quote] else [])
      (argument m mode.toggle 0 s) := by
  rw [argument, if_neg m.backslash_ne_quote.symm, if_pos rfl, if_neg hn]

theorem argument_open : argument m .plain 0 (m.quote :: s) = argument m .quoted 0 s :=
  argument_quote_even (by omega)

theorem argument_blank (hmode : mode ≠ .quoted) (hc : m.blank c = true) :
    argument m mode n (c :: s) = (List.replicate n m.backslash, c :: s) := by
  have hb : c ≠ m.backslash := by
    rintro rfl
    rw [m.backslash_not_blank] at hc
    cases hc
  have hq : c ≠ m.quote := by
    rintro rfl
    rw [m.quote_not_blank] at hc
    cases hc
  rw [argument, if_neg hb, if_neg hq, if_pos ⟨hmode, hc⟩]

theorem argument_other (hb : c ≠ m.backslash) (hq : c ≠ m.quote)
    (hc : mode = .quoted ∨ m.blank c = false) : argument m mode n (c :: s) =
      emit (List.replicate n m.backslash ++ [c]) (argument m mode.after 0 s) := by
  have hgo : ¬ (mode ≠ .quoted ∧ m.blank c = true) := by
    rintro ⟨hmode, hblank⟩
    rcases hc with hc | hc
    · exact hmode hc
    · rw [hc] at hblank
      cases hblank
  rw [argument, if_neg hb, if_neg hq, if_neg hgo]

/-! ## What is lost -/

/-- What an argument uses up becomes part of it, up to a character for a quote.  A quote right
behind a quoted part may cost nothing, any other one does. -/
theorem argument_length (h : argument m mode n s = (out, rest)) :
    ∃ used, s = used ++ rest ∧ out.length ≤ n + used.length ∧
      ((mode ≠ .closed ∧ m.quote ∈ used) ∨ m.quote ∈ used.tail →
        out.length + 1 ≤ n + used.length) := by
  induction s generalizing mode n out with
  | nil =>
      cases h
      exact ⟨[], rfl, by simp, by simp⟩
  | cons c s ih =>
      -- the rest of the argument is never read right behind a quoted part, unless a quote ends one
      have hnext : ∀ {mode' : Mode} {k : Nat} (front : List α),
          emit front (argument m mode' k s) = (out, rest) →
          ∃ out' used, out = front ++ out' ∧ c :: s = (c :: used) ++ rest ∧
            out'.length ≤ k + used.length ∧
            (mode' ≠ .closed → m.quote ∈ used → out'.length + 1 ≤ k + used.length) := by
        intro mode' k front hemit
        rw [emit, Prod.mk.injEq] at hemit
        obtain ⟨used, hused, hle, hlt⟩ := ih (Prod.ext rfl hemit.2)
        refine ⟨_, used, hemit.1.symm, by rw [hused]; rfl, hle, ?_⟩
        exact fun hmode hquote => hlt (Or.inl ⟨hmode, hquote⟩)
      have hafter : mode.after ≠ .closed := by cases mode <;> simp [Mode.after]
      by_cases hb : c = m.backslash
      · subst hb
        rw [argument_backslash] at h
        obtain ⟨out', used, rfl, hused, hle, hlt⟩ :=
          hnext [] (by rw [h]; rfl)
        refine ⟨_, hused, by simp at *; omega, ?_⟩
        intro hquote
        have hmem : m.quote ∈ used := by
          rcases hquote with ⟨_, hquote⟩ | hquote
          · exact (List.mem_cons.mp hquote).resolve_left m.backslash_ne_quote.symm
          · exact hquote
        have hcost := hlt hafter hmem
        simp
        omega
      by_cases hq : c = m.quote
      · subst hq
        by_cases hn : n % 2 = 1
        · rw [argument_quote_odd hn] at h
          obtain ⟨out', used, rfl, hused, hle, _⟩ := hnext _ h
          exact ⟨_, hused, by simp; omega, fun _ => by simp; omega⟩
        · rw [argument_quote_even hn] at h
          obtain ⟨out', used, rfl, hused, hle, hlt⟩ := hnext _ h
          refine ⟨_, hused, by split <;> simp <;> omega, ?_⟩
          intro hquote
          cases mode with
          | plain => simp; omega
          | quoted => simp; omega
          | closed =>
              have hmem : m.quote ∈ used := by simpa using hquote
              have hcost := hlt (by simp [Mode.toggle]) hmem
              simp
              omega
      by_cases hc : mode = .quoted ∨ m.blank c = false
      · rw [argument_other hb hq hc] at h
        obtain ⟨out', used, rfl, hused, hle, hlt⟩ := hnext _ h
        refine ⟨_, hused, by simp; omega, ?_⟩
        intro hquote
        have hmem : m.quote ∈ used := by
          rcases hquote with ⟨_, hquote⟩ | hquote
          · exact (List.mem_cons.mp hquote).resolve_left (Ne.symm hq)
          · exact hquote
        have hcost := hlt hafter hmem
        simp
        omega
      · rw [not_or, Bool.not_eq_false] at hc
        rw [argument_blank hc.1 hc.2] at h
        cases h
        exact ⟨[], rfl, by simp, by simp⟩

/-- The same of an argument by its parts. -/
theorem argument_cost (m : Marks α) (mode : Mode) (n : Nat) (s : List α) {rest : List α}
    (h : (argument m mode n s).2 = rest) :
    ∃ used, s = used ++ rest ∧ (argument m mode n s).1.length ≤ n + used.length ∧
      ((mode ≠ .closed ∧ m.quote ∈ used) ∨ m.quote ∈ used.tail →
        (argument m mode n s).1.length + 1 ≤ n + used.length) :=
  argument_length (Prod.ext rfl h)

/-! ## Inside of quotes -/

/-- A quoted part that is not closed goes on to the end. -/
theorem argument_unclosed (hs : m.quote ∉ s) : (argument m .quoted n s).2 = [] := by
  induction s generalizing n with
  | nil => rfl
  | cons c s ih =>
      rw [List.mem_cons, not_or] at hs
      by_cases hb : c = m.backslash
      · rw [hb, argument_backslash]
        exact ih hs.2
      · rw [argument_other hb (Ne.symm hs.1) (Or.inl rfl)]
        exact ih hs.2

/-- Inside of quotes everything up to the next quote is taken over.  What is not yet part of the
argument are the backslashes in front of that quote. -/
theorem argument_inside (hx : m.quote ∉ t) :
    ∃ front k, argument m .quoted n (t ++ s) = emit front (argument m .quoted k s) ∧
      front ++ List.replicate k m.backslash = List.replicate n m.backslash ++ t ∧
      front.getLast? ≠ some m.backslash := by
  induction t generalizing n with
  | nil => exact ⟨[], n, rfl, by simp, by simp⟩
  | cons c t ih =>
      rw [List.mem_cons, not_or] at hx
      by_cases hb : c = m.backslash
      · obtain ⟨front, k, harg, hfront, hlast⟩ := ih (n := n + 1) hx.2
        refine ⟨front, k, ?_, ?_, hlast⟩
        · rw [hb, List.cons_append, argument_backslash]
          exact harg
        · rw [hfront, hb, List.replicate_succ', List.append_assoc, List.singleton_append]
      · obtain ⟨front, k, harg, hfront, hlast⟩ := ih (n := 0) hx.2
        refine ⟨List.replicate n m.backslash ++ [c] ++ front, k, ?_, ?_, ?_⟩
        · rw [List.cons_append, argument_other hb (Ne.symm hx.1) (Or.inl rfl)]
          show emit _ (argument m .quoted 0 (t ++ s)) = _
          rw [harg]
          simp only [emit, List.append_assoc]
        · rw [List.append_assoc, hfront]
          simp
        · rw [List.getLast?_append]
          cases hl : front.getLast? with
          | none => simpa using hb
          | some d =>
              rw [hl] at hlast
              simpa using hlast

/-- A text that comes back when it is put between quotes: it holds no quote and does not end in a
backslash. -/
def Quotable (m : Marks α) (x : List α) : Prop :=
  m.quote ∉ x ∧ x.getLast? ≠ some m.backslash

instance (m : Marks α) (x : List α) : Decidable (Quotable m x) :=
  inferInstanceAs (Decidable (_ ∧ _))

variable {x : List α}

/-- A text without quotes between quotes, and a blank behind it. -/
theorem argument_quoted_plain (hb : m.blank b = true) (hx : m.quote ∉ x)
    (hlast : x.getLast? ≠ some m.backslash) :
    argument m .quoted 0 (x ++ m.quote :: b :: s) = (x, b :: s) := by
  obtain ⟨front, k, harg, hfront, _⟩ := argument_inside (n := 0) (s := m.quote :: b :: s) hx
  rw [List.replicate_zero, List.nil_append] at hfront
  have hk : k = 0 := by
    cases k with
    | zero => rfl
    | succ k =>
        rw [← hfront, List.replicate_succ', ← List.append_assoc, List.getLast?_concat] at hlast
        exact absurd rfl hlast
  subst hk
  rw [harg, argument_quote_even (by omega)]
  simp only [Mode.toggle]
  rw [argument_blank (by simp) hb, ← hfront]
  simp [emit]

/-- A text that does not come back. -/
theorem argument_quoted_other (hb : m.blank b = true) (hs : m.quote ∉ b :: s)
    (hx : ¬ Quotable m x) :
    argument m .quoted 0 (x ++ m.quote :: b :: s) ≠ (x, b :: s) := by
  intro harg
  by_cases hquote : m.quote ∈ x
  · -- the text up to its first quote, with the backslashes in front of that quote
    obtain ⟨y, z, rfl, hy⟩ := List.eq_append_cons_of_mem hquote
    obtain ⟨front, k, hinside, hfront, _⟩ :=
      argument_inside (n := 0) (s := m.quote :: (z ++ m.quote :: b :: s)) hy
    rw [List.replicate_zero, List.nil_append] at hfront
    have hlength := congrArg List.length hfront
    rw [List.append_assoc, List.cons_append, hinside] at harg
    simp only [List.length_append, List.length_replicate] at hlength
    -- what is used up from there is the rest of the text and the quote behind it
    have hused : ∀ {used : List α}, z ++ m.quote :: b :: s = used ++ b :: s →
        used = z ++ [m.quote] := by
      intro used h
      rw [List.append_cons] at h
      exact (List.append_cancel_right h).symm
    by_cases hk : k % 2 = 1
    · rw [argument_quote_odd hk, emit, emit, Prod.mk.injEq] at harg
      obtain ⟨used, hall, _, hcost⟩ := argument_cost m _ _ _ harg.2
      rw [hused hall] at hcost
      have hcost := hcost (Or.inl ⟨by simp, by simp⟩)
      have htotal := congrArg List.length harg.1
      simp at htotal hcost
      omega
    · rw [argument_quote_even hk, emit, emit, Prod.mk.injEq] at harg
      cases z with
      | nil =>
          -- two quotes, so the part is not closed
          have hrest := harg.2
          simp only [Mode.toggle, List.nil_append] at hrest
          rw [argument_quote_even (by omega)] at hrest
          simp only [emit, Mode.toggle, argument_unclosed hs] at hrest
          cases hrest
      | cons d z =>
          obtain ⟨used, hall, _, hcost⟩ := argument_cost m _ _ _ harg.2
          rw [hused hall] at hcost
          have hcost := hcost (Or.inr (by simp))
          have htotal := congrArg List.length harg.1
          simp at htotal hcost
          omega
  · obtain ⟨front, k, hinside, hfront, hlast⟩ :=
      argument_inside (n := 0) (s := m.quote :: b :: s) hquote
    rw [List.replicate_zero, List.nil_append] at hfront
    have hlength := congrArg List.length hfront
    rw [hinside] at harg
    by_cases hk : k % 2 = 1
    · rw [argument_quote_odd hk, emit, emit, Prod.mk.injEq, argument_unclosed hs] at harg
      cases harg.2
    · rw [argument_quote_even hk] at harg
      simp only [Mode.toggle] at harg
      rw [argument_blank (by simp) hb, emit, emit, Prod.mk.injEq] at harg
      have htotal := congrArg List.length harg.1
      simp at htotal hlength
      obtain rfl : k = 0 := by omega
      rw [List.replicate_zero, List.append_nil] at hfront
      exact hx ⟨hquote, hfront ▸ hlast⟩

/-- A text between quotes in front of a blank, with no quote to come, is read back if and only if
it holds no quote and does not end in a backslash. -/
theorem quoted_iff (hb : m.blank b = true) (hs : m.quote ∉ b :: s) :
    argument m .plain 0 (m.quote :: (x ++ m.quote :: b :: s)) = (x, b :: s) ↔ Quotable m x := by
  rw [argument_open]
  constructor
  · intro harg
    by_contra hx
    exact argument_quoted_other hb hs hx harg
  · exact fun hx => argument_quoted_plain hb hx.1 hx.2

/-! ## All arguments -/

/-- A text without marks is read back. -/
theorem argument_word (hx : ∀ c ∈ x, c ≠ m.backslash ∧ c ≠ m.quote ∧ m.blank c = false) :
    argument m .plain 0 x = (x, []) := by
  induction x with
  | nil => rfl
  | cons c x ih =>
      obtain ⟨hb, hq, hc⟩ := hx c (List.mem_cons_self ..)
      rw [argument_other hb hq (Or.inr hc)]
      show emit [c] (argument m .plain 0 x) = _
      rw [ih fun d hd => hx d (List.mem_cons_of_mem _ hd)]
      rfl

theorem argument_rest_le : (argument m mode n s).2.length ≤ s.length := by
  obtain ⟨used, hused, _⟩ := argument_cost m mode n s rfl
  have hlength := congrArg List.length hused
  rw [List.length_append] at hlength
  omega

/-- An argument ends at a blank or at the end. -/
theorem argument_rest_blank (h : (argument m mode n s).2 = c :: t) : m.blank c = true := by
  induction s generalizing mode n with
  | nil => cases h
  | cons d s ih =>
      by_cases hb : d = m.backslash
      · rw [hb, argument_backslash] at h
        exact ih h
      by_cases hq : d = m.quote
      · rw [hq] at h
        by_cases hn : n % 2 = 1
        · rw [argument_quote_odd hn] at h
          exact ih h
        · rw [argument_quote_even hn] at h
          exact ih h
      by_cases hd : mode = .quoted ∨ m.blank d = false
      · rw [argument_other hb hq hd] at h
        exact ih h
      · rw [not_or, Bool.not_eq_false] at hd
        rw [argument_blank hd.1 hd.2] at h
        cases h
        exact hd.2

theorem argument_rest_lt (hc : m.blank c = false) :
    (argument m .plain 0 (c :: s)).2.length < (c :: s).length := by
  by_cases hb : c = m.backslash
  · rw [hb, argument_backslash]
    exact Nat.lt_succ_of_le argument_rest_le
  by_cases hq : c = m.quote
  · rw [hq, argument_open]
    exact Nat.lt_succ_of_le argument_rest_le
  · rw [argument_other hb hq (Or.inr hc)]
    exact Nat.lt_succ_of_le argument_rest_le

omit [DecidableEq α] in
theorem dropWhile_head {p : α → Bool} (h : s.dropWhile p = c :: t) : p c = false := by
  have hhead := List.head?_dropWhile_not p s
  rwa [h] at hhead

omit [DecidableEq α] in
theorem dropWhile_length_le (p : α → Bool) (s : List α) :
    (s.dropWhile p).length ≤ s.length := (List.dropWhile_sublist p).length_le

/-- The arguments behind the name of the program. -/
def arguments (m : Marks α) (s : List α) : List (List α) :=
  match _h : s.dropWhile m.blank with
  | [] => []
  | c :: t => (argument m .plain 0 (c :: t)).1 :: arguments m (argument m .plain 0 (c :: t)).2
termination_by s.length
decreasing_by
  have hlt := argument_rest_lt (m := m) (s := t) (dropWhile_head _h)
  have hle := dropWhile_length_le m.blank s
  rw [_h] at hle
  omega

/-- `argv`. -/
def argv (m : Marks α) (s : List α) : List (List α) :=
  (programName m false s).1 :: arguments m (programName m false s).2

theorem arguments_nil : arguments m [] = [] := by
  rw [arguments]
  rfl

theorem arguments_eq (h : s.dropWhile m.blank = c :: t) : arguments m s =
    (argument m .plain 0 (c :: t)).1 :: arguments m (argument m .plain 0 (c :: t)).2 := by
  rw [arguments]
  split
  next hnil =>
      rw [hnil] at h
      cases h
  next hcons =>
      rw [hcons] at h
      cases h
      rfl

theorem arguments_cons (hc : m.blank c = false) : arguments m (c :: s) =
    (argument m .plain 0 (c :: s)).1 :: arguments m (argument m .plain 0 (c :: s)).2 :=
  arguments_eq (by rw [List.dropWhile_cons, hc]; rfl)

/-- The quoted name of the program, with no quote in it. -/
theorem programName_quoted (hb : m.blank b = true) (hx : m.quote ∉ x) :
    programName m false (m.quote :: (x ++ m.quote :: b :: s)) = (x, s) := by
  have hbq : b ≠ m.quote := by
    rintro rfl
    rw [m.quote_not_blank] at hb
    cases hb
  have hinside : programName m true (x ++ m.quote :: b :: s) = (x, s) := by
    induction x with
    | nil =>
        rw [List.nil_append, programName, if_pos rfl, programName, if_neg hbq]
        simp [hb]
    | cons c x ih =>
        rw [List.mem_cons, not_or] at hx
        rw [List.cons_append, programName, if_neg (Ne.symm hx.1)]
        simp only [Bool.not_true, Bool.false_and, Bool.false_eq_true, if_false, ih hx.2]
        rfl
  rw [programName, if_pos rfl]
  exact hinside

variable {word : List α}

/-- Where one more argument follows the quoted text, it is the word. -/
theorem argument_rest_eq (hword : ∀ c ∈ word, m.blank c = false)
    (hx : (argument m .plain 0 (m.quote :: (x ++ m.quote :: b :: word))).1 = x)
    (hrest : arguments m (argument m .plain 0 (m.quote :: (x ++ m.quote :: b :: word))).2 ≠ []) :
    (argument m .plain 0 (m.quote :: (x ++ m.quote :: b :: word))).2 = b :: word := by
  obtain ⟨used, hused, _, hcost⟩ :=
    argument_cost m .plain 0 (m.quote :: (x ++ m.quote :: b :: word)) rfl
  have hblank : ∀ c t, (argument m .plain 0 (m.quote :: (x ++ m.quote :: b :: word))).2 = c :: t →
      m.blank c = true := fun _ _ => argument_rest_blank
  rw [hx] at hcost
  generalize (argument m .plain 0 (m.quote :: (x ++ m.quote :: b :: word))).2 = rest at *
  have hquote : ∀ t, rest ≠ m.quote :: t := by
    rintro t rfl
    have hmark := hblank _ _ rfl
    rw [m.quote_not_blank] at hmark
    cases hmark
  cases used with
  | nil =>
      rw [List.nil_append] at hused
      exact absurd hused.symm (hquote _)
  | cons d used =>
      rw [List.cons_append, List.cons.injEq] at hused
      obtain ⟨rfl, hused⟩ := hused
      have hcost := hcost (Or.inl ⟨by simp, by simp⟩)
      rw [List.length_cons] at hcost
      rcases List.append_eq_append_iff.mp hused with ⟨as, rfl, has⟩ | ⟨cs, rfl, hcs⟩
      · -- the text is used up
        cases as with
        | nil => exact absurd has.symm (hquote _)
        | cons e as =>
            rw [List.cons_append, List.cons.injEq] at has
            cases as with
            | nil => exact has.2.symm
            | cons f as =>
                rw [List.cons_append, List.cons.injEq] at has
                cases rest with
                | nil => exact absurd arguments_nil hrest
                | cons c t =>
                    have hc : c ∈ word := by simp [has.2.2]
                    have hmark := hblank c t rfl
                    rw [hword c hc] at hmark
                    cases hmark
      · cases cs with
        | nil => exact absurd hcs (hquote _)
        | cons e cs =>
            simp only [List.length_cons, List.length_append] at hcost
            omega

/-- Which line a name, a text and a word are put into. -/
def line (m : Marks α) (b : α) (name x word : List α) : List α :=
  m.quote :: (name ++ m.quote :: b :: m.quote :: (x ++ m.quote :: b :: word))

omit [DecidableEq α] in
theorem quote_not_behind (hb : m.blank b = true)
    (hword : ∀ c ∈ word, c ≠ m.backslash ∧ c ≠ m.quote ∧ m.blank c = false) :
    m.quote ∉ b :: word := by
  rw [List.mem_cons, not_or]
  refine ⟨?_, fun hmem => (hword _ hmem).2.1 rfl⟩
  rintro rfl
  rw [m.quote_not_blank] at hb
  cases hb

section Line

variable {name : List α} (hname : m.quote ∉ name) (hb : m.blank b = true)
  (hword : ∀ c ∈ word, c ≠ m.backslash ∧ c ≠ m.quote ∧ m.blank c = false)
include hname hb

theorem argv_line : argv m (line m b name x word) =
    name :: (argument m .plain 0 (m.quote :: (x ++ m.quote :: b :: word))).1 ::
      arguments m (argument m .plain 0 (m.quote :: (x ++ m.quote :: b :: word))).2 := by
  rw [line, argv, programName_quoted hb hname, arguments_cons m.quote_not_blank]

include hword

/-- The line is taken apart into what was put into it. -/
theorem argv_of_quotable (hne : word ≠ []) (hx : Quotable m x) :
    argv m (line m b name x word) = [name, x, word] := by
  rw [argv_line hname hb, (quoted_iff hb (quote_not_behind hb hword)).mpr hx]
  cases word with
  | nil => exact absurd rfl hne
  | cons c word =>
      have hc := (hword c (List.mem_cons_self ..)).2.2
      have hdrop : (b :: c :: word).dropWhile m.blank = c :: word := by
        rw [List.dropWhile_cons, hb, if_pos rfl, List.dropWhile_cons, hc]
        rfl
      rw [arguments_eq hdrop, argument_word hword, arguments_nil]

/-- If three arguments are read and the second is the text, then the text may be quoted. -/
theorem quotable_of_argv {a w : List α} (h : argv m (line m b name x word) = [a, x, w]) :
    Quotable m x := by
  rw [argv_line hname hb, List.cons.injEq, List.cons.injEq] at h
  rw [← quoted_iff hb (quote_not_behind hb hword)]
  refine Prod.ext h.2.1 (argument_rest_eq (fun c hc => (hword c hc).2.2) h.2.1 ?_)
  rw [h.2.2]
  exact List.cons_ne_nil _ _

end Line

/-- An argument holds characters of the line, backslashes and quotes. -/
theorem mem_argument (hc : c ∈ (argument m mode n s).1) :
    c ∈ s ∨ c = m.backslash ∨ c = m.quote := by
  induction s generalizing mode n with
  | nil => exact Or.inr (Or.inl (List.eq_of_mem_replicate hc))
  | cons d s ih =>
      have hrest : ∀ {mode' : Mode} {k : Nat}, c ∈ (argument m mode' k s).1 →
          c ∈ d :: s ∨ c = m.backslash ∨ c = m.quote :=
        fun hmem => (ih hmem).imp_left (List.mem_cons_of_mem d)
      by_cases hb : d = m.backslash
      · rw [hb, argument_backslash] at hc
        exact hrest hc
      by_cases hq : d = m.quote
      · rw [hq] at hc
        by_cases hn : n % 2 = 1
        · rw [argument_quote_odd hn, emit, List.mem_append, List.mem_append] at hc
          rcases hc with (hc | hc) | hc
          · exact Or.inr (Or.inl (List.eq_of_mem_replicate hc))
          · exact Or.inr (Or.inr (List.mem_singleton.mp hc))
          · exact hrest hc
        · rw [argument_quote_even hn, emit, List.mem_append, List.mem_append] at hc
          rcases hc with (hc | hc) | hc
          · exact Or.inr (Or.inl (List.eq_of_mem_replicate hc))
          · split at hc
            · exact Or.inr (Or.inr (List.mem_singleton.mp hc))
            · cases hc
          · exact hrest hc
      by_cases hd : mode = .quoted ∨ m.blank d = false
      · rw [argument_other hb hq hd, emit, List.mem_append, List.mem_append] at hc
        rcases hc with (hc | hc) | hc
        · exact Or.inr (Or.inl (List.eq_of_mem_replicate hc))
        · exact Or.inl (List.mem_cons.mpr (Or.inl (List.mem_singleton.mp hc)))
        · exact hrest hc
      · rw [not_or, Bool.not_eq_false] at hd
        rw [argument_blank hd.1 hd.2] at hc
        exact Or.inr (Or.inl (List.eq_of_mem_replicate hc))

end ArgumentVector
