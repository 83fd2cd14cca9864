import DataPropagator.Common.NodeGraph
import DataPropagator.Lib.Fields

/-!
# The lines of the node table

What the read loop of `node_load_all` makes of a file.  Each call of `fgets` takes one piece of
a line, and the pieces are parsed one by one (`fileRows_arr`), whether a piece begins a line
or not.  Of a piece, `strtok` gives the non-empty fields, the first four of which are used
(`parseLine_eq`).
-/

namespace DataPropagator

/-! ## What is read -/

/-- What the calls of `fgets` return one after the other. -/
def lineReads (content : Bytes) : List Bytes :=
  Fields.pieces lineFeed (lineSize - 1) (lineSize - 1) content

/-- A line without its end is read up to the room in the buffer. -/
theorem pieces_readLine (n : Nat) : ∀ (room : Nat) (c : UInt8) (s : Bytes),
    Fields.pieces lineFeed n (room + 1) (c :: s) =
      (readLine (room + 1) (c :: s)).1 ::
        Fields.pieces lineFeed n n (readLine (room + 1) (c :: s)).2 := by
  intro room
  induction room with
  | zero =>
      intro c s
      rw [Fields.pieces, if_pos (.inr le_rfl), readLine]
      split <;> rfl
  | succ room ih =>
      intro c s
      rw [Fields.pieces, readLine]
      by_cases hc : c = lineFeed
      · rw [if_pos (.inl hc), if_pos (beq_iff_eq.mpr hc)]
      · rw [if_neg (not_or.mpr ⟨hc, by omega⟩), if_neg (by simpa using hc)]
        cases s with
        | nil => rfl
        | cons d s =>
            rw [show room + 1 + 1 - 1 = room + 1 by omega, ih d s]
            rfl

theorem lineReads_cons (c : UInt8) (s : Bytes) : ∃ line rest,
    fgets lineSize (c :: s) = some (line, rest) ∧ lineReads (c :: s) = line :: lineReads rest :=
  ⟨_, _, rfl, pieces_readLine _ _ c s⟩

/-- The read loop parses what the calls of `fgets` return. -/
theorem readRows_eq : ∀ (k : Nat) {s : Bytes} (rows : Rows), s.length ≤ k →
    readRows k s rows = (lineReads s).foldl Rows.addLine rows := by
  intro k
  induction k with
  | zero =>
      intro s rows hs
      rw [List.length_eq_zero_iff.mp (Nat.le_zero.mp hs)]
      rfl
  | succ k ih =>
      intro s rows hs
      cases s with
      | nil => rfl
      | cons c s =>
          obtain ⟨line, rest, hread, hreads⟩ := lineReads_cons c s
          obtain ⟨happ, hne⟩ := fgets_spec (by decide) hread
          have hlen := congrArg List.length happ
          have hpos := List.length_pos_iff.mpr hne
          rw [List.length_append] at hlen
          rw [readRows, hread, hreads]
          exact ih _ (by omega)

/-- The rows of a file are what its reads give, in order. -/
theorem foldl_addLine (ls : List Bytes) (rows : Rows) :
    (ls.foldl Rows.addLine rows).arr = rows.arr ++ (ls.filterMap parseLine).map Prod.fst ∧
      (ls.foldl Rows.addLine rows).parentIds =
        rows.parentIds ++ (ls.filterMap parseLine).map Prod.snd := by
  induction ls generalizing rows with
  | nil => exact ⟨(List.append_nil _).symm, (List.append_nil _).symm⟩
  | cons l ls ih =>
      obtain ⟨harr, hids⟩ := ih (rows.addLine l)
      rw [List.foldl_cons, harr, hids, Rows.addLine]
      cases hp : parseLine l with
      | none => rw [List.filterMap_cons_none hp]; exact ⟨rfl, rfl⟩
      | some row =>
          rw [List.filterMap_cons_some hp]
          simp [Rows.add]

/-- The rows that `node_load_all` makes of a file, each with its parent id. -/
def rowsRead (content : Bytes) : List (NodeInfo × Option CString) :=
  (lineReads content).filterMap parseLine

theorem fileRows_arr (content : Bytes) : (fileRows content).arr = (rowsRead content).map Prod.fst :=
  (congrArg Rows.arr (readRows_eq _ _ le_rfl)).trans (foldl_addLine _ _).1

theorem fileRows_parentIds (content : Bytes) :
    (fileRows content).parentIds = (rowsRead content).map Prod.snd :=
  (congrArg Rows.parentIds (readRows_eq _ _ le_rfl)).trans (foldl_addLine _ _).2

/-! ## What is made of it -/

/-- The non-empty fields of what was read, up to a zero byte and without the line end. -/
def tokens (line : Bytes) : List Bytes :=
  Fields.nonEmpty comma (stripLineEnd (CString.ofBuffer line).bytes)

/-- The parent id that is kept for the fourth token. -/
def parentId (pid : Option Bytes) : Option CString :=
  match pid.map trim with
  | some (c :: cs) => some (strdup (c :: cs))
  | _ => none

/-- The row that the tokens make. -/
def rowOfTokens : List Bytes → Option (NodeInfo × Option CString)
  | id :: addr :: ps :: more =>
      some
        ({ id := strdup (trim id)
           address := strdup (trim addr)
           port := UInt16.ofInt (atoi (trim ps))
           parent := none
           children := []
           childCount := 0
           type := .destination },
          parentId more.head?)
  | _ => none

theorem strtok_eq (s : Bytes) : strtok s = Fields.next comma s := by
  rw [strtok, Fields.next]
  cases s.dropWhile (· == comma) with
  | nil => rfl
  | cons c cs => rfl

/-- The four calls of `strtok` give the first four tokens. -/
theorem parseLine_eq (line : Bytes) : parseLine line = rowOfTokens (tokens line) := by
  rw [parseLine, tokens]
  generalize stripLineEnd (CString.ofBuffer line).bytes = p
  simp only [strtok_eq, Fields.next_fst, Fields.nonEmpty_next]
  rcases Fields.nonEmpty comma p with _ | ⟨id, _ | ⟨addr, _ | ⟨ps, more⟩⟩⟩
  · rfl
  · rfl
  · rfl
  · cases more <;> rfl

/-- A token is a string. -/
theorem zero_not_mem_tokens {line t : Bytes} (h : t ∈ tokens line) : (0 : UInt8) ∉ t := by
  intro hzero
  have hmem := Fields.mem_of_mem_nonEmpty h hzero
  rw [stripLineEnd] at hmem
  split at hmem
  next => exact (CString.ofBuffer line).noZero hmem
  next =>
      split at hmem
      · exact (CString.ofBuffer line).noZero (List.mem_of_mem_dropLast hmem)
      · exact (CString.ofBuffer line).noZero hmem

/-- A read makes a row if and only if it has three tokens. -/
theorem rowOfTokens_eq_none_iff (ts : List Bytes) : rowOfTokens ts = none ↔ ts.length < 3 := by
  match ts with
  | [] | [_] | [_, _] => simp [rowOfTokens]
  | _ :: _ :: _ :: _ => simp [rowOfTokens]

/-! ## Trimming -/

theorem trim_eq_nil_iff (s : Bytes) : trim s = [] ↔ ∀ c ∈ s, isspace c = true := by
  rw [trim, List.reverse_eq_nil_iff, List.dropWhile_eq_nil_iff]
  simp only [List.mem_reverse]
  constructor
  · intro h
    rw [← List.dropWhile_eq_nil_iff]
    by_contra hne
    have hhead := List.head_dropWhile_not (p := isspace) (l := s) hne
    rw [h _ (List.head_mem hne)] at hhead
    cases hhead
  · intro h c hc
    exact h c (List.dropWhile_subset _ hc)

/-- Trimming takes the white space around a text away. -/
theorem trim_pad {before core after : Bytes} (hbefore : ∀ c ∈ before, isspace c = true)
    (hafter : ∀ c ∈ after, isspace c = true) (hhead : ∀ c ∈ core.head?, isspace c = false)
    (hlast : ∀ c ∈ core.getLast?, isspace c = false) (hne : core ≠ []) :
    trim (before ++ core ++ after) = core := by
  have hfront : (core ++ after).dropWhile isspace = core ++ after := by
    obtain ⟨c, cs, rfl⟩ := List.exists_cons_of_ne_nil hne
    exact List.dropWhile_cons_of_neg (by rw [hhead c rfl]; decide)
  have hback : core.reverse.dropWhile isspace = core.reverse := by
    obtain ⟨cs, c, rfl⟩ := List.eq_nil_or_concat' core |>.resolve_left hne
    rw [List.reverse_append]
    exact List.dropWhile_cons_of_neg (by rw [hlast c (by simp)]; decide)
  rw [trim, List.append_assoc, List.dropWhile_append_of_pos hbefore, hfront, List.reverse_append,
    List.dropWhile_append_of_pos fun c hc => hafter c (List.mem_reverse.mp hc), hback,
    List.reverse_reverse]

theorem mem_trim {s : Bytes} {c : UInt8} (h : c ∈ trim s) : c ∈ s := by
  rw [trim, List.mem_reverse] at h
  exact List.dropWhile_subset _ (List.mem_reverse.mp (List.dropWhile_subset _ h))

/-- The copy of a trimmed token is the trimmed token. -/
theorem strdup_trim {line t : Bytes} (h : t ∈ tokens line) : (strdup (trim t)).bytes = trim t :=
  CString.bytes_ofBuffer fun hzero => zero_not_mem_tokens h (mem_trim hzero)

/-! ## Numbers -/

theorem isdigit_iff (c : UInt8) : isdigit c = true ↔ 48 ≤ c.toNat ∧ c.toNat ≤ 57 := by
  rw [isdigit, Bool.and_eq_true, decide_eq_true_iff, decide_eq_true_iff, UInt8.le_iff_toNat_le,
    UInt8.le_iff_toNat_le]
  rfl

theorem isspace_iff (c : UInt8) :
    isspace c = true ↔ c.toNat = 32 ∨ 9 ≤ c.toNat ∧ c.toNat ≤ 13 := by
  rw [isspace, Bool.or_eq_true, Bool.and_eq_true, beq_iff_eq, decide_eq_true_iff,
    decide_eq_true_iff, UInt8.le_iff_toNat_le, UInt8.le_iff_toNat_le, ← UInt8.toNat_inj]
  rfl

/-- What a digit is not. -/
theorem not_isspace_of_isdigit {c : UInt8} (h : isdigit c = true) : isspace c = false := by
  rw [← Bool.not_eq_true, isspace_iff]
  have hd := (isdigit_iff c).mp h
  omega

theorem ne_of_isdigit {c : UInt8} (h : isdigit c = true) {d : UInt8}
    (hd : isdigit d = false) : c ≠ d := by
  rintro rfl
  rw [h] at hd
  cases hd

/-- Digits alone are read as their value. -/
theorem atoi_digits {s : Bytes} (h : ∀ c ∈ s, isdigit c = true) :
    atoi s = clampInt (digitsValue s) := by
  cases s with
  | nil => rfl
  | cons c s =>
      have hc := h c (List.mem_cons_self ..)
      have hdrop : (c :: s).dropWhile isspace = c :: s :=
        List.dropWhile_cons_of_neg (by rw [not_isspace_of_isdigit hc]; decide)
      rw [atoi, hdrop]
      simp only [beq_iff_eq, ne_of_isdigit hc (show isdigit 45 = false from rfl),
        ne_of_isdigit hc (show isdigit 43 = false from rfl), if_false]
      rw [List.takeWhile_eq_self_iff.mpr h]

theorem clampInt_of_le {n : Int} (h : -2 ^ 31 ≤ n) (h' : n ≤ 2 ^ 31 - 1) : clampInt n = n := by
  rw [clampInt]
  omega

/-- A number is narrowed to a port by taking it modulo `2 ^ 16`. -/
theorem toNat_ofInt16 (x : Int) : ((UInt16.ofInt x).toNat : Int) = x % 65536 := by
  rw [UInt16.ofInt, UInt16.toNat_ofNat']
  omega

/-! ## The length of an id -/

/-- What is read fits the buffer. -/
theorem lineReads_length_lt (content : Bytes) :
    ∀ line ∈ lineReads content, line.length < lineSize := by
  induction h : content.length using Nat.strong_induction_on generalizing content with
  | _ k ih =>
      intro line hline
      cases content with
      | nil => cases hline
      | cons c s =>
          obtain ⟨first, rest, hread, hreads⟩ := lineReads_cons c s
          obtain ⟨happ, hne⟩ := fgets_spec (by decide) hread
          have hlen := congrArg List.length happ
          have hpos := List.length_pos_iff.mpr hne
          rw [List.length_append] at hlen
          rw [hreads] at hline
          cases List.mem_cons.mp hline with
          | inl he =>
              have hfirst : first = (readLine (lineSize - 1) (c :: s)).1 := by
                rw [fgets, Option.some.injEq] at hread
                rw [hread]
              have hle := readLine_length_le (lineSize - 1) (c :: s)
              rw [he, hfirst]
              exact Nat.lt_of_le_pred (by decide) hle
          | inr hrest => exact ih rest.length (by omega) rest rfl line hrest

theorem strtok_length_le {s t : Bytes} (h : (strtok s).1 = some t) : t.length ≤ s.length := by
  rw [strtok] at h
  split at h
  · cases h
  next c cs hs =>
      rw [Option.some.injEq] at h
      have htake : t.length ≤ (c :: cs).length := h ▸ (List.takeWhile_prefix _).length_le
      exact htake.trans (hs ▸ (List.dropWhile_suffix _).length_le)

theorem trim_length_le (s : Bytes) : (trim s).length ≤ s.length := by
  rw [trim, List.length_reverse]
  refine (List.dropWhile_suffix _).length_le.trans ?_
  rw [List.length_reverse]
  exact (List.dropWhile_suffix _).length_le

theorem stripLineEnd_length_le (p : Bytes) : (stripLineEnd p).length ≤ p.length := by
  rw [stripLineEnd]
  split
  · exact le_rfl
  · split
    · rw [List.length_dropLast]
      omega
    · exact le_rfl

/-- The id of a row is no longer than the line. -/
theorem parseLine_id_length_le {line : Bytes} {row : NodeInfo × Option CString}
    (h : parseLine line = some row) : row.1.id.bytes.length ≤ line.length := by
  simp only [parseLine] at h
  split at h
  next id _ _ hid _ _ =>
      rw [Option.some.injEq] at h
      have hline : (stripLineEnd (CString.ofBuffer line).bytes).length ≤ line.length :=
        (stripLineEnd_length_le _).trans (List.takeWhile_prefix _).length_le
      have hcopy : (strdup (trim id)).bytes.length ≤ (trim id).length :=
        (List.takeWhile_prefix _).length_le
      rw [← h]
      exact hcopy.trans ((trim_length_le id).trans ((strtok_length_le hid).trans hline))
  · cases h

/-- The ids of a table are shorter than the buffer its lines were read into. -/
theorem Loaded.id_length_lt {nodes : List NodeInfo} (h : Loaded nodes) :
    ∀ node ∈ nodes, node.id.bytes.length < lineSize := by
  obtain ⟨content, hc⟩ := h
  obtain ⟨nodes', hn, hcons⟩ := nodeLoadAll_consistent content
  rw [hc, Except.ok.injEq] at hn
  subst hn
  intro node hnode
  obtain ⟨i, hi⟩ := List.mem_iff_getElem?.mp hnode
  obtain ⟨r, hr, hid, _⟩ := hcons.row i node hi
  have hmem := List.mem_of_getElem? hr
  rw [fileRows_arr, List.mem_map] at hmem
  obtain ⟨row, hrow, rfl⟩ := hmem
  obtain ⟨line, hline, hparse⟩ := List.mem_filterMap.mp hrow
  rw [hid]
  exact (parseLine_id_length_le hparse).trans_lt (lineReads_length_lt content line hline)

end DataPropagator
