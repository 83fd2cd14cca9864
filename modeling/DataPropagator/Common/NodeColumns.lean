import DataPropagator.Common.NodeFile

/-!
# Columns that are misread

What `node_load_all` makes of a physical line, whatever the file holds.  A node should come
from one line, no line should give two, and what a node has should stand in the first four
columns of its line.

`fgets` cuts a long line into several reads, and of a read only what comes before a zero byte
is seen.  In text mode the file ends at the first Ctrl-Z.  So a read shows a part of its line,
and the rest of the line is not seen with it.  Where the part has three non-empty columns it
makes a node, and `strtok` takes what follows an empty column for the column.

A node is right if the part begins the line, its first three columns are not empty, the third
column of the line is the number of a port, no text follows an empty fourth, and nothing is
cut off from the third and the fourth but white space.
-/

namespace DataPropagator

/-! ## Lines and columns -/

/-- The physical lines of a file, each with its line feed. -/
def physicalLines (content : Bytes) : List Bytes := Fields.lines lineFeed content

/-- The lines up to the one with the first Ctrl-Z. -/
def upToControlZ : List Bytes → List Bytes
  | [] => []
  | line :: ls => if controlZ ∈ line then [line] else line :: upToControlZ ls

/-- The physical lines of which something is read. -/
def seenLines (content : Bytes) : List Bytes := upToControlZ (physicalLines content)

/-- A line without its line feed. -/
def lineText (line : Bytes) : Bytes := line.takeWhile (· != lineFeed)

/-- The columns of a line. -/
def columns (line : Bytes) : List Bytes := (lineText line).splitOn comma

/-- The rows that `node_load_all` makes of a line, each with its parent id. -/
def lineRows (line : Bytes) : List (NodeInfo × Option CString) := rowsRead (textMode line)

/-- The value of a text of decimal digits. -/
def decimalValue (s : Bytes) : Option Nat :=
  if s ≠ [] ∧ s.all isdigit = true then some (digitsValue s) else none

/-- The number that a text is, in decimal digits with or without a sign. -/
def writtenNumber : Bytes → Option Int
  | [] => none
  | c :: s =>
      if c = 45 then (decimalValue s).map fun n => -Int.ofNat n
      else if c = 43 then (decimalValue s).map Int.ofNat
      else (decimalValue (c :: s)).map Int.ofNat

/-- A row has what stands in the first four columns of a line. -/
def ReadsRight (line : Bytes) (row : NodeInfo × Option CString) : Prop :=
  ∃ c1 c2 c3 rest, columns line = c1 :: c2 :: c3 :: rest ∧
    row.1.id.bytes = trim c1 ∧ row.1.address.bytes = trim c2 ∧
    writtenNumber (trim c3) = some (row.1.port.toNat : Int) ∧
    (row.2.map CString.bytes).getD [] = trim (rest.head?.getD [])

/-- What is made of a line is nothing, or one row that is right. -/
def LineReadRight (line : Bytes) : Prop :=
  lineRows line = [] ∨ ∃ row, lineRows line = [row] ∧ ReadsRight line row

/-- Every node comes from one physical line, which is read right. -/
def NoColumnMisread (content : Bytes) : Prop :=
  ∃ nodes, nodeLoadAll (some (textMode content)) = .ok nodes ∧
    Consistent (fileRows (textMode content)) nodes ∧
    (fileRows (textMode content)).arr.zip (fileRows (textMode content)).parentIds =
      (seenLines content).flatMap lineRows ∧
    ∀ line ∈ seenLines content, LineReadRight line

/-! ## The condition -/

/-- White space only. -/
def Blank (s : Bytes) : Prop := ∀ c ∈ s, isspace c = true

/-- A text is, but for white space around it, the decimal number of a port. -/
def IsPort (s : Bytes) (n : Int) : Prop := writtenNumber (trim s) = some n ∧ 0 ≤ n ∧ n ≤ 65535

/-- What is seen of a read. -/
def seenOf (read : Bytes) : Bytes := stripLineEnd (CString.ofBuffer read).bytes

/-- A read has three columns that are not empty. -/
def makesRow (read : Bytes) : Bool := 3 ≤ (tokens read).length

/-- A read of a line, what stands before it in the line, and the text behind what is seen. -/
structure Shown where
  before : Bytes
  read : Bytes
  after : Bytes
deriving DecidableEq, Repr

/-- The reads of a text, of which `before` was read. -/
def shownFrom (before text : Bytes) : List Bytes → List Shown
  | [] => []
  | read :: reads =>
      { before, read, after := text.drop (seenOf read).length } ::
        shownFrom (before ++ read) (text.drop read.length) reads

/-- The reads of a line. -/
def shown (line : Bytes) : List Shown :=
  shownFrom [] (lineText line) (lineReads (textMode line))

/-- The columns that are seen, and those behind, the first of which was cut off from the last
that is seen. -/
inductive ColumnsInPlace : List Bytes → List Bytes → Prop where
  /-- The third column is cut, within white space or from a number of zeros. -/
  | third {c1 c2 c3 cut : Bytes} {behind : List Bytes} {n : Int} : c1 ≠ [] → c2 ≠ [] → c3 ≠ [] →
      IsPort (c3 ++ cut) n → Blank cut ∨ n = 0 → Blank (behind.head?.getD []) →
      ColumnsInPlace [c1, c2, c3] (cut :: behind)
  /-- The fourth column is cut within white space. -/
  | fourth {c1 c2 c3 c4 cut : Bytes} {behind : List Bytes} {n : Int} : c1 ≠ [] → c2 ≠ [] →
      c3 ≠ [] → IsPort c3 n → Blank cut → ColumnsInPlace [c1, c2, c3, c4] (cut :: behind)
  /-- Four columns are seen whole, and no text follows an empty fourth. -/
  | whole {c1 c2 c3 c4 c5 : Bytes} {more behind : List Bytes} {n : Int} : c1 ≠ [] → c2 ≠ [] →
      c3 ≠ [] → IsPort c3 n →
      (c4 = [] → Blank (((c5 :: more).filter (· ≠ [])).head?.getD [])) →
      ColumnsInPlace (c1 :: c2 :: c3 :: c4 :: c5 :: more) behind

/-- A read begins its line but for white space, and the columns are where they should be. -/
structure Shown.InPlace (s : Shown) : Prop where
  begins : Blank s.before
  columns : ColumnsInPlace ((seenOf s.read).splitOn comma) (s.after.splitOn comma)

/-- At most one read of the line makes a row, and its columns are in place. -/
def LineInPlace (line : Bytes) : Prop :=
  match (shown line).filter fun s => makesRow s.read with
  | [] => True
  | [s] => s.InPlace
  | _ => False

/-- What makes a row begins its line but for white space. -/
def RowsBeginLines (content : Bytes) : Prop :=
  ∀ line ∈ seenLines content, ∀ s ∈ (shown line).filter fun s => makesRow s.read, Blank s.before

/-! ## White space -/

theorem blank_iff (s : Bytes) : Blank s ↔ trim s = [] := (trim_eq_nil_iff s).symm

theorem blank_nil : Blank [] := fun _ hc => by cases hc

/-- White space in front does not matter. -/
theorem trim_blank_append {b : Bytes} (hb : Blank b) (s : Bytes) : trim (b ++ s) = trim s := by
  rw [trim, List.dropWhile_append_of_pos hb, trim]

/-- White space behind does not matter. -/
theorem trim_append_blank (s : Bytes) {b : Bytes} (hb : Blank b) : trim (s ++ b) = trim s := by
  by_cases hs : Blank s
  · rw [(blank_iff s).mp hs, trim_blank_append hs, (blank_iff b).mp hb]
  · have hne : (s.dropWhile isspace).isEmpty = false := by
      rw [List.isEmpty_eq_false_iff, ne_eq, List.dropWhile_eq_nil_iff]
      exact hs
    have hback : ∀ c ∈ b.reverse, isspace c = true := fun c hc => hb c (List.mem_reverse.mp hc)
    rw [trim, List.dropWhile_append, hne, trim, if_neg (by decide), List.reverse_append,
      List.dropWhile_append_of_pos hback]

/-- Trimming keeps everything but white space. -/
theorem filter_trim (s : Bytes) :
    (trim s).filter (fun c => !isspace c) = s.filter fun c => !isspace c := by
  have hdrop : ∀ t : Bytes, (t.dropWhile isspace).filter (fun c => !isspace c) =
      t.filter fun c => !isspace c := by
    intro t
    induction t with
    | nil => rfl
    | cons c t ih =>
        cases hc : isspace c with
        | true =>
            rw [List.dropWhile_cons_of_pos hc, List.filter_cons_of_neg (by simp [hc])]
            exact ih
        | false => rw [List.dropWhile_cons_of_neg (by simp [hc])]
  rw [trim, List.filter_reverse, hdrop, ← List.filter_reverse, List.reverse_reverse, hdrop]

/-- Only white space behind does not matter. -/
theorem trim_append_eq_iff (s t : Bytes) : trim (s ++ t) = trim s ↔ Blank t := by
  constructor
  · intro h c hc
    have hfilter := congrArg (List.filter fun c => !isspace c) h
    rw [filter_trim, filter_trim, List.filter_append, List.append_right_eq_self] at hfilter
    have hnone := List.filter_eq_nil_iff.mp hfilter c hc
    simpa using hnone
  · exact fun h => trim_append_blank s h

/-! ## Numbers -/

theorem decimalValue_eq_some {s : Bytes} {n : Nat} (h : decimalValue s = some n) :
    (∀ c ∈ s, isdigit c = true) ∧ n = digitsValue s := by
  obtain ⟨⟨_, hall⟩, rfl⟩ := Option.ite_some_none_eq_some.mp h
  exact ⟨List.all_eq_true.mp hall, rfl⟩

/-- A number is written with a minus sign, with a plus sign or without a sign. -/
theorem writtenNumber_cases {s : Bytes} {n : Int} (h : writtenNumber s = some n) :
    (∃ d, s = 45 :: d ∧ (∀ c ∈ d, isdigit c = true) ∧ n = -(digitsValue d : Int)) ∨
    (∃ d, s = 43 :: d ∧ (∀ c ∈ d, isdigit c = true) ∧ n = digitsValue d) ∨
    ((∀ c ∈ s, isdigit c = true) ∧ n = digitsValue s) := by
  cases s with
  | nil => cases h
  | cons c s =>
      rw [writtenNumber] at h
      split at h
      next hminus =>
          obtain ⟨m, hm, rfl⟩ := Option.map_eq_some_iff.mp h
          obtain ⟨hdigit, rfl⟩ := decimalValue_eq_some hm
          exact Or.inl ⟨s, by rw [hminus], hdigit, rfl⟩
      next =>
          split at h
          next hplus =>
              obtain ⟨m, hm, rfl⟩ := Option.map_eq_some_iff.mp h
              obtain ⟨hdigit, rfl⟩ := decimalValue_eq_some hm
              exact Or.inr (Or.inl ⟨s, by rw [hplus], hdigit, rfl⟩)
          next =>
              obtain ⟨m, hm, rfl⟩ := Option.map_eq_some_iff.mp h
              obtain ⟨hdigit, rfl⟩ := decimalValue_eq_some hm
              exact Or.inr (Or.inr ⟨hdigit, rfl⟩)

theorem atoi_minus {d : Bytes} (h : ∀ c ∈ d, isdigit c = true) :
    atoi (45 :: d) = clampInt (-(digitsValue d : Int)) := by
  rw [atoi, List.dropWhile_cons_of_neg (by decide)]
  simp [List.takeWhile_eq_self_iff.mpr h]

theorem atoi_plus {d : Bytes} (h : ∀ c ∈ d, isdigit c = true) :
    atoi (43 :: d) = clampInt (digitsValue d) := by
  rw [atoi, List.dropWhile_cons_of_neg (by decide)]
  simp [List.takeWhile_eq_self_iff.mpr h]

/-- `atoi` finds a number that is written. -/
theorem atoi_writtenNumber {s : Bytes} {n : Int} (h : writtenNumber s = some n) :
    atoi s = clampInt n := by
  rcases writtenNumber_cases h with ⟨d, rfl, hd, rfl⟩ | ⟨d, rfl, hd, rfl⟩ | ⟨hd, rfl⟩
  · exact atoi_minus hd
  · exact atoi_plus hd
  · exact atoi_digits hd

/-- A number in the range of a port is read as it is. -/
theorem atoi_port {s : Bytes} {n : Int} (h : writtenNumber s = some n) (h0 : 0 ≤ n)
    (hn : n ≤ 65535) : atoi s % 65536 = n := by
  rw [atoi_writtenNumber h, clampInt_of_le (by omega) (by omega)]
  omega

/-- A blank text is no number. -/
theorem writtenNumber_ne_nil {s : Bytes} {n : Int} (h : writtenNumber s = some n) : s ≠ [] := by
  rintro rfl
  cases h

/-! ## Numbers that are cut -/

theorem le_foldl_digits (v : Bytes) (a : Nat) :
    a ≤ v.foldl (fun n d => 10 * n + (d.toNat - 48)) a := by
  induction v generalizing a with
  | nil => exact Nat.le_refl _
  | cons d v ih =>
      have hrest := ih (10 * a + (d.toNat - 48))
      rw [List.foldl_cons]
      omega

/-- Digits behind make a number ten times as large at least. -/
theorem digitsValue_append_le (d : Bytes) {v : Bytes} (hv : v ≠ []) :
    10 * digitsValue d ≤ digitsValue (d ++ v) := by
  obtain ⟨c, v, rfl⟩ := List.exists_cons_of_ne_nil hv
  have hrest := le_foldl_digits v (10 * digitsValue d + (c.toNat - 48))
  rw [digitsValue, digitsValue, List.foldl_append, List.foldl_cons]
  rw [digitsValue] at hrest
  omega

/-- What `atoi` makes of the front of a number. -/
theorem atoi_front {u v : Bytes} {n : Int} (h : writtenNumber (u ++ v) = some n) (hv : v ≠ [])
    (hn : 0 ≤ n) : ∃ k : Nat, atoi u = clampInt k ∧ 10 * (k : Int) ≤ n := by
  cases u with
  | nil => exact ⟨0, rfl, by omega⟩
  | cons c u =>
      have hfront : ∀ {d : Bytes}, (∀ c ∈ d ++ v, isdigit c = true) → ∀ c ∈ d, isdigit c = true :=
        fun hd c hc => hd c (List.mem_append_left _ hc)
      rcases writtenNumber_cases h with ⟨d, hu, hd, rfl⟩ | ⟨d, hu, hd, rfl⟩ | ⟨hd, rfl⟩
      · rw [List.cons_append, List.cons.injEq] at hu
        obtain ⟨rfl, rfl⟩ := hu
        have hle := digitsValue_append_le u hv
        refine ⟨digitsValue u, ?_, by omega⟩
        rw [atoi_minus (hfront hd), show digitsValue u = 0 by omega]
        rfl
      · rw [List.cons_append, List.cons.injEq] at hu
        obtain ⟨rfl, rfl⟩ := hu
        have hle := digitsValue_append_le u hv
        exact ⟨digitsValue u, atoi_plus (hfront hd), by omega⟩
      · have hle := digitsValue_append_le (c :: u) hv
        exact ⟨digitsValue (c :: u), atoi_digits (hfront hd), by omega⟩

theorem not_isspace_of_writtenNumber {s : Bytes} {n : Int} (h : writtenNumber s = some n) :
    ∀ c ∈ s, isspace c = false := by
  rcases writtenNumber_cases h with ⟨d, rfl, hd, _⟩ | ⟨d, rfl, hd, _⟩ | ⟨hd, _⟩
  · exact List.forall_mem_cons.mpr ⟨by decide, fun c hc => not_isspace_of_isdigit (hd c hc)⟩
  · exact List.forall_mem_cons.mpr ⟨by decide, fun c hc => not_isspace_of_isdigit (hd c hc)⟩
  · exact fun c hc => not_isspace_of_isdigit (hd c hc)

theorem trim_of_plain {s : Bytes} (h : ∀ c ∈ s, isspace c = false) : trim s = s := by
  cases s with
  | nil => rfl
  | cons c s =>
      have hpad := @trim_pad [] (c :: s) [] (by simp) (by simp)
        (fun d hd => h d (List.mem_of_mem_head? hd)) (fun d hd => h d (List.mem_of_getLast? hd))
        (List.cons_ne_nil _ _)
      simpa using hpad

/-- Where text is cut off from a number, what is left is the front of the number. -/
theorem trim_front {s cut : Bytes} {n : Int} (h : writtenNumber (trim (s ++ cut)) = some n)
    (hcut : ¬ Blank cut) : ∃ v, v ≠ [] ∧ trim (s ++ cut) = trim s ++ v := by
  have hplain := not_isspace_of_writtenNumber h
  by_cases hs : Blank s
  · refine ⟨trim cut, fun hnil => hcut ((blank_iff cut).mpr hnil), ?_⟩
    rw [trim_blank_append hs, (blank_iff s).mp hs, List.nil_append]
  · have hne : (s.dropWhile isspace).isEmpty = false := by
      rw [List.isEmpty_eq_false_iff, ne_eq, List.dropWhile_eq_nil_iff]
      exact hs
    have hback : (cut.reverse.dropWhile isspace).isEmpty = false := by
      rw [List.isEmpty_eq_false_iff, ne_eq, List.dropWhile_eq_nil_iff]
      exact fun hall => hcut fun c hc => hall c (List.mem_reverse.mpr hc)
    have hwhole : trim (s ++ cut) =
        s.dropWhile isspace ++ (cut.reverse.dropWhile isspace).reverse := by
      rw [trim, List.dropWhile_append, hne, if_neg (by decide), List.reverse_append,
        List.dropWhile_append, hback, if_neg (by decide), List.reverse_append, List.reverse_reverse]
    have hfront : trim s = s.dropWhile isspace := by
      rw [hwhole] at hplain
      have hdrop := trim_of_plain fun c hc => hplain c (List.mem_append_left _ hc)
      obtain ⟨b, hb⟩ : ∃ b, s = b ++ s.dropWhile isspace ∧ Blank b :=
        ⟨s.takeWhile isspace, List.takeWhile_append_dropWhile.symm,
          fun c hc => List.mem_takeWhile_imp hc⟩
      rw [hb.1, trim_blank_append hb.2, ← hb.1, hdrop]
    refine ⟨(cut.reverse.dropWhile isspace).reverse, ?_, hwhole.trans (by rw [hfront])⟩
    rw [ne_eq, List.reverse_eq_nil_iff, ← List.isEmpty_iff, hback]
    decide

/-- A port that is cut is read right if and only if nothing was cut off, or nothing but zeros. -/
theorem cut_port_iff (s cut : Bytes) :
    writtenNumber (trim (s ++ cut)) = some (atoi (trim s) % 65536) ↔
      ∃ n, IsPort (s ++ cut) n ∧ (Blank cut ∨ n = 0) := by
  by_cases hcut : Blank cut
  · simp only [IsPort, trim_append_blank s hcut, hcut, true_or, and_true]
    constructor
    · exact fun h => ⟨_, h, by omega, by omega⟩
    · rintro ⟨n, hn, h0, h65535⟩
      rw [atoi_port hn h0 h65535]
      exact hn
  · constructor
    · intro h
      obtain ⟨v, hv, htrim⟩ := trim_front h hcut
      obtain ⟨k, hk, hle⟩ := atoi_front (htrim ▸ h) hv (by omega)
      refine ⟨_, ⟨h, by omega, by omega⟩, Or.inr ?_⟩
      rw [hk, clampInt] at hle ⊢
      omega
    · rintro ⟨n, ⟨hn, h0, _⟩, hzero⟩
      have hzero := hzero.resolve_left hcut
      subst hzero
      obtain ⟨v, hv, htrim⟩ := trim_front hn hcut
      obtain ⟨k, hk, hle⟩ := atoi_front (htrim ▸ hn) hv h0
      rw [hn, hk, show k = 0 by omega]
      rfl

/-! ## One read -/

theorem parseLine_isSome (read : Bytes) : (parseLine read).isSome = makesRow read := by
  have hnone := rowOfTokens_eq_none_iff (tokens read)
  rw [← parseLine_eq] at hnone
  rw [Bool.eq_iff_iff, Option.isSome_iff_ne_none, ne_eq, hnone, makesRow, decide_eq_true_iff]
  omega

theorem filterMap_makesRow (ls : List Bytes) :
    ls.filterMap parseLine = (ls.filter makesRow).filterMap parseLine := by
  rw [List.filterMap_filter]
  apply List.filterMap_congr
  intro read _
  rw [← parseLine_isSome]
  cases parseLine read <;> rfl

theorem parentId_bytes {read : Bytes} {pid : Option Bytes} (h : ∀ t ∈ pid, t ∈ tokens read) :
    ((parentId pid).map CString.bytes).getD [] = trim (pid.getD []) := by
  cases pid with
  | none => rfl
  | some t =>
      have hcopy := strdup_trim (h t rfl)
      rw [parentId, Option.map_some, Option.getD_some]
      cases ht : trim t with
      | nil => rfl
      | cons c cs =>
          rw [ht] at hcopy
          exact hcopy

/-- The fields that a part of a line has are the columns of the line. -/
def FieldsInPlace (ts cs : List Bytes) : Prop :=
  ∃ t1 t2 t3 more c1 c2 c3 rest, ts = t1 :: t2 :: t3 :: more ∧ cs = c1 :: c2 :: c3 :: rest ∧
    trim t1 = trim c1 ∧ trim t2 = trim c2 ∧
    writtenNumber (trim c3) = some (atoi (trim t3) % 65536) ∧
    trim (more.head?.getD []) = trim (rest.head?.getD [])

/-- A row is right if and only if the fields it was made of are in place. -/
theorem readsRight_iff {line read : Bytes} {row : NodeInfo × Option CString}
    (h : parseLine read = some row) :
    ReadsRight line row ↔ FieldsInPlace (tokens read) (columns line) := by
  rw [parseLine_eq] at h
  match ht : tokens read, h with
  | t1 :: t2 :: t3 :: more, h =>
      cases h
      have hmem : ∀ t ∈ t1 :: t2 :: t3 :: more, t ∈ tokens read := fun t hmem => ht ▸ hmem
      have hid := strdup_trim (hmem t1 (by simp))
      have haddress := strdup_trim (hmem t2 (by simp))
      have hparent : ((parentId more.head?).map CString.bytes).getD [] = trim (more.head?.getD []) :=
        parentId_bytes fun t hhead => hmem t (by simp [List.mem_of_mem_head? hhead])
      constructor
      · rintro ⟨c1, c2, c3, rest, hcs, h1, h2, h3, h4⟩
        rw [toNat_ofInt16] at h3
        exact ⟨t1, t2, t3, more, c1, c2, c3, rest, rfl, hcs, hid.symm.trans h1,
          haddress.symm.trans h2, h3, hparent.symm.trans h4⟩
      · rintro ⟨t1, t2, t3, more, c1, c2, c3, rest, hts, hcs, h1, h2, h3, h4⟩
        cases hts
        refine ⟨c1, c2, c3, rest, hcs, hid.trans h1, haddress.trans h2, ?_, hparent.trans h4⟩
        rw [toNat_ofInt16]
        exact h3

theorem filter_cons_text {c : Bytes} (hc : c ≠ []) (cs : List Bytes) :
    (c :: cs).filter (· ≠ []) = c :: cs.filter (· ≠ []) :=
  List.filter_cons_of_pos (decide_eq_true hc)

theorem filter_cons_empty (cs : List Bytes) : ([] :: cs).filter (· ≠ []) = cs.filter (· ≠ []) :=
  List.filter_cons_of_neg (by simp)

/-- When the third column has text, and an empty one before it would let it take that place, the
first three columns are tokens. -/
theorem first_columns_ne_nil {c1 c2 c3 t1 t2 t3 : Bytes} {rest more : List Bytes}
    (hts : (c1 :: c2 :: c3 :: rest).filter (· ≠ []) = t1 :: t2 :: t3 :: more)
    (h1 : trim t1 = trim c1) (h2 : trim t2 = trim c2) (h3 : trim c3 ≠ []) :
    c1 ≠ [] ∧ c2 ≠ [] ∧ c3 ≠ [] := by
  have hc3 : c3 ≠ [] := by
    rintro rfl
    exact h3 rfl
  by_cases hc1 : c1 = []
  · subst hc1
    by_cases hc2 : c2 = []
    · -- the third column is the first token
      subst hc2
      rw [filter_cons_empty, filter_cons_empty, filter_cons_text hc3, List.cons.injEq] at hts
      obtain ⟨rfl, _⟩ := hts
      exact absurd h1 h3
    · -- the third column is the second token, and the second one is blank
      rw [filter_cons_empty, filter_cons_text hc2, filter_cons_text hc3, List.cons.injEq,
        List.cons.injEq] at hts
      obtain ⟨rfl, rfl, _⟩ := hts
      exact absurd (h2.trans h1) h3
  · by_cases hc2 : c2 = []
    · subst hc2
      rw [filter_cons_text hc1, filter_cons_empty, filter_cons_text hc3, List.cons.injEq,
        List.cons.injEq] at hts
      obtain ⟨_, rfl, _⟩ := hts
      exact absurd h2 h3
    · exact ⟨hc1, hc2, hc3⟩

theorem filter_columns {c1 c2 c3 : Bytes} (hc1 : c1 ≠ []) (hc2 : c2 ≠ []) (hc3 : c3 ≠ [])
    (rest : List Bytes) : (c1 :: c2 :: c3 :: rest).filter (· ≠ []) =
      c1 :: c2 :: c3 :: rest.filter (· ≠ []) := by
  rw [filter_cons_text hc1, filter_cons_text hc2, filter_cons_text hc3]

/-! ## A line that is cut -/

variable {before cut c1 c2 c3 c4 c5 : Bytes} {more behind : List Bytes}

theorem fieldsInPlace_cons {t1 t2 t3 : Bytes} {ts cs : List Bytes} :
    FieldsInPlace (t1 :: t2 :: t3 :: ts) (c1 :: c2 :: c3 :: cs) ↔
      trim t1 = trim c1 ∧ trim t2 = trim c2 ∧
        writtenNumber (trim c3) = some (atoi (trim t3) % 65536) ∧
        trim (ts.head?.getD []) = trim (cs.head?.getD []) := by
  constructor
  · rintro ⟨_, _, _, _, _, _, _, _, hts, hcs, h⟩
    cases hts
    cases hcs
    exact h
  · intro h
    exact ⟨t1, t2, t3, ts, c1, c2, c3, cs, rfl, rfl, h⟩

theorem isPort_iff (s : Bytes) :
    writtenNumber (trim s) = some (atoi (trim s) % 65536) ↔ ∃ n, IsPort s n := by
  have hcut := cut_port_iff s []
  rw [List.append_nil] at hcut
  simpa [blank_nil] using hcut

/-- Where the fields are the columns, the first three columns are not empty. -/
theorem FieldsInPlace.columns_ne_nil {rest cs : List Bytes} (hb : Blank before)
    (h : FieldsInPlace ((c1 :: c2 :: c3 :: rest).filter (· ≠ []))
      ((before ++ c1) :: c2 :: c3 :: cs)) : c1 ≠ [] ∧ c2 ≠ [] ∧ c3 ≠ [] := by
  obtain ⟨t1, t2, t3, more, _, _, _, _, hts, hcs, h1, h2, h3, _⟩ := h
  cases hcs
  rw [trim_blank_append hb] at h1
  exact first_columns_ne_nil hts h1 h2 (writtenNumber_ne_nil h3)

/-- The read ends in the third column. -/
theorem third_iff (hb : Blank before) (h3 : 3 ≤ ([c1, c2, c3].filter (· ≠ [])).length) :
    FieldsInPlace ([c1, c2, c3].filter (· ≠ []))
        ((before ++ c1) :: c2 :: (c3 ++ cut) :: behind) ↔
      ColumnsInPlace [c1, c2, c3] (cut :: behind) := by
  have hall := List.length_filter_eq_length_iff.mp
    (Nat.le_antisymm (List.length_filter_le (· ≠ []) [c1, c2, c3]) h3)
  simp only [List.forall_mem_cons, decide_eq_true_iff] at hall
  obtain ⟨h1, h2, h3, _⟩ := hall
  rw [filter_columns h1 h2 h3, List.filter_nil, fieldsInPlace_cons, trim_blank_append hb,
    cut_port_iff]
  constructor
  · rintro ⟨_, _, ⟨n, hport, hcut⟩, hbehind⟩
    exact .third h1 h2 h3 hport hcut ((blank_iff _).mpr hbehind.symm)
  · intro h
    cases h with
    | third _ _ _ hport hcut hbehind =>
        exact ⟨rfl, rfl, ⟨_, hport, hcut⟩, ((blank_iff _).mp hbehind).symm⟩

/-- The read ends in the fourth column. -/
theorem fourth_iff (hb : Blank before) :
    FieldsInPlace ([c1, c2, c3, c4].filter (· ≠ []))
        ((before ++ c1) :: c2 :: c3 :: (c4 ++ cut) :: behind) ↔
      ColumnsInPlace [c1, c2, c3, c4] (cut :: behind) := by
  have hfourth : (([c4].filter (· ≠ [])).head?.getD []) = c4 := by
    by_cases h4 : c4 = [] <;> simp [h4]
  have hiff : c1 ≠ [] → c2 ≠ [] → c3 ≠ [] →
      (FieldsInPlace ([c1, c2, c3, c4].filter (· ≠ []))
        ((before ++ c1) :: c2 :: c3 :: (c4 ++ cut) :: behind) ↔ (∃ n, IsPort c3 n) ∧ Blank cut) := by
    intro h1 h2 h3
    rw [filter_columns h1 h2 h3, fieldsInPlace_cons, trim_blank_append hb, isPort_iff, hfourth,
      List.head?_cons, Option.getD_some, eq_comm (a := trim c4), trim_append_eq_iff]
    simp
  constructor
  · intro h
    obtain ⟨h1, h2, h3⟩ := h.columns_ne_nil hb
    obtain ⟨⟨n, hport⟩, hcut⟩ := (hiff h1 h2 h3).mp h
    exact .fourth h1 h2 h3 hport hcut
  · intro h
    cases h with
    | fourth h1 h2 h3 hport hcut => exact (hiff h1 h2 h3).mpr ⟨⟨_, hport⟩, hcut⟩

/-- The read goes on behind the fourth column. -/
theorem whole_iff (hb : Blank before) :
    FieldsInPlace ((c1 :: c2 :: c3 :: c4 :: c5 :: more).filter (· ≠ []))
        ((before ++ c1) :: c2 :: c3 :: c4 :: Fields.glue (c5 :: more) behind) ↔
      ColumnsInPlace (c1 :: c2 :: c3 :: c4 :: c5 :: more) behind := by
  have hiff : c1 ≠ [] → c2 ≠ [] → c3 ≠ [] →
      (FieldsInPlace ((c1 :: c2 :: c3 :: c4 :: c5 :: more).filter (· ≠ []))
        ((before ++ c1) :: c2 :: c3 :: c4 :: Fields.glue (c5 :: more) behind) ↔
      (∃ n, IsPort c3 n) ∧
        (c4 = [] → Blank (((c5 :: more).filter (· ≠ [])).head?.getD []))) := by
    intro h1 h2 h3
    rw [filter_columns h1 h2 h3, fieldsInPlace_cons, trim_blank_append hb, isPort_iff,
      List.head?_cons, Option.getD_some]
    by_cases h4 : c4 = []
    · subst h4
      rw [List.filter_cons_of_neg (by simp), blank_iff]
      simp [show trim [] = [] from rfl]
    · rw [List.filter_cons_of_pos (by simpa using h4)]
      simp [h4]
  constructor
  · intro h
    obtain ⟨h1, h2, h3⟩ := h.columns_ne_nil hb
    obtain ⟨⟨n, hport⟩, hfourth⟩ := (hiff h1 h2 h3).mp h
    exact .whole h1 h2 h3 hport hfourth
  · intro h
    cases h with
    | whole h1 h2 h3 hport hfourth => exact (hiff h1 h2 h3).mpr ⟨⟨_, hport⟩, hfourth⟩

/-- The fields that are seen are the columns of the line if and only if the columns are in place. -/
theorem fieldsInPlace_iff (hb : Blank before) {cs : List Bytes}
    (h3 : 3 ≤ ((c1 :: cs).filter (· ≠ [])).length) :
    FieldsInPlace ((c1 :: cs).filter (· ≠ []))
        (Fields.glue ((before ++ c1) :: cs) (cut :: behind)) ↔
      ColumnsInPlace (c1 :: cs) (cut :: behind) := by
  match cs with
  | [] | [_] =>
      have hle := h3.trans (List.length_filter_le _ _)
      simp at hle
  | [c2, c3] => exact third_iff hb h3
  | [c2, c3, c4] => exact fourth_iff hb
  | c2 :: c3 :: c4 :: c5 :: more => exact whole_iff hb

/-! ## Text mode -/

/-- Text mode gives the front of a line, with its line feed unless there is a Ctrl-Z before it. -/
theorem textMode_marked {u : Bytes} (hu : lineFeed ∉ u) : ∃ t, t <+: u ∧
    ((controlZ ∉ u ∧ ∀ s, textMode (u ++ lineFeed :: s) = t ++ lineFeed :: textMode s) ∨
      (controlZ ∈ u ∧ ∀ s, textMode (u ++ lineFeed :: s) = t)) := by
  induction u with
  | nil => exact ⟨[], List.prefix_rfl, Or.inl ⟨List.not_mem_nil, fun _ => rfl⟩⟩
  | cons c u ih =>
      obtain ⟨hc, hu⟩ := not_or.mp (mt List.mem_cons.mpr hu)
      by_cases hz : c = controlZ
      · refine ⟨[], List.nil_prefix, Or.inr ⟨by rw [hz]; exact List.mem_cons_self .., ?_⟩⟩
        intro s
        rw [List.cons_append, textMode, if_pos hz]
      · have hmem : controlZ ∈ c :: u ↔ controlZ ∈ u := by
          rw [List.mem_cons, or_iff_right (Ne.symm hz)]
        obtain ⟨t, ht, htext⟩ := ih hu
        by_cases hcr : c = carriageReturn ∧ u = []
        · obtain ⟨rfl, rfl⟩ := hcr
          exact ⟨[], List.nil_prefix, Or.inl ⟨by decide, fun _ => rfl⟩⟩
        · have hkeep : ∀ s, textMode (c :: (u ++ lineFeed :: s)) =
              c :: textMode (u ++ lineFeed :: s) := by
            intro s
            rw [textMode, if_neg hz, if_neg]
            rintro ⟨hcr', hhead⟩
            cases u with
            | nil => exact hcr ⟨hcr', rfl⟩
            | cons d u =>
                rw [List.cons_append, List.head?_cons, Option.some.injEq] at hhead
                exact hu (by rw [hhead]; exact List.mem_cons_self ..)
          refine ⟨c :: t, (List.cons_prefix_cons).mpr ⟨rfl, ht⟩, ?_⟩
          rw [hmem]
          apply htext.imp
          · rintro ⟨hnot, heq⟩
            exact ⟨hnot, fun s => by rw [List.cons_append, hkeep, heq]; rfl⟩
          · rintro ⟨hin, heq⟩
            exact ⟨hin, fun s => by rw [List.cons_append, hkeep, heq]⟩

theorem textMode_unmarked {u : Bytes} (hu : lineFeed ∉ u) : textMode u <+: u := by
  induction u with
  | nil => exact List.prefix_rfl
  | cons c u ih =>
      obtain ⟨_, hu⟩ := not_or.mp (mt List.mem_cons.mpr hu)
      rw [textMode]
      split
      next => exact List.nil_prefix
      next =>
          rw [if_neg]
          · exact (List.cons_prefix_cons).mpr ⟨rfl, ih hu⟩
          · rintro ⟨_, hhead⟩
            exact hu (List.mem_of_mem_head? hhead)

theorem lineText_marked {u : Bytes} (hu : lineFeed ∉ u) (s : Bytes) :
    lineText (u ++ lineFeed :: s) = u := by
  rw [lineText, List.takeWhile_append_of_pos]
  · simp
  · exact fun c hc => bne_iff_ne.mpr fun heq => hu (heq ▸ hc)

theorem lineText_unmarked {u : Bytes} (hu : lineFeed ∉ u) : lineText u = u :=
  List.takeWhile_eq_self_iff.mpr fun _ hc => bne_iff_ne.mpr fun heq => hu (heq ▸ hc)

/-- What is read of a line is the front of its text, with the line feed or without. -/
theorem textMode_line {content line : Bytes} (h : line ∈ physicalLines content) :
    ∃ t, lineFeed ∉ t ∧ t <+: lineText line ∧
      (textMode line = t ∨ textMode line = t ++ [lineFeed]) := by
  obtain ⟨u, hu, rfl | ⟨rfl, _⟩⟩ := Fields.mem_lines h
  · obtain ⟨t, ht, htext⟩ := textMode_marked hu
    refine ⟨t, fun hmem => hu (ht.subset hmem), by rwa [lineText_marked hu], ?_⟩
    rcases htext with ⟨_, heq⟩ | ⟨_, heq⟩
    · exact Or.inr (heq [])
    · exact Or.inl (heq [])
  · have ht := textMode_unmarked hu
    exact ⟨_, fun hmem => hu (ht.subset hmem), by rwa [lineText_unmarked hu], Or.inl rfl⟩

theorem mem_seenLines {content line : Bytes} (h : line ∈ seenLines content) :
    line ∈ physicalLines content := by
  rw [seenLines] at h
  generalize physicalLines content = ls at h ⊢
  induction ls with
  | nil => exact h
  | cons l ls ih =>
      rw [upToControlZ] at h
      split at h
      · exact List.mem_cons.mpr (Or.inl (List.mem_singleton.mp h))
      · exact List.mem_cons.mpr ((List.mem_cons.mp h).imp_right ih)

theorem rowsRead_marked {t : Bytes} (ht : lineFeed ∉ t) (s : Bytes) :
    rowsRead (t ++ lineFeed :: s) = rowsRead (t ++ [lineFeed]) ++ rowsRead s := by
  rw [rowsRead, lineReads, Fields.pieces_append_mark ht, List.filterMap_append]
  rfl

/-- What is made of a file is what is made of its lines. -/
theorem rowsRead_textMode (content : Bytes) :
    rowsRead (textMode content) = (seenLines content).flatMap lineRows := by
  induction hlen : content.length using Nat.strong_induction_on generalizing content with
  | _ k ih =>
      by_cases hmem : lineFeed ∈ content
      · obtain ⟨u, rest, rfl, hu⟩ := List.eq_append_cons_of_mem hmem
        rw [seenLines, physicalLines, Fields.lines_append_mark hu, upToControlZ]
        obtain ⟨t, ht, ⟨hz, htext⟩ | ⟨hz, htext⟩⟩ := textMode_marked hu
        · have hnot : controlZ ∉ u ++ [lineFeed] := by simpa using ⟨hz, by decide⟩
          have hlt : rest.length < k := by
            rw [← hlen, List.length_append, List.length_cons]
            omega
          have hrest := ih rest.length hlt rest rfl
          rw [seenLines, physicalLines] at hrest
          rw [if_neg hnot, List.flatMap_cons, ← hrest, lineRows, htext rest, htext [],
            rowsRead_marked (fun hmem => hu (ht.subset hmem))]
          rfl
        · rw [if_pos (List.mem_append_left _ hz), List.flatMap_singleton, lineRows, htext rest,
            htext []]
      · cases content with
        | nil => rfl
        | cons c s =>
            rw [seenLines, physicalLines, Fields.lines_unmarked hmem (List.cons_ne_nil _ _),
              upToControlZ, upToControlZ, ite_self, List.flatMap_singleton, lineRows]

/-! ## What is shown of a line -/

/-- What is seen of a read is the front of the text that was read. -/
theorem seenOf_front {t read : Bytes} (h : read <+: t ++ [lineFeed]) : seenOf read <+: t := by
  have hz : (CString.ofBuffer read).bytes <+: t ++ [lineFeed] := (List.takeWhile_prefix _).trans h
  rw [seenOf]
  rcases List.prefix_concat_iff.mp hz with heq | hpre
  · rw [heq, stripLineEnd, List.getLast?_concat]
    simp
  · refine List.IsPrefix.trans ?_ hpre
    rw [stripLineEnd]
    split
    · exact List.prefix_rfl
    · split
      · exact List.dropLast_prefix _
      · exact List.prefix_rfl

theorem shownFrom_text {reads : List Bytes} {before text t : Bytes}
    (hreads : reads.flatten = t ∨ reads.flatten = t ++ [lineFeed]) (htext : t <+: text)
    (hne : ∀ read ∈ reads, read ≠ []) :
    ∀ s ∈ shownFrom before text reads, before ++ text = s.before ++ seenOf s.read ++ s.after := by
  induction reads generalizing before text t with
  | nil => exact fun _ hs => by cases hs
  | cons read reads ih =>
      obtain ⟨_, hne⟩ := List.forall_mem_cons.mp hne
      have hpre : read <+: t ++ [lineFeed] := by
        rw [List.flatten_cons] at hreads
        rcases hreads with heq | heq
        · exact (heq ▸ List.prefix_append ..).trans (List.prefix_append ..)
        · exact heq ▸ List.prefix_append ..
      intro s hs
      rcases List.mem_cons.mp hs with rfl | hs
      · have hseen := (seenOf_front hpre).trans htext
        rw [List.append_assoc, List.prefix_iff_eq_append.mp hseen]
      · -- a read that is not the last does not take the line feed
        have hmore : reads.flatten ≠ [] := by
          cases reads with
          | nil => cases hs
          | cons r rs =>
              rw [List.flatten_cons]
              exact List.append_ne_nil_of_left_ne_nil (hne r (List.mem_cons_self ..)) _
        have hread : read <+: t := by
          rcases List.prefix_concat_iff.mp hpre with heq | hpre
          · rw [List.flatten_cons, heq] at hreads
            rcases hreads with h | h <;> simp [hmore] at h
          · exact hpre
        obtain ⟨t', rfl⟩ := hread
        have hdrop := List.prefix_iff_eq_append.mp ((List.prefix_append read t').trans htext)
        rw [← hdrop, ← List.append_assoc]
        refine ih (t := t') ?_ ?_ hne s hs
        · simpa [List.append_assoc] using hreads
        · rw [← hdrop] at htext
          exact (List.prefix_append_right_inj read).mp htext

/-- What is seen of a read stands in the line. -/
theorem shown_text {content line : Bytes} (h : line ∈ physicalLines content) :
    ∀ s ∈ shown line, lineText line = s.before ++ seenOf s.read ++ s.after := by
  obtain ⟨t, _, htext, hreads⟩ := textMode_line h
  rw [← Fields.flatten_pieces lineFeed (lineSize - 1) (textMode line) (lineSize - 1)] at hreads
  exact @shownFrom_text _ [] _ _ hreads htext Fields.ne_nil_of_mem_pieces

theorem map_shownFrom (before text : Bytes) (reads : List Bytes) :
    (shownFrom before text reads).map Shown.read = reads := by
  induction reads generalizing before text with
  | nil => rfl
  | cons read reads ih => rw [shownFrom, List.map_cons, ih]

/-- The row that is made of a read. -/
def Shown.row (s : Shown) : Option (NodeInfo × Option CString) := parseLine s.read

/-- The rows of a line are made of the reads that make one. -/
theorem lineRows_eq (line : Bytes) :
    lineRows line = ((shown line).filter fun s => makesRow s.read).filterMap Shown.row := by
  have hreads : (shown line).map Shown.read = lineReads (textMode line) := map_shownFrom ..
  rw [lineRows, rowsRead, filterMap_makesRow, ← hreads, List.filter_map, List.filterMap_map]
  rfl

/-- The columns of a line around what is seen of it. -/
theorem columns_shown {s : Shown} {line : Bytes} (hb : Blank s.before)
    (h : lineText line = s.before ++ seenOf s.read ++ s.after) :
    ∃ c cs, (seenOf s.read).splitOn comma = c :: cs ∧
      columns line = Fields.glue ((s.before ++ c) :: cs) (s.after.splitOn comma) := by
  obtain ⟨c, cs, hseen⟩ := List.exists_cons_of_ne_nil (List.splitOn_ne_nil comma (seenOf s.read))
  have hcomma : comma ∉ s.before := fun hc => absurd (hb _ hc) (by decide)
  refine ⟨c, cs, hseen, ?_⟩
  rw [columns, h, Fields.splitOn_append, Fields.splitOn_append, Fields.splitOn_of_not_mem hcomma,
    hseen]
  rfl

/-! ## A file -/

/-- The row of a read that begins its line is right if and only if the columns are in place. -/
theorem readsRight_iff_inPlace {s : Shown} {line : Bytes} {row : NodeInfo × Option CString}
    (h : lineText line = s.before ++ seenOf s.read ++ s.after) (hb : Blank s.before)
    (hrow : s.row = some row) : ReadsRight line row ↔ s.InPlace := by
  obtain ⟨c, cs, hseen, hcolumns⟩ := columns_shown hb h
  obtain ⟨cut, behind, hafter⟩ :=
    List.exists_cons_of_ne_nil (List.splitOn_ne_nil comma s.after)
  have htokens : tokens s.read = (c :: cs).filter (· ≠ []) := by
    rw [← hseen]
    rfl
  have hmakes : 3 ≤ ((c :: cs).filter (· ≠ [])).length := by
    have hmakes := parseLine_isSome s.read
    rw [← Shown.row, hrow, Option.isSome_some, makesRow, htokens] at hmakes
    exact of_decide_eq_true hmakes.symm
  rw [readsRight_iff hrow, htokens, hcolumns, hafter, fieldsInPlace_iff hb hmakes]
  constructor
  · exact fun hcs => ⟨hb, by rw [hseen, hafter]; exact hcs⟩
  · intro hplace
    have hcs := hplace.columns
    rw [hseen, hafter] at hcs
    exact hcs

theorem lineInPlace_iff {content line : Bytes} (h : line ∈ physicalLines content) :
    LineInPlace line ↔
      LineReadRight line ∧ ∀ s ∈ (shown line).filter fun s => makesRow s.read, Blank s.before := by
  have htext := shown_text h
  have hmem : ∀ s ∈ (shown line).filter fun s => makesRow s.read,
      s ∈ shown line ∧ ∃ row, s.row = some row := by
    intro s hs
    obtain ⟨hs, hmakes⟩ := List.mem_filter.mp hs
    exact ⟨hs, Option.isSome_iff_exists.mp (by rw [Shown.row, parseLine_isSome]; exact hmakes)⟩
  rw [LineReadRight, lineRows_eq, LineInPlace]
  generalize (shown line).filter (fun s => makesRow s.read) = ss at hmem
  cases ss with
  | nil => exact ⟨fun _ => ⟨Or.inl rfl, fun _ hs => by cases hs⟩, fun _ => trivial⟩
  | cons s ss =>
      obtain ⟨hs, row, hrow⟩ := hmem s (List.mem_cons_self ..)
      rw [List.filterMap_cons_some hrow]
      cases ss with
      | nil =>
          rw [List.forall_mem_singleton]
          constructor
          · intro hplace
            exact ⟨Or.inr ⟨row, rfl,
              (readsRight_iff_inPlace (htext s hs) hplace.begins hrow).mpr hplace⟩, hplace.begins⟩
          · rintro ⟨hnil | ⟨row', heq, hright⟩, hb⟩
            · cases hnil
            · cases heq
              exact (readsRight_iff_inPlace (htext s hs) hb hrow).mp hright
      | cons s' ss =>
          -- two reads make a row each
          obtain ⟨_, row', hrow'⟩ := hmem s' (by simp)
          rw [List.filterMap_cons_some hrow']
          constructor
          · exact fun hfalse => hfalse.elim
          · rintro ⟨hnil | ⟨_, heq, _⟩, _⟩
            · cases hnil
            · cases heq

theorem noColumnMisread_iff (content : Bytes) :
    NoColumnMisread content ↔ ∀ line ∈ seenLines content, LineReadRight line := by
  constructor
  · rintro ⟨_, _, _, _, hlines⟩
    exact hlines
  · intro hlines
    obtain ⟨nodes, hload, hconsistent⟩ := nodeLoadAll_consistent (textMode content)
    refine ⟨nodes, hload, hconsistent, ?_, hlines⟩
    rw [fileRows_arr, fileRows_parentIds, ← rowsRead_textMode, List.zip_map']
    exact List.map_id _

/-- The columns of every line are in place if and only if no column of the file is misread and what
makes a row begins its line. -/
theorem no_column_misread_iff (content : Bytes) :
    (∀ line ∈ seenLines content, LineInPlace line) ↔
      NoColumnMisread content ∧ RowsBeginLines content := by
  rw [noColumnMisread_iff]
  constructor
  · intro hlines
    have hboth := fun line hline => (lineInPlace_iff (mem_seenLines hline)).mp (hlines line hline)
    exact ⟨fun line hline => (hboth line hline).1, fun line hline => (hboth line hline).2⟩
  · rintro ⟨hright, hbegin⟩
    intro line hline
    exact (lineInPlace_iff (mem_seenLines hline)).mpr ⟨hright line hline, hbegin line hline⟩

/-- A line whose third column is cut, and whose rest repeats the first two, which are blank. -/
def repeatsFront : Bytes := [44, 44] ++ List.replicate 509 48 ++ [32, 44, 32, 44, 48, 10]

/-- The rest of a line may be read right without beginning it, where its columns happen to be those
that the line begins with. -/
theorem repeatsFront_right : NoColumnMisread repeatsFront ∧ ¬ RowsBeginLines repeatsFront := by
  have hseen : seenLines repeatsFront = [repeatsFront] := by decide +kernel
  constructor
  · have hrows : (lineRows repeatsFront).map
        (fun r => (r.1.id.bytes, r.1.address.bytes, r.1.port, r.2)) = [([], [], 0, none)] := by
      decide +kernel
    obtain ⟨row, hrow, hfields⟩ := List.map_eq_singleton_iff.mp hrows
    simp only [Prod.mk.injEq] at hfields
    obtain ⟨hid, haddress, hport, hparent⟩ := hfields
    rw [noColumnMisread_iff, hseen, List.forall_mem_singleton]
    refine Or.inr ⟨row, hrow, [], [], List.replicate 509 48 ++ [32], [[32], [48]],
      by decide +kernel, hid, haddress, ?_, by rw [hparent]; decide⟩
    rw [hport]
    decide +kernel
  · intro hbegin
    rw [RowsBeginLines, hseen, List.forall_mem_singleton] at hbegin
    have hbefore : ((shown repeatsFront).filter fun s => makesRow s.read).map
        (fun s => s.before.head?) = [some 44] := by decide +kernel
    obtain ⟨s, hs, hhead⟩ := List.map_eq_singleton_iff.mp hbefore
    have hblank := hbegin s (by rw [hs]; exact List.mem_singleton_self _)
    exact absurd (hblank _ (List.mem_of_mem_head? hhead)) (by decide)

/-- The line `A,,1,B`, without an address. -/
def noAddress : Bytes := [65, 44, 44, 49, 44, 66, 10]

/-- The port is taken for the address, and the parent for the port. -/
theorem empty_column_shifts :
    (∃ nodes, nodeLoadAll (some (textMode noAddress)) = .ok nodes ∧
      nodes.map (fun n => (n.id, n.address.bytes, n.port, n.parent)) = [(nameA, [49], 0, none)]) ∧
        ¬ NoColumnMisread noAddress := by
  refine ⟨⟨_, nodeLoadAll_eq _, by decide +kernel⟩, ?_⟩
  rintro ⟨_, _, _, _, hlines⟩
  rcases hlines noAddress (by decide +kernel) with hnil | ⟨row, hrow, c1, c2, c3, rest, hcs, _, h2, _⟩
  · exact absurd hnil (by decide +kernel)
  · have hcolumns : columns noAddress = [[65], [], [49], [66]] := by decide +kernel
    rw [hcolumns] at hcs
    cases hcs
    have haddress : (lineRows noAddress).map (fun r => r.1.address.bytes) = [[49]] := by
      decide +kernel
    rw [hrow, List.map_singleton, h2] at haddress
    exact absurd haddress (by decide)

end DataPropagator
