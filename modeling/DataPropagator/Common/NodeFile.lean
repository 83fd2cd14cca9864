import DataPropagator.Common.NodeLines

/-!
# Files that describe a table

A row is written as a line of three or four fields with blanks around them, ended by a line
feed with or without a carriage return in front, and there may be comments and blank lines
between the rows.  `node_load_all` reads back exactly the rows that were written.

`fopen` opens the file in text mode, in which the C library turns a carriage return with a
line feed into a line feed.  The result holds with that translation and without it; without
it, the carriage return of a comment counts as text of the comment.
-/

namespace DataPropagator

/-! ## Files -/

/-- `iscntrl` in the C locale. -/
def iscntrl (c : UInt8) : Bool := c < 32 || c == 127

/-- `isblank` in the C locale. -/
def isblank (c : UInt8) : Bool := c == 32 || c == 9

/-- A string as it may stand in a field. -/
structure FieldText where
  bytes : Bytes
  nonempty : bytes ≠ []
  plain : ∀ c ∈ bytes, c ≠ comma ∧ iscntrl c = false
  head : ∀ c ∈ bytes.head?, isspace c = false
  last : ∀ c ∈ bytes.getLast?, isspace c = false
deriving DecidableEq

/-- Blanks and tabs. -/
structure Blanks where
  bytes : Bytes
  blank : ∀ c ∈ bytes, isblank c = true
deriving DecidableEq

/-- What is written in a row. -/
structure TableRow where
  id : FieldText
  address : FieldText
  port : UInt16
  parent : Option FieldText
deriving DecidableEq

/-- A number in decimal digits. -/
def decimal (n : Nat) : Bytes := (Nat.toDigits 10 n).map fun c => UInt8.ofNat c.toNat

/-- A line of the file without its end.  Each pair are the blanks before and after a field, and
a row without a parent may end in a comma. -/
inductive LineText where
  | row (r : TableRow) (id address port parent : Blanks × Blanks) (lastComma : Bool)
  /-- A comment or a blank line. -/
  | other (text : Bytes)
deriving DecidableEq

/-- A line with its end. -/
structure FileLine where
  text : LineText
  crlf : Bool
deriving DecidableEq

/-- A field with blanks around it. -/
def padded (pad : Blanks × Blanks) (s : Bytes) : Bytes := pad.1.bytes ++ s ++ pad.2.bytes

/-- The fields of a row, `rest` standing after the last. -/
def LineText.cells (rest : Bytes) : LineText → List Bytes
  | .row r id address port parent lastComma =>
      match r.parent, lastComma with
      | some p, _ => [padded id r.id.bytes, padded address r.address.bytes,
          padded port (decimal r.port.toNat), padded parent p.bytes ++ rest]
      | none, true => [padded id r.id.bytes, padded address r.address.bytes,
          padded port (decimal r.port.toNat), padded parent [] ++ rest]
      | none, false => [padded id r.id.bytes, padded address r.address.bytes,
          padded port (decimal r.port.toNat) ++ rest]
  | .other text => [text ++ rest]

/-- The bytes of a line without its end. -/
def LineText.bytes (t : LineText) : Bytes := [comma].intercalate (t.cells [])

/-- The end of a line. -/
def FileLine.lineEnd (l : FileLine) : Bytes :=
  if l.crlf then [carriageReturn, lineFeed] else [lineFeed]

/-- The file. -/
def fileOf (ls : List FileLine) : Bytes := ls.flatMap fun l => l.text.bytes ++ l.lineEnd

/-- The rows written in it. -/
def tableRows (ls : List FileLine) : List TableRow :=
  ls.filterMap fun l =>
    match l.text with
    | .row r _ _ _ _ _ => some r
    | .other _ => none

/-- The control character that ends a file in text mode. -/
def controlZ : UInt8 := 26

/-- What the C library makes of a file in text mode. -/
def textMode : Bytes → Bytes
  | [] => []
  | c :: s =>
      if c = controlZ then []
      else if c = carriageReturn ∧ s.head? = some lineFeed then textMode s
      else c :: textMode s

/-- What `fgets` reads from, with the translation of text mode or without. -/
def asRead (translate : Bool) (content : Bytes) : Bytes :=
  if translate then textMode content else content

/-- What of the line end `fgets` has in front of the line feed. -/
def FileLine.carriage (translate : Bool) (l : FileLine) : Bytes :=
  if l.crlf && !translate then [carriageReturn] else []

/-- A comment has no control characters but tabs, and less than three fields with text. -/
def LineText.Skipped (rest : Bytes) : LineText → Prop
  | .row .. => True
  | .other text => (∀ c ∈ text, c = 9 ∨ iscntrl c = false) ∧
      (Fields.nonEmpty comma (text ++ rest)).length < 3

/-- The line fits the buffer, and what is no row is skipped. -/
def FileLine.WellFormed (translate : Bool) (l : FileLine) : Prop :=
  (l.text.bytes ++ l.lineEnd).length ≤ 511 ∧ l.text.Skipped (l.carriage translate)

instance (rest : Bytes) : (t : LineText) → Decidable (t.Skipped rest)
  | .row .. => instDecidableTrue
  | .other text => @instDecidableAnd _ _ (List.decidableBAll _ text) (Nat.decLt _ _)

instance (translate : Bool) (l : FileLine) : Decidable (l.WellFormed translate) :=
  @instDecidableAnd _ _ (Nat.decLe _ _) inferInstance

/-! ## The bytes of a line -/

/-- A byte of a line: no control character but a tab. -/
def TextByte (c : UInt8) : Prop := c = 9 ∨ iscntrl c = false

theorem TextByte.ne {c : UInt8} (h : TextByte c) :
    c ≠ lineFeed ∧ c ≠ carriageReturn ∧ c ≠ controlZ ∧ c ≠ 0 := by
  rcases h with rfl | h
  · decide
  · refine ⟨?_, ?_, ?_, ?_⟩ <;>
      · rintro rfl
        exact absurd h (by decide)

theorem isblank_iff (c : UInt8) : isblank c = true ↔ c = 32 ∨ c = 9 := by
  simp [isblank]

theorem Blanks.textByte (b : Blanks) {c : UInt8} (hc : c ∈ b.bytes) : TextByte c := by
  rcases (isblank_iff c).mp (b.blank c hc) with rfl | rfl
  · exact .inr rfl
  · exact .inl rfl

theorem Blanks.isspace (b : Blanks) {c : UInt8} (hc : c ∈ b.bytes) : isspace c = true := by
  rcases (isblank_iff c).mp (b.blank c hc) with rfl | rfl <;> rfl

theorem FieldText.textByte (f : FieldText) {c : UInt8} (hc : c ∈ f.bytes) : TextByte c :=
  .inr (f.plain c hc).2

/-! ## Decimal numbers -/

theorem decimal_of_lt {n : Nat} (h : n < 10) : decimal n = [UInt8.ofNat (48 + n)] := by
  have hdigit : ∀ d : Nat, d < 10 → UInt8.ofNat d.digitChar.toNat = UInt8.ofNat (48 + d) := by decide
  rw [decimal, Nat.toDigits_of_lt_base h, List.map_singleton, hdigit n h]

theorem decimal_of_le {n : Nat} (h : 10 ≤ n) :
    decimal n = decimal (n / 10) ++ [UInt8.ofNat (48 + n % 10)] := by
  have hmod : n % 10 < 10 := Nat.mod_lt _ (by decide)
  have happ := Nat.toDigits_append_toDigits (b := 10) (n := n / 10) (d := n % 10) (by decide)
    (by omega) hmod
  rw [Nat.div_add_mod] at happ
  rw [← decimal_of_lt hmod, decimal, ← happ, List.map_append]
  rfl

theorem isdigit_of_mem_decimal (n : Nat) : ∀ c ∈ decimal n, isdigit c = true := by
  induction n using Nat.strong_induction_on with
  | _ n ih =>
      have hdigit : ∀ d : Nat, d < 10 → isdigit (UInt8.ofNat (48 + d)) = true := by decide
      intro c hc
      rcases Nat.lt_or_ge n 10 with hlt | hge
      · rw [decimal_of_lt hlt, List.mem_singleton] at hc
        exact hc ▸ hdigit n hlt
      · rw [decimal_of_le hge, List.mem_append, List.mem_singleton] at hc
        rcases hc with hc | rfl
        · exact ih (n / 10) (by omega) c hc
        · exact hdigit _ (Nat.mod_lt _ (by decide))

theorem decimal_ne_nil (n : Nat) : decimal n ≠ [] := by
  rcases Nat.lt_or_ge n 10 with hlt | hge
  · rw [decimal_of_lt hlt]
    exact List.cons_ne_nil _ _
  · rw [decimal_of_le hge]
    simp

theorem decimal_length_le {k n : Nat} (h : n < 10 ^ (k + 1)) : (decimal n).length ≤ k + 1 := by
  induction k generalizing n with
  | zero => rw [decimal_of_lt (by omega), List.length_singleton]
  | succ k ih =>
      rcases Nat.lt_or_ge n 10 with hlt | hge
      · rw [decimal_of_lt hlt, List.length_singleton]
        omega
      · have hpow : 10 ^ (k + 1 + 1) = 10 ^ (k + 1) * 10 := Nat.pow_succ ..
        have hrec := @ih (n / 10) (by omega)
        rw [decimal_of_le hge, List.length_append, List.length_singleton]
        omega

theorem digitsValue_decimal (n : Nat) : digitsValue (decimal n) = n := by
  induction n using Nat.strong_induction_on with
  | _ n ih =>
      have hvalue : ∀ d : Nat, d < 10 → (UInt8.ofNat (48 + d)).toNat - 48 = d := by decide
      rcases Nat.lt_or_ge n 10 with hlt | hge
      · rw [decimal_of_lt hlt, digitsValue, List.foldl_cons, hvalue n hlt]
        simp
      · have hrec := ih (n / 10) (by omega)
        rw [digitsValue] at hrec
        rw [decimal_of_le hge, digitsValue, List.foldl_append, hrec, List.foldl_cons,
          hvalue _ (Nat.mod_lt _ (by decide)), List.foldl_nil]
        omega

theorem textByte_of_isdigit {c : UInt8} (h : isdigit c = true) : TextByte c := by
  right
  have hd := (isdigit_iff c).mp h
  rw [← Bool.not_eq_true, iscntrl, Bool.or_eq_true, decide_eq_true_iff, beq_iff_eq,
    UInt8.lt_iff_toNat_lt, ← UInt8.toNat_inj]
  show ¬ (c.toNat < 32 ∨ c.toNat = 127)
  omega

/-- Reading the port gives the port back. -/
theorem atoi_decimal (port : UInt16) : UInt16.ofInt (atoi (decimal port.toNat)) = port := by
  have hlt := port.toNat_lt
  rw [atoi_digits (isdigit_of_mem_decimal _), digitsValue_decimal,
    clampInt_of_le (by omega) (by omega)]
  apply UInt16.toNat_inj.mp
  have hmod := toNat_ofInt16 port.toNat
  omega

/-! ## What a line holds -/

theorem LineText.bytes_append (t : LineText) (rest : Bytes) :
    t.bytes ++ rest = [comma].intercalate (t.cells rest) := by
  cases t with
  | other text => simp [LineText.bytes, LineText.cells]
  | row r id address port parent lastComma =>
      cases hp : r.parent with
      | some p => simp [LineText.bytes, LineText.cells, hp]
      | none => cases lastComma <;> simp [LineText.bytes, LineText.cells, hp]

theorem mem_intercalate {c x : UInt8} {ls : List Bytes} (h : c ∈ [x].intercalate ls) :
    c = x ∨ ∃ l ∈ ls, c ∈ l := by
  induction ls with
  | nil => cases h
  | cons l ls ih =>
      cases ls with
      | nil => exact .inr ⟨l, by simpa using h⟩
      | cons l' ls =>
          rw [List.intercalate_cons_cons, List.mem_append, List.mem_append] at h
          rcases h with (h | h) | h
          · exact .inr ⟨l, List.mem_cons_self .., h⟩
          · exact .inl (List.mem_singleton.mp h)
          · rcases ih h with rfl | ⟨m, hm, hc⟩
            · exact .inl rfl
            · exact .inr ⟨m, List.mem_cons_of_mem _ hm, hc⟩

/-- No commas and no control characters but tabs. -/
def Plain (s : Bytes) : Prop := ∀ c ∈ s, c ≠ comma ∧ TextByte c

theorem FieldText.plain_bytes (f : FieldText) : Plain f.bytes :=
  fun c hc => ⟨(f.plain c hc).1, f.textByte hc⟩

theorem plain_decimal (n : Nat) : Plain (decimal n) := by
  intro c hc
  have hdigit := isdigit_of_mem_decimal n c hc
  exact ⟨ne_of_isdigit hdigit rfl, textByte_of_isdigit hdigit⟩

theorem Blanks.plain (b : Blanks) : Plain b.bytes := by
  intro c hc
  rcases (isblank_iff c).mp (b.blank c hc) with rfl | rfl
  · exact ⟨by decide, .inr rfl⟩
  · exact ⟨by decide, .inl rfl⟩

theorem Plain.append {s t : Bytes} (hs : Plain s) (ht : Plain t) : Plain (s ++ t) := by
  intro c hc
  rcases List.mem_append.mp hc with hc | hc
  · exact hs c hc
  · exact ht c hc

theorem Plain.padded {s : Bytes} (hs : Plain s) (pad : Blanks × Blanks) : Plain (padded pad s) :=
  (pad.1.plain.append hs).append pad.2.plain

/-- The fields of a row are plain, what stands after the last apart. -/
theorem mem_cells (r : TableRow) (id address port parent : Blanks × Blanks) (lastComma : Bool)
    (rest : Bytes) : ∀ cell ∈ LineText.cells rest (.row r id address port parent lastComma),
      ∀ c ∈ cell, c ∈ rest ∨ c ≠ comma ∧ TextByte c := by
  have hcell : ∀ {s : Bytes}, Plain s → ∀ c ∈ s, c ∈ rest ∨ c ≠ comma ∧ TextByte c :=
    fun hs c hc => .inr (hs c hc)
  have hlast : ∀ {s : Bytes}, Plain s → ∀ c ∈ s ++ rest, c ∈ rest ∨ c ≠ comma ∧ TextByte c := by
    intro s hs c hc
    rcases List.mem_append.mp hc with hc | hc
    · exact .inr (hs c hc)
    · exact .inl hc
  have hid := r.id.plain_bytes.padded id
  have haddress := r.address.plain_bytes.padded address
  have hport := (plain_decimal r.port.toNat).padded port
  cases hp : r.parent with
  | some p =>
      simp only [LineText.cells, hp, List.forall_mem_cons]
      exact ⟨hcell hid, hcell haddress, hcell hport, hlast (p.plain_bytes.padded parent), nofun⟩
  | none =>
      cases lastComma with
      | true =>
          have hnil : Plain [] := nofun
          simp only [LineText.cells, hp, List.forall_mem_cons]
          exact ⟨hcell hid, hcell haddress, hcell hport, hlast (hnil.padded parent), nofun⟩
      | false =>
          simp only [LineText.cells, hp, List.forall_mem_cons]
          exact ⟨hcell hid, hcell haddress, hlast hport, nofun⟩

theorem LineText.textByte {t : LineText} {rest : Bytes} (h : t.Skipped rest) {c : UInt8}
    (hc : c ∈ t.bytes) : TextByte c := by
  cases t with
  | other text =>
      rw [LineText.bytes, LineText.cells, List.intercalate_singleton, List.append_nil] at hc
      exact h.1 c hc
  | row r id address port parent lastComma =>
      rcases mem_intercalate hc with rfl | ⟨cell, hcell, hc⟩
      · exact .inr rfl
      · rcases mem_cells r id address port parent lastComma [] cell hcell c hc with hnil | ⟨_, hbyte⟩
        · cases hnil
        · exact hbyte

/-! ## Reading the lines -/

/-- What `fgets` reads of a line, without the line feed. -/
def FileLine.body (translate : Bool) (l : FileLine) : Bytes := l.text.bytes ++ l.carriage translate

theorem textMode_append {t : Bytes} (ht : ∀ c ∈ t, TextByte c) (s : Bytes) :
    textMode (t ++ s) = t ++ textMode s := by
  induction t with
  | nil => rfl
  | cons c t ih =>
      obtain ⟨_, hcr, hz, _⟩ := (ht c (List.mem_cons_self ..)).ne
      rw [List.cons_append, textMode, if_neg hz, if_neg fun h => hcr h.1,
        ih fun d hd => ht d (List.mem_cons_of_mem _ hd)]
      rfl

theorem textMode_lineEnd (l : FileLine) (s : Bytes) :
    textMode (l.lineEnd ++ s) = lineFeed :: textMode s := by
  rw [FileLine.lineEnd]
  split
  next =>
      show textMode (carriageReturn :: lineFeed :: s) = _
      rw [textMode, if_neg (by decide), if_pos ⟨rfl, rfl⟩, textMode, if_neg (by decide),
        if_neg fun h => absurd h.1 (by decide)]
  next =>
      show textMode (lineFeed :: s) = _
      rw [textMode, if_neg (by decide), if_neg fun h => absurd h.1 (by decide)]

theorem asRead_fileOf {translate : Bool} {ls : List FileLine}
    (h : ∀ l ∈ ls, l.WellFormed translate) : asRead translate (fileOf ls) =
      (ls.map (FileLine.body translate)).flatMap (· ++ [lineFeed]) := by
  cases translate with
  | false =>
      show ls.flatMap _ = _
      rw [List.flatMap_map]
      congr 1
      funext l
      cases hcr : l.crlf <;> simp [FileLine.lineEnd, FileLine.body, FileLine.carriage, hcr]
  | true =>
      show textMode (fileOf ls) = _
      induction ls with
      | nil => rfl
      | cons l ls ih =>
          have hbyte : ∀ c ∈ l.text.bytes, TextByte c := fun c hc =>
            LineText.textByte (h l (List.mem_cons_self ..)).2 hc
          have hih := ih fun m hm => h m (List.mem_cons_of_mem _ hm)
          rw [fileOf] at hih
          rw [fileOf, List.flatMap_cons, List.append_assoc, textMode_append hbyte,
            textMode_lineEnd, hih]
          simp [FileLine.body, FileLine.carriage]

theorem FileLine.mem_body {translate : Bool} {l : FileLine} (h : l.WellFormed translate)
    {c : UInt8} (hc : c ∈ l.body translate) : c ≠ lineFeed ∧ c ≠ 0 := by
  rcases List.mem_append.mp hc with hc | hc
  · have hne := (LineText.textByte h.2 hc).ne
    exact ⟨hne.1, hne.2.2.2⟩
  · rw [FileLine.carriage] at hc
    split at hc
    next =>
        rw [List.mem_singleton.mp hc]
        decide
    next => cases hc

theorem FileLine.body_length (translate : Bool) (l : FileLine) :
    (l.body translate).length + 1 ≤ (l.text.bytes ++ l.lineEnd).length := by
  cases hcr : l.crlf <;> cases translate <;>
    simp [FileLine.body, FileLine.carriage, FileLine.lineEnd, hcr]

/-- Each call of `fgets` reads one of the lines. -/
theorem lineReads_asRead {translate : Bool} {ls : List FileLine}
    (h : ∀ l ∈ ls, l.WellFormed translate) : lineReads (asRead translate (fileOf ls)) =
      ls.map fun l => l.body translate ++ [lineFeed] := by
  have hno : ∀ l ∈ ls, lineFeed ∉ l.body translate :=
    fun l hl hmem => (FileLine.mem_body (h l hl) hmem).1 rfl
  rw [asRead_fileOf h, lineReads, Fields.pieces_eq, Fields.lines_of_marked, List.map_map,
    List.flatMap_map]
  · rw [← List.flatMap_singleton' (ls.map _), List.flatMap_map]
    apply List.flatMap_congr
    intro l hl
    have hlen := FileLine.body_length translate l
    exact Fields.pieces_marked (hno l hl) (hlen.trans (h l hl).1)
  · intro t ht
    obtain ⟨l, hl, rfl⟩ := List.mem_map.mp ht
    exact hno l hl

/-- A read that is a whole line has the non-empty fields of the line as its tokens. -/
theorem tokens_line {t : Bytes} (h : (0 : UInt8) ∉ t) :
    tokens (t ++ [lineFeed]) = Fields.nonEmpty comma t := by
  have hzero : (0 : UInt8) ∉ t ++ [lineFeed] := by
    intro hmem
    rcases List.mem_append.mp hmem with hmem | hmem
    · exact h hmem
    · exact absurd (List.mem_singleton.mp hmem) (by decide)
  rw [tokens, CString.bytes_ofBuffer hzero, stripLineEnd, List.getLast?_append]
  show Fields.nonEmpty comma (if _ then _ else _) = _
  rw [if_pos (by rfl), List.dropLast_concat]

/-! ## Reading a row -/

/-- A field as a string. -/
def FieldText.toCString (f : FieldText) : CString where
  bytes := f.bytes
  noZero h := (f.textByte h).ne.2.2.2 rfl

/-- The row that the read loop should make of what is written. -/
def TableRow.read (r : TableRow) : NodeInfo × Option CString :=
  ({ id := r.id.toCString
     address := r.address.toCString
     port := r.port
     parent := none
     children := []
     childCount := 0
     type := .destination },
    r.parent.map FieldText.toCString)

/-- Around a field there is only white space. -/
theorem trim_padded (pad : Blanks × Blanks) {s rest : Bytes}
    (hrest : ∀ c ∈ rest, isspace c = true) (hhead : ∀ c ∈ s.head?, isspace c = false)
    (hlast : ∀ c ∈ s.getLast?, isspace c = false) (hne : s ≠ []) :
    trim (padded pad s ++ rest) = s := by
  rw [padded, List.append_assoc]
  apply trim_pad (fun c hc => pad.1.isspace hc) ?_ hhead hlast hne
  intro c hc
  rcases List.mem_append.mp hc with hc | hc
  · exact pad.2.isspace hc
  · exact hrest c hc

theorem trim_fieldText (pad : Blanks × Blanks) (f : FieldText) {rest : Bytes}
    (hrest : ∀ c ∈ rest, isspace c = true) : strdup (trim (padded pad f.bytes ++ rest)) = f.toCString := by
  rw [trim_padded pad hrest f.head f.last f.nonempty]
  exact CString.ofBuffer_bytes f.toCString

theorem trim_decimal (pad : Blanks × Blanks) (n : Nat) {rest : Bytes}
    (hrest : ∀ c ∈ rest, isspace c = true) : trim (padded pad (decimal n) ++ rest) = decimal n := by
  have hdigit := isdigit_of_mem_decimal n
  exact trim_padded pad hrest
    (fun c hc => not_isspace_of_isdigit (hdigit c (List.mem_of_mem_head? hc)))
    (fun c hc => not_isspace_of_isdigit (hdigit c (List.mem_of_getLast? hc))) (decimal_ne_nil n)

theorem padded_append_ne_nil (pad : Blanks × Blanks) {s : Bytes} (h : s ≠ []) (rest : Bytes) :
    padded pad s ++ rest ≠ [] := by
  simp [padded, h]

theorem parentId_fieldText (pad : Blanks × Blanks) (f : FieldText) {rest : Bytes}
    (hrest : ∀ c ∈ rest, isspace c = true) :
    parentId (some (padded pad f.bytes ++ rest)) = some f.toCString := by
  have htrim := trim_padded pad hrest f.head f.last f.nonempty
  have hcopy : strdup f.bytes = f.toCString := CString.ofBuffer_bytes f.toCString
  obtain ⟨c, cs, hf⟩ := List.exists_cons_of_ne_nil f.nonempty
  rw [hf] at hcopy
  rw [parentId, Option.map_some, htrim, hf]
  exact congrArg some hcopy

theorem parentId_blank {s : Bytes} (h : ∀ c ∈ s, isspace c = true) : parentId (some s) = none := by
  rw [parentId, Option.map_some, (trim_eq_nil_iff s).mpr h]

theorem rowOfTokens_read {r : TableRow} {id address port : Bytes} {more : List Bytes}
    (hid : strdup (trim id) = r.id.toCString) (haddress : strdup (trim address) = r.address.toCString)
    (hport : trim port = decimal r.port.toNat)
    (hparent : parentId more.head? = r.parent.map FieldText.toCString) :
    rowOfTokens (id :: address :: port :: more) = some r.read := by
  rw [rowOfTokens, hid, haddress, hport, hparent, atoi_decimal]
  rfl

/-- The fields of a row make the row. -/
theorem rowOfTokens_cells (r : TableRow) (id address port parent : Blanks × Blanks)
    (lastComma : Bool) {rest : Bytes} (hrest : ∀ c ∈ rest, isspace c = true) :
    rowOfTokens ((LineText.cells rest (.row r id address port parent lastComma)).filter (· ≠ [])) =
      some r.read := by
  have hnil : ∀ c ∈ ([] : Bytes), isspace c = true := nofun
  have hid := trim_fieldText id r.id hnil
  have haddress := trim_fieldText address r.address hnil
  have hport := trim_decimal port r.port.toNat hnil
  have hidne := padded_append_ne_nil id r.id.nonempty []
  have haddressne := padded_append_ne_nil address r.address.nonempty []
  have hportne := padded_append_ne_nil port (decimal_ne_nil r.port.toNat) []
  rw [List.append_nil] at hid haddress hport hidne haddressne hportne
  cases hp : r.parent with
  | some p =>
      have hparentne := padded_append_ne_nil parent p.nonempty rest
      simp only [LineText.cells, hp, List.filter_cons, hidne, haddressne, hportne, hparentne,
        decide_true, if_true, ne_eq, not_false_eq_true, List.filter_nil]
      refine rowOfTokens_read hid haddress hport ?_
      rw [hp]
      exact parentId_fieldText parent p hrest
  | none =>
      cases lastComma with
      | false =>
          have hlast := trim_decimal port r.port.toNat hrest
          have hlastne := padded_append_ne_nil port (decimal_ne_nil r.port.toNat) rest
          simp only [LineText.cells, hp, List.filter_cons, hidne, haddressne, hlastne,
            decide_true, if_true, ne_eq, not_false_eq_true, List.filter_nil]
          refine rowOfTokens_read hid haddress hlast ?_
          rw [hp]
          rfl
      | true =>
          -- what is behind the last comma is a token only if there is a blank in it
          have hblank : ∀ c ∈ padded parent [] ++ rest, isspace c = true := by
            intro c hc
            simp only [padded, List.append_nil, List.mem_append] at hc
            rcases hc with (hc | hc) | hc
            · exact parent.1.isspace hc
            · exact parent.2.isspace hc
            · exact hrest c hc
          simp only [LineText.cells, hp, List.filter_cons, hidne, haddressne, hportne,
            decide_true, if_true, ne_eq, not_false_eq_true, List.filter_nil]
          refine rowOfTokens_read hid haddress hport ?_
          rw [hp]
          split
          · exact parentId_blank hblank
          · rfl

/-- A line of a well-formed file gives its row, or nothing when it has none. -/
theorem parseLine_body {translate : Bool} {l : FileLine} (h : l.WellFormed translate) :
    parseLine (l.body translate ++ [lineFeed]) =
      match l.text with
      | .row r _ _ _ _ _ => some r.read
      | .other _ => none := by
  have hcarriage : ∀ c ∈ l.carriage translate, isspace c = true ∧ c ≠ comma := by
    intro c hc
    rw [FileLine.carriage] at hc
    split at hc
    next =>
        rw [List.mem_singleton.mp hc]
        decide
    next => cases hc
  rw [parseLine_eq, tokens_line fun hmem => (FileLine.mem_body h hmem).2 rfl, FileLine.body]
  cases ht : l.text with
  | other text =>
      have hfew := h.2
      rw [ht] at hfew
      rw [LineText.bytes, LineText.cells, List.intercalate_singleton, List.append_nil]
      exact (rowOfTokens_eq_none_iff _).mpr hfew.2
  | row r id address port parent lastComma =>
      rw [LineText.bytes_append, Fields.nonEmpty, List.splitOn_intercalate]
      · exact rowOfTokens_cells r id address port parent lastComma fun c hc => (hcarriage c hc).1
      · intro cell hcell hmem
        rcases mem_cells r id address port parent lastComma _ cell hcell comma hmem with
          hc | ⟨hne, _⟩
        · exact (hcarriage comma hc).2 rfl
        · exact hne rfl
      · cases hp : r.parent <;> cases lastComma <;> simp [LineText.cells, hp]

/-- The rows that the read loop makes are those written in the file. -/
theorem rowsRead_asRead {translate : Bool} {ls : List FileLine}
    (h : ∀ l ∈ ls, l.WellFormed translate) :
    rowsRead (asRead translate (fileOf ls)) = (tableRows ls).map TableRow.read := by
  rw [rowsRead, lineReads_asRead h, List.filterMap_map, tableRows, List.map_filterMap]
  apply List.filterMap_congr
  intro l hl
  rw [Function.comp_apply, parseLine_body (h l hl)]
  cases l.text <;> rfl

/-! ## The table -/

/-- A table is what a list of rows says: its rows with their ids, addresses and ports and, where
no two rows have the same id, their parents. -/
structure TableOf (rows : List TableRow) (nodes : List NodeInfo) : Prop where
  fields : nodes.map (fun n => (n.id.bytes, n.address.bytes, n.port)) =
    rows.map fun r => (r.id.bytes, r.address.bytes, r.port)
  parents : (rows.map fun r => r.id.bytes).Nodup → ∀ i p, parentOf nodes i = some p ↔
    ∃ r pid q, rows[i]? = some r ∧ r.parent = some pid ∧ rows[p]? = some q ∧
      q.id.bytes = pid.bytes

/-- The row that carries an id is the last that does where ids are distinct. -/
theorem lastRow_read {rows : List TableRow} (h : (rows.map fun r => r.id.bytes).Nodup)
    (pid : FieldText) (p : Nat) :
    lastRow (rows.map fun r => r.read.1) pid.toCString = some p ↔
      ∃ q, rows[p]? = some q ∧ q.id.bytes = pid.bytes := by
  rw [lastRow_eq_some_iff]
  constructor
  · rintro ⟨⟨node, hnode, hid⟩, _⟩
    rw [List.getElem?_map] at hnode
    obtain ⟨q, hq, rfl⟩ := Option.map_eq_some_iff.mp hnode
    exact ⟨q, hq, congrArg CString.bytes hid⟩
  · rintro ⟨q, hq, hid⟩
    refine ⟨⟨q.read.1, by rw [List.getElem?_map, hq]; rfl, CString.ext hid⟩, ?_⟩
    intro j node hj hnode hid'
    rw [List.getElem?_map] at hnode
    obtain ⟨q', hq', rfl⟩ := Option.map_eq_some_iff.mp hnode
    have hbytes : q'.id.bytes = pid.bytes := congrArg CString.bytes hid'
    obtain ⟨hp, rfl⟩ := List.getElem?_eq_some_iff.mp hq
    obtain ⟨hj', rfl⟩ := List.getElem?_eq_some_iff.mp hq'
    rw [← List.length_map (fun r : TableRow => r.id.bytes)] at hp hj'
    have hsame : (rows.map fun r => r.id.bytes)[p] = (rows.map fun r => r.id.bytes)[j] := by
      rw [List.getElem_map, List.getElem_map]
      exact hid.trans hbytes.symm
    exact absurd (h.getElem_inj_iff.mp hsame) (Nat.ne_of_lt hj)

/-- A file whose rows are read as a list of rows gives the table of that list. -/
theorem tableOf_linked {content : Bytes} {rows : List TableRow}
    (h : rowsRead content = rows.map TableRow.read) :
    TableOf rows ((fileRows content).arr.mapIdx (fileRows content).linkedRow) := by
  have harr : (fileRows content).arr = rows.map fun r => r.read.1 := by
    rw [fileRows_arr, h, List.map_map]
    rfl
  have hids : (fileRows content).parentIds = rows.map fun r => r.read.2 := by
    rw [fileRows_parentIds, h, List.map_map]
    rfl
  constructor
  · apply List.ext_getElem?
    intro i
    rw [List.getElem?_map, List.getElem?_mapIdx, harr, List.getElem?_map, List.getElem?_map]
    cases rows[i]? <;> rfl
  · intro hnodup i p
    rw [parentOf_linked (fileRows_fresh content), Rows.parent, harr, hids, List.getElem?_map]
    cases hr : rows[i]? with
    | none => simp
    | some r =>
        cases hp : r.parent with
        | none => simp [TableRow.read, hp]
        | some pid =>
            show (some (r.read.2)).join.bind _ = _ ↔ _
            rw [TableRow.read, hp]
            show lastRow _ pid.toCString = _ ↔ _
            rw [lastRow_read hnodup]
            constructor
            · rintro ⟨q, hq, hid⟩
              exact ⟨r, pid, q, rfl, hp, hq, hid⟩
            · rintro ⟨r', pid', q, hr', hp', hq, hid⟩
              cases hr'
              cases hp.symm.trans hp'
              exact ⟨q, hq, hid⟩

/-- `node_load_all` reads back the rows that were written, whether the C library translates
the line ends or not. -/
theorem node_load_all_reads_back (translate : Bool) {ls : List FileLine}
    (h : ∀ l ∈ ls, l.WellFormed translate) :
    ∃ nodes, nodeLoadAll (some (asRead translate (fileOf ls))) = .ok nodes ∧
      TableOf (tableRows ls) nodes :=
  ⟨_, nodeLoadAll_eq _, tableOf_linked (rowsRead_asRead h)⟩

/-- No blanks. -/
def noBlanks : Blanks × Blanks := (⟨[], nofun⟩, ⟨[], nofun⟩)

/-- A blank before the field and a tab after it. -/
def blankAndTab : Blanks × Blanks :=
  (⟨[32], List.all_eq_true.mp rfl⟩, ⟨[9], List.all_eq_true.mp rfl⟩)

/-- The names `A` and `B` and the address `127.0.0.1` as fields. -/
def fieldA : FieldText where
  bytes := nameA.bytes
  nonempty := List.cons_ne_nil _ _
  plain := by simp [nameA, comma, iscntrl]
  head := by rintro _ ⟨⟩; rfl
  last := by rintro _ ⟨⟩; rfl

def fieldB : FieldText where
  bytes := nameB.bytes
  nonempty := List.cons_ne_nil _ _
  plain := by simp [nameB, comma, iscntrl]
  head := by rintro _ ⟨⟩; rfl
  last := by rintro _ ⟨⟩; rfl

def fieldLoopback : FieldText where
  bytes := loopback.bytes
  nonempty := List.cons_ne_nil _ _
  plain := by simp [loopback, comma, iscntrl]
  head := by rintro _ ⟨⟩; rfl
  last := by rintro _ ⟨⟩; rfl

/-- A comment, a blank line, the root `A` and its child `B`, with both line ends. -/
def sampleLines : List FileLine :=
  [⟨.other [35, 32, 65, 44, 66], true⟩, ⟨.other [], false⟩,
    ⟨.row ⟨fieldA, fieldLoopback, 1, none⟩ noBlanks blankAndTab noBlanks noBlanks true, true⟩,
    ⟨.row ⟨fieldB, fieldLoopback, 65535, some fieldA⟩ blankAndTab noBlanks blankAndTab noBlanks
      false, false⟩]

theorem node_load_all_reads_back_sample :
    ∃ nodes, nodeLoadAll (some (asRead true (fileOf sampleLines))) = .ok nodes ∧
      TableOf (tableRows sampleLines) nodes :=
  node_load_all_reads_back true (by decide +kernel)

end DataPropagator
