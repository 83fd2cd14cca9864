import DataPropagator.Lib.LinkedChain

/-!
# Tables of chains

An array of pointers starts one chain each, no address is on two of the chains, and every live
address is on one.

`Table.replace` says when one chain can be exchanged for another while the heap changes.  Linking
a new cell in front (`Table.push`), writing the data of a cell (`Table.setData`) and taking a cell
out (`Table.unlink_first`, `Table.unlink_next`) are instances.  A cell that changes its chain is
taken out of one and linked into the other (`Table.move`).
-/

namespace LinkedChain

variable {α β : Type} {h h' : Heap α β} {p next : Option α} {xs ys l : List (α × β)} {a b : α}
  {data data' : β}

/-! ## One chain -/

/-- The second part of a chain can be exchanged while the cells of the first stay. -/
theorem Chain.split (hc : Chain h p (xs ++ ys)) :
    ∃ q, Chain h q ys ∧ ∀ (h' : Heap α β) (zs : List (α × β)),
      (∀ a ∈ addresses xs, h' a = h a) → Chain h' q zs → Chain h' p (xs ++ zs) := by
  induction xs generalizing p with
  | nil => exact ⟨p, hc, fun _ _ _ hzs => hzs⟩
  | cons x xs ih =>
      cases hc with
      | cons live rest =>
          obtain ⟨q, hq, hput⟩ := ih rest
          refine ⟨q, hq, ?_⟩
          intro h' zs hsame hzs
          have hfirst := hsame _ (List.mem_cons_self ..)
          have hrest := hput h' zs (fun b hb => hsame b (List.mem_cons_of_mem _ hb)) hzs
          exact .cons (hfirst.trans live) hrest

/-- The address of a chain's first cell, and what the cell holds. -/
theorem Chain.first (hc : Chain h p ((a, data) :: xs)) :
    p = some a ∧ ∃ next, h a = some { data := data, next := next } ∧ Chain h next xs := by
  cases hc with
  | @cons _ cell _ live rest => exact ⟨rfl, cell.next, live, rest⟩

theorem Chain.cell (hc : Chain h p (l ++ (a, data) :: xs)) :
    ∃ next, h a = some { data := data, next := next } ∧ Chain h next xs := by
  obtain ⟨q, hq, _⟩ := hc.split
  exact hq.first.2

theorem Chain.nodup_split (hc : Chain h p (xs ++ (a, data) :: ys)) :
    a ∉ addresses xs ∧ a ∉ addresses ys ∧ ∀ b ∈ addresses ys, b ∉ addresses xs := by
  have hnodup := hc.nodup
  rw [addresses_append, addresses_cons, List.nodup_append] at hnodup
  obtain ⟨_, hys, hne⟩ := hnodup
  rw [List.nodup_cons] at hys
  refine ⟨fun ha => hne a ha a (List.mem_cons_self ..) rfl, hys.1, ?_⟩
  intro b hb hbx
  exact hne b hbx b (List.mem_cons_of_mem _ hb) rfl

section Update

variable [DecidableEq α]

theorem store_free (h : Heap α β) (a : α) (cell : Cell α β) :
    (h.free a).store a cell = h.store a cell := Function.update_idem ..

/-- A cell is linked in front. -/
theorem Chain.push (hc : Chain h p xs) (ha : a ∉ addresses xs) (data : β) :
    Chain (h.store a { data := data, next := p }) (some a) ((a, data) :: xs) := by
  have hsame : ∀ b ∈ addresses xs, h.store a { data := data, next := p } b = h b := by
    intro b hb
    refine store_ne h _ ?_
    rintro rfl
    exact ha hb
  exact .cons (store_same ..) (hc.frame hsame)

/-- The data of a cell is written. -/
theorem Chain.setData (hc : Chain h p (l ++ (a, data) :: xs))
    (ha : h a = some { data := data, next := next }) (data' : β) :
    Chain (h.store a { data := data', next := next }) p (l ++ (a, data') :: xs) := by
  obtain ⟨hal, hax, _⟩ := hc.nodup_split
  obtain ⟨q, hq, hput⟩ := hc.split
  obtain ⟨rfl, next', hcell, hrest⟩ := hq.first
  rw [ha, Option.some.injEq, Cell.mk.injEq] at hcell
  obtain ⟨-, rfl⟩ := hcell
  have hsame : ∀ b ∈ addresses l, h.store a { data := data', next := next } b = h b := by
    intro b hb
    refine store_ne h _ ?_
    rintro rfl
    exact hal hb
  exact hput _ _ hsame (hrest.push hax data')

/-- The cell behind another one is taken out and freed. -/
theorem Chain.unlink_next (hc : Chain h p (l ++ (b, data') :: (a, data) :: xs))
    (ha : h a = some { data := data, next := next }) :
    Chain ((h.store b { data := data', next := next }).free a) p (l ++ (b, data') :: xs) := by
  obtain ⟨hbl, hbx, hl⟩ := hc.nodup_split
  rw [addresses_cons, List.mem_cons, not_or] at hbx
  have hal := hl a (List.mem_cons_self ..)
  have hax : a ∉ addresses xs := by
    rw [List.append_cons] at hc
    exact hc.nodup_split.2.1
  obtain ⟨q, hq, hput⟩ := hc.split
  obtain ⟨rfl, next', _, hrest⟩ := hq.first
  obtain ⟨rfl, next'', hcell, hrest⟩ := hrest.first
  rw [ha, Option.some.injEq, Cell.mk.injEq] at hcell
  obtain ⟨-, rfl⟩ := hcell
  -- neither the part before nor the part behind is written
  have hsame : ∀ c, c ≠ a → c ≠ b →
      (h.store b { data := data', next := next }).free a c = h c :=
    fun c hca hcb => (free_ne _ hca).trans (store_ne _ _ hcb)
  have hbefore : ∀ c ∈ addresses l,
      (h.store b { data := data', next := next }).free a c = h c := by
    intro c hmem
    refine hsame c ?_ ?_ <;> rintro rfl
    · exact hal hmem
    · exact hbl hmem
  have hbehind : ∀ c ∈ addresses xs,
      (h.store b { data := data', next := next }).free a c = h c := by
    intro c hmem
    refine hsame c ?_ ?_ <;> rintro rfl
    · exact hax hmem
    · exact hbx.2 hmem
  have hfirst : (h.store b { data := data', next := next }).free a b =
      some { data := data', next := next } := by
    rw [free_ne _ hbx.1, store_same]
  have hchain := Chain.cons hfirst (hrest.frame hbehind)
  exact hput _ _ hbefore hchain

end Update

/-! ## Tables -/

/-- Every pointer of an array starts a chain, an address is on one chain at most, and it is on one
if and only if it is live. -/
structure Table (h : Heap α β) (ps : List (Option α)) (xss : List (List (α × β))) : Prop where
  length : ps.length = xss.length
  chain : ∀ {i : Nat} {p xs}, ps[i]? = some p → xss[i]? = some xs → Chain h p xs
  apart : ∀ {i j : Nat} {xs ys a}, xss[i]? = some xs → xss[j]? = some ys → a ∈ addresses xs →
    a ∈ addresses ys → i = j
  live : ∀ a, (h a).isSome ↔ ∃ (i : Nat) (xs : List (α × β)), xss[i]? = some xs ∧ a ∈ addresses xs

variable {ps : List (Option α)} {xss : List (List (α × β))} {i : Nat}

theorem set_self {l : List α} (ha : l[i]? = some a) : l.set i a = l := by
  obtain ⟨hi, rfl⟩ := List.getElem?_eq_some_iff.mp ha
  exact List.set_getElem_self hi

theorem Table.pointer (ht : Table h ps xss) (hx : xss[i]? = some xs) :
    ∃ p, ps[i]? = some p ∧ Chain h p xs := by
  have hi : i < ps.length := by
    rw [ht.length]
    exact (List.getElem?_eq_some_iff.mp hx).1
  exact ⟨_, List.getElem?_eq_getElem hi, ht.chain (List.getElem?_eq_getElem hi) hx⟩

theorem Table.fresh (ht : Table h ps xss) (ha : h a = none) (hx : xss[i]? = some xs) :
    a ∉ addresses xs := by
  intro hmem
  have hlive := (ht.live a).mpr ⟨i, xs, hx, hmem⟩
  rw [ha] at hlive
  cases hlive

/-- No address is on the chains twice. -/
theorem Table.nodup (ht : Table h ps xss) : (addresses xss.flatten).Nodup := by
  rw [addresses, List.map_flatten, List.nodup_flatten]
  constructor
  · intro as has
    obtain ⟨xs, hxs, rfl⟩ := List.mem_map.mp has
    obtain ⟨i, hi⟩ := List.mem_iff_getElem?.mp hxs
    obtain ⟨p, _, hchain⟩ := ht.pointer hi
    exact hchain.nodup
  · rw [List.pairwise_map, List.pairwise_iff_getElem]
    intro i j hi hj hij a ha ha'
    have heq := ht.apart (List.getElem?_eq_getElem hi) (List.getElem?_eq_getElem hj) ha ha'
    omega

theorem Table.live_iff (ht : Table h ps xss) (a : α) :
    (h a).isSome ↔ a ∈ addresses xss.flatten := by
  rw [ht.live, addresses, List.map_flatten, List.mem_flatten]
  constructor
  · rintro ⟨i, xs, hx, ha⟩
    exact ⟨_, List.mem_map_of_mem (List.mem_of_getElem? hx), ha⟩
  · rintro ⟨as, has, ha⟩
    obtain ⟨xs, hxs, rfl⟩ := List.mem_map.mp has
    obtain ⟨i, hi⟩ := List.mem_iff_getElem?.mp hxs
    exact ⟨i, xs, hi, ha⟩

theorem eq_of_replicate {n : Nat} {b : α} (ha : (List.replicate n b)[i]? = some a) : a = b :=
  List.eq_of_mem_replicate (List.mem_of_getElem? ha)

theorem Table.empty (n : Nat) :
    Table (Heap.empty : Heap α β) (List.replicate n none) (List.replicate n []) where
  length := by simp
  chain := by
    intro i p xs hp hx
    obtain rfl := eq_of_replicate hp
    obtain rfl := eq_of_replicate hx
    exact .nil
  apart := by
    intro i j xs ys a hx _ ha
    obtain rfl := eq_of_replicate hx
    cases ha
  live := by
    intro a
    constructor
    · intro hlive
      cases hlive
    · rintro ⟨i, xs, hx, ha⟩
      obtain rfl := eq_of_replicate hx
      cases ha

/-- Empty chains are put behind a table. -/
theorem Table.append_empty (ht : Table h ps xss) (n : Nat) :
    Table h (ps ++ List.replicate n none) (xss ++ List.replicate n []) := by
  -- a chain with an address on it is a chain of the table
  have hold : ∀ {i : Nat} {xs a}, (xss ++ List.replicate n [])[i]? = some xs →
      a ∈ addresses xs → xss[i]? = some xs := by
    intro i xs a hx ha
    rw [List.getElem?_append] at hx
    split at hx
    · exact hx
    · obtain rfl := eq_of_replicate hx
      cases ha
  constructor
  case length => rw [List.length_append, List.length_append, ht.length]; simp
  case chain =>
    intro i p xs hp hx
    rw [List.getElem?_append] at hp hx
    rw [ht.length] at hp
    split at hp
    next hi =>
        rw [if_pos hi] at hx
        exact ht.chain hp hx
    next hi =>
        rw [if_neg hi] at hx
        obtain rfl := eq_of_replicate hp
        obtain rfl := eq_of_replicate hx
        exact .nil
  case apart => exact fun hx hy ha ha' => ht.apart (hold hx ha) (hold hy ha') ha ha'
  case live =>
    intro a
    rw [ht.live]
    constructor
    · rintro ⟨i, xs, hx, ha⟩
      have hi := (List.getElem?_eq_some_iff.mp hx).1
      exact ⟨i, xs, (List.getElem?_append_left hi).trans hx, ha⟩
    · exact fun ⟨i, xs, hx, ha⟩ => ⟨i, xs, hold hx ha, ha⟩

/-- An empty chain in front is left out. -/
theorem Table.drop_empty (ht : Table h (p :: ps) ([] :: xss)) : Table h ps xss where
  length := by
    have hlength := ht.length
    simpa using hlength
  chain := fun {i _ _} hp hx => ht.chain (i := i + 1) hp hx
  apart := by
    intro i j xs ys a hx hy ha ha'
    have heq := ht.apart (i := i + 1) (j := j + 1) hx hy ha ha'
    omega
  live := by
    intro a
    rw [ht.live]
    constructor
    · rintro ⟨i, xs, hx, ha⟩
      cases i with
      | zero =>
          cases hx
          cases ha
      | succ i => exact ⟨i, xs, hx, ha⟩
    · rintro ⟨i, xs, hx, ha⟩
      exact ⟨i + 1, xs, hx, ha⟩

/-- One chain is exchanged.  Its new cells were not live, the ones it drops are not live after,
and no other cell is written. -/
theorem Table.replace (ht : Table h ps xss) (hx : xss[i]? = some xs) (hc : Chain h' p ys)
    (hnew : ∀ a ∈ addresses ys, a ∈ addresses xs ∨ h a = none)
    (hgone : ∀ a ∈ addresses xs, a ∉ addresses ys → h' a = none)
    (hsame : ∀ a, a ∉ addresses xs → a ∉ addresses ys → h' a = h a) :
    Table h' (ps.set i p) (xss.set i ys) := by
  -- an address of another chain is neither on the old chain nor on the new one
  have hother : ∀ {j zs a}, j ≠ i → xss[j]? = some zs → a ∈ addresses zs →
      a ∉ addresses xs ∧ a ∉ addresses ys := by
    intro j zs a hj hz ha
    have hax : a ∉ addresses xs := fun hax => hj (ht.apart hz hx ha hax)
    refine ⟨hax, fun hay => ?_⟩
    rcases hnew a hay with hold | hdead
    · exact hax hold
    · exact ht.fresh hdead hz ha
  have hi : i < xss.length := (List.getElem?_eq_some_iff.mp hx).1
  have hchain : ∀ {j zs}, (xss.set i ys)[j]? = some zs →
      (j = i ∧ zs = ys) ∨ (j ≠ i ∧ xss[j]? = some zs) := by
    intro j zs hz
    by_cases hj : j = i
    · subst hj
      rw [List.getElem?_set_self hi, Option.some.injEq] at hz
      exact Or.inl ⟨rfl, hz.symm⟩
    · rw [List.getElem?_set_ne (Ne.symm hj)] at hz
      exact Or.inr ⟨hj, hz⟩
  constructor
  case length => rw [List.length_set, List.length_set, ht.length]
  case chain =>
    intro j q zs hq hz
    rcases hchain hz with ⟨rfl, rfl⟩ | ⟨hj, hz⟩
    · rw [List.getElem?_set_self (ht.length ▸ hi), Option.some.injEq] at hq
      exact hq ▸ hc
    · rw [List.getElem?_set_ne (Ne.symm hj)] at hq
      refine (ht.chain hq hz).frame ?_
      intro a ha
      exact hsame a (hother hj hz ha).1 (hother hj hz ha).2
  case apart =>
    intro j k zs zs' a hz hz' ha ha'
    rcases hchain hz with ⟨rfl, rfl⟩ | ⟨hj, hz₁⟩ <;>
      rcases hchain hz' with ⟨rfl, rfl⟩ | ⟨hk, hz₂⟩
    · rfl
    · exact absurd ha (hother hk hz₂ ha').2
    · exact absurd ha' (hother hj hz₁ ha).2
    · exact ht.apart hz₁ hz₂ ha ha'
  case live =>
    intro a
    constructor
    · intro hlive
      by_cases hay : a ∈ addresses ys
      · exact ⟨i, ys, List.getElem?_set_self hi, hay⟩
      · have hax : a ∉ addresses xs := by
          intro hax
          rw [hgone a hax hay] at hlive
          cases hlive
        rw [hsame a hax hay, ht.live] at hlive
        obtain ⟨j, zs, hz, ha⟩ := hlive
        have hj : j ≠ i := by
          rintro rfl
          rw [hx, Option.some.injEq] at hz
          exact hax (hz ▸ ha)
        exact ⟨j, zs, (List.getElem?_set_ne (Ne.symm hj)).trans hz, ha⟩
    · rintro ⟨j, zs, hz, ha⟩
      rcases hchain hz with ⟨rfl, rfl⟩ | ⟨hj, hz⟩
      · exact hc.live ha
      · rw [hsame a (hother hj hz ha).1 (hother hj hz ha).2, ht.live]
        exact ⟨j, zs, hz, ha⟩

section Update

variable [DecidableEq α]

/-- A cell that was not live is linked in front of a chain. -/
theorem Table.push (ht : Table h ps xss) (hp : ps[i]? = some p) (hx : xss[i]? = some xs)
    (ha : h a = none) (data : β) :
    Table (h.store a { data := data, next := p }) (ps.set i (some a))
      (xss.set i ((a, data) :: xs)) := by
  refine ht.replace hx ((ht.chain hp hx).push (ht.fresh ha hx) data) ?_ ?_ ?_
  · intro b hb
    rw [addresses_cons, List.mem_cons] at hb
    rcases hb with rfl | hb
    · exact Or.inr ha
    · exact Or.inl hb
  · exact fun b hb hnot => absurd (List.mem_cons_of_mem _ hb) hnot
  · intro b _ hb
    rw [addresses_cons, List.mem_cons, not_or] at hb
    exact store_ne h _ hb.1

/-- The data of a cell is written. -/
theorem Table.setData (ht : Table h ps xss) (hx : xss[i]? = some (l ++ (a, data) :: xs))
    (ha : h a = some { data := data, next := next }) (data' : β) :
    Table (h.store a { data := data', next := next }) ps (xss.set i (l ++ (a, data') :: xs)) := by
  obtain ⟨p, hp, hchain⟩ := ht.pointer hx
  have hsame : addresses (l ++ (a, data') :: xs) = addresses (l ++ (a, data) :: xs) := by simp
  have htable := ht.replace hx (hchain.setData ha data') ?_ ?_ ?_
  · rwa [set_self hp] at htable
  · rw [hsame]
    exact fun b hb => Or.inl hb
  · rw [hsame]
    exact fun b hb hnot => absurd hb hnot
  · intro b hb _
    refine store_ne h _ ?_
    rintro rfl
    exact hb (by simp)

/-- The first cell of a chain is taken out and freed. -/
theorem Table.unlink_first (ht : Table h ps xss) (hx : xss[i]? = some ((a, data) :: xs))
    (ha : h a = some { data := data, next := next }) :
    Table (h.free a) (ps.set i next) (xss.set i xs) := by
  obtain ⟨p, hp, hchain⟩ := ht.pointer hx
  obtain ⟨rfl, _⟩ := hchain.first
  obtain ⟨next', hcell, hrest⟩ := hchain.tail
  rw [ha, Option.some.injEq, Cell.mk.injEq] at hcell
  obtain ⟨-, rfl⟩ := hcell
  refine ht.replace hx hrest ?_ ?_ ?_
  · exact fun b hb => Or.inl (List.mem_cons_of_mem _ hb)
  · intro b hb hnot
    rw [addresses_cons, List.mem_cons, or_iff_left hnot] at hb
    rw [hb, free_same]
  · intro b hb _
    rw [addresses_cons, List.mem_cons, not_or] at hb
    exact free_ne h hb.1

/-- The cell behind another one is taken out and freed. -/
theorem Table.unlink_next (ht : Table h ps xss)
    (hx : xss[i]? = some (l ++ (b, data') :: (a, data) :: xs))
    (ha : h a = some { data := data, next := next }) :
    Table ((h.store b { data := data', next := next }).free a) ps
      (xss.set i (l ++ (b, data') :: xs)) := by
  obtain ⟨p, hp, hchain⟩ := ht.pointer hx
  have htable := ht.replace hx (hchain.unlink_next ha) ?_ ?_ ?_
  · rwa [set_self hp] at htable
  · intro c hc
    simp only [addresses_append, addresses_cons, List.mem_append, List.mem_cons] at hc ⊢
    tauto
  · intro c hc hnot
    simp only [addresses_append, addresses_cons, List.mem_append, List.mem_cons] at hc hnot
    have hca : c = a := by tauto
    rw [hca, free_same]
  · intro c hc _
    simp only [addresses_append, addresses_cons, List.mem_append, List.mem_cons, not_or] at hc
    rw [free_ne _ hc.2.2.1, store_ne _ _ hc.2.1]

/-- The first cell of the first chain is linked in front of another one. -/
theorem Table.move {q : Option α} (ht : Table h (q :: ps) (((a, data) :: xs) :: xss))
    (hp : ps[i]? = some p) (hx : xss[i]? = some ys)
    (ha : h a = some { data := data, next := next }) :
    Table (h.store a { data := data, next := p }) (next :: ps.set i (some a))
      (xs :: xss.set i ((a, data) :: ys)) := by
  have hout : Table (h.free a) (next :: ps) (xs :: xss) := ht.unlink_first (i := 0) rfl ha
  have hin := hout.push (i := i + 1) hp hx (free_same h a) data
  rwa [store_free] at hin

end Update

end LinkedChain
