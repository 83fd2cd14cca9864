import Mathlib.Data.List.Nodup
import Mathlib.Logic.Function.Basic

/-!
# Chains of cells

A heap maps the addresses that are live to cells, and a cell holds a value and a link.  `Chain`
says what is visited when links are followed to their end.  The heap determines it
(`Chain.unique`), so a chain does not visit an address twice (`Chain.nodup`).

A chain depends on its own cells only (`Chain.frame`).  It gets longer at its end
(`Chain.append`) and shorter at its start (`Chain.tail`).
-/

namespace LinkedChain

/-- A value and the link to the next cell. -/
structure Cell (α β : Type) where
  data : β
  next : Option α
deriving DecidableEq, Repr

/-- What is at each live address. -/
def Heap (α β : Type) := α → Option (Cell α β)

variable {α β : Type}

/-- No address is live. -/
def Heap.empty : Heap α β := fun _ => none

/-- Following the links from `p` visits the addresses and values of a list and ends. -/
inductive Chain (h : Heap α β) : Option α → List (α × β) → Prop where
  | nil : Chain h none []
  | cons {a : α} {cell : Cell α β} {xs : List (α × β)} (live : h a = some cell)
      (rest : Chain h cell.next xs) : Chain h (some a) ((a, cell.data) :: xs)

variable {h h' : Heap α β} {p : Option α} {xs ys : List (α × β)} {a : α}

/-- The addresses of a chain. -/
def addresses (xs : List (α × β)) : List α := xs.map Prod.fst

@[simp] theorem addresses_nil : addresses ([] : List (α × β)) = [] := rfl

@[simp] theorem addresses_cons (x : α × β) (xs : List (α × β)) :
    addresses (x :: xs) = x.1 :: addresses xs := rfl

@[simp] theorem addresses_append (xs ys : List (α × β)) :
    addresses (xs ++ ys) = addresses xs ++ addresses ys := List.map_append

/-! ## What a heap determines -/

theorem Chain.unique (hc : Chain h p xs) (hc' : Chain h p ys) : xs = ys := by
  induction hc generalizing ys with
  | nil =>
      cases hc'
      rfl
  | cons live _ ih =>
      cases hc' with
      | cons live' rest' =>
          rw [live, Option.some.injEq] at live'
          subst live'
          rw [ih rest']

/-- From every address of a chain a part of the chain starts. -/
theorem Chain.suffix (hc : Chain h p xs) (ha : a ∈ addresses xs) :
    ∃ ys, ys <:+ xs ∧ Chain h (some a) ys := by
  induction hc with
  | nil => cases ha
  | @cons b cell xs live rest ih =>
      rw [addresses_cons, List.mem_cons] at ha
      rcases ha with rfl | ha
      · exact ⟨_, List.suffix_rfl, .cons live rest⟩
      · obtain ⟨ys, hys, hchain⟩ := ih ha
        exact ⟨ys, hys.trans (List.suffix_cons _ _), hchain⟩

/-- A chain ends, so it does not come back. -/
theorem Chain.nodup (hc : Chain h p xs) : (addresses xs).Nodup := by
  induction hc with
  | nil => exact List.nodup_nil
  | @cons a cell xs live rest ih =>
      rw [addresses_cons, List.nodup_cons]
      refine ⟨?_, ih⟩
      intro hmem
      obtain ⟨ys, hys, hchain⟩ := rest.suffix hmem
      have hlen := hys.length_le
      rw [hchain.unique (.cons live rest), List.length_cons] at hlen
      omega

theorem Chain.live (hc : Chain h p xs) (ha : a ∈ addresses xs) : (h a).isSome := by
  obtain ⟨ys, _, hchain⟩ := hc.suffix ha
  cases hchain with
  | cons live _ => rw [live]; rfl

/-- The last cell of a chain has no link. -/
theorem Chain.last {x : α × β} (hc : Chain h p xs) (hx : xs.getLast? = some x) :
    h x.1 = some { data := x.2, next := none } := by
  induction hc with
  | nil => cases hx
  | @cons a cell xs live rest ih =>
      cases xs with
      | nil =>
          rw [List.getLast?_singleton, Option.some.injEq] at hx
          subst hx
          obtain ⟨data, next⟩ := cell
          cases rest
          exact live
      | cons y ys =>
          rw [List.getLast?_cons_cons] at hx
          exact ih hx

theorem Chain.start_eq_none_iff (hc : Chain h p xs) : p = none ↔ xs = [] := by
  cases hc <;> simp

/-! ## Changing the heap -/

/-- A chain depends on its own cells only. -/
theorem Chain.frame (hc : Chain h p xs) (hsame : ∀ a ∈ addresses xs, h' a = h a) :
    Chain h' p xs := by
  induction hc with
  | nil => exact .nil
  | @cons a cell xs live rest ih =>
      have ha := hsame a (List.mem_cons_self ..)
      refine .cons (ha.trans live) (ih ?_)
      exact fun b hb => hsame b (List.mem_cons_of_mem _ hb)

section Update

variable [DecidableEq α]

/-- A cell is written. -/
def Heap.store (h : Heap α β) (a : α) (cell : Cell α β) : Heap α β :=
  Function.update h a (some cell)

/-- A cell is freed. -/
def Heap.free (h : Heap α β) (a : α) : Heap α β := Function.update h a none

@[simp] theorem store_same (h : Heap α β) (a : α) (cell : Cell α β) :
    h.store a cell a = some cell := Function.update_self ..

theorem store_ne (h : Heap α β) {a b : α} (cell : Cell α β) (hne : b ≠ a) :
    h.store a cell b = h b := Function.update_of_ne hne ..

@[simp] theorem free_same (h : Heap α β) (a : α) : h.free a a = none := Function.update_self ..

theorem free_ne (h : Heap α β) {a b : α} (hne : b ≠ a) : h.free a b = h b :=
  Function.update_of_ne hne ..

/-- A new cell is a chain of its own. -/
theorem Chain.new (h : Heap α β) (a : α) (data : β) :
    Chain (h.store a { data := data, next := none }) (some a) [(a, data)] :=
  .cons (store_same ..) .nil

/-- A cell that is in no chain so far is linked behind the last one. -/
theorem Chain.append {x : α × β} {data : β} (hc : Chain h p xs) (hlast : xs.getLast? = some x)
    (ha : a ∉ addresses xs) :
    Chain ((h.store a { data := data, next := none }).store x.1
      { data := x.2, next := some a }) p (xs ++ [(a, data)]) := by
  induction hc with
  | nil => cases hlast
  | @cons b cell xs live rest ih =>
      rw [addresses_cons, List.mem_cons, not_or] at ha
      cases xs with
      | nil =>
          rw [List.getLast?_singleton, Option.some.injEq] at hlast
          subst hlast
          have hfirst := store_same (h.store a { data := data, next := none }) b
            { data := cell.data, next := some a }
          have hnew : Chain ((h.store a { data := data, next := none }).store b
              { data := cell.data, next := some a }) (some a) [(a, data)] := by
            refine (Chain.new h a data).frame ?_
            intro c hc
            rw [List.mem_singleton.mp hc]
            exact store_ne _ _ ha.1
          have hchain := Chain.cons hfirst hnew
          exact hchain
      | cons y ys =>
          rw [List.getLast?_cons_cons] at hlast
          -- the first cell is neither the new one nor the last one
          have hb : b ≠ x.1 := by
            have hnodup := (Chain.cons live rest).nodup
            rw [addresses_cons, List.nodup_cons] at hnodup
            have hmem : x.1 ∈ addresses (y :: ys) :=
              List.mem_map_of_mem (List.mem_of_getLast? hlast)
            exact fun hb => hnodup.1 (hb ▸ hmem)
          refine .cons ?_ (ih hlast ha.2)
          rw [store_ne _ _ hb, store_ne _ _ (Ne.symm ha.1), live]

/-- The first cell is taken off and freed. -/
theorem Chain.tail {data : β} (hc : Chain h (some a) ((a, data) :: xs)) :
    ∃ next, h a = some { data := data, next := next } ∧ Chain (h.free a) next xs := by
  have hnodup := hc.nodup
  rw [addresses_cons, List.nodup_cons] at hnodup
  cases hc with
  | @cons _ cell _ live rest =>
      refine ⟨cell.next, live, rest.frame ?_⟩
      intro b hb
      refine free_ne h ?_
      rintro rfl
      exact hnodup.1 hb

end Update

end LinkedChain
