import Mathlib.Tactic

/-!
# Linked cells

A memory of cells that point to each other. What is not allocated has no cell, and a pointer that was never set has no
address.
-/

namespace Trtp.Lib

variable {α : Type}

/-- The value of a pointer. -/
abbrev Ptr := Option Nat

structure Cell (α : Type) where
  value : α
  next : Ptr

abbrev Cells (α : Type) := Nat → Option (Cell α)

/-- An access, which fails where no cell is. -/
def Cells.access (cells : Cells α) (p : Ptr) : Option (Cell α) := p.bind cells

@[simp] theorem Cells.access_some (cells : Cells α) (a : Nat) : cells.access (some a) = cells a := rfl

@[simp] theorem Cells.access_none (cells : Cells α) : cells.access none = none := rfl

/-- The first `n` cells on the way from `p`, each with its address. -/
def Cells.follow (cells : Cells α) : Nat → Ptr → Option (List (Nat × α))
  | 0, _ => some []
  | n + 1, p => do
    let a ← p
    let cell ← cells a
    let rest ← cells.follow n cell.next
    some ((a, cell.value) :: rest)

/-- The addresses of a list of cells. -/
def addrs (xs : List (Nat × α)) : List Nat := xs.map Prod.fst

@[simp] theorem addrs_nil : addrs ([] : List (Nat × α)) = [] := rfl

@[simp] theorem addrs_cons (x : Nat × α) (xs : List (Nat × α)) : addrs (x :: xs) = x.1 :: addrs xs := rfl

@[simp] theorem addrs_append (xs ys : List (Nat × α)) : addrs (xs ++ ys) = addrs xs ++ addrs ys := List.map_append

/-! ## Segments -/

/-- From `p` the cells `xs` follow each other, and the last points to `q`. -/
def Seg (cells : Cells α) : Ptr → List (Nat × α) → Ptr → Prop
  | p, [], q => p = q
  | p, (a, x) :: xs, q => p = some a ∧ ∃ next, cells a = some ⟨x, next⟩ ∧ Seg cells next xs q

theorem Seg.append_iff {cells : Cells α} {xs ys : List (Nat × α)} {p q : Ptr} :
    Seg cells p (xs ++ ys) q ↔ ∃ r, Seg cells p xs r ∧ Seg cells r ys q := by
  induction xs generalizing p with
  | nil => simp [Seg]
  | cons x xs ih =>
    obtain ⟨a, x⟩ := x
    simp only [List.cons_append, Seg, ih]
    constructor
    · rintro ⟨hp, next, hcell, r, hxs, hys⟩
      exact ⟨r, ⟨hp, next, hcell, hxs⟩, hys⟩
    · rintro ⟨r, ⟨hp, next, hcell, hxs⟩, hys⟩
      exact ⟨hp, next, hcell, r, hxs, hys⟩

theorem Seg.congr {cells cells' : Cells α} {xs : List (Nat × α)} {p q : Ptr} (h : Seg cells p xs q)
    (hsame : ∀ a ∈ addrs xs, cells' a = cells a) : Seg cells' p xs q := by
  induction xs generalizing p with
  | nil => exact h
  | cons x xs ih =>
    obtain ⟨a, x⟩ := x
    obtain ⟨hp, next, hcell, hxs⟩ := h
    exact ⟨hp, next, (hsame a List.mem_cons_self).trans hcell, ih hxs fun b hb => hsame b (List.mem_cons_of_mem _ hb)⟩

theorem Seg.update {cells : Cells α} {xs : List (Nat × α)} {p q : Ptr} (h : Seg cells p xs q) {a : Nat}
    (ha : a ∉ addrs xs) (cell : Option (Cell α)) : Seg (Function.update cells a cell) p xs q :=
  h.congr fun b hb => Function.update_of_ne (by rintro rfl; exact ha hb) _ _

theorem Seg.mem {cells : Cells α} {xs : List (Nat × α)} {p q : Ptr} (h : Seg cells p xs q) {x : Nat × α}
    (hx : x ∈ xs) : ∃ next, cells x.1 = some ⟨x.2, next⟩ := by
  induction xs generalizing p with
  | nil => exact absurd hx List.not_mem_nil
  | cons y ys ih =>
    obtain ⟨_, next, hcell, hys⟩ := h
    rcases List.mem_cons.mp hx with rfl | hin
    · exact ⟨next, hcell⟩
    · exact ih hys hin

/-- The last cell may be made to point elsewhere. -/
theorem Seg.relink {cells : Cells α} {xs : List (Nat × α)} {a : Nat} {x : α} {p q : Ptr}
    (h : Seg cells p (xs ++ [(a, x)]) q) (ha : a ∉ addrs xs) (r : Ptr) :
    Seg (Function.update cells a (some ⟨x, r⟩)) p (xs ++ [(a, x)]) r := by
  obtain ⟨s, hxs, hlast⟩ := Seg.append_iff.mp h
  refine Seg.append_iff.mpr ⟨s, hxs.update ha _, hlast.1, r, Function.update_self .., rfl⟩

theorem Seg.follow {cells : Cells α} {xs : List (Nat × α)} {p q : Ptr} (h : Seg cells p xs q) :
    cells.follow xs.length p = some xs := by
  induction xs generalizing p with
  | nil => rfl
  | cons x xs ih =>
    obtain ⟨a, x⟩ := x
    obtain ⟨rfl, next, hcell, hxs⟩ := h
    simp [Cells.follow, hcell, ih hxs]

end Trtp.Lib
