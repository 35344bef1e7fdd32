import Mathlib.Tactic

/-!
# Buffers

A buffer is named by how many were allocated before it. A program keeps its accounts by the pointers that it owns:
with the pointers freed they are all those allocated, each once.
-/

namespace Trtp.Lib

structure Buffers where
  sizes : List Nat
  freed : List Nat

namespace Buffers

def empty : Buffers := ⟨[], []⟩

def malloc (h : Buffers) (size : Nat) : Nat × Buffers := (h.sizes.length, { h with sizes := h.sizes ++ [size] })

def free (h : Buffers) (ptr : Nat) : Buffers := { h with freed := ptr :: h.freed }

/-- `ptr` is allocated and not freed. -/
def Live (h : Buffers) (ptr : Nat) : Prop := ptr < h.sizes.length ∧ ptr ∉ h.freed

/-- `ptr` has at least `n` bytes. -/
def Holds (h : Buffers) (ptr n : Nat) : Prop := ∃ size, h.sizes[ptr]? = some size ∧ n ≤ size

def Balanced (h : Buffers) (owned : List Nat) : Prop :=
  ∀ ptr, owned.count ptr + h.freed.count ptr = if ptr < h.sizes.length then 1 else 0

variable {h : Buffers} {ptr n m : Nat} {owned : List Nat}

/-! ## Sizes -/

@[simp] theorem holds_free {ptr' : Nat} : (h.free ptr').Holds ptr n ↔ h.Holds ptr n := Iff.rfl

theorem Holds.mono (hh : h.Holds ptr n) (hle : m ≤ n) : h.Holds ptr m := by
  obtain ⟨size, hsize, hn⟩ := hh
  exact ⟨size, hsize, hle.trans hn⟩

@[simp] theorem holds_malloc : (h.malloc n).2.Holds (h.malloc n).1 m ↔ m ≤ n := by
  unfold Holds malloc
  simp

/-! ## Accounts -/

theorem balanced_empty : empty.Balanced [] := fun _ => rfl

theorem balanced_free : (h.free ptr).Balanced owned ↔ h.Balanced (ptr :: owned) := by
  unfold Balanced free
  refine forall_congr' fun q => ?_
  rw [List.count_cons, List.count_cons, ← Nat.add_assoc, Nat.add_right_comm]

theorem Balanced.owned_lt (hb : h.Balanced owned) {q : Nat} (hq : q ∈ owned) : q < h.sizes.length := by
  by_contra hge
  have hcount := hb q
  rw [if_neg hge] at hcount
  have hpos := List.count_pos_iff.mpr hq
  omega

theorem Balanced.live (hb : h.Balanced owned) {q : Nat} (hq : q ∈ owned) : h.Live q := by
  refine ⟨hb.owned_lt hq, fun hfreed => ?_⟩
  have hcount := hb q
  rw [if_pos (hb.owned_lt hq)] at hcount
  have hpos := List.count_pos_iff.mpr hq
  have hpos' := List.count_pos_iff.mpr hfreed
  omega

/-- What is live is owned: nothing leaks. -/
theorem Balanced.owned_of_live (hb : h.Balanced owned) {q : Nat} (hq : h.Live q) : q ∈ owned := by
  have hcount := hb q
  rw [if_pos hq.1, List.count_eq_zero.mpr hq.2] at hcount
  exact List.count_pos_iff.mp (by omega)

theorem Balanced.malloc (hb : h.Balanced owned) (n : Nat) : (h.malloc n).2.Balanced ((h.malloc n).1 :: owned) := by
  intro q
  have hcount := hb q
  unfold Buffers.malloc
  simp only [List.count_cons, List.length_append, List.length_singleton, beq_iff_eq]
  rcases Nat.lt_trichotomy q h.sizes.length with hlt | heq | hgt
  · rw [if_pos hlt] at hcount
    rw [if_neg (by omega), if_pos (by omega)]
    omega
  · rw [if_neg (by omega)] at hcount
    rw [if_pos heq.symm, if_pos (by omega)]
    omega
  · rw [if_neg (by omega)] at hcount
    rw [if_neg (by omega), if_neg (by omega)]
    omega

theorem Live.malloc (hl : h.Live ptr) (n : Nat) : (h.malloc n).2.Live ptr := by
  refine ⟨?_, hl.2⟩
  unfold Buffers.malloc
  rw [List.length_append]
  exact Nat.lt_add_right _ hl.1

theorem Live.ne_malloc (hl : h.Live ptr) (n : Nat) : ptr ≠ (h.malloc n).1 := Nat.ne_of_lt hl.1

end Buffers

end Trtp.Lib
