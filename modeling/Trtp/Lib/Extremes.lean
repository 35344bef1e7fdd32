import Mathlib.Order.Bounds.Basic
import Mathlib.Order.MinMax

/-!
# The least and the greatest of a sequence

Both kept in one pass, by a test that leaves the least alone where an element is a new greatest one.
-/

namespace Trtp.Lib

variable {α : Type} [LinearOrder α]

structure Extremes (α : Type) where
  least : α
  greatest : α

namespace Extremes

/-- `if (x > greatest) greatest = x; else if (x < least) least = x;` -/
def record (e : Extremes α) (x : α) : Extremes α where
  greatest := if e.greatest < x then x else e.greatest
  least := if e.greatest < x then e.least else if x < e.least then x else e.least

def recordAll (e : Extremes α) (xs : List α) : Extremes α := xs.foldl record e

@[simp] theorem recordAll_nil (e : Extremes α) : e.recordAll [] = e := rfl

@[simp] theorem recordAll_cons (e : Extremes α) (x : α) (xs : List α) :
    e.recordAll (x :: xs) = (e.record x).recordAll xs := rfl

theorem recordAll_append (e : Extremes α) (xs ys : List α) :
    e.recordAll (xs ++ ys) = (e.recordAll xs).recordAll ys := List.foldl_append

/-! ## One element -/

theorem record_greatest (e : Extremes α) (x : α) : (e.record x).greatest = max e.greatest x :=
  (max_def_lt e.greatest x).symm

theorem record_least_of_lt {e : Extremes α} {x : α} (h : e.greatest < x) : (e.record x).least = e.least :=
  if_pos h

theorem record_least_of_le {e : Extremes α} {x : α} (h : x ≤ e.greatest) : (e.record x).least = min x e.least := by
  rw [min_def_lt]
  exact if_neg h.not_gt

theorem record_least_le (e : Extremes α) (x : α) : (e.record x).least ≤ e.least := by
  rcases lt_or_ge e.greatest x with h | h
  · rw [record_least_of_lt h]
  · rw [record_least_of_le h]
    exact min_le_right x e.least

theorem record_least_eq (e : Extremes α) (x : α) : (e.record x).least = e.least ∨ (e.record x).least = x := by
  rcases lt_or_ge e.greatest x with h | h
  · exact Or.inl (record_least_of_lt h)
  · rw [record_least_of_le h]
    exact (min_choice x e.least).symm

/-! ## The greatest -/

theorem greatest_le_recordAll (e : Extremes α) (xs : List α) : e.greatest ≤ (e.recordAll xs).greatest := by
  induction xs generalizing e with
  | nil => exact le_rfl
  | cons x xs ih =>
    refine le_trans ?_ (ih (e.record x))
    rw [record_greatest]
    exact le_max_left e.greatest x

theorem le_recordAll_greatest {xs : List α} {y : α} (hy : y ∈ xs) (e : Extremes α) :
    y ≤ (e.recordAll xs).greatest := by
  induction xs generalizing e with
  | nil => exact absurd hy List.not_mem_nil
  | cons x xs ih =>
    rcases List.mem_cons.mp hy with rfl | hy
    · refine le_trans ?_ (greatest_le_recordAll (e.record y) xs)
      rw [record_greatest]
      exact le_max_right e.greatest y
    · exact ih hy (e.record x)

theorem recordAll_greatest_mem (e : Extremes α) (xs : List α) :
    (e.recordAll xs).greatest = e.greatest ∨ (e.recordAll xs).greatest ∈ xs := by
  induction xs generalizing e with
  | nil => exact Or.inl rfl
  | cons x xs ih =>
    rcases ih (e.record x) with h | h
    · rw [recordAll_cons, h, record_greatest]
      rcases max_choice e.greatest x with hmax | hmax
      · exact Or.inl hmax
      · rw [hmax]
        exact Or.inr List.mem_cons_self
    · exact Or.inr (List.mem_cons_of_mem x h)

/-! ## The least -/

theorem recordAll_least_le (e : Extremes α) (xs : List α) : (e.recordAll xs).least ≤ e.least := by
  induction xs generalizing e with
  | nil => exact le_rfl
  | cons x xs ih => exact (ih (e.record x)).trans (record_least_le e x)

theorem recordAll_least_mem (e : Extremes α) (xs : List α) :
    (e.recordAll xs).least = e.least ∨ (e.recordAll xs).least ∈ xs := by
  induction xs generalizing e with
  | nil => exact Or.inl rfl
  | cons x xs ih =>
    rcases ih (e.record x) with h | h
    · rw [recordAll_cons, h]
      rcases record_least_eq e x with hx | hx
      · exact Or.inl hx
      · rw [hx]
        exact Or.inr List.mem_cons_self
    · exact Or.inr (List.mem_cons_of_mem x h)

/-- An element that is not greater than the greatest so far is compared with the least. -/
theorem recordAll_least_le_of_mem {xs : List α} {y : α} (hy : y ∈ xs) {e : Extremes α} (hle : y ≤ e.greatest) :
    (e.recordAll xs).least ≤ y := by
  induction xs generalizing e with
  | nil => exact absurd hy List.not_mem_nil
  | cons x xs ih =>
    rcases List.mem_cons.mp hy with rfl | hy
    · refine (recordAll_least_le (e.record y) xs).trans ?_
      rw [record_least_of_le hle]
      exact min_le_left y e.least
    · refine ih hy (e := e.record x) ?_
      rw [record_greatest]
      exact hle.trans (le_max_left e.greatest x)

/-! ## From the ends of a range -/

/-- The first element is an end of the range, or a later one is not greater. -/
def FirstMatched (lo hi : α) : List α → Prop
  | [] => False
  | x :: xs => x = lo ∨ x = hi ∨ ∃ y ∈ xs, y ≤ x

variable {lo hi : α} {xs : List α}

theorem recordAll_isGreatest (hlo : ∀ y ∈ xs, lo ≤ y) (hne : xs ≠ []) :
    IsGreatest {y | y ∈ xs} ((⟨hi, lo⟩ : Extremes α).recordAll xs).greatest := by
  refine ⟨?_, fun y hy => le_recordAll_greatest hy _⟩
  rcases recordAll_greatest_mem (⟨hi, lo⟩ : Extremes α) xs with h | h
  · obtain ⟨x, hx⟩ := List.exists_mem_of_ne_nil xs hne
    have hle := le_recordAll_greatest hx (⟨hi, lo⟩ : Extremes α)
    rw [h] at hle ⊢
    have heq : lo = x := le_antisymm (hlo x hx) hle
    exact heq ▸ hx
  · exact h

/-- What follows `x` and is not greater is compared with the least. -/
theorem recordAll_cons_least_le {x y : α} (hy : y ∈ xs) (hle : y ≤ x) (e : Extremes α) :
    (e.recordAll (x :: xs)).least ≤ y := by
  refine recordAll_least_le_of_mem hy (e := e.record x) (hle.trans ?_)
  rw [record_greatest]
  exact le_max_right e.greatest x

theorem recordAll_isLeast_of_le (hhi : ∀ y ∈ xs, y ≤ hi) (hne : xs ≠ [])
    (hle : ∀ y ∈ xs, ((⟨hi, lo⟩ : Extremes α).recordAll xs).least ≤ y) :
    IsLeast {y | y ∈ xs} ((⟨hi, lo⟩ : Extremes α).recordAll xs).least := by
  refine ⟨?_, hle⟩
  rcases recordAll_least_mem (⟨hi, lo⟩ : Extremes α) xs with h | h
  · obtain ⟨x, hx⟩ := List.exists_mem_of_ne_nil xs hne
    have hxhi := hle x hx
    rw [h] at hxhi ⊢
    have heq : hi = x := le_antisymm hxhi (hhi x hx)
    rw [heq]
    exact hx
  · exact h

theorem FirstMatched.isLeast (hlo : ∀ y ∈ xs, lo ≤ y) (hhi : ∀ y ∈ xs, y ≤ hi) (h : FirstMatched lo hi xs) :
    IsLeast {y | y ∈ xs} ((⟨hi, lo⟩ : Extremes α).recordAll xs).least := by
  cases xs with
  | nil => exact absurd h id
  | cons x xs =>
    refine recordAll_isLeast_of_le hhi (List.cons_ne_nil x xs) fun y hy => ?_
    rcases h with rfl | rfl | ⟨z, hz, hzx⟩
    · exact (recordAll_least_le_of_mem List.mem_cons_self le_rfl).trans (hlo y hy)
    · rcases List.mem_cons.mp hy with rfl | hys
      · exact recordAll_least_le _ _
      · exact recordAll_cons_least_le hys (hhi y hy) _
    · have hx := (recordAll_cons_least_le hz hzx ⟨hi, lo⟩).trans hzx
      rcases List.mem_cons.mp hy with rfl | hys
      · exact hx
      rcases le_total y x with hyx | hxy
      · exact recordAll_cons_least_le hys hyx _
      · exact hx.trans hxy

/-- A first element inside the range that is less than all others is lost. -/
theorem recordAll_isLeast_iff (hlo : ∀ y ∈ xs, lo ≤ y) (hhi : ∀ y ∈ xs, y ≤ hi) (hne : xs ≠ []) :
    IsLeast {y | y ∈ xs} ((⟨hi, lo⟩ : Extremes α).recordAll xs).least ↔ FirstMatched lo hi xs := by
  refine ⟨fun hleast => ?_, fun h => h.isLeast hlo hhi⟩
  cases xs with
  | nil => exact absurd rfl hne
  | cons x xs =>
    by_contra hno
    unfold FirstMatched at hno
    push Not at hno
    obtain ⟨hxlo, hxhi, hlater⟩ := hno
    have hltlo : lo < x := lt_of_le_of_ne (hlo x List.mem_cons_self) (Ne.symm hxlo)
    have hlthi : x < hi := lt_of_le_of_ne (hhi x List.mem_cons_self) hxhi
    have hle := hleast.2 List.mem_cons_self
    rw [recordAll_cons] at hle
    rcases recordAll_least_mem ((⟨hi, lo⟩ : Extremes α).record x) xs with h | h
    · rw [h, record_least_of_lt hltlo] at hle
      exact absurd hlthi (not_lt_of_ge hle)
    · exact absurd (hlater _ h) (not_lt_of_ge hle)

end Extremes

end Trtp.Lib
