import Mathlib.Tactic

/-!
# Serial numbers

Numbers of eight bits on a circle. `dist head s` is how far `s` is ahead of `head`.
-/

namespace Trtp.Lib

def dist (head s : UInt8) : Nat := (s - head).toNat

theorem dist_eq (head s : UInt8) : dist head s = (256 - head.toNat + s.toNat) % 256 := UInt8.toNat_sub s head

@[simp] theorem dist_self (head : UInt8) : dist head head = 0 := by simp [dist]

theorem dist_add (head u : UInt8) : dist head (head + u) = u.toNat := by
  rw [dist, UInt8.add_comm, UInt8.add_sub_cancel]

theorem dist_eq_zero {head s : UInt8} : dist head s = 0 ↔ s = head := by
  have hs := s.toNat_lt
  have hh := head.toNat_lt
  rw [dist_eq, ← UInt8.toNat_inj]
  omega

theorem dist_inj {head s t : UInt8} : dist head s = dist head t ↔ s = t := by
  have hs := s.toNat_lt
  have ht := t.toNat_lt
  have hh := head.toNat_lt
  rw [dist_eq, dist_eq, ← UInt8.toNat_inj]
  omega

/-- One step forward brings everything else one step closer. -/
theorem dist_succ {head s : UInt8} (h : s ≠ head) : dist (head + 1) s + 1 = dist head s := by
  have hs := s.toNat_lt
  have hh := head.toNat_lt
  have hne : s.toNat ≠ head.toNat := fun heq => h (UInt8.toNat_inj.mp heq)
  rw [dist_eq, dist_eq, UInt8.toNat_add, UInt8.toNat_one]
  omega

/-- The order from `head` on is the order of the numbers once those behind `head` are lifted by 256. -/
theorem dist_lift (head s : UInt8) :
    dist head s + head.toNat = if s < head then s.toNat + 256 else s.toNat := by
  have hs := s.toNat_lt
  have hh := head.toNat_lt
  rw [dist_eq]
  simp only [UInt8.lt_iff_toNat_lt]
  split <;> omega

/-- The `k` numbers that end at `last`. -/
def endingAt (last : UInt8) : Nat → List UInt8
  | 0 => []
  | k + 1 => endingAt (last - 1) k ++ [last]

theorem endingAt_succ (last : UInt8) (k : Nat) : endingAt last (k + 1) = endingAt (last - 1) k ++ [last] := by
  rw [endingAt]

/-- The number before the first of four, and the four. -/
theorem endingAt_four (first : UInt8) :
    endingAt (first + 3) 4 = [first, first + 1, first + 2, first + 3] := by
  have h2 : first + 3 - 1 = first + 2 := by grind
  have h1 : first + 2 - 1 = first + 1 := by grind
  simp only [endingAt, h2, h1, UInt8.add_sub_cancel]
  rfl

/-! ## Numbers of an endless sequence -/

/-- The serial number of index `i`. -/
def serial (i : Nat) : UInt8 := UInt8.ofNat i

theorem serial_toNat (i : Nat) : (serial i).toNat = i % 256 := UInt8.toNat_ofNat' ..

theorem serial_of_toNat (u : UInt8) : serial u.toNat = u := by
  apply UInt8.toNat_inj.mp
  rw [serial_toNat, Nat.mod_eq_of_lt u.toNat_lt]

theorem serial_toNat_add (u : UInt8) (i : Nat) : serial (u.toNat + i) = u + UInt8.ofNat i := by
  apply UInt8.toNat_inj.mp
  rw [serial_toNat, UInt8.toNat_add, UInt8.toNat_ofNat', Nat.add_mod_mod]

theorem serial_succ (i : Nat) : serial (i + 1) = serial i + 1 := by
  apply UInt8.toNat_inj.mp
  rw [UInt8.toNat_add, serial_toNat, serial_toNat, UInt8.toNat_one]
  omega

theorem dist_serial (h i : Nat) : (dist (serial h) (serial i) : Int) = ((i : Int) - h) % 256 := by
  rw [dist_eq, serial_toNat, serial_toNat]
  omega

/-- The serial number of an index that is not too far ahead gives the index. -/
theorem dist_serial_of_le {h i : Nat} (hle : h ≤ i) (hlt : i < h + 256) : dist (serial h) (serial i) = i - h := by
  have := dist_serial h i
  omega

theorem dist_serial_of_lt {h i : Nat} (hlt : i < h) (hle : h ≤ i + 256) :
    dist (serial h) (serial i) = 256 - (h - i) := by
  have := dist_serial h i
  omega

end Trtp.Lib
