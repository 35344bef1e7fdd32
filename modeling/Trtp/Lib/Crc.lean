import Mathlib.Tactic

/-!
# Cyclic redundancy checks

The division by a polynomial, low bits first. Messages that differ only in a few bytes in a row have different
remainders, as long as these bytes are no longer than the remainder.
-/

namespace Trtp.Lib

section Crc

variable {w : Nat} (poly : BitVec w)

/-- The division by one bit. -/
def crcShift (x : BitVec w) : BitVec w := if x.getLsbD 0 then (x >>> 1) ^^^ poly else x >>> 1

def crcByte (x : BitVec w) (byte : BitVec 8) : BitVec w := (crcShift poly)^[8] (x ^^^ byte.setWidth w)

/-- The remainder after the bytes, from the remainder before them. -/
def crcBytes (x : BitVec w) (bytes : List (BitVec 8)) : BitVec w := bytes.foldl (crcByte poly) x

/-! ## The division is linear -/

theorem crcShift_xor (x y : BitVec w) : crcShift poly (x ^^^ y) = crcShift poly x ^^^ crcShift poly y := by
  unfold crcShift
  rw [BitVec.getLsbD_xor, BitVec.ushiftRight_xor_distrib]
  cases x.getLsbD 0 <;> cases y.getLsbD 0
  · rfl
  · simp only [Bool.false_bne, if_true, Bool.false_eq_true, if_false]
    rw [BitVec.xor_assoc]
  · simp only [Bool.bne_false, if_true, Bool.false_eq_true, if_false]
    rw [BitVec.xor_assoc, BitVec.xor_assoc, BitVec.xor_comm poly]
  · simp only [bne_self_eq_false, Bool.false_eq_true, if_false, if_true]
    rw [BitVec.xor_assoc, BitVec.xor_comm (y >>> 1), ← BitVec.xor_assoc poly, BitVec.xor_self, BitVec.zero_xor]

theorem crcShift_iterate_xor (n : Nat) (x y : BitVec w) :
    (crcShift poly)^[n] (x ^^^ y) = (crcShift poly)^[n] x ^^^ (crcShift poly)^[n] y := by
  induction n generalizing x y with
  | zero => rfl
  | succ n ih => rw [Function.iterate_succ_apply, crcShift_xor, ih, ← Function.iterate_succ_apply,
      ← Function.iterate_succ_apply]

/-- Low bits that are 0 only go out. -/
theorem crcShift_iterate_shiftLeft {n : Nat} {x : BitVec w} (h : x.toNat * 2 ^ n < 2 ^ w) :
    (crcShift poly)^[n] (x <<< n) = x := by
  induction n with
  | zero => rw [BitVec.shiftLeft_zero, Function.iterate_zero_apply]
  | succ n ih =>
    rw [Nat.pow_succ, ← Nat.mul_assoc] at h
    have hone : crcShift poly (x <<< (n + 1)) = x <<< n := by
      have hlow : (x <<< (n + 1)).getLsbD 0 = false := by simp
      rw [crcShift, hlow, if_neg Bool.false_ne_true]
      apply BitVec.eq_of_toNat_eq
      rw [BitVec.toNat_ushiftRight, BitVec.toNat_shiftLeft, BitVec.toNat_shiftLeft, Nat.shiftLeft_eq, Nat.shiftLeft_eq,
        Nat.shiftRight_eq_div_pow, Nat.pow_succ, ← Nat.mul_assoc, Nat.mod_eq_of_lt h, Nat.mod_eq_of_lt (by omega)]
      omega
    rw [Function.iterate_succ_apply, hone, ih (by omega)]

/-! ## Few bytes at a time -/

/-- The bytes as one number, the first byte lowest. -/
def crcWord : List (BitVec 8) → BitVec w
  | [] => 0#w
  | byte :: bytes => byte.setWidth w ^^^ (crcWord bytes <<< 8)

theorem crcWord_lt {bytes : List (BitVec 8)} (hw : 8 * bytes.length ≤ w) :
    (crcWord bytes : BitVec w).toNat < 2 ^ (8 * bytes.length) := by
  induction bytes with
  | nil => exact Nat.one_pos
  | cons byte bytes ih =>
    rw [List.length_cons] at hw ⊢
    have hrest := ih (by omega)
    have hpow : 2 ^ (8 * (bytes.length + 1)) = 2 ^ (8 * bytes.length) * 2 ^ 8 := by rw [← Nat.pow_add, Nat.mul_succ]
    rw [crcWord, BitVec.toNat_xor]
    apply Nat.xor_lt_two_pow
    · calc (byte.setWidth w).toNat ≤ byte.toNat := by
            rw [BitVec.toNat_setWidth]
            exact Nat.mod_le _ _
        _ < 2 ^ 8 := byte.isLt
        _ ≤ 2 ^ (8 * (bytes.length + 1)) := Nat.pow_le_pow_right (by decide) (by omega)
    · calc ((crcWord bytes : BitVec w) <<< 8).toNat ≤ (crcWord bytes : BitVec w).toNat * 2 ^ 8 := by
            rw [BitVec.toNat_shiftLeft, Nat.shiftLeft_eq]
            exact Nat.mod_le _ _
        _ < 2 ^ (8 * (bytes.length + 1)) := by
            rw [hpow]
            exact Nat.mul_lt_mul_of_pos_right hrest (by decide)

theorem crcWord_room {byte : BitVec 8} {bytes : List (BitVec 8)} (hw : 8 * (byte :: bytes).length ≤ w) :
    (crcWord bytes : BitVec w).toNat * 2 ^ 8 < 2 ^ w := by
  rw [List.length_cons] at hw
  calc (crcWord bytes : BitVec w).toNat * 2 ^ 8 < 2 ^ (8 * bytes.length) * 2 ^ 8 :=
        Nat.mul_lt_mul_of_pos_right (crcWord_lt (by omega)) (by decide)
    _ = 2 ^ (8 * bytes.length + 8) := (Nat.pow_add ..).symm
    _ ≤ 2 ^ w := Nat.pow_le_pow_right (by decide) hw

/-- Bytes that are together no longer than the remainder go in at once. -/
theorem crcBytes_word {bytes : List (BitVec 8)} (hw : 8 * bytes.length ≤ w) (x : BitVec w) :
    crcBytes poly x bytes = (crcShift poly)^[8 * bytes.length] (x ^^^ crcWord bytes) := by
  induction bytes generalizing x with
  | nil => exact BitVec.xor_zero.symm
  | cons byte bytes ih =>
    have hshift := crcShift_iterate_shiftLeft poly (crcWord_room hw)
    rw [List.length_cons] at hw ⊢
    calc crcBytes poly x (byte :: bytes)
        = (crcShift poly)^[8 * bytes.length] (crcByte poly x byte ^^^ crcWord bytes) := ih (by omega) _
      _ = (crcShift poly)^[8 * bytes.length]
            ((crcShift poly)^[8] (x ^^^ byte.setWidth w ^^^ (crcWord bytes <<< 8))) := by
          rw [crcShift_iterate_xor poly 8, hshift, crcByte]
      _ = (crcShift poly)^[8 * (bytes.length + 1)] (x ^^^ crcWord (byte :: bytes)) := by
          rw [← Function.iterate_add_apply, Nat.mul_succ, crcWord, BitVec.xor_assoc]

theorem crcWord_injective {bytes bytes' : List (BitVec 8)} (hlen : bytes.length = bytes'.length)
    (hw : 8 * bytes.length ≤ w) (h : (crcWord bytes : BitVec w) = crcWord bytes') : bytes = bytes' := by
  induction bytes generalizing bytes' with
  | nil => exact (List.length_eq_zero_iff.mp hlen.symm).symm
  | cons byte bytes ih =>
    match bytes', hlen with
    | byte' :: bytes', hlen =>
      have hroom := crcWord_room hw
      have hroom' : (crcWord bytes' : BitVec w).toNat * 2 ^ 8 < 2 ^ w := crcWord_room (hlen ▸ hw)
      rw [List.length_cons] at hw
      have hbyte : byte = byte' := by
        apply BitVec.eq_of_getLsbD_eq
        intro i hi
        have hbit := congrArg (BitVec.getLsbD · i) h
        have hin : i < w := by omega
        simpa [crcWord, hi, hin] using hbit
      subst hbyte
      rw [crcWord, crcWord, BitVec.xor_right_inj] at h
      have hrest : (crcWord bytes : BitVec w) = crcWord bytes' := by
        apply BitVec.eq_of_toNat_eq
        have hnat := congrArg BitVec.toNat h
        rw [BitVec.toNat_shiftLeft, BitVec.toNat_shiftLeft, Nat.shiftLeft_eq, Nat.shiftLeft_eq, Nat.mod_eq_of_lt hroom,
          Nat.mod_eq_of_lt hroom'] at hnat
        exact Nat.eq_of_mul_eq_mul_right (by decide) hnat
      rw [ih (Nat.succ.inj hlen) (by omega) hrest]

/-! ## Nothing is lost -/

variable {poly} (hpoly : poly.msb = true)
include hpoly

theorem crcShift_eq_zero {x : BitVec w} (h : crcShift poly x = 0#w) : x = 0#w := by
  unfold crcShift at h
  split at h
  · -- the top bit of the polynomial is left
    rw [BitVec.xor_eq_zero_iff] at h
    have hmsb := congrArg BitVec.msb h
    rw [hpoly, BitVec.msb_ushiftRight] at hmsb
    simp at hmsb
  · rename_i hlow
    apply BitVec.eq_of_getLsbD_eq
    intro i _
    rw [BitVec.getLsbD_zero]
    cases i with
    | zero => exact Bool.eq_false_of_not_eq_true hlow
    | succ i =>
      have hbit := congrArg (BitVec.getLsbD · i) h
      simp only [BitVec.getLsbD_ushiftRight, BitVec.getLsbD_zero] at hbit
      rw [Nat.add_comm, hbit]

theorem crcShift_injective : Function.Injective (crcShift poly) := by
  intro x y h
  have hxor : crcShift poly (x ^^^ y) = 0#w := by rw [crcShift_xor, h, BitVec.xor_self]
  exact BitVec.xor_eq_zero_iff.mp (crcShift_eq_zero hpoly hxor)

theorem crcByte_injective (byte : BitVec 8) : Function.Injective fun x => crcByte poly x byte := by
  intro x y h
  exact (BitVec.xor_left_inj _).mp ((crcShift_injective hpoly).iterate 8 h)

theorem crcBytes_injective (bytes : List (BitVec 8)) : Function.Injective fun x => crcBytes poly x bytes := by
  induction bytes with
  | nil => exact Function.injective_id
  | cons byte bytes ih => exact ih.comp (crcByte_injective hpoly byte)

/-- A burst that is no longer than the remainder does not stay hidden. -/
theorem crcBytes_burst {burst burst' : List (BitVec 8)} (hlen : burst.length = burst'.length)
    (hw : 8 * burst.length ≤ w) (hne : burst ≠ burst') (x : BitVec w) (before after : List (BitVec 8)) :
    crcBytes poly x (before ++ (burst ++ after)) ≠ crcBytes poly x (before ++ (burst' ++ after)) := by
  intro h
  unfold crcBytes at h
  simp only [List.foldl_append] at h
  have hburst := crcBytes_injective hpoly after h
  change crcBytes poly _ burst = crcBytes poly _ burst' at hburst
  rw [crcBytes_word poly hw, crcBytes_word poly (hlen ▸ hw), ← hlen] at hburst
  have hword := (BitVec.xor_right_inj _).mp ((crcShift_injective hpoly).iterate _ hburst)
  exact hne (crcWord_injective hlen hw hword)

end Crc

end Trtp.Lib
