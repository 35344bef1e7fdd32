import Trtp.Codec
import Trtp.Lib.Crc

/-!
# Damage that the CRCs detect

`crc32` of zlib is the division by a polynomial of degree 32, so at most four bytes in a row never change without it.
-/

open Trtp.Lib

namespace Trtp

/-! ## `crc32` of zlib -/

theorem zlib_crc32_shift (crc : UInt32) :
    (if crc &&& 1 = 1 then (crc >>> 1) ^^^ 0xEDB88320 else crc >>> 1).toBitVec =
      crcShift 0xEDB88320#32 crc.toBitVec := by
  have hlow : crc &&& 1 = 1 ↔ crc.toBitVec.getLsbD 0 = true := by
    rw [← UInt32.toBitVec_inj, UInt32.toBitVec_and]
    change crc.toBitVec &&& 1#32 = 1#32 ↔ _
    rw [BitVec.and_one_eq_setWidth_ofBool_getLsbD]
    cases crc.toBitVec.getLsbD 0 <;> decide
  unfold crcShift
  by_cases h : crc &&& 1 = 1
  · rw [if_pos h, if_pos (hlow.mp h)]
    rfl
  · rw [if_neg h, if_neg fun hbit => h (hlow.mpr hbit)]
    rfl

theorem zlib_crc32_byte_eq (crc : UInt32) (byte : UInt8) :
    (zlib_crc32_byte crc byte).toBitVec = crcByte 0xEDB88320#32 crc.toBitVec byte.toBitVec := by
  have hsemi : Function.Semiconj UInt32.toBitVec
      (fun crc => if crc &&& 1 = 1 then (crc >>> 1) ^^^ 0xEDB88320 else crc >>> 1) (crcShift 0xEDB88320#32) :=
    zlib_crc32_shift
  unfold zlib_crc32_byte crcByte
  rw [List.foldl_const, List.length_range, hsemi.iterate_right 8]
  rfl

theorem zlib_crc32_eq (bytes : List UInt8) :
    (zlib_crc32 bytes).toBitVec =
      crcBytes 0xEDB88320#32 0xFFFFFFFF#32 (bytes.map UInt8.toBitVec) ^^^ 0xFFFFFFFF#32 := by
  have hfold : ∀ crc : UInt32, (bytes.foldl zlib_crc32_byte crc).toBitVec =
      crcBytes 0xEDB88320#32 crc.toBitVec (bytes.map UInt8.toBitVec) := by
    induction bytes with
    | nil => exact fun _ => rfl
    | cons byte bytes ih =>
      intro crc
      rw [List.foldl_cons, ih, zlib_crc32_byte_eq]
      rfl
  rw [zlib_crc32, UInt32.toBitVec_xor, hfold]
  rfl

/-- Bytes that differ only in at most four bytes in a row differ in their CRC. -/
def DetectsBursts (crc32 : List UInt8 → UInt32) : Prop :=
  ∀ burst burst' : List UInt8, burst.length = burst'.length → burst.length ≤ 4 → burst ≠ burst' →
    ∀ before after, crc32 (before ++ (burst ++ after)) ≠ crc32 (before ++ (burst' ++ after))

theorem zlib_crc32_detects : DetectsBursts zlib_crc32 := by
  intro burst burst' hlen hle hne before after h
  have hcrc := congrArg UInt32.toBitVec h
  simp only [zlib_crc32_eq, List.map_append] at hcrc
  refine crcBytes_burst (by decide : (0xEDB88320#32).msb = true) ?_ ?_ ?_ _ _ _ ((BitVec.xor_left_inj _).mp hcrc)
  · simpa using hlen
  · rw [List.length_map]
    omega
  · exact fun hmap => hne (List.map_injective_iff.mpr (fun _ _ => UInt8.toBitVec_inj.mp) hmap)

/-! ## In memory -/

/-- The memories are the same but for at most four bytes, from `lo` on and before `up`. -/
structure BurstAt (lo up : Nat) (m m' : Mem) : Prop where
  outside : ∀ i, i < lo ∨ up ≤ i → m' i = m i
  inside : ∃ i, lo ≤ i ∧ i < up ∧ m' i ≠ m i
  short : up ≤ lo + 4

section BurstAt

variable {lo up : Nat} {m m' : Mem} (h : BurstAt lo up m m') {off n : Nat}
include h

theorem BurstAt.bytesAt_same (hside : off + n ≤ lo ∨ up ≤ off) : bytesAt m' off n = bytesAt m off n :=
  bytesAt_congr fun i hoff hi => h.outside i (by omega)

theorem BurstAt.bytesAt_ne (hlo : off ≤ lo) (hup : up ≤ off + n) : bytesAt m' off n ≠ bytesAt m off n := by
  obtain ⟨i, hi, hlt, hne⟩ := h.inside
  intro heq
  have hsame := eq_of_bytesAt_eq heq (show i - off < n by omega)
  rw [show off + (i - off) = i by omega] at hsame
  exact hne hsame

theorem BurstAt.crc32_ne {crc32 : List UInt8 → UInt32} (hcrc : DetectsBursts crc32) (hlo : off ≤ lo)
    (hup : up ≤ off + n) : crc32 (bytesAt m' off n) ≠ crc32 (bytesAt m off n) := by
  have hsplit : ∀ m : Mem, bytesAt m off n =
      bytesAt m off (lo - off) ++ (bytesAt m lo (up - lo) ++ bytesAt m up (off + n - up)) := by
    intro m
    obtain ⟨i, hi, hlt, _⟩ := h.inside
    rw [show n = (lo - off) + ((up - lo) + (off + n - up)) by omega, bytesAt_add, bytesAt_add,
      show off + (lo - off) = lo by omega, show lo + (up - lo) = up by omega,
      show off + (lo - off + (up - lo + (off + n - up))) - up = off + n - up by omega]
  have hshort := h.short
  rw [hsplit m', hsplit m, h.bytesAt_same (Or.inl (by omega)), h.bytesAt_same (Or.inr le_rfl)]
  refine hcrc _ _ ?_ ?_ (h.bytesAt_ne le_rfl (by omega)) _ _
  · rw [bytesAt_length, bytesAt_length]
  · rw [bytesAt_length]
    omega

end BurstAt

/-! ## In a datagram -/

/-- At most four bytes in a row are damaged, from `lo` on and before `up`, all on one side of each border. -/
structure Burst (borders : List Nat) (lo up : Nat) (d d' : List UInt8) : Prop where
  length : d'.length = d.length
  outside : ∀ i, i < lo ∨ up ≤ i → d'[i]? = d[i]?
  damage : d' ≠ d
  short : up ≤ lo + 4
  within : up ≤ d.length
  borders : ∀ border ∈ borders, border ≤ lo ∨ up ≤ border

/-- A single byte is on one side of each border. -/
theorem Burst.one_byte (borders : List Nat) {d : List UInt8} {i : Nat} {b : UInt8} (hi : i < d.length) (hb : d[i] ≠ b) :
    Burst borders i (i + 1) d (d.set i b) where
  length := List.length_set
  outside := fun j hj => List.getElem?_set_ne (by omega)
  damage := by
    intro heq
    have hsame := List.getElem_of_eq heq (by rwa [List.length_set])
    rw [List.getElem_set_self] at hsame
    exact hb hsame.symm
  short := by omega
  within := hi
  borders := fun border _ => by omega

/-- The same damage once it is read into a buffer. -/
theorem Burst.read {borders : List Nat} {lo up : Nat} {d d' : List UInt8} (h : Burst borders lo up d d')
    (hlen : d.length ≤ PKT_MAX_LEN) (buffer : Mem) :
    BurstAt lo up (readInto (some d) buffer) (readInto (some d') buffer) := by
  have hread : ∀ d : List UInt8, d.length ≤ PKT_MAX_LEN → ∀ i, readInto (some d) buffer i = d[i]?.getD (buffer i) := by
    intro d hd i
    rw [readInto, List.take_of_length_le hd, load, List.getD_eq_getElem?_getD]
  have hd := hread d hlen
  have hd' := hread d' (h.length ▸ hlen)
  refine ⟨fun i hi => ?_, ?_, h.short⟩
  · rw [hd, hd', h.outside i hi]
  · by_contra hno
    push Not at hno
    refine h.damage (List.ext_getElem h.length fun i hi' hi'' => ?_)
    by_cases hin : lo ≤ i ∧ i < up
    · have hsame := hno i hin.1 hin.2
      rw [hd, hd', List.getElem?_eq_getElem hi', List.getElem?_eq_getElem hi''] at hsame
      exact hsame
    · have hsame := h.outside i (by omega)
      rw [List.getElem?_eq_getElem hi', List.getElem?_eq_getElem hi''] at hsame
      exact Option.some.inj hsame

end Trtp
