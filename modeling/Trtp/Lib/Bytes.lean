import Mathlib.Tactic

/-!
# Bytes in memory

The bytes from a pointer on, numbers of a fixed width as bytes, and what a read into a buffer leaves there.
-/

namespace Trtp.Lib

/-- The bytes from a pointer on. -/
abbrev Mem := Nat → UInt8

/-- The `n` bytes at `off`. -/
def bytesAt (m : Mem) (off n : Nat) : List UInt8 := (List.range n).map fun i => m (off + i)

/-- What is in memory once `d` has been copied to its start. The bytes after `d` stay. -/
def load (d : List UInt8) (m : Mem) : Mem := fun i => d.getD i (m i)

/-- `n` bytes out of a buffer. Past the end of the buffer the C code reads whatever is there, here zero. -/
def readBuffer (p : Option (List UInt8)) (n : Nat) : List UInt8 := (p.getD []).takeD n 0

@[simp] theorem bytesAt_length (m : Mem) (off n : Nat) : (bytesAt m off n).length = n := by
  simp [bytesAt]

@[simp] theorem bytesAt_zero (m : Mem) (off : Nat) : bytesAt m off 0 = [] := rfl

theorem bytesAt_succ (m : Mem) (off n : Nat) : bytesAt m off (n + 1) = m off :: bytesAt m (off + 1) n := by
  simp only [bytesAt, List.range_succ_eq_map, List.map_cons, List.map_map, Nat.add_zero, List.cons.injEq,
    true_and]
  apply List.map_congr_left
  intro i _
  simp only [Function.comp, Nat.succ_eq_add_one]
  congr 1
  omega

theorem bytesAt_add (m : Mem) (off n k : Nat) : bytesAt m off (n + k) = bytesAt m off n ++ bytesAt m (off + n) k := by
  simp only [bytesAt, List.range_add, List.map_append, List.map_map, Function.comp_def, Nat.add_assoc]

theorem bytesAt_getElem (m : Mem) (off n i : Nat) (h : i < (bytesAt m off n).length) :
    (bytesAt m off n)[i] = m (off + i) := by
  simp [bytesAt]

theorem bytesAt_congr {m m' : Mem} {off n : Nat} (h : ∀ i, off ≤ i → i < off + n → m i = m' i) :
    bytesAt m off n = bytesAt m' off n := by
  apply List.map_congr_left
  intro i hi
  exact h _ (by omega) (by have := List.mem_range.mp hi; omega)

theorem eq_of_bytesAt_eq {m m' : Mem} {off n i : Nat} (h : bytesAt m off n = bytesAt m' off n) (hi : i < n) :
    m (off + i) = m' (off + i) := by
  rw [← bytesAt_getElem m off n i (by simpa using hi), ← bytesAt_getElem m' off n i (by simpa using hi)]
  exact List.getElem_of_eq h _

/-- The memory starts with the bytes of `d`. -/
def Starts (d : List UInt8) (m : Mem) : Prop := ∀ i (h : i < d.length), m i = d[i]

theorem Starts.bytesAt {d : List UInt8} {m : Mem} (hm : Starts d m) (off n : Nat) (h : off + n ≤ d.length) :
    bytesAt m off n = (d.drop off).take n := by
  apply List.ext_getElem
  · simp; omega
  · intro i h1 h2
    simp only [bytesAt_length] at h1
    rw [bytesAt_getElem, hm _ (by omega)]
    simp

theorem Starts.bytesAt_mid {a b c : List UInt8} {m : Mem} (hm : Starts (a ++ (b ++ c)) m) :
    Lib.bytesAt m a.length b.length = b := by
  rw [hm.bytesAt _ _ (by simp)]
  simp

theorem Starts.left {a b : List UInt8} {m : Mem} (hm : Starts (a ++ b) m) : Starts a m := by
  intro i h
  rw [hm i (by simp; omega), List.getElem_append_left]

theorem load_lt (d : List UInt8) (m : Mem) (i : Nat) (h : i < d.length) : load d m i = d[i] := by
  simp [load, h]

theorem load_starts (d : List UInt8) (m : Mem) : Starts d (load d m) := load_lt d m

theorem load_ge (d : List UInt8) (m : Mem) (i : Nat) (h : d.length ≤ i) : load d m i = m i := by
  simp [load, h]

theorem bytesAt_load (d : List UInt8) (m : Mem) : bytesAt (load d m) 0 d.length = d := by
  rw [(load_starts d m).bytesAt 0 d.length (by omega), List.drop_zero, List.take_length]

theorem bytesAt_eq_iff {m : Mem} {off : Nat} {l : List UInt8} :
    bytesAt m off l.length = l ↔ ∀ i (h : i < l.length), m (off + i) = l[i] := by
  constructor
  · intro heq i h
    rw [← bytesAt_getElem m off l.length i (by simpa using h)]
    exact List.getElem_of_eq heq _
  · intro hall
    apply List.ext_getElem
    · simp
    · intro i _ h
      rw [bytesAt_getElem, hall i h]

/-- What a datagram does not reach of a field decides the field, once what it does reach agrees. -/
theorem bytesAt_load_of_prefix {d l : List UInt8} {m : Mem} {off : Nat} (hpre : (d.drop off).take l.length <+: l)
    (hm : bytesAt m off l.length = l) : bytesAt (load d m) off l.length = l := by
  rw [bytesAt_eq_iff] at hm ⊢
  intro i h
  by_cases hi : off + i < d.length
  · have hlen : i < ((d.drop off).take l.length).length := by simp; omega
    rw [load_lt d m _ hi, ← hpre.getElem hlen]
    simp
  · rw [load_ge d m _ (by omega), hm i h]

/-- Conversely, a field that is right agrees with what the datagram reaches of it. -/
theorem prefix_of_bytesAt_load {d l : List UInt8} {m : Mem} {off : Nat}
    (h : bytesAt (load d m) off l.length = l) : (d.drop off).take l.length <+: l := by
  rw [bytesAt_eq_iff] at h
  rw [List.prefix_iff_eq_take]
  apply List.ext_getElem
  · simp
  · intro i hi _
    simp only [List.length_take, List.length_drop] at hi
    rw [List.getElem_take, List.getElem_drop, List.getElem_take, ← h i (by omega), load_lt d m _ (by omega)]

/-- Memory with `l` written over it from `off` on. -/
def overlay (off : Nat) (l : List UInt8) (m : Mem) : Mem :=
  fun i => if off ≤ i ∧ i < off + l.length then l.getD (i - off) 0 else m i

theorem bytesAt_overlay (off : Nat) (l : List UInt8) (m : Mem) : bytesAt (overlay off l m) off l.length = l := by
  rw [bytesAt_eq_iff]
  intro i h
  simp [overlay, h]

theorem overlay_of_lt {off i : Nat} (l : List UInt8) (m : Mem) (h : i < off) : overlay off l m i = m i := by
  unfold overlay
  rw [if_neg (by omega)]

@[simp] theorem readBuffer_length (p : Option (List UInt8)) (n : Nat) : (readBuffer p n).length = n := by
  simp [readBuffer]

theorem readBuffer_some (l : List UInt8) (n : Nat) (h : n = l.length) : readBuffer (some l) n = l := by
  subst h
  simp [readBuffer, List.takeD_eq_take]

@[simp] theorem readBuffer_zero (p : Option (List UInt8)) : readBuffer p 0 = [] := by
  simp [readBuffer]

/-! ## Big-endian numbers -/

/-- The number that the bytes spell, most significant byte first. -/
def beVal : List UInt8 → Nat
  | [] => 0
  | b :: bs => b.toNat * 256 ^ bs.length + beVal bs

/-- The low `n` bytes of `x`, most significant byte first. -/
def beBytes : Nat → Nat → List UInt8
  | 0, _ => []
  | n + 1, x => UInt8.ofNat (x / 256 ^ n) :: beBytes n x

@[simp] theorem beBytes_length (n x : Nat) : (beBytes n x).length = n := by
  induction n with
  | zero => rfl
  | succ n ih => simp [beBytes, ih]

theorem beVal_lt (l : List UInt8) : beVal l < 256 ^ l.length := by
  induction l with
  | nil => simp [beVal]
  | cons b bs ih =>
    have hb : b.toNat ≤ 255 := by have := b.toNat_lt; omega
    have hmul : b.toNat * 256 ^ bs.length ≤ 255 * 256 ^ bs.length := Nat.mul_le_mul_right _ hb
    simp only [beVal, List.length_cons, pow_succ]
    omega

theorem beVal_beBytes (n x : Nat) : beVal (beBytes n x) = x % 256 ^ n := by
  induction n with
  | zero => simp [beBytes, beVal, Nat.mod_one]
  | succ n ih =>
    rw [beBytes, beVal, ih, beBytes_length, UInt8.toNat_ofNat', pow_succ 256 n, Nat.mod_mul, Nat.add_comm,
      Nat.mul_comm]

theorem beBytes_add_mul (n x k : Nat) : beBytes n (k * 256 ^ n + x) = beBytes n x := by
  induction n generalizing k with
  | zero => rfl
  | succ n ih =>
    have hsplit : k * 256 ^ (n + 1) + x = (k * 256) * 256 ^ n + x := by rw [pow_succ]; ring
    rw [beBytes, beBytes, hsplit, ih]
    congr 1
    apply UInt8.toNat_inj.mp
    have hpos : 0 < 256 ^ n := by positivity
    rw [UInt8.toNat_ofNat', UInt8.toNat_ofNat', Nat.add_comm, Nat.add_mul_div_right _ _ hpos]
    omega

theorem beBytes_beVal (l : List UInt8) : beBytes l.length (beVal l) = l := by
  induction l with
  | nil => rfl
  | cons b bs ih =>
    rw [List.length_cons, beBytes, beVal, beBytes_add_mul, ih]
    congr 1
    have hpos : 0 < 256 ^ bs.length := by positivity
    rw [Nat.add_comm, Nat.add_mul_div_right _ _ hpos, Nat.div_eq_of_lt (beVal_lt bs), Nat.zero_add]
    simp

/-- Bytes of the width of a number spell it exactly when they are its bytes. -/
theorem beVal_eq_iff (l : List UInt8) (x : Nat) (h : x < 256 ^ l.length) :
    beVal l = x ↔ l = beBytes l.length x := by
  constructor
  · rintro rfl
    exact (beBytes_beVal l).symm
  · intro hl
    rw [hl, beVal_beBytes, Nat.mod_eq_of_lt h]

end Trtp.Lib
