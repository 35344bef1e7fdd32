import Trtp.Fec
import Trtp.Codec.RoundTrip

/-!
# What a FEC packet recovers

`deal_with_fec` gives the three packets that arrived and the FEC packet to `fec_generation` again. What comes back is
the missing packet only where the third payload can stand in for the fourth.
-/

open Trtp.Lib

namespace Trtp

/-! ## `fec_generation` on its arguments -/

/-- A `DATA` packet with a payload of exactly `length` bytes. -/
structure DataPkt (pkt : Pkt) : Prop extends Sendable pkt where
  isData : pkt.type = .DATA

/-- The payload with zeros after it. -/
def padded (pkt : Pkt) (i : Nat) : UInt8 := (payloadBytes pkt).getD i 0

/-- Each byte that `fec_generation` reads is in the payload that it reads. -/
structure FecReads (pkt1 pkt2 pkt3 pkt4 : Pkt) : Prop where
  first : ∀ i < MAX_PAYLOAD_SIZE, i < pkt1.length.toNat → i < (payloadBytes pkt1).length
  second : ∀ i < MAX_PAYLOAD_SIZE, i < pkt2.length.toNat → i < (payloadBytes pkt2).length
  third : ∀ i < MAX_PAYLOAD_SIZE, i < pkt3.length.toNat → i < (payloadBytes pkt3).length
  fourth : ∀ i < MAX_PAYLOAD_SIZE, i < pkt4.length.toNat → i < (payloadBytes pkt3).length

/-- `fec_generation` stops at 512 bytes. -/
theorem fecReads_iff_le (pkt1 pkt2 pkt3 pkt4 : Pkt) :
    FecReads pkt1 pkt2 pkt3 pkt4 ↔
      min MAX_PAYLOAD_SIZE pkt1.length.toNat ≤ (payloadBytes pkt1).length ∧
      min MAX_PAYLOAD_SIZE pkt2.length.toNat ≤ (payloadBytes pkt2).length ∧
      min MAX_PAYLOAD_SIZE pkt3.length.toNat ≤ (payloadBytes pkt3).length ∧
      min MAX_PAYLOAD_SIZE pkt4.length.toNat ≤ (payloadBytes pkt3).length := by
  have hall : ∀ m n : Nat, (∀ i < MAX_PAYLOAD_SIZE, i < m → i < n) ↔ min MAX_PAYLOAD_SIZE m ≤ n := by
    intro m n
    constructor
    · intro h
      by_contra hlt
      have hn := h n (by omega) (by omega)
      omega
    · intro h i hi him
      omega
  rw [← hall, ← hall, ← hall, ← hall]
  exact ⟨fun h => ⟨h.first, h.second, h.third, h.fourth⟩, fun ⟨h1, h2, h3, h4⟩ => ⟨h1, h2, h3, h4⟩⟩

instance (pkt1 pkt2 pkt3 pkt4 : Pkt) : Decidable (FecReads pkt1 pkt2 pkt3 pkt4) :=
  decidable_of_iff' _ (fecReads_iff_le pkt1 pkt2 pkt3 pkt4)

theorem DataPkt.length_le {pkt : Pkt} (h : DataPkt pkt) : pkt.length.toNat ≤ MAX_PAYLOAD_SIZE := (h.data h.isData).1

theorem DataPkt.payload_length {pkt : Pkt} (h : DataPkt pkt) : (payloadBytes pkt).length = pkt.length.toNat :=
  h.toSendable.payloadBytes_length h.isData

theorem DataPkt.padded_ge {pkt : Pkt} (h : DataPkt pkt) {i : Nat} (hi : pkt.length.toNat ≤ i) : padded pkt i = 0 := by
  have hend : (payloadBytes pkt).length ≤ i := by rw [h.payload_length]; exact hi
  simp [padded, hend]

theorem DataPkt.fec_byte {pkt : Pkt} (h : DataPkt pkt) (i : Nat) :
    fec_byte (pkt_get_length pkt) (pkt_get_payload pkt) i = padded pkt i := by
  unfold Trtp.fec_byte
  split
  · rfl
  · rename_i hi
    exact (h.padded_ge (Nat.le_of_not_lt hi)).symm

/-- Of the fourth packet only the length counts: its bytes are those of the third. -/
theorem xor_payload_data {x y z : Pkt} (hx : DataPkt x) (hy : DataPkt y) (hz : DataPkt z) (w : Pkt) (i : Nat) :
    xor_payload x y z w i =
      padded x i ^^^ padded y i ^^^ padded z i ^^^ if i < w.length.toNat then padded z i else 0 := by
  rw [xor_payload, hx.fec_byte, hy.fec_byte, hz.fec_byte]
  rfl

/-- The XOR of the four lengths, as the packet can hold it: `pkt_set_length` refuses a value over 512. -/
def fecLength (pkt1 pkt2 pkt3 pkt4 : Pkt) : UInt16 :=
  if (xor_length pkt1 pkt2 pkt3 pkt4).toNat ≤ MAX_PAYLOAD_SIZE then xor_length pkt1 pkt2 pkt3 pkt4 else 0

theorem fec_generation_eq (pkt1 pkt2 pkt3 pkt4 : Pkt) :
    fec_generation pkt1 pkt2 pkt3 pkt4 =
      { pkt_new with
        length := fecLength pkt1 pkt2 pkt3 pkt4
        seqnum := pkt1.seqnum
        payload := some (bytesAt (xor_payload pkt1 pkt2 pkt3 pkt4) 0 MAX_PAYLOAD_SIZE) } := by
  have hlength : (pkt_set_length pkt_new (xor_length pkt1 pkt2 pkt3 pkt4)).2 =
      { pkt_new with length := fecLength pkt1 pkt2 pkt3 pkt4 } := by
    rw [pkt_set_length_eq (Or.inr rfl), fecLength]
    by_cases hle : (xor_length pkt1 pkt2 pkt3 pkt4).toNat ≤ MAX_PAYLOAD_SIZE
    · rw [if_neg (Nat.not_lt.mpr hle), if_pos hle]
    · rw [if_pos (Nat.lt_of_not_le hle), if_neg hle]
      rfl
  have hpayload : ∀ (pkt : Pkt) (data : Mem) (length : UInt16), pkt.type = .FEC →
      (pkt_set_payload pkt data length).2 = { pkt with payload := some (bytesAt data 0 MAX_PAYLOAD_SIZE) } := by
    intro pkt data length ht
    simp [pkt_set_payload, ht]
  rw [fec_generation, hlength, hpayload _ _ _ rfl]
  rfl

theorem fec_generation_length (pkt1 pkt2 pkt3 pkt4 : Pkt) :
    (fec_generation pkt1 pkt2 pkt3 pkt4).length = fecLength pkt1 pkt2 pkt3 pkt4 := by
  rw [fec_generation_eq]

theorem fec_generation_payload (pkt1 pkt2 pkt3 pkt4 : Pkt) :
    pkt_get_payload (fec_generation pkt1 pkt2 pkt3 pkt4) =
      some (bytesAt (xor_payload pkt1 pkt2 pkt3 pkt4) 0 MAX_PAYLOAD_SIZE) := by
  rw [pkt_get_payload, if_pos (Or.inr (fec_generation_type _ _ _ _)), fec_generation_eq]

/-! ## One missing packet -/

/-- The three packets and the FEC packet give back the missing one: its length, and its payload at the start of
theirs. -/
structure Recovers (x y z fec missing : Pkt) : Prop where
  reads : FecReads x y z fec
  length : (fec_generation x y z fec).length = missing.length
  payload : (payloadBytes (fec_generation x y z fec)).take missing.length.toNat = payloadBytes missing

theorem fecReads_iff {x y z w : Pkt} (hx : DataPkt x) (hy : DataPkt y) (hz : DataPkt z)
    (hw : w.length.toNat ≤ MAX_PAYLOAD_SIZE) : FecReads x y z w ↔ w.length.toNat ≤ z.length.toNat := by
  constructor
  · intro h
    by_contra hlt
    have hread := h.fourth z.length.toNat (by omega) (by omega)
    rw [hz.payload_length] at hread
    omega
  · intro hle
    constructor <;> intro i _ hi
    · rwa [hx.payload_length]
    · rwa [hy.payload_length]
    · rwa [hz.payload_length]
    · rw [hz.payload_length]
      omega

/-- The bytes that come back: those of the FEC packet are not among what they are made of. -/
def recoveredByte (x y z : Pkt) (n i : Nat) : UInt8 :=
  if i < n then padded x i ^^^ padded y i else padded x i ^^^ padded y i ^^^ padded z i

theorem recoveredByte_lt (x y z : Pkt) {n i : Nat} (h : i < n) :
    recoveredByte x y z n i = padded x i ^^^ padded y i := if_pos h

theorem recoveredByte_ge (x y z : Pkt) {n i : Nat} (h : n ≤ i) :
    recoveredByte x y z n i = padded x i ^^^ padded y i ^^^ padded z i := if_neg (Nat.not_lt.mpr h)

theorem xor_payload_recovered {x y z : Pkt} (hx : DataPkt x) (hy : DataPkt y) (hz : DataPkt z) (w : Pkt) (i : Nat) :
    xor_payload x y z w i = recoveredByte x y z w.length.toNat i := by
  rw [xor_payload_data hx hy hz, recoveredByte]
  split
  · rw [UInt8.xor_assoc, UInt8.xor_self, UInt8.xor_zero]
  · rw [UInt8.xor_zero]

theorem recovers_iff {x y z w missing : Pkt} (hx : DataPkt x) (hy : DataPkt y) (hz : DataPkt z)
    (hw : w.length.toNat ≤ MAX_PAYLOAD_SIZE) (hm : DataPkt missing) :
    Recovers x y z w missing ↔ w.length.toNat ≤ z.length.toNat ∧ fecLength x y z w = missing.length ∧
      ∀ i < missing.length.toNat, recoveredByte x y z w.length.toNat i = padded missing i := by
  have hbytes : (payloadBytes (fec_generation x y z w)).take missing.length.toNat = payloadBytes missing ↔
      ∀ i < missing.length.toNat, recoveredByte x y z w.length.toNat i = padded missing i := by
    have hle := hm.length_le
    rw [payloadBytes, fec_generation_payload, Option.getD_some, List.ext_getElem_iff]
    simp only [List.length_take, bytesAt_length, hm.payload_length, Nat.min_eq_left hle, List.getElem_take,
      bytesAt_getElem, Nat.zero_add, true_and, xor_payload_recovered hx hy hz]
    refine forall_congr' fun i => ⟨fun h hi => ?_, fun h hi _ => ?_⟩
    · rw [h hi hi, padded, List.getD_eq_getElem?_getD, List.getElem?_eq_getElem, Option.getD_some]
    · rw [h hi, padded, List.getD_eq_getElem?_getD, List.getElem?_eq_getElem, Option.getD_some]
  constructor
  · rintro ⟨hreads, hlength, hpayload⟩
    rw [fec_generation_length] at hlength
    exact ⟨(fecReads_iff hx hy hz hw).mp hreads, hlength, hbytes.mp hpayload⟩
  · rintro ⟨hle, hlength, hpayload⟩
    exact ⟨(fecReads_iff hx hy hz hw).mpr hle, by rw [fec_generation_length, hlength], hbytes.mpr hpayload⟩

/-- A FEC packet whose length field is right gives back the length. -/
theorem recovers_iff_bytes {x y z w missing : Pkt} (hx : DataPkt x) (hy : DataPkt y) (hz : DataPkt z)
    (hm : DataPkt missing) (hw : w.length = x.length ^^^ y.length ^^^ z.length ^^^ missing.length)
    (hle : w.length.toNat ≤ MAX_PAYLOAD_SIZE) :
    Recovers x y z w missing ↔ w.length.toNat ≤ z.length.toNat ∧
      ∀ i < missing.length.toNat, recoveredByte x y z w.length.toNat i = padded missing i := by
  have hxor : xor_length x y z w = missing.length := by
    change x.length ^^^ y.length ^^^ z.length ^^^ w.length = missing.length
    rw [hw, ← UInt16.xor_assoc, UInt16.xor_self, UInt16.zero_xor]
  have hback : fecLength x y z w = missing.length := by
    rw [fecLength, hxor, if_pos hm.length_le]
  rw [recovers_iff hx hy hz hle hm]
  simp only [hback, true_and]

/-! ## Every missing packet -/

/-- Each of the four packets comes back from the other three. -/
structure RecoveryLaw (a b c d : Pkt) : Prop where
  generation : FecReads a b c d
  first : Recovers b c d (fec_generation a b c d) a
  second : Recovers a c d (fec_generation a b c d) b
  third : Recovers a b d (fec_generation a b c d) c
  fourth : Recovers a b c (fec_generation a b c d) d

/-- The packets whose third payload can stand in for the fourth, and for the FEC packet. -/
structure StandsIn (a b c d : Pkt) : Prop where
  fourth_le : d.length.toNat ≤ c.length.toNat
  xor_le : (a.length ^^^ b.length ^^^ c.length ^^^ d.length).toNat ≤ d.length.toNat
  below : ∀ i < (a.length ^^^ b.length ^^^ c.length ^^^ d.length).toNat,
    padded a i ^^^ padded b i = padded c i ∧ padded d i = padded c i
  above : ∀ i, (a.length ^^^ b.length ^^^ c.length ^^^ d.length).toNat ≤ i →
    padded a i ^^^ padded b i ^^^ padded c i ^^^ padded d i = 0

theorem fecLength_le (pkt1 pkt2 pkt3 pkt4 : Pkt) : (fecLength pkt1 pkt2 pkt3 pkt4).toNat ≤ MAX_PAYLOAD_SIZE := by
  unfold fecLength
  split
  · assumption
  · exact Nat.zero_le _

/-- A length is lost when the XOR was refused, unless it is 0. -/
theorem eq_zero_of_refused {l m : UInt16} (hbig : MAX_PAYLOAD_SIZE < (l ^^^ m).toNat)
    (h : (if l.toNat ≤ MAX_PAYLOAD_SIZE then l else 0) = m) : m = 0 := by
  by_cases hle : l.toNat ≤ MAX_PAYLOAD_SIZE
  · rw [if_pos hle] at h
    rw [h, UInt16.xor_self] at hbig
    exact absurd hbig (by decide)
  · rw [if_neg hle] at h
    exact h.symm

/-- Any of three bytes is the XOR of the other two. -/
theorem xor_three {a b c : UInt8} (h : a ^^^ b = c) : b ^^^ c = a ∧ a ^^^ c = b := by
  subst h
  constructor
  · rw [UInt8.xor_comm a, ← UInt8.xor_assoc, UInt8.xor_self, UInt8.zero_xor]
  · rw [← UInt8.xor_assoc, UInt8.xor_self, UInt8.zero_xor]

/-- Any of four bytes is the XOR of the other three. -/
theorem xor_four {a b c d : UInt8} (h : a ^^^ b ^^^ c ^^^ d = 0) :
    b ^^^ c ^^^ d = a ∧ a ^^^ c ^^^ d = b ∧ a ^^^ b ^^^ d = c ∧ a ^^^ b ^^^ c = d := by
  have hd := UInt8.xor_eq_zero_iff.mp h
  obtain ⟨hbcd, -⟩ := xor_three ((UInt8.xor_assoc a b c).symm.trans hd)
  obtain ⟨-, habd⟩ := xor_three hd
  rw [UInt8.xor_comm a, UInt8.xor_assoc] at hd
  obtain ⟨hacd, -⟩ := xor_three hd
  exact ⟨hbcd, hacd, habd, by rw [UInt8.xor_comm a, UInt8.xor_assoc, hd]⟩

section Law

variable {a b c d : Pkt} (ha : DataPkt a) (hb : DataPkt b) (hc : DataPkt c) (hd : DataPkt d)
include ha hb hc hd

/-- A XOR over 512 is refused, and then some length does not come back. -/
theorem RecoveryLaw.xor_le (h : RecoveryLaw a b c d) :
    (a.length ^^^ b.length ^^^ c.length ^^^ d.length).toNat ≤ MAX_PAYLOAD_SIZE := by
  by_contra hbig
  have hfec : (fec_generation a b c d).length = 0 := by
    rw [fec_generation_length]
    exact if_neg hbig
  have hle : (fec_generation a b c d).length.toNat ≤ MAX_PAYLOAD_SIZE := by
    rw [fec_generation_length]
    exact fecLength_le a b c d
  have hlost : ∀ {x y z m : Pkt}, DataPkt x → DataPkt y → DataPkt z → DataPkt m →
      x.length ^^^ y.length ^^^ z.length ^^^ m.length = a.length ^^^ b.length ^^^ c.length ^^^ d.length →
      Recovers x y z (fec_generation a b c d) m → m.length = 0 := by
    intro x y z m hx hy hz hm hxor hrec
    have hlen := ((recovers_iff hx hy hz hle hm).mp hrec).2.1
    simp only [fecLength, xor_length, pkt_get_length, hfec, UInt16.xor_zero] at hlen
    exact eq_zero_of_refused (by rw [hxor]; omega) hlen
  have ha0 := hlost hb hc hd ha (by grind [UInt16.xor_comm, UInt16.xor_assoc]) h.first
  have hb0 := hlost ha hc hd hb (by grind [UInt16.xor_comm, UInt16.xor_assoc]) h.second
  have hc0 := hlost ha hb hd hc (by grind [UInt16.xor_comm, UInt16.xor_assoc]) h.third
  have hd0 := hlost ha hb hc hd rfl h.fourth
  rw [ha0, hb0, hc0, hd0] at hbig
  exact hbig (by decide)

theorem RecoveryLaw.standsIn (h : RecoveryLaw a b c d) : StandsIn a b c d := by
  have hbig := h.xor_le ha hb hc hd
  have hfec : (fec_generation a b c d).length = a.length ^^^ b.length ^^^ c.length ^^^ d.length := by
    rw [fec_generation_length]
    exact if_pos hbig
  have hle : (fec_generation a b c d).length.toNat ≤ MAX_PAYLOAD_SIZE := by rwa [hfec]
  obtain ⟨-, hfirst⟩ := (recovers_iff_bytes hb hc hd ha (by grind [UInt16.xor_comm, UInt16.xor_assoc]) hle).mp h.first
  obtain ⟨-, hsecond⟩ := (recovers_iff_bytes ha hc hd hb (by grind [UInt16.xor_comm, UInt16.xor_assoc]) hle).mp h.second
  obtain ⟨hthird_le, hthird⟩ :=
    (recovers_iff_bytes ha hb hd hc (by grind [UInt16.xor_comm, UInt16.xor_assoc]) hle).mp h.third
  obtain ⟨-, hfourth⟩ := (recovers_iff_bytes ha hb hc hd hfec hle).mp h.fourth
  have hdc := (fecReads_iff ha hb hc hd.length_le).mp h.generation
  rw [hfec] at hfirst hsecond hthird hfourth hthird_le
  refine ⟨hdc, hthird_le, fun i hi => ?_, fun i hi => ?_⟩
  · have h3 := hthird i (by omega)
    have h4 := hfourth i (by omega)
    rw [recoveredByte_lt _ _ _ hi] at h3 h4
    exact ⟨h3, by rw [← h3, h4]⟩
  · -- The packets that reach `i` say it, and the others have zero there.
    by_cases h4 : i < d.length.toNat
    · rw [← hfourth i h4, recoveredByte_ge _ _ _ hi, UInt8.xor_self]
    have hd0 := hd.padded_ge (Nat.le_of_not_lt h4)
    by_cases h3 : i < c.length.toNat
    · rw [← hthird i h3, recoveredByte_ge _ _ _ hi, hd0, UInt8.xor_zero, UInt8.xor_zero, UInt8.xor_self]
    have hc0 := hc.padded_ge (Nat.le_of_not_lt h3)
    by_cases h2 : i < b.length.toNat
    · rw [← hsecond i h2, recoveredByte_ge _ _ _ hi, hd0, hc0]
      simp
    have hb0 := hb.padded_ge (Nat.le_of_not_lt h2)
    by_cases h1 : i < a.length.toNat
    · rw [← hfirst i h1, recoveredByte_ge _ _ _ hi, hd0, hc0, hb0]
      simp
    rw [hd0, hc0, hb0, ha.padded_ge (Nat.le_of_not_lt h1)]
    simp

theorem StandsIn.recoveryLaw (h : StandsIn a b c d) : RecoveryLaw a b c d := by
  have hbig := Nat.le_trans h.xor_le hd.length_le
  have hfec : (fec_generation a b c d).length = a.length ^^^ b.length ^^^ c.length ^^^ d.length := by
    rw [fec_generation_length]
    exact if_pos hbig
  have hle : (fec_generation a b c d).length.toNat ≤ MAX_PAYLOAD_SIZE := by rwa [hfec]
  have hdle := h.xor_le
  have hcle := Nat.le_trans h.xor_le h.fourth_le
  rw [← hfec] at hdle hcle
  have hrec : ∀ {x y z m : Pkt}, DataPkt x → DataPkt y → DataPkt z → DataPkt m →
      (fec_generation a b c d).length = x.length ^^^ y.length ^^^ z.length ^^^ m.length →
      (fec_generation a b c d).length.toNat ≤ z.length.toNat →
      (∀ i, padded a i ^^^ padded b i = padded c i ∧ padded d i = padded c i → padded x i ^^^ padded y i = padded m i) →
      (∀ i, padded a i ^^^ padded b i ^^^ padded c i ^^^ padded d i = 0 →
        padded x i ^^^ padded y i ^^^ padded z i = padded m i) →
      Recovers x y z (fec_generation a b c d) m := by
    intro x y z m hx hy hz hm hxor hzle hbelow habove
    refine (recovers_iff_bytes hx hy hz hm hxor hle).mpr ⟨hzle, fun i _ => ?_⟩
    by_cases hi : i < (fec_generation a b c d).length.toNat
    · rw [recoveredByte_lt _ _ _ hi]
      exact hbelow i (h.below i (by rwa [← hfec]))
    · have hge := Nat.le_of_not_lt hi
      rw [recoveredByte_ge _ _ _ hge]
      exact habove i (h.above i (by rwa [← hfec]))
  refine ⟨(fecReads_iff ha hb hc hd.length_le).mpr h.fourth_le, ?_, ?_, ?_, ?_⟩
  · refine hrec hb hc hd ha (by grind [UInt16.xor_comm, UInt16.xor_assoc]) hdle ?_ ?_
    · exact fun i h => (xor_three h.1).1
    · exact fun i h => (xor_four h).1
  · refine hrec ha hc hd hb (by grind [UInt16.xor_comm, UInt16.xor_assoc]) hdle ?_ ?_
    · exact fun i h => (xor_three h.1).2
    · exact fun i h => (xor_four h).2.1
  · refine hrec ha hb hd hc (by grind [UInt16.xor_comm, UInt16.xor_assoc]) hdle ?_ ?_
    · exact fun i h => h.1
    · exact fun i h => (xor_four h).2.2.1
  · refine hrec ha hb hc hd hfec hcle ?_ ?_
    · exact fun i h => h.1.trans h.2.symm
    · exact fun i h => (xor_four h).2.2.2

end Law

/-- `fec_generation` recovers each packet exactly when the third payload can stand in for what it leaves out. -/
theorem fec_recovery_iff (a b c d : Pkt) (ha : DataPkt a) (hb : DataPkt b) (hc : DataPkt c) (hd : DataPkt d) :
    RecoveryLaw a b c d ↔ StandsIn a b c d :=
  ⟨fun h => h.standsIn ha hb hc hd, fun h => h.recoveryLaw ha hb hc hd⟩

theorem dataPkt_data (seqnum : UInt8) (payload : List UInt8) (h : payload.length ≤ MAX_PAYLOAD_SIZE) :
    DataPkt (dataPkt seqnum payload) := by
  have hlen : (dataPkt seqnum payload).length.toNat = payload.length := by
    unfold MAX_PAYLOAD_SIZE at h
    simp only [dataPkt, UInt16.toNat_ofNat']
    omega
  exact ⟨⟨rfl, PType.noConfusion, fun _ => ⟨by rw [hlen]; exact h, hlen.symm⟩, fun ht => absurd rfl ht⟩, rfl⟩

/-- Two equal packets and two empty ones. -/
theorem fec_recovery_iff_pair :
    RecoveryLaw (dataPkt 0 [7, 9]) (dataPkt 1 [7, 9]) (dataPkt 2 []) (dataPkt 3 []) := by
  refine (fec_recovery_iff _ _ _ _ (dataPkt_data _ _ (by decide)) (dataPkt_data _ _ (by decide))
    (dataPkt_data _ _ (by decide)) (dataPkt_data _ _ (by decide))).mpr ⟨by decide, by decide, ?_, fun i _ => ?_⟩
  · intro i hi
    exact absurd hi (Nat.not_lt_zero i)
  · change padded (dataPkt 0 [7, 9]) i ^^^ padded (dataPkt 0 [7, 9]) i ^^^ 0 ^^^ 0 = 0
    simp

/-- Four packets of one byte: the first does not come back. -/
theorem not_recovers_bytes :
    ¬ RecoveryLaw (dataPkt 0 [1]) (dataPkt 1 [2]) (dataPkt 2 [3]) (dataPkt 3 [4]) := by
  intro h
  have hfirst := h.first.payload
  rw [payloadBytes, fec_generation_payload, Option.getD_some] at hfirst
  rw [show MAX_PAYLOAD_SIZE = 511 + 1 from rfl, bytesAt_succ] at hfirst
  exact absurd (List.head_eq_of_cons_eq hfirst) (by decide)

end Trtp
