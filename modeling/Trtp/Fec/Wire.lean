import Trtp.Fec.Recovery

/-!
# FEC packets on the wire

`pkt_encode` writes 512 in the length field of a FEC packet, whatever its length is.
-/

open Trtp.Lib

namespace Trtp

variable (crc32 : List UInt8 → UInt32)

/-- A FEC packet with its 512 bytes. -/
structure FullFec (pkt : Pkt) : Prop where
  type : pkt.type = .FEC
  tr : pkt.tr = 0
  payload : (payloadBytes pkt).length = MAX_PAYLOAD_SIZE

theorem fullFec_generation (pkt1 pkt2 pkt3 pkt4 : Pkt) : FullFec (fec_generation pkt1 pkt2 pkt3 pkt4) where
  type := fec_generation_type pkt1 pkt2 pkt3 pkt4
  tr := by rw [fec_generation_eq]; rfl
  payload := by rw [payloadBytes, fec_generation_payload, Option.getD_some, bytesAt_length]

/-- A packet that is encoded into `PKT_MAX_LEN` bytes and decoded comes back as it was. -/
def Survives (pkt : Pkt) (buf : Mem) : Prop :=
  ∃ bytes len, pkt_encode crc32 pkt buf PKT_MAX_LEN = (.PKT_OK, bytes, len) ∧
    ∀ data : Mem, (∀ i < len, data i = bytes i) →
      ∃ pkt', pkt_decode crc32 data (UInt64.ofNat len) pkt_new = (.PKT_OK, pkt') ∧ Restores pkt' pkt

section FullFec

variable {crc32} {pkt : Pkt} (hf : FullFec pkt)
include hf

theorem FullFec.hasLength : pkt.type.hasLength := Or.inr hf.type

theorem FullFec.encode_payload :
    encode_payload crc32 pkt = payloadBytes pkt ++ beBytes 4 (crc32 (payloadBytes pkt)).toNat := by
  have hread : readBuffer (pkt_get_payload pkt) MAX_PAYLOAD_SIZE = payloadBytes pkt := by
    rw [← hf.payload, readBuffer, payloadBytes, List.takeD_eq_take _ (Nat.le_refl _), List.take_length]
  rw [Trtp.encode_payload, if_neg (by simp [hf.type]), if_pos hf.type]
  simp only [hread]

/-- The largest of all packets: exactly `PKT_MAX_LEN` bytes. -/
theorem FullFec.pkt_bytes_length : (pkt_bytes crc32 pkt).length = PKT_MAX_LEN := by
  rw [Trtp.pkt_bytes_length, hf.encode_payload, List.length_append, hf.payload, beBytes_length, seqOffset,
    if_pos hf.hasLength]
  rfl

theorem FullFec.encode (buf : Mem) :
    pkt_encode crc32 pkt buf PKT_MAX_LEN =
      (.PKT_OK, load (pkt_bytes crc32 pkt) buf, (pkt_bytes crc32 pkt).length) := by
  have hsize : encode_size pkt = PKT_MAX_LEN := by
    simp [encode_size, predict_header_length, pkt_get_type, hf.type, MAX_PAYLOAD_SIZE, PKT_MAX_LEN]
  exact if_neg (by rw [hsize]; exact Nat.lt_irrefl _)

variable {data : Mem} (h : Starts (pkt_bytes crc32 pkt) data)
include h

/-- The length field of the packet is not in the bytes. -/
theorem FullFec.hdrLength : hdrLength data = UInt16.ofNat MAX_PAYLOAD_SIZE := by
  have hfield : bytesAt data 1 2 = encode_length pkt := by
    have hmid := (starts_header h).bytesAt_mid
    rwa [encode_length_length, seqOffset, if_pos hf.hasLength] at hmid
  rw [Trtp.hdrLength, hdrType_bytes h, if_pos hf.hasLength, hdrLengthField, hfield, encode_length, hf.type]
  rfl

theorem FullFec.payloadLength : payloadLength data = (payloadBytes pkt).length := by
  rw [payloadLength_fec (by rw [hdrType_bytes h, hf.type]), hf.payload]

theorem FullFec.payloadAt : payloadAt data = payloadBytes pkt :=
  payloadAt_bytes h hf.hasLength hf.encode_payload (hf.payloadLength h)

theorem FullFec.not_headerOnly : ¬ HeaderOnly data := by
  unfold HeaderOnly
  rw [hdrType_bytes h, hf.type]
  simp

theorem FullFec.intact : Intact crc32 data where
  tr := by
    rw [hdrTr_bytes h, hf.tr]
    intro h1
    exact absurd h1 (by decide)
  length := by
    rw [hf.hdrLength h]
    decide
  crc1 := (hdrCrc1_bytes h).symm
  payload _ := by
    refine ⟨by rw [hf.hdrLength h]; decide, by rw [hdrTr_bytes h, hf.tr], ?_⟩
    exact (hdrCrc2_bytes h hf.hasLength hf.encode_payload (hf.payloadLength h)).symm

theorem FullFec.lenTests : LenTests data (UInt64.ofNat (pkt_bytes crc32 pkt).length) := by
  obtain ⟨hnat, hint⟩ := toInt_ofNat (n := (pkt_bytes crc32 pkt).length) (by rw [hf.pkt_bytes_length]; decide)
  rw [hf.pkt_bytes_length] at hnat hint ⊢
  refine ⟨?_, fun _ => ?_, fun _ => ?_⟩
  · rw [hnat]
    decide
  · rw [hint, hf.hdrLength h]
    decide
  · rw [hnat]
    decide

theorem FullFec.decode :
    pkt_decode crc32 data (UInt64.ofNat (pkt_bytes crc32 pkt).length) pkt_new = (.PKT_OK, fullPkt crc32 data) := by
  rw [pkt_decode_of_tests crc32 (hf.intact h) (hf.lenTests h), accepted, if_neg (hf.not_headerOnly h)]

/-- All but the length comes back, which is 512. -/
theorem FullFec.restores_iff : Restores (fullPkt crc32 data) pkt ↔ pkt.length = UInt16.ofNat MAX_PAYLOAD_SIZE := by
  have htype : (fullPkt crc32 data).type = .FEC := (hdrType_bytes h).trans hf.type
  constructor
  · intro hr
    rw [← hr.length, ← hf.hdrLength h]
    rfl
  · intro hlen
    refine ⟨hdrType_bytes h, hdrTr_bytes h, hdrWindow_bytes h, ?_, hdrSeqnum_bytes h, hdrTimestamp_bytes h, ?_⟩
    · rw [hlen, ← hf.hdrLength h]
      rfl
    · rw [← hf.payloadAt h, payloadBytes, pkt_get_payload, if_pos (Or.inr htype)]
      rfl

end FullFec

theorem FullFec.survives_iff {pkt : Pkt} (hf : FullFec pkt) (buf : Mem) :
    Survives crc32 pkt buf ↔ pkt.length = UInt16.ofNat MAX_PAYLOAD_SIZE := by
  constructor
  · rintro ⟨bytes, len, henc, hdec⟩
    rw [hf.encode, Prod.mk.injEq, Prod.mk.injEq] at henc
    obtain ⟨-, rfl, rfl⟩ := henc
    obtain ⟨pkt', heq, hr⟩ := hdec _ fun _ _ => rfl
    rw [hf.decode (load_starts _ buf), Prod.mk.injEq] at heq
    obtain ⟨-, rfl⟩ := heq
    exact (hf.restores_iff (load_starts _ buf)).mp hr
  · intro hlen
    refine ⟨_, _, hf.encode buf, fun data hdata => ?_⟩
    have h : Starts (pkt_bytes crc32 pkt) data := by
      intro i hi
      rw [hdata i hi, load_lt _ _ _ hi]
    exact ⟨_, hf.decode h, (hf.restores_iff h).mpr hlen⟩

/-- What `fec_generation` makes survives the wire exactly when the XOR of the four lengths is 512. -/
theorem fec_survives_iff (pkt1 pkt2 pkt3 pkt4 : Pkt) (buf : Mem) :
    Survives crc32 (fec_generation pkt1 pkt2 pkt3 pkt4) buf ↔
      pkt1.length ^^^ pkt2.length ^^^ pkt3.length ^^^ pkt4.length = UInt16.ofNat MAX_PAYLOAD_SIZE := by
  rw [(fullFec_generation pkt1 pkt2 pkt3 pkt4).survives_iff, fec_generation_length]
  change fecLength pkt1 pkt2 pkt3 pkt4 = _ ↔ xor_length pkt1 pkt2 pkt3 pkt4 = _
  unfold fecLength
  constructor
  · intro h
    split at h
    · exact h
    · exact absurd h (by decide)
  · intro h
    rw [h]
    rfl

/-- Four packets of equal lengths: the length 0 comes back as 512. -/
theorem not_survives_equal_lengths :
    ¬ Survives zlib_crc32 (fec_generation (dataPkt 0 [1]) (dataPkt 1 [2]) (dataPkt 2 [3]) (dataPkt 3 [4]))
      (fun _ => 0) := by
  generalize zlib_crc32 = crc32
  rw [(fullFec_generation _ _ _ _).survives_iff, fec_generation_length]
  decide

end Trtp
