import Trtp.Codec.Decode

/-!
# Which datagrams `pkt_decode` accepts

Two groups of tests: on the bytes, and on the received length.
-/

open Trtp.Lib

namespace Trtp

variable (crc32 : List UInt8 → UInt32)

/-- What `pkt_decode` checks of the bytes, whatever the received length. -/
structure Intact (data : Mem) : Prop where
  tr : hdrTr data = 1 → hdrType data = .DATA
  length : (hdrLength data).toNat ≤ MAX_PAYLOAD_SIZE
  crc1 : headerCrc crc32 data = hdrCrc1 data
  payload : ¬ HeaderOnly data →
    hdrLength data ≠ 0 ∧ hdrTr data = 0 ∧ crc32 (payloadAt data) = hdrCrc2 data

/-- What `pkt_decode` checks of the received length. -/
structure LenTests (data : Mem) (len : UInt64) : Prop where
  header : 10 ≤ len.toNat
  slack : (hdrType data).hasLength → toInt len ≤ (hdrLength data).toNat + 32
  payload : ¬ HeaderOnly data → len.toNat ≤ MAX_PAYLOAD_SIZE + 32

theorem pkt_decode_short (data : Mem) (len : UInt64) (h : len.toNat < 10) :
    (pkt_decode crc32 data len pkt_new).1 ≠ .PKT_OK ∧ (pkt_decode crc32 data len pkt_new).2 = pkt_new := by
  have h10 : len < 10 := by rw [UInt64.lt_iff_toNat_lt]; simpa using h
  unfold pkt_decode
  rw [if_pos h10]
  split_ifs <;> simp

/-- What `pkt_decode` returns for a datagram that passes. -/
def accepted (data : Mem) : Pkt := if HeaderOnly data then hdrPkt crc32 data else fullPkt crc32 data

theorem pkt_decode_of_tests {data : Mem} {len : UInt64} (hi : Intact crc32 data) (hl : LenTests data len) :
    pkt_decode crc32 data len pkt_new = (.PKT_OK, accepted crc32 data) := by
  have htr : ¬ (hdrTr data = 1 ∧ hdrType data ≠ .DATA) := fun h => h.2 (hi.tr h.1)
  have hlen : ¬ (hdrLength data).toNat > MAX_PAYLOAD_SIZE := by have := hi.length; omega
  have hslack : ¬ ((hdrType data).hasLength ∧ ((hdrLength data).toNat : Int) + 32 < toInt len) := by
    rintro ⟨hhas, h⟩
    have := hl.slack hhas
    omega
  rw [pkt_decode_eq crc32 data len hl.header, if_neg htr, if_neg hlen, if_neg hslack, if_neg (by simp [hi.crc1])]
  unfold accepted
  by_cases hho : HeaderOnly data
  · rw [if_pos hho, if_pos hho]
  obtain ⟨hne, htr0, hcrc2⟩ := hi.payload hho
  have hmax : ¬ MAX_PAYLOAD_SIZE + 32 < len.toNat := by have := hl.payload hho; omega
  have hbad : ¬ (hdrLength data = 0 ∨ hdrTr data = 1) := by simp [hne, htr0]
  rw [if_neg hho, if_neg hho, if_neg hmax, if_neg hbad, if_neg (by simp [hcrc2])]

theorem tests_of_pkt_decode {data : Mem} {len : UInt64} (h : (pkt_decode crc32 data len pkt_new).1 = .PKT_OK) :
    Intact crc32 data ∧ LenTests data len := by
  have h10 : 10 ≤ len.toNat := by
    by_contra hlt
    exact (pkt_decode_short crc32 data len (by omega)).1 h
  rw [pkt_decode_eq crc32 data len h10] at h
  split_ifs at h with htr hlen hslack hcrc1 hho hmax hbad hcrc2
  · refine ⟨⟨fun h1 => ?_, by omega, by simpa using hcrc1, fun hn => absurd hho hn⟩, ⟨h10, fun hhas => ?_,
      fun hn => absurd hho hn⟩⟩
    · by_contra hne; exact htr ⟨h1, hne⟩
    · by_contra hlt; exact hslack ⟨hhas, by omega⟩
  · have htr0 : hdrTr data = 0 := (hdrTr_cases data).resolve_right (fun h => hbad (Or.inr h))
    refine ⟨⟨fun h1 => ?_, by omega, by simpa using hcrc1, fun _ => ⟨fun h => hbad (Or.inl h), htr0,
      by simpa using hcrc2⟩⟩, ⟨h10, fun hhas => ?_, fun _ => by omega⟩⟩
    · by_contra hne; exact htr ⟨h1, hne⟩
    · by_contra hlt; exact hslack ⟨hhas, by omega⟩

/-- `pkt_decode` accepts exactly what passes the two groups of tests. -/
theorem pkt_decode_ok_iff (data : Mem) (len : UInt64) :
    (pkt_decode crc32 data len pkt_new).1 = .PKT_OK ↔ Intact crc32 data ∧ LenTests data len := by
  constructor
  · exact tests_of_pkt_decode crc32
  · rintro ⟨hi, hl⟩
    rw [pkt_decode_of_tests crc32 hi hl]

/-! ## What an accepted packet says -/

theorem crc1_bytes (data : Mem) :
    hdrCrc1 data = headerCrc crc32 data ↔
      bytesAt data (seqOffset (hdrType data) + 5) 4 = beBytes 4 (headerCrc crc32 data).toNat := by
  have hlt := UInt32.toNat_lt (headerCrc crc32 data)
  have hval := beVal_lt (bytesAt data (seqOffset (hdrType data) + 5) 4)
  have hiff := beVal_eq_iff (bytesAt data (seqOffset (hdrType data) + 5) 4) (headerCrc crc32 data).toNat
    (by simpa using hlt)
  simp only [bytesAt_length] at hiff hval
  rw [← hiff, hdrCrc1, ← UInt32.toNat_inj, UInt32.toNat_ofNat', Nat.mod_eq_of_lt (by simpa using hval)]

theorem crc2_bytes (data : Mem) :
    hdrCrc2 data = crc32 (payloadAt data) ↔
      bytesAt data (12 + payloadLength data) 4 = beBytes 4 (crc32 (payloadAt data)).toNat := by
  have hlt := UInt32.toNat_lt (crc32 (payloadAt data))
  have hval := beVal_lt (bytesAt data (12 + payloadLength data) 4)
  have hiff := beVal_eq_iff (bytesAt data (12 + payloadLength data) 4) (crc32 (payloadAt data)).toNat
    (by simpa using hlt)
  simp only [bytesAt_length] at hiff hval
  rw [← hiff, hdrCrc2, ← UInt32.toNat_inj, UInt32.toNat_ofNat', Nat.mod_eq_of_lt (by simpa using hval)]

theorem accepted_header (data : Mem) :
    (accepted crc32 data).type = hdrType data ∧ (accepted crc32 data).tr = hdrTr data ∧
      (accepted crc32 data).window = hdrWindow data ∧ (accepted crc32 data).length = hdrLength data ∧
      (accepted crc32 data).seqnum = hdrSeqnum data ∧ (accepted crc32 data).timestamp = hdrTimestamp data := by
  unfold accepted
  split <;> exact ⟨rfl, rfl, rfl, rfl, rfl, rfl⟩

theorem accepted_payload {data : Mem} (h : ¬ HeaderOnly data) :
    (accepted crc32 data).payload = some (bytesAt data 12 (payloadLength data)) := by
  rw [accepted, if_neg h]
  rfl

end Trtp
