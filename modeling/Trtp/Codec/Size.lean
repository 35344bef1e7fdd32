import Trtp.Codec.RoundTrip

/-!
# The size that `pkt_encode` asks for

The size is predicted from the type and the length, and the payload is written on the type and TR.
-/

open Trtp.Lib

namespace Trtp

variable (crc32 : List UInt8 → UInt32)

/-! ## The two sizes -/

theorem encode_payload_length (pkt : Pkt) :
    (encode_payload crc32 pkt).length =
      match pkt.type with
      | .DATA => if pkt.tr = 0 then pkt.length.toNat + 4 else 0
      | .FEC => MAX_PAYLOAD_SIZE + 4
      | .ACK | .NACK => 0 := by
  unfold encode_payload
  cases ht : pkt.type
  · simp
  · rcases tr_cases pkt with htr | htr <;> simp [htr]
  · simp
  · simp

/-- What is written. -/
theorem pkt_bytes_size (pkt : Pkt) :
    (pkt_bytes crc32 pkt).length =
      match pkt.type with
      | .DATA => if pkt.tr = 0 then pkt.length.toNat + 16 else 12
      | .FEC => PKT_MAX_LEN
      | .ACK | .NACK => 10 := by
  rw [pkt_bytes_length, encode_payload_length]
  cases ht : pkt.type
  · rfl
  · rcases tr_cases pkt with htr | htr
    · simp only [htr, if_true, seqOffset, PType.hasLength, true_or]
      omega
    · simp [htr, seqOffset, PType.hasLength]
  · rfl
  · rfl

/-- What is asked for. -/
theorem encode_size_eq (pkt : Pkt) :
    encode_size pkt =
      match pkt.type with
      | .DATA => if pkt.length = 0 then 12 else pkt.length.toNat + 16
      | .FEC => PKT_MAX_LEN
      | .ACK | .NACK => 10 := by
  unfold encode_size predict_header_length pkt_get_type pkt_get_length
  cases ht : pkt.type
  · rfl
  · by_cases hlen : pkt.length = 0
    · simp [hlen]
    · simp only [hlen, ne_eq, not_false_eq_true, and_self, if_true, if_false]
      omega
  · rfl
  · rfl

/-! ## The contract -/

/-- What `packet_implem.h` says of `pkt_encode` with `L` bytes at `buf`. -/
structure EncodeContract (pkt : Pkt) (buf : Mem) (L : Nat) : Prop where
  nomem : (pkt_encode crc32 pkt buf L).1 = .E_NOMEM ↔ L < (pkt_bytes crc32 pkt).length
  unchanged : (pkt_encode crc32 pkt buf L).1 = .E_NOMEM → (pkt_encode crc32 pkt buf L).2 = (buf, L)
  written : (pkt_encode crc32 pkt buf L).1 ≠ .E_NOMEM →
    pkt_encode crc32 pkt buf L = (.PKT_OK, load (pkt_bytes crc32 pkt) buf, (pkt_bytes crc32 pkt).length) ∧
      (pkt_encode crc32 pkt buf L).2.2 ≤ L
  max_len : (pkt_encode crc32 pkt buf PKT_MAX_LEN).1 ≠ .E_NOMEM

/-- `DATA` packets, on sizes between what is asked for and what is written. -/
structure Mispredicted (pkt : Pkt) (L : Nat) : Prop where
  type : pkt.type = .DATA
  header : 12 ≤ L
  between : if pkt.length = 0 then pkt.tr = 0 ∧ L < 16 else pkt.tr = 1 ∧ L < 16 + pkt.length.toNat

theorem pkt_encode_nomem_iff (pkt : Pkt) (buf : Mem) (L : Nat) :
    (pkt_encode crc32 pkt buf L).1 = .E_NOMEM ↔ L < encode_size pkt := by
  unfold pkt_encode
  by_cases h : encode_size pkt > L
  · rw [if_pos h]
    exact iff_of_true rfl h
  · rw [if_neg h]
    exact iff_of_false PktStatus.noConfusion h

theorem encode_size_le {pkt : Pkt} (h : pkt.length.toNat ≤ MAX_PAYLOAD_SIZE) : encode_size pkt ≤ PKT_MAX_LEN := by
  unfold MAX_PAYLOAD_SIZE at h
  rw [encode_size_eq]
  unfold PKT_MAX_LEN
  cases pkt.type <;> simp only <;> try split
  all_goals omega

/-- The contract asks for one thing only: that the two sizes are on the same side of `L`. -/
theorem encodeContract_iff_size {pkt : Pkt} (h : pkt.length.toNat ≤ MAX_PAYLOAD_SIZE) (buf : Mem) (L : Nat) :
    EncodeContract crc32 pkt buf L ↔ (L < encode_size pkt ↔ L < (pkt_bytes crc32 pkt).length) := by
  constructor
  · intro hc
    rw [← pkt_encode_nomem_iff crc32 pkt buf, hc.nomem]
  · intro hsize
    refine ⟨(pkt_encode_nomem_iff crc32 pkt buf L).trans hsize, fun hno => ?_, fun hok => ?_, ?_⟩
    · rw [pkt_encode, if_pos ((pkt_encode_nomem_iff crc32 pkt buf L).mp hno)]
    · rw [Ne, pkt_encode_nomem_iff] at hok
      have heq : pkt_encode crc32 pkt buf L =
          (.PKT_OK, load (pkt_bytes crc32 pkt) buf, (pkt_bytes crc32 pkt).length) := if_neg hok
      refine ⟨heq, ?_⟩
      rw [heq]
      exact Nat.le_of_not_lt fun hlt => hok (hsize.mpr hlt)
    · rw [Ne, pkt_encode_nomem_iff]
      exact Nat.not_lt.mpr (encode_size_le h)

/-- `pkt_encode` keeps its contract on every packet and size but those. -/
theorem pkt_encode_contract_iff (pkt : Pkt) (buf : Mem) (L : Nat) (h : pkt.length.toNat ≤ MAX_PAYLOAD_SIZE) :
    EncodeContract crc32 pkt buf L ↔ ¬ Mispredicted pkt L := by
  rw [encodeContract_iff_size crc32 h, pkt_bytes_size, encode_size_eq]
  have hmis : Mispredicted pkt L ↔ pkt.type = .DATA ∧ 12 ≤ L ∧
      if pkt.length = 0 then pkt.tr = 0 ∧ L < 16 else pkt.tr = 1 ∧ L < 16 + pkt.length.toNat :=
    ⟨fun ⟨h1, h2, h3⟩ => ⟨h1, h2, h3⟩, fun ⟨h1, h2, h3⟩ => ⟨h1, h2, h3⟩⟩
  rw [hmis]
  cases ht : pkt.type
  · simp
  · rcases tr_cases pkt with htr | htr <;> by_cases hlen : pkt.length = 0
    all_goals simp [htr, hlen]
    all_goals omega
  · simp
  · simp

theorem pkt_encode_contract_iff_hello : EncodeContract zlib_crc32 helloPkt (fun _ => 0) 18 := by
  generalize zlib_crc32 = crc32
  refine (pkt_encode_contract_iff crc32 helloPkt _ 18 (by decide)).mpr fun h => ?_
  exact absurd h.between (by decide)

/-- An empty `DATA` packet into 12 bytes: 16 are written. -/
theorem not_contract_empty_data : ¬ EncodeContract zlib_crc32 (dataPkt 0 []) (fun _ => 0) 12 := by
  generalize zlib_crc32 = crc32
  intro h
  have hlen : (pkt_bytes crc32 (dataPkt 0 [])).length = 16 := pkt_bytes_size crc32 _
  have hok : (pkt_encode crc32 (dataPkt 0 []) (fun _ => 0) 12).1 ≠ .E_NOMEM := by
    rw [Ne, pkt_encode_nomem_iff]
    decide
  have hle := (h.written hok).2
  rw [(h.written hok).1, hlen] at hle
  exact absurd (show 16 ≤ 12 from hle) (by decide)

end Trtp
