import Trtp.Codec.Contract
import Trtp.Codec.Size

/-!
# Decode, then encode

The packet that is made of a datagram spells out its bytes. Two datagrams that are accepted as the same packet are the
same, and encoding the packet gives the datagram back.
-/

open Trtp.Lib

namespace Trtp

variable (crc32 : List UInt8 → UInt32)

/-! ## The bytes of a header -/

theorem firstByte_eq (b : UInt8) (t : PType) (ht : t.code = (b >>> 6).toNat) :
    b = firstByte t ((b &&& 0b00011111).toBitVec.setWidth 5) (((b &&& 0b00100000) >>> 5).toBitVec.setWidth 1) := by
  have hall : ∀ b : BitVec 8, t.code = (UInt8.ofBitVec b >>> 6).toNat → UInt8.ofBitVec b =
      firstByte t ((UInt8.ofBitVec b &&& 0b00011111).toBitVec.setWidth 5)
        (((UInt8.ofBitVec b &&& 0b00100000) >>> 5).toBitVec.setWidth 1) := by
    cases t <;> decide +kernel
  exact hall b.toBitVec ht

theorem first_byte (data : Mem) : data 0 = firstByte (hdrType data) (hdrWindow data) (hdrTr data) := by
  refine firstByte_eq (data 0) (hdrType data) ?_
  have hcode := hdrType_code data
  unfold PType.ofCode at hcode
  revert hcode
  cases hdrType data <;> split <;> simp_all [PType.code]

/-- The length field, as it came. -/
def lengthBytes (pkt : Pkt) : List UInt8 := if pkt.type.hasLength then beBytes 2 pkt.length.toNat else []

/-- The header with TR, as it came. -/
def wireHeader (pkt : Pkt) : List UInt8 :=
  firstByte pkt.type pkt.window pkt.tr :: (lengthBytes pkt ++ [pkt.seqnum] ++ (beBytes 4 pkt.timestamp.toNat).reverse)

theorem bytesAt_header (data : Mem) :
    bytesAt data 0 (seqOffset (hdrType data) + 5) = wireHeader (accepted crc32 data) := by
  obtain ⟨htype, htr, hwin, hlen, hseq, htime⟩ := accepted_header crc32 data
  have hone := seqOffset_pos (hdrType data)
  have hfield : bytesAt data 1 (seqOffset (hdrType data) - 1) = lengthBytes (accepted crc32 data) := by
    rw [lengthBytes, htype, hlen]
    unfold seqOffset
    by_cases hhas : (hdrType data).hasLength
    · have hback := beBytes_beVal (bytesAt data 1 2)
      rw [bytesAt_length] at hback
      rw [if_pos hhas, if_pos hhas, hdrLength_toNat, if_pos hhas, hback]
    · rw [if_neg hhas, if_neg hhas]
      rfl
  rw [show seqOffset (hdrType data) + 5 = 1 + ((seqOffset (hdrType data) - 1) + (1 + 4)) by omega, bytesAt_add,
    bytesAt_add, bytesAt_add, hfield, show 0 + 1 + (seqOffset (hdrType data) - 1) = seqOffset (hdrType data) by omega,
    ← hdrTimestamp_bytes_le, wireHeader, htype, hwin, htr, hseq, htime, ← first_byte]
  simp [bytesAt, hdrSeqnum]

/-! ## The whole datagram -/

/-- The size that the packet announces, with CRC1 and, behind a payload, CRC2. -/
def announcedSize (pkt : Pkt) : Nat :=
  match pkt.type with
  | .ACK | .NACK => 10
  | .DATA => if pkt.length = 0 then 12 else 16 + pkt.length.toNat
  | .FEC => 16 + MAX_PAYLOAD_SIZE

/-- The payload and CRC2, as they came. -/
def wirePayload (pkt : Pkt) : List UInt8 :=
  match pkt.payload with
  | some payload => payload ++ beBytes 4 pkt.crc2.toNat
  | none => []

theorem announcedSize_headerOnly {data : Mem} (h : HeaderOnly data) :
    announcedSize (accepted crc32 data) = seqOffset (hdrType data) + 9 := by
  rw [accepted, if_pos h]
  unfold HeaderOnly at h
  rcases h with ht | ht | ⟨ht, hl⟩
  · simp [announcedSize, hdrPkt, ht, seqOffset, PType.hasLength]
  · simp [announcedSize, hdrPkt, ht, seqOffset, PType.hasLength]
  · simp [announcedSize, hdrPkt, ht, hl, seqOffset, PType.hasLength]

theorem announcedSize_full {data : Mem} (h : ¬ HeaderOnly data) :
    announcedSize (accepted crc32 data) = 12 + (payloadLength data + 4) := by
  rw [accepted, if_neg h]
  rcases hasLength_of_not_headerOnly h with ht | ht
  · have hne : hdrLength data ≠ 0 := by simpa [HeaderOnly, ht] using h
    simp [announcedSize, fullPkt, hdrPktPayload, hdrPkt, ht, hne, payloadLength_data ht]
    omega
  · simp [announcedSize, fullPkt, hdrPktPayload, hdrPkt, ht, payloadLength_fec ht, MAX_PAYLOAD_SIZE]

variable {crc32}

/-- An accepted datagram is the header, CRC1, the payload and CRC2 of its packet. -/
theorem Intact.wire {data : Mem} (hi : Intact crc32 data) :
    bytesAt data 0 (announcedSize (accepted crc32 data)) =
      wireHeader (accepted crc32 data) ++ (beBytes 4 (accepted crc32 data).crc1.toNat ++
        wirePayload (accepted crc32 data)) := by
  have hcrc := (crc1_bytes crc32 data).mp hi.crc1.symm
  have hcrc1 : (accepted crc32 data).crc1 = headerCrc crc32 data := by
    unfold accepted
    split <;> rfl
  by_cases hho : HeaderOnly data
  · have hpay : wirePayload (accepted crc32 data) = [] := by
      rw [accepted, if_pos hho]
      rfl
    rw [announcedSize_headerOnly crc32 hho, hpay, List.append_nil, hcrc1, ← hcrc, ← bytesAt_header,
      show seqOffset (hdrType data) + 9 = (seqOffset (hdrType data) + 5) + 4 by omega, bytesAt_add, Nat.zero_add]
  · obtain ⟨_, _, hcrc2⟩ := hi.payload hho
    have htail := (crc2_bytes crc32 data).mp hcrc2.symm
    have hpay : wirePayload (accepted crc32 data) = payloadAt data ++ beBytes 4 (crc32 (payloadAt data)).toNat := by
      rw [accepted, if_neg hho, hcrc2]
      rfl
    have hoff : seqOffset (hdrType data) = 3 := if_pos (hasLength_of_not_headerOnly hho)
    rw [announcedSize_full crc32 hho, hpay, hcrc1, ← hcrc, ← bytesAt_header, ← htail, hoff, bytesAt_add data 0 12,
      bytesAt_add data 0 8 4, bytesAt_add data _ (payloadLength data), payloadAt, List.append_assoc, Nat.zero_add,
      Nat.zero_add]

theorem tests_of_decoded {data : Mem} {len : UInt64} {pkt : Pkt}
    (h : pkt_decode crc32 data len pkt_new = (.PKT_OK, pkt)) : Intact crc32 data ∧ accepted crc32 data = pkt := by
  obtain ⟨hi, hl⟩ := tests_of_pkt_decode crc32 (by rw [h] : (pkt_decode crc32 data len pkt_new).1 = .PKT_OK)
  rw [pkt_decode_of_tests crc32 hi hl, Prod.mk.injEq] at h
  exact ⟨hi, h.2⟩

variable (crc32)

/-- Two datagrams that are accepted as the same packet have the same bytes. -/
theorem pkt_decode_injective (data data' : Mem) (len len' : UInt64) (pkt : Pkt)
    (h : pkt_decode crc32 data len pkt_new = (.PKT_OK, pkt))
    (h' : pkt_decode crc32 data' len' pkt_new = (.PKT_OK, pkt)) :
    bytesAt data 0 (announcedSize pkt) = bytesAt data' 0 (announcedSize pkt) := by
  obtain ⟨hi, rfl⟩ := tests_of_decoded h
  obtain ⟨hi', heq⟩ := tests_of_decoded h'
  have hwire' := hi'.wire
  rw [heq] at hwire'
  rw [hi.wire, hwire']

/-- The first `ACK` in two buffers. -/
theorem pkt_decode_injective_ack :
    bytesAt (load (pkt_bytes zlib_crc32 firstAck) fun _ => 0) 0 10 =
      bytesAt (load (pkt_bytes zlib_crc32 firstAck) fun _ => 1) 0 10 := by
  generalize zlib_crc32 = crc32
  have hdecode : ∀ buf : Mem, pkt_decode crc32 (load (pkt_bytes crc32 firstAck) buf)
      (UInt64.ofNat (pkt_bytes crc32 firstAck).length) pkt_new =
      (.PKT_OK, { firstAck with crc1 := crc32 (headerBytes firstAck) }) := by
    intro buf
    have hs := load_starts (pkt_bytes crc32 firstAck) buf
    have hho : HeaderOnly (load (pkt_bytes crc32 firstAck) buf) := Or.inl (hdrType_bytes hs)
    rw [firstAck_sendable.decode hs, accepted, if_pos hho, hdrPkt, hdrType_bytes hs, hdrTr_bytes hs, hdrWindow_bytes hs,
      firstAck_sendable.hdrLength hs, hdrSeqnum_bytes hs, hdrTimestamp_bytes hs, headerCrc_bytes hs]
    rfl
  exact pkt_decode_injective crc32 _ _ _ _ _ (hdecode fun _ => 0) (hdecode fun _ => 1)

/-! ## Encoded again -/

/-- `pkt_encode` writes a length of `MAX_PAYLOAD_SIZE` for every `FEC` packet. -/
theorem encode_length_eq {pkt : Pkt} (hfec : pkt.type = .FEC → pkt.length.toNat = MAX_PAYLOAD_SIZE) :
    encode_length pkt = lengthBytes pkt := by
  unfold encode_length lengthBytes PType.hasLength
  cases ht : pkt.type with
  | FEC => simp [hfec ht]
  | DATA | ACK | NACK => simp

/-- CRC2 of an empty `DATA` packet, which `pkt_encode` writes and `pkt_decode` does not look at. -/
def emptyCrc2 (pkt : Pkt) : List UInt8 :=
  if pkt.type = .DATA ∧ pkt.tr = 0 ∧ pkt.length = 0 then beBytes 4 (crc32 []).toNat else []

theorem Intact.encode_payload {data : Mem} (hi : Intact crc32 data) :
    encode_payload crc32 (accepted crc32 data) =
      wirePayload (accepted crc32 data) ++ emptyCrc2 crc32 (accepted crc32 data) := by
  by_cases hho : HeaderOnly data
  · rw [accepted, if_pos hho]
    unfold HeaderOnly at hho
    rcases hho with ht | ht | ⟨ht, hl⟩
    · simp [Trtp.encode_payload, wirePayload, emptyCrc2, hdrPkt, ht]
    · simp [Trtp.encode_payload, wirePayload, emptyCrc2, hdrPkt, ht]
    · simp [Trtp.encode_payload, wirePayload, emptyCrc2, hdrPkt, ht, hl]
  · obtain ⟨hne, htr, hcrc2⟩ := hi.payload hho
    have hlen : (payloadAt data).length = payloadLength data := bytesAt_length _ _ _
    rw [accepted, if_neg hho]
    rcases hasLength_of_not_headerOnly hho with ht | ht
    · have hread : readBuffer (some (payloadAt data)) (hdrLength data).toNat = payloadAt data :=
        readBuffer_some _ _ (by rw [hlen, payloadLength_data ht])
      simp [Trtp.encode_payload, wirePayload, emptyCrc2, fullPkt, hdrPktPayload, hdrPkt, pkt_get_payload, ht, htr, hne,
        hread, hcrc2]
    · have hread : readBuffer (some (payloadAt data)) MAX_PAYLOAD_SIZE = payloadAt data :=
        readBuffer_some _ _ (by rw [hlen, payloadLength_fec ht])
      simp [Trtp.encode_payload, wirePayload, emptyCrc2, fullPkt, hdrPktPayload, hdrPkt, pkt_get_payload, ht, hread,
        hcrc2]

/-- A datagram that is accepted is what `pkt_encode` makes of its packet, but for CRC2 of an empty `DATA` packet. A
`FEC` packet has to announce the length that it has. -/
theorem pkt_encode_pkt_decode (data buf : Mem) (len : UInt64) (pkt : Pkt)
    (h : pkt_decode crc32 data len pkt_new = (.PKT_OK, pkt))
    (hfec : pkt.type = .FEC → pkt.length.toNat = MAX_PAYLOAD_SIZE) :
    ∃ bytes, pkt_encode crc32 pkt buf PKT_MAX_LEN = (.PKT_OK, load bytes buf, bytes.length) ∧
      bytes = bytesAt data 0 (announcedSize pkt) ++ emptyCrc2 crc32 pkt := by
  obtain ⟨hi, rfl⟩ := tests_of_decoded h
  obtain ⟨_, _, _, hlen, _, _⟩ := accepted_header crc32 data
  have hsize : encode_size (accepted crc32 data) ≤ PKT_MAX_LEN := encode_size_le (by rw [hlen]; exact hi.length)
  refine ⟨_, if_neg (Nat.not_lt.mpr hsize), ?_⟩
  have hrest : headerRest (accepted crc32 data) = lengthBytes (accepted crc32 data) ++
      [(accepted crc32 data).seqnum] ++ (beBytes 4 (accepted crc32 data).timestamp.toNat).reverse := by
    rw [headerRest, encode_length_eq hfec]
  have hcrc1 : crc32 (headerBytes (accepted crc32 data)) = (accepted crc32 data).crc1 := by
    have hkept : (accepted crc32 data).crc1 = headerCrc crc32 data := by
      unfold accepted
      split <;> rfl
    rw [hkept, headerCrc, bytesAt_header crc32, wireHeader, List.modifyHead_cons, firstByte_clear, headerBytes, hrest]
  rw [hi.wire, pkt_bytes_eq, hcrc1, hrest, hi.encode_payload, wireHeader]
  simp

/-- The bytes of `helloPkt` come back. -/
theorem pkt_encode_pkt_decode_hello :
    ∃ bytes, pkt_encode zlib_crc32 (accepted zlib_crc32 (helloData zlib_crc32)) (fun _ => 0) PKT_MAX_LEN =
        (.PKT_OK, load bytes (fun _ => 0), bytes.length) ∧
      bytes = bytesAt (helloData zlib_crc32) 0 (announcedSize (accepted zlib_crc32 (helloData zlib_crc32))) ++
        emptyCrc2 zlib_crc32 (accepted zlib_crc32 (helloData zlib_crc32)) := by
  generalize zlib_crc32 = crc32
  have hstart : Starts (pkt_bytes crc32 helloPkt) (helloData crc32) := load_starts _ _
  refine pkt_encode_pkt_decode crc32 _ _ _ _ (helloPkt_sendable.decode hstart) fun ht => ?_
  rw [(accepted_header crc32 _).1, hdrType_bytes hstart] at ht
  contradiction

end Trtp
