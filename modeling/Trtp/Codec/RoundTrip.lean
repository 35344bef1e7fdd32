import Trtp.Codec.Accept

/-!
# Encode, then decode

The fields of the bytes that `pkt_encode` writes are the fields of the packet, whatever follows them in memory.
-/

open Trtp.Lib

namespace Trtp

variable (crc32 : List UInt8 → UInt32)

/-! ## The first byte -/

/-- The first byte, with `tr` in its place. -/
def firstByte (t : PType) (window : BitVec 5) (tr : BitVec 1) : UInt8 :=
  ((UInt8.ofNat t.code <<< 6 + UInt8.ofBitVec (window.setWidth 8)) &&& (0b11011111 : UInt8)) +
    UInt8.ofBitVec (tr.setWidth 8) <<< 5

theorem firstByte_type (t : PType) (window : BitVec 5) (tr : BitVec 1) :
    (firstByte t window tr >>> 6).toNat = t.code := by
  revert window tr
  cases t <;> decide

theorem firstByte_tr (t : PType) (window : BitVec 5) (tr : BitVec 1) :
    ((firstByte t window tr &&& 0b00100000) >>> 5).toBitVec.setWidth 1 = tr := by
  revert window tr
  cases t <;> decide

theorem firstByte_window (t : PType) (window : BitVec 5) (tr : BitVec 1) :
    (firstByte t window tr &&& 0b00011111).toBitVec.setWidth 5 = window := by
  revert window tr
  cases t <;> decide

theorem firstByte_clear (t : PType) (window : BitVec 5) (tr : BitVec 1) :
    firstByte t window tr &&& 0b11011111 = firstByte t window 0 := by
  revert window tr
  cases t <;> decide

theorem firstByte_zero (t : PType) (window : BitVec 5) :
    firstByte t window 0 = (UInt8.ofNat t.code <<< 6 + UInt8.ofBitVec (window.setWidth 8)) &&& 0b11011111 := by
  revert window
  cases t <;> decide

/-! ## The layout -/

/-- The header after its first byte. -/
def headerRest (pkt : Pkt) : List UInt8 :=
  encode_length pkt ++ [pkt.seqnum] ++ (beBytes 4 pkt.timestamp.toNat).reverse

def headerBytes (pkt : Pkt) : List UInt8 := firstByte pkt.type pkt.window 0 :: headerRest pkt

theorem encode_header_eq (pkt : Pkt) : encode_header pkt = headerBytes pkt := by
  rw [headerBytes, firstByte_zero]
  rfl

theorem encode_length_length (pkt : Pkt) : (encode_length pkt).length = seqOffset pkt.type - 1 := by
  unfold encode_length seqOffset PType.hasLength
  cases pkt.type <;> simp

theorem seqOffset_pos (t : PType) : 1 ≤ seqOffset t := by
  unfold seqOffset
  split <;> omega

theorem headerBytes_length (pkt : Pkt) : (headerBytes pkt).length = seqOffset pkt.type + 5 := by
  have := seqOffset_pos pkt.type
  simp [headerBytes, headerRest, encode_length_length]
  omega

theorem pkt_bytes_eq (pkt : Pkt) :
    pkt_bytes crc32 pkt = firstByte pkt.type pkt.window pkt.tr ::
      (headerRest pkt ++ (beBytes 4 (crc32 (headerBytes pkt)).toNat ++ encode_payload crc32 pkt)) := by
  have htake : (headerBytes pkt).take (predict_header_length pkt) = headerBytes pkt := by
    rw [List.take_of_length_le]
    rw [headerBytes_length, predict_header_length_eq]
  have hhead : (headerBytes pkt).modifyHead (· + pkt_get_tr pkt <<< 5) =
      firstByte pkt.type pkt.window pkt.tr :: headerRest pkt := by
    simp only [headerBytes, List.modifyHead_cons, firstByte_zero]
    rfl
  simp only [pkt_bytes, encode_header_eq, htake, hhead, List.cons_append, List.append_assoc]

theorem pkt_bytes_length (pkt : Pkt) :
    (pkt_bytes crc32 pkt).length = seqOffset pkt.type + 9 + (encode_payload crc32 pkt).length := by
  have hlen := headerBytes_length pkt
  simp only [headerBytes, List.length_cons] at hlen
  simp [pkt_bytes_eq]
  omega

/-! ## The fields, read back -/

section Fields

variable {crc32} {pkt : Pkt} {data : Mem} (h : Starts (pkt_bytes crc32 pkt) data)
include h

theorem data_zero : data 0 = firstByte pkt.type pkt.window pkt.tr := by
  rw [h 0 (by simp [pkt_bytes_eq])]
  simp [pkt_bytes_eq]

theorem hdrType_bytes : hdrType data = pkt.type := by
  have hcode := hdrType_code data
  rw [data_zero h, firstByte_type, PType.ofCode_code] at hcode
  exact (Option.some.inj hcode).symm

theorem hdrTr_bytes : hdrTr data = pkt.tr := by
  rw [hdrTr, data_zero h, firstByte_tr]

theorem hdrWindow_bytes : hdrWindow data = pkt.window := by
  rw [hdrWindow, data_zero h, firstByte_window]

theorem starts_header : Starts ([firstByte pkt.type pkt.window pkt.tr] ++ (encode_length pkt ++ ([pkt.seqnum] ++
    ((beBytes 4 pkt.timestamp.toNat).reverse ++ (beBytes 4 (crc32 (headerBytes pkt)).toNat ++
      encode_payload crc32 pkt))))) data := by
  simpa [pkt_bytes_eq, headerRest] using h

theorem hdrLength_bytes (hl : pkt.type = .DATA) : hdrLength data = pkt.length := by
  have hhas : pkt.type.hasLength := Or.inl hl
  have hfield : bytesAt data 1 2 = encode_length pkt := by
    have := (starts_header h).bytesAt_mid
    rwa [encode_length_length, seqOffset, if_pos hhas] at this
  have hlt := pkt.length.toNat_lt
  rw [hdrLength, hdrType_bytes h, if_pos hhas, hdrLengthField, hfield, encode_length, hl]
  simp only [beVal_beBytes]
  rw [Nat.mod_eq_of_lt (by omega)]
  simp

theorem hdrSeqnum_bytes : hdrSeqnum data = pkt.seqnum := by
  have hmid := Starts.bytesAt_mid (a := [firstByte pkt.type pkt.window pkt.tr] ++ encode_length pkt)
    (b := [pkt.seqnum]) (by simpa using starts_header h)
  have hoff : ([firstByte pkt.type pkt.window pkt.tr] ++ encode_length pkt).length = seqOffset pkt.type := by
    have := seqOffset_pos pkt.type
    simp [encode_length_length]
    omega
  rw [hoff] at hmid
  rw [hdrSeqnum, hdrType_bytes h]
  simpa [bytesAt] using hmid

theorem hdrTimestamp_bytes : hdrTimestamp data = pkt.timestamp := by
  have hmid := Starts.bytesAt_mid (a := [firstByte pkt.type pkt.window pkt.tr] ++ encode_length pkt ++ [pkt.seqnum])
    (b := (beBytes 4 pkt.timestamp.toNat).reverse) (by simpa using starts_header h)
  have hoff : ([firstByte pkt.type pkt.window pkt.tr] ++ encode_length pkt ++ [pkt.seqnum]).length =
      seqOffset pkt.type + 1 := by
    have := seqOffset_pos pkt.type
    simp [encode_length_length]
    omega
  have hlt := pkt.timestamp.toNat_lt
  rw [hoff, List.length_reverse, beBytes_length] at hmid
  rw [hdrTimestamp, hdrType_bytes h, hmid, List.reverse_reverse, beVal_beBytes, Nat.mod_eq_of_lt (by omega)]
  simp

theorem headerCrc_bytes : headerCrc crc32 data = crc32 (headerBytes pkt) := by
  have hhead : Starts (firstByte pkt.type pkt.window pkt.tr :: headerRest pkt) data := by
    apply Starts.left (b := beBytes 4 (crc32 (headerBytes pkt)).toNat ++ encode_payload crc32 pkt)
    simpa [pkt_bytes_eq] using h
  have hlen := headerBytes_length pkt
  simp only [headerBytes, List.length_cons] at hlen
  rw [headerCrc, hdrType_bytes h, hhead.bytesAt _ _ (by simp; omega), List.drop_zero,
    List.take_of_length_le (by simp; omega), List.modifyHead_cons, firstByte_clear, headerBytes]

theorem hdrCrc1_bytes : hdrCrc1 data = headerCrc crc32 data := by
  have hmid := Starts.bytesAt_mid (a := firstByte pkt.type pkt.window pkt.tr :: headerRest pkt)
    (b := beBytes 4 (crc32 (headerBytes pkt)).toNat) (by simpa [pkt_bytes_eq] using h)
  have hlen := headerBytes_length pkt
  simp only [headerBytes, List.length_cons] at hlen
  rw [List.length_cons, hlen, beBytes_length] at hmid
  rw [crc1_bytes, headerCrc_bytes h, hdrType_bytes h, hmid]

/-! A packet with a length field has its payload 12 bytes after its start, and CRC2 after the payload. -/

variable (hhas : pkt.type.hasLength) {body : List UInt8}
  (hbody : encode_payload crc32 pkt = body ++ beBytes 4 (crc32 body).toNat) (hlen : payloadLength data = body.length)
include hhas hbody hlen

theorem payloadAt_bytes : payloadAt data = body := by
  have hpre : (firstByte pkt.type pkt.window pkt.tr :: (headerRest pkt ++
      beBytes 4 (crc32 (headerBytes pkt)).toNat)).length = 12 := by
    have hlen := headerBytes_length pkt
    simp only [headerBytes, List.length_cons, seqOffset, if_pos hhas] at hlen
    simp
    omega
  have hmid := Starts.bytesAt_mid (b := body)
    (a := firstByte pkt.type pkt.window pkt.tr :: (headerRest pkt ++ beBytes 4 (crc32 (headerBytes pkt)).toNat))
    (by simpa [pkt_bytes_eq, hbody] using h)
  rw [hpre] at hmid
  rw [payloadAt, hlen, hmid]

theorem hdrCrc2_bytes : hdrCrc2 data = crc32 (payloadAt data) := by
  have hpre : (firstByte pkt.type pkt.window pkt.tr :: (headerRest pkt ++
      (beBytes 4 (crc32 (headerBytes pkt)).toNat ++ body))).length = 12 + payloadLength data := by
    have hlen' := headerBytes_length pkt
    simp only [headerBytes, List.length_cons, seqOffset, if_pos hhas] at hlen'
    rw [hlen]
    simp
    omega
  have hmid := Starts.bytesAt_mid (b := beBytes 4 (crc32 body).toNat) (c := [])
    (a := firstByte pkt.type pkt.window pkt.tr :: (headerRest pkt ++
      (beBytes 4 (crc32 (headerBytes pkt)).toNat ++ body)))
    (by simpa [pkt_bytes_eq, hbody] using h)
  rw [hpre, beBytes_length] at hmid
  rw [crc2_bytes, payloadAt_bytes h hhas hbody hlen, hmid]

end Fields

/-! ## The round trip -/

theorem bmod_small (n : Nat) (hn : n ≤ MAX_PAYLOAD_SIZE + 32) : Int.bmod n 4294967296 = n := by
  unfold MAX_PAYLOAD_SIZE at hn
  rw [Int.bmod_def]
  omega

theorem toInt_ofNat {n : Nat} (hn : n ≤ MAX_PAYLOAD_SIZE + 32) :
    (UInt64.ofNat n).toNat = n ∧ toInt (UInt64.ofNat n) = n := by
  have hnat : (UInt64.ofNat n).toNat = n := by
    unfold MAX_PAYLOAD_SIZE at hn
    rw [UInt64.toNat_ofNat']
    omega
  refine ⟨hnat, ?_⟩
  unfold toInt
  rw [hnat]
  exact bmod_small n hn

/-- The packets that carry what their header says: `DATA` with a payload of exactly `length` bytes, `ACK` and
`NACK` with none. -/
structure Sendable (pkt : Pkt) : Prop where
  tr : pkt.tr = 0
  type : pkt.type ≠ .FEC
  data : pkt.type = .DATA →
    pkt.length.toNat ≤ MAX_PAYLOAD_SIZE ∧ (pkt.payload.getD []).length = pkt.length.toNat
  empty : pkt.type ≠ .DATA → pkt.length = 0

/-- The bytes of the payload, none for a `NULL` pointer. -/
def payloadBytes (pkt : Pkt) : List UInt8 := (pkt_get_payload pkt).getD []

section RoundTrip

variable {crc32} {pkt : Pkt} (hs : Sendable pkt)
include hs

theorem Sendable.readBuffer_payload (ht : pkt.type = .DATA) :
    readBuffer (pkt_get_payload pkt) pkt.length.toNat = payloadBytes pkt := by
  have hlen := (hs.data ht).2
  rw [payloadBytes, pkt_get_payload_data ht hs.tr, readBuffer, List.takeD_eq_take _ (by omega),
    List.take_of_length_le (by omega)]

theorem Sendable.payloadBytes_length (ht : pkt.type = .DATA) : (payloadBytes pkt).length = pkt.length.toNat := by
  rw [payloadBytes, pkt_get_payload_data ht hs.tr, (hs.data ht).2]

theorem Sendable.encode_payload (ht : pkt.type = .DATA) :
    encode_payload crc32 pkt = payloadBytes pkt ++ beBytes 4 (crc32 (payloadBytes pkt)).toNat := by
  rw [Trtp.encode_payload, if_pos ⟨ht, hs.tr⟩]
  simp only [hs.readBuffer_payload ht]

theorem Sendable.encode_payload_nil (ht : pkt.type ≠ .DATA) : Trtp.encode_payload crc32 pkt = [] := by
  simp [Trtp.encode_payload, ht, hs.type]

theorem Sendable.pkt_bytes_length :
    (pkt_bytes crc32 pkt).length = if pkt.type = .DATA then 16 + pkt.length.toNat else 10 := by
  rw [Trtp.pkt_bytes_length]
  by_cases ht : pkt.type = .DATA
  · rw [if_pos ht, hs.encode_payload ht, List.length_append, hs.payloadBytes_length ht, beBytes_length, seqOffset,
      if_pos (show pkt.type.hasLength from Or.inl ht)]
    omega
  · have hhas : ¬ pkt.type.hasLength := by
      rintro (h | h)
      · exact ht h
      · exact hs.type h
    rw [if_neg ht, hs.encode_payload_nil ht, seqOffset, if_neg hhas]
    rfl

theorem Sendable.encode_size_le : encode_size pkt ≤ PKT_MAX_LEN := by
  simp only [encode_size, PKT_MAX_LEN, predict_header_length_eq, pkt_get_length]
  by_cases ht : pkt.type = .DATA
  · have := (hs.data ht).1
    have hoff : seqOffset pkt.type = 3 := if_pos (Or.inl ht)
    unfold MAX_PAYLOAD_SIZE at *
    rw [hoff]
    split_ifs <;> omega
  · have hoff : seqOffset pkt.type ≤ 3 := by unfold seqOffset; split <;> omega
    rw [if_neg (fun h => ht h.1), if_neg hs.type]
    omega

variable {data : Mem} (h : Starts (pkt_bytes crc32 pkt) data)
include h

theorem Sendable.payloadAt (ht : pkt.type = .DATA) : payloadAt data = payloadBytes pkt :=
  payloadAt_bytes h (Or.inl ht) (hs.encode_payload ht) (by
    rw [payloadLength_data (by rw [hdrType_bytes h, ht]), hdrLength_bytes h ht, hs.payloadBytes_length ht])

theorem Sendable.hdrCrc2 (ht : pkt.type = .DATA) : hdrCrc2 data = crc32 (Trtp.payloadAt data) :=
  hdrCrc2_bytes h (Or.inl ht) (hs.encode_payload ht) (by
    rw [payloadLength_data (by rw [hdrType_bytes h, ht]), hdrLength_bytes h ht, hs.payloadBytes_length ht])

theorem Sendable.headerOnly_iff : HeaderOnly data ↔ (pkt.type = .DATA → pkt.length = 0) := by
  unfold HeaderOnly
  rw [hdrType_bytes h]
  by_cases ht : pkt.type = .DATA
  · simp [ht, hdrLength_bytes h ht]
  · have := hs.type
    cases hp : pkt.type <;> simp_all

theorem Sendable.hdrLength : hdrLength data = pkt.length := by
  by_cases ht : pkt.type = .DATA
  · exact hdrLength_bytes h ht
  · have hhas : ¬ (hdrType data).hasLength := by
      rw [hdrType_bytes h]
      rintro (hp | hp)
      · exact ht hp
      · exact hs.type hp
    rw [hdrLength_of_not_hasLength hhas, hs.empty ht]

theorem Sendable.intact : Intact crc32 data where
  tr := by
    rw [hdrTr_bytes h, hs.tr]
    intro h1
    exact absurd h1 (by decide)
  length := by
    rw [hs.hdrLength h]
    by_cases ht : pkt.type = .DATA
    · exact (hs.data ht).1
    · simp [hs.empty ht]
  crc1 := (hdrCrc1_bytes h).symm
  payload := by
    rw [hs.headerOnly_iff h, Classical.not_imp]
    rintro ⟨ht, hne⟩
    exact ⟨by rwa [hs.hdrLength h], by rw [hdrTr_bytes h, hs.tr], (hs.hdrCrc2 h ht).symm⟩

theorem Sendable.lenTests : LenTests data (UInt64.ofNat (pkt_bytes crc32 pkt).length) := by
  have hle : (pkt_bytes crc32 pkt).length ≤ MAX_PAYLOAD_SIZE + 16 := by
    rw [hs.pkt_bytes_length]
    split
    · rename_i ht
      have := (hs.data ht).1
      omega
    · unfold MAX_PAYLOAD_SIZE
      omega
  obtain ⟨hnat, hint⟩ := toInt_ofNat (n := (pkt_bytes crc32 pkt).length) (by omega)
  refine ⟨?_, fun _ => ?_, fun _ => ?_⟩
  · rw [hnat, hs.pkt_bytes_length]
    split <;> omega
  · rw [hint, hs.hdrLength h, hs.pkt_bytes_length]
    split <;> omega
  · omega

theorem Sendable.decode :
    pkt_decode crc32 data (UInt64.ofNat (pkt_bytes crc32 pkt).length) pkt_new = (.PKT_OK, accepted crc32 data) :=
  pkt_decode_of_tests crc32 (hs.intact h) (hs.lenTests h)

end RoundTrip

/-- The two packets say the same. -/
structure Restores (pkt' pkt : Pkt) : Prop where
  type : pkt'.type = pkt.type
  tr : pkt'.tr = pkt.tr
  window : pkt'.window = pkt.window
  length : pkt'.length = pkt.length
  seqnum : pkt'.seqnum = pkt.seqnum
  timestamp : pkt'.timestamp = pkt.timestamp
  payload : payloadBytes pkt' = payloadBytes pkt

section RoundTrip

variable {crc32} {pkt : Pkt} (hs : Sendable pkt) {data : Mem} (h : Starts (pkt_bytes crc32 pkt) data)
include hs h

theorem Sendable.payload_accepted : payloadBytes (accepted crc32 data) = payloadBytes pkt := by
  have hnil : (pkt.type = .DATA → pkt.length = 0) → payloadBytes pkt = [] := by
    intro hempty
    by_cases ht : pkt.type = .DATA
    · have hlen := hs.payloadBytes_length ht
      rw [hempty ht] at hlen
      exact List.eq_nil_of_length_eq_zero (by simpa using hlen)
    · simp [payloadBytes, pkt_get_payload, ht, hs.type]
  unfold accepted
  split
  · rename_i hho
    rw [hnil ((hs.headerOnly_iff h).mp hho)]
    unfold payloadBytes pkt_get_payload hdrPkt
    split <;> rfl
  · rename_i hho
    rw [hs.headerOnly_iff h, Classical.not_imp] at hho
    have htr : hdrTr data = 0 := by rw [hdrTr_bytes h, hs.tr]
    have ht : hdrType data = .DATA := by rw [hdrType_bytes h, hho.1]
    rw [← hs.payloadAt h hho.1, payloadBytes, pkt_get_payload_data ht htr]
    rfl

theorem Sendable.restores : Restores (accepted crc32 data) pkt where
  type := by rw [← hdrType_bytes h]; unfold accepted; split <;> rfl
  tr := by rw [← hdrTr_bytes h]; unfold accepted; split <;> rfl
  window := by rw [← hdrWindow_bytes h]; unfold accepted; split <;> rfl
  length := by rw [← hs.hdrLength h]; unfold accepted; split <;> rfl
  seqnum := by rw [← hdrSeqnum_bytes h]; unfold accepted; split <;> rfl
  timestamp := by rw [← hdrTimestamp_bytes h]; unfold accepted; split <;> rfl
  payload := hs.payload_accepted h

end RoundTrip

theorem Sendable.encode {pkt : Pkt} (hs : Sendable pkt) (buf : Mem) :
    pkt_encode crc32 pkt buf PKT_MAX_LEN =
      (.PKT_OK, load (pkt_bytes crc32 pkt) buf, (pkt_bytes crc32 pkt).length) :=
  if_neg (Nat.not_lt.mpr hs.encode_size_le)

/-- A packet that is encoded and decoded comes back as it was, whatever is in memory after its bytes. -/
theorem pkt_decode_pkt_encode (pkt : Pkt) (hs : Sendable pkt) (buf : Mem) :
    ∃ bytes len, pkt_encode crc32 pkt buf PKT_MAX_LEN = (.PKT_OK, bytes, len) ∧
      ∀ data : Mem, (∀ i < len, data i = bytes i) →
        ∃ pkt', pkt_decode crc32 data (UInt64.ofNat len) pkt_new = (.PKT_OK, pkt') ∧ Restores pkt' pkt := by
  refine ⟨_, _, hs.encode crc32 buf, fun data hdata => ?_⟩
  have h : Starts (pkt_bytes crc32 pkt) data := by
    intro i hi
    rw [hdata i hi, load_lt _ _ _ hi]
  exact ⟨_, hs.decode h, hs.restores h⟩

/-- A full packet of two bytes. -/
def helloPkt : Pkt :=
  { pkt_new with
    type := .DATA, window := 31, length := 2, seqnum := 255, timestamp := 0xdeadbeef, payload := some [104, 105] }

theorem pkt_decode_pkt_encode_hello :
    ∃ bytes len, pkt_encode zlib_crc32 helloPkt (fun _ => 0) PKT_MAX_LEN = (.PKT_OK, bytes, len) ∧
      ∀ data : Mem, (∀ i < len, data i = bytes i) →
        ∃ pkt', pkt_decode zlib_crc32 data (UInt64.ofNat len) pkt_new = (.PKT_OK, pkt') ∧ Restores pkt' helloPkt := by
  generalize zlib_crc32 = crc32
  refine pkt_decode_pkt_encode crc32 helloPkt ⟨rfl, by decide, ?_, ?_⟩ _
  · intro _
    decide
  · intro h
    exact absurd rfl h

end Trtp
