import Trtp.Codec

/-!
# What `pkt_decode` computes

The fields of a header, read off the bytes, and `pkt_decode` on a fresh packet as one chain of tests on them.
-/

open Trtp.Lib

namespace Trtp

variable (crc32 : List UInt8 → UInt32)

/-! ## The fields of a header -/

def hdrType (data : Mem) : PType :=
  match (data 0 >>> 6).toNat with
  | 0 => .FEC
  | 1 => .DATA
  | 2 => .ACK
  | _ => .NACK

/-- `DATA` and `FEC` have a length field. -/
def PType.hasLength (t : PType) : Prop := t = .DATA ∨ t = .FEC

instance (t : PType) : Decidable t.hasLength := inferInstanceAs (Decidable (_ ∨ _))

def hdrTr (data : Mem) : BitVec 1 := ((data 0 &&& 0b00100000) >>> 5).toBitVec.setWidth 1

def hdrWindow (data : Mem) : BitVec 5 := (data 0 &&& 0b00011111).toBitVec.setWidth 5

/-- The two bytes of the length field, in network byte order. -/
def hdrLengthField (data : Mem) : UInt16 := UInt16.ofNat (beVal (bytesAt data 1 2))

/-- A packet without the field has length 0. -/
def hdrLength (data : Mem) : UInt16 := if (hdrType data).hasLength then hdrLengthField data else 0

/-- Where the sequence number is. -/
def seqOffset (t : PType) : Nat := if t.hasLength then 3 else 1

def hdrSeqnum (data : Mem) : UInt8 := data (seqOffset (hdrType data))

def hdrTimestamp (data : Mem) : UInt32 :=
  UInt32.ofNat (beVal (bytesAt data (seqOffset (hdrType data) + 1) 4).reverse)

/-- CRC1 as the datagram carries it. -/
def hdrCrc1 (data : Mem) : UInt32 := UInt32.ofNat (beVal (bytesAt data (seqOffset (hdrType data) + 5) 4))

/-- CRC1 as it should be: over the header with TR at 0. -/
def headerCrc (data : Mem) : UInt32 :=
  crc32 ((bytesAt data 0 (seqOffset (hdrType data) + 5)).modifyHead (· &&& 0b11011111))

/-- What a header makes of a fresh packet. -/
def hdrPkt (data : Mem) : Pkt where
  type := hdrType data
  tr := hdrTr data
  window := hdrWindow data
  length := hdrLength data
  seqnum := hdrSeqnum data
  timestamp := hdrTimestamp data
  crc1 := headerCrc crc32 data
  payload := none
  crc2 := 0

/-! ## The payload -/

/-- A `FEC` packet always carries `MAX_PAYLOAD_SIZE` bytes. -/
def payloadLength (data : Mem) : Nat :=
  if hdrType data = .FEC then MAX_PAYLOAD_SIZE else (hdrLength data).toNat

def payloadAt (data : Mem) : List UInt8 := bytesAt data 12 (payloadLength data)

/-- CRC2 as the datagram carries it. -/
def hdrCrc2 (data : Mem) : UInt32 := UInt32.ofNat (beVal (bytesAt data (12 + payloadLength data) 4))

/-- The packets that `pkt_decode` accepts on CRC1 alone. -/
def HeaderOnly (data : Mem) : Prop :=
  hdrType data = .ACK ∨ hdrType data = .NACK ∨ (hdrType data = .DATA ∧ hdrLength data = 0)

instance (data : Mem) : Decidable (HeaderOnly data) := inferInstanceAs (Decidable (_ ∨ _ ∨ _))

/-! ## The bits of the first byte -/

theorem hdrType_code (data : Mem) : PType.ofCode (data 0 >>> 6).toNat = some (hdrType data) := by
  have hlt : (data 0 >>> 6).toNat < 4 := by
    have := (data 0).toNat_lt
    simp [UInt8.toNat_shiftRight, Nat.shiftRight_eq_div_pow]
    omega
  unfold hdrType
  interval_cases h : (data 0 >>> 6).toNat <;> rfl

theorem tr_bit_cases (b : UInt8) : (b &&& 0b00100000) >>> 5 = 0 ∨ (b &&& 0b00100000) >>> 5 = 1 := by
  have hall : ∀ b : BitVec 8, (b &&& 0b00100000) >>> 5 = 0 ∨ (b &&& 0b00100000) >>> 5 = 1 := by decide
  rcases hall b.toBitVec with h | h
  · left; apply UInt8.eq_of_toBitVec_eq; simpa using h
  · right; apply UInt8.eq_of_toBitVec_eq; simpa using h

theorem tr_bit_eq_one (data : Mem) : (data 0 &&& 0b00100000) >>> 5 = 1 ↔ hdrTr data = 1 := by
  rcases tr_bit_cases (data 0) with h | h
  · simp [hdrTr, h]
  · simp [hdrTr, h]

theorem hdrTr_cases (data : Mem) : hdrTr data = 0 ∨ hdrTr data = 1 := by
  have hall : ∀ tr : BitVec 1, tr = 0 ∨ tr = 1 := by decide
  exact hall _

theorem window_bits_le (b : UInt8) : ¬ (b &&& 0b00011111).toNat > MAX_WINDOW_SIZE := by
  have h : (b &&& 0b00011111).toNat ≤ 31 := by
    rw [UInt8.toNat_and]
    exact Nat.and_le_right
  rw [MAX_WINDOW_SIZE]
  omega

/-! ## The setters on the fields of a header -/

@[simp] theorem andThen_ok (pkt : Pkt) (k : Pkt → PktStatus × Pkt) : andThen (.PKT_OK, pkt) k = k pkt := rfl

theorem andThen_error {e : PktStatus} (h : e ≠ .PKT_OK) (pkt : Pkt) (k : Pkt → PktStatus × Pkt) :
    andThen (e, pkt) k = (e, pkt) := if_neg h

theorem pkt_set_type_header (data : Mem) (pkt : Pkt) :
    pkt_set_type pkt (data 0 >>> 6).toNat = (.PKT_OK, { pkt with type := hdrType data }) := by
  rw [pkt_set_type, hdrType_code]

theorem pkt_set_tr_header (data : Mem) (pkt : Pkt) :
    pkt_set_tr pkt ((data 0 &&& 0b00100000) >>> 5) =
      if hdrTr data = 1 ∧ pkt.type ≠ .DATA then (.E_TR, pkt) else (.PKT_OK, { pkt with tr := hdrTr data }) := by
  have h01 : ¬ ((data 0 &&& 0b00100000) >>> 5 ≠ 0 ∧ (data 0 &&& 0b00100000) >>> 5 ≠ 1) := by
    have := tr_bit_cases (data 0)
    tauto
  rw [pkt_set_tr, if_neg h01]
  simp only [tr_bit_eq_one]
  rfl

theorem pkt_set_window_header (data : Mem) (pkt : Pkt) :
    pkt_set_window pkt (data 0 &&& 0b00011111) = (.PKT_OK, { pkt with window := hdrWindow data }) :=
  if_neg (window_bits_le (data 0))

theorem pkt_set_length_eq {pkt : Pkt} (h : pkt.type.hasLength) (length : UInt16) :
    pkt_set_length pkt length =
      if length.toNat > MAX_PAYLOAD_SIZE then (.E_LENGTH, pkt) else (.PKT_OK, { pkt with length }) := by
  have htype : ¬ (pkt.type ≠ .DATA ∧ pkt.type ≠ .FEC) := by
    unfold PType.hasLength at h
    tauto
  simp only [pkt_set_length, htype, false_or]

/-! ## The chain of tests -/

theorem hdrLength_of_not_hasLength {data : Mem} (h : ¬ (hdrType data).hasLength) : hdrLength data = 0 := if_neg h

theorem payloadLength_data {data : Mem} (h : hdrType data = .DATA) : payloadLength data = (hdrLength data).toNat := by
  simp [payloadLength, h]

theorem payloadLength_fec {data : Mem} (h : hdrType data = .FEC) : payloadLength data = MAX_PAYLOAD_SIZE := by
  simp [payloadLength, h]

theorem bytesAt_shift (data : Mem) (off n : Nat) : bytesAt (fun i => data (off + i)) 0 n = bytesAt data off n := by
  simp [bytesAt]

theorem hasLength_of_not_headerOnly {data : Mem} (h : ¬ HeaderOnly data) : (hdrType data).hasLength := by
  unfold HeaderOnly at h
  cases ht : hdrType data <;> simp_all [PType.hasLength]

/-- The packet once its payload is in. -/
def hdrPktPayload (data : Mem) : Pkt := { hdrPkt crc32 data with payload := some (payloadAt data) }

/-- The packet that `pkt_decode` returns with a payload. -/
def fullPkt (data : Mem) : Pkt := { hdrPktPayload crc32 data with crc2 := hdrCrc2 data }

theorem set_payload_hdrPkt (data : Mem) (hlen : (hdrLength data).toNat ≤ MAX_PAYLOAD_SIZE)
    (h : ¬ HeaderOnly data) :
    pkt_set_payload (hdrPkt crc32 data) (fun i => data (12 + i)) (hdrLength data) =
      (.PKT_OK, hdrPktPayload crc32 data) := by
  have hpay : payloadAt data = bytesAt data 12 (payloadLength data) := rfl
  rcases hasLength_of_not_headerOnly h with ht | ht
  · have hne : hdrLength data ≠ 0 := by simpa [HeaderOnly, ht] using h
    have hle : ¬ MAX_PAYLOAD_SIZE < (hdrLength data).toNat := by omega
    simp [pkt_set_payload, pkt_set_length, hdrPktPayload, hdrPkt, ht, hpay, payloadLength_data ht, bytesAt_shift,
      hne, hle]
  · simp [pkt_set_payload, hdrPktPayload, hdrPkt, ht, hpay, payloadLength_fec ht, bytesAt_shift]

theorem set_crc2_hdrPkt (data : Mem) :
    pkt_set_crc2 (hdrPktPayload crc32 data) (hdrCrc2 data) =
      if hdrLength data = 0 ∨ hdrTr data = 1 then (.E_CRC, hdrPktPayload crc32 data)
      else (.PKT_OK, fullPkt crc32 data) := rfl

theorem decode_payload_eq (data : Mem) (len : UInt64) (hlen : (hdrLength data).toNat ≤ MAX_PAYLOAD_SIZE) :
    decode_payload crc32 data len (hdrLength data) (seqOffset (hdrType data) + 9) (hdrPkt crc32 data) =
      if HeaderOnly data then (.PKT_OK, hdrPkt crc32 data)
      else if MAX_PAYLOAD_SIZE + 32 < len.toNat then (.E_UNCONSISTENT, hdrPkt crc32 data)
      else if hdrLength data = 0 ∨ hdrTr data = 1 then (.E_CRC, hdrPktPayload crc32 data)
      else if crc32 (payloadAt data) ≠ hdrCrc2 data then (.E_CRC, fullPkt crc32 data)
      else (.PKT_OK, fullPkt crc32 data) := by
  unfold decode_payload
  by_cases hho : HeaderOnly data
  · rw [if_pos hho]
    exact if_pos hho
  have hhas := hasLength_of_not_headerOnly hho
  have hoff : seqOffset (hdrType data) + 9 = 12 := by simp [seqOffset, hhas]
  have hho' : ¬ ((hdrPkt crc32 data).type = .ACK ∨ (hdrPkt crc32 data).type = .NACK ∨
      ((hdrPkt crc32 data).type = .DATA ∧ (hdrPkt crc32 data).length = 0)) := hho
  rw [if_neg hho, if_neg hho', hoff, set_payload_hdrPkt crc32 data hlen hho]
  by_cases hmax : MAX_PAYLOAD_SIZE + 32 < len.toNat
  · rw [if_pos hmax, if_pos hmax]
  have hcrc2 : UInt32.ofNat (beVal (bytesAt data (if (hdrPktPayload crc32 data).type = .FEC then
      12 + MAX_PAYLOAD_SIZE else 12 + (hdrLength data).toNat) 4)) = hdrCrc2 data := by
    unfold hdrCrc2 payloadLength hdrPktPayload hdrPkt
    simp only
    split <;> rfl
  rw [if_neg hmax, if_neg hmax, andThen_ok]
  simp only [hcrc2]
  rw [set_crc2_hdrPkt]
  by_cases hbad : hdrLength data = 0 ∨ hdrTr data = 1
  · rw [if_pos hbad, if_pos hbad, andThen_error (by decide)]
  have htr : hdrTr data = 0 := (hdrTr_cases data).resolve_right (fun h => hbad (Or.inr h))
  have hread : ∀ n, n = payloadLength data → readBuffer (some (payloadAt data)) n = payloadAt data := by
    intro n hn
    exact readBuffer_some _ _ (by simp [payloadAt, hn])
  rw [if_neg hbad, if_neg hbad, andThen_ok]
  rcases hhas with ht | ht
  · simp [hdrPktPayload, fullPkt, hdrPkt, ht, htr, hread _ (payloadLength_data ht).symm]
  · simp [hdrPktPayload, fullPkt, hdrPkt, ht, hread _ (payloadLength_fec ht).symm]

theorem predict_header_length_eq (pkt : Pkt) : predict_header_length pkt = seqOffset pkt.type + 5 := by
  simp only [predict_header_length, pkt_get_type, seqOffset, PType.hasLength]
  cases pkt.type <;> rfl

/-- The fields of the first byte, in a packet that has none of the rest yet. -/
def firstPkt (data : Mem) : Pkt :=
  { pkt_new with type := hdrType data, tr := hdrTr data, window := hdrWindow data }

/-- With the length. -/
def fixedPkt (data : Mem) : Pkt := { firstPkt data with length := hdrLength data }

theorem decode_crc1_eq (data : Mem) (len : UInt64) :
    decode_crc1 crc32 data len (hdrLength data) (seqOffset (hdrType data)) (fixedPkt data) =
      if headerCrc crc32 data ≠ hdrCrc1 data then (.E_CRC, hdrPkt crc32 data)
      else decode_payload crc32 data len (hdrLength data) (seqOffset (hdrType data) + 9) (hdrPkt crc32 data) := by
  have hle : ¬ seqOffset (hdrType data) + 5 > PKT_MAX_HEADERLEN := by
    unfold seqOffset PKT_MAX_HEADERLEN
    split <;> omega
  unfold decode_crc1
  simp only [pkt_set_seqnum, pkt_set_timestamp, pkt_set_crc1, andThen_ok, predict_header_length_eq]
  rw [if_neg (show ¬ seqOffset (fixedPkt data).type + 5 > PKT_MAX_HEADERLEN from hle)]
  rfl

/-- `pkt_decode` on a fresh packet and a header that is long enough. -/
theorem pkt_decode_eq (data : Mem) (len : UInt64) (h10 : 10 ≤ len.toNat) :
    pkt_decode crc32 data len pkt_new =
      if hdrTr data = 1 ∧ hdrType data ≠ .DATA then (.E_TR, { pkt_new with type := hdrType data })
      else if (hdrLength data).toNat > MAX_PAYLOAD_SIZE then (.E_LENGTH, firstPkt data)
      else if (hdrType data).hasLength ∧ ((hdrLength data).toNat : Int) + 32 < toInt len then
        (.E_UNCONSISTENT, fixedPkt data)
      else if headerCrc crc32 data ≠ hdrCrc1 data then (.E_CRC, hdrPkt crc32 data)
      else if HeaderOnly data then (.PKT_OK, hdrPkt crc32 data)
      else if MAX_PAYLOAD_SIZE + 32 < len.toNat then (.E_UNCONSISTENT, hdrPkt crc32 data)
      else if hdrLength data = 0 ∨ hdrTr data = 1 then (.E_CRC, hdrPktPayload crc32 data)
      else if crc32 (payloadAt data) ≠ hdrCrc2 data then (.E_CRC, fullPkt crc32 data)
      else (.PKT_OK, fullPkt crc32 data) := by
  have h0 : ¬ len = 0 := by rintro rfl; simp at h10
  have h6 : ¬ len < 6 := by rw [UInt64.lt_iff_toNat_lt]; simp; omega
  have h10' : ¬ len < 10 := by rw [UInt64.lt_iff_toNat_lt]; simpa using h10
  unfold pkt_decode
  rw [if_neg h0, if_neg h6, if_neg h10', pkt_set_type_header, andThen_ok, pkt_set_tr_header]
  by_cases htr : hdrTr data = 1 ∧ hdrType data ≠ .DATA
  · rw [if_pos htr, if_pos htr, andThen_error (by decide)]
  rw [if_neg htr, if_neg htr, andThen_ok, pkt_set_window_header, andThen_ok]
  change (if (firstPkt data).type.hasLength then
    andThen (pkt_set_length (firstPkt data) (UInt16.ofNat (beVal (bytesAt data 1 2)))) _
    else decode_crc1 crc32 data len 0 1 (firstPkt data)) = _
  by_cases hhas : (firstPkt data).type.hasLength
  · have hoff : seqOffset (hdrType data) = 3 := if_pos hhas
    have hlen : UInt16.ofNat (beVal (bytesAt data 1 2)) = hdrLength data := (if_pos hhas).symm
    rw [if_pos hhas, hlen, pkt_set_length_eq hhas]
    by_cases hmax : (hdrLength data).toNat > MAX_PAYLOAD_SIZE
    · rw [if_pos hmax, if_pos hmax, andThen_error (by decide)]
    rw [if_neg hmax, if_neg hmax, andThen_ok]
    by_cases hslack : ((hdrLength data).toNat : Int) + 32 < toInt len
    · rw [if_pos hslack, if_pos ⟨hhas, hslack⟩]
      rfl
    rw [if_neg hslack, if_neg (fun h => hslack h.2), ← hoff, ← decode_payload_eq crc32 data len (by omega),
      ← decode_crc1_eq]
    rfl
  · have hoff : seqOffset (hdrType data) = 1 := if_neg hhas
    have hlen : hdrLength data = 0 := hdrLength_of_not_hasLength hhas
    have hfixed : fixedPkt data = firstPkt data := by
      rw [fixedPkt, hlen]
      rfl
    have hle : ¬ (hdrLength data).toNat > MAX_PAYLOAD_SIZE := by simp [hlen]
    rw [if_neg hhas, if_neg hle, if_neg (fun h => hhas h.1), ← decode_payload_eq crc32 data len (by omega),
      ← decode_crc1_eq, hfixed, hlen, hoff]

end Trtp
