import Trtp.Codec.RoundTrip

/-!
# The contract of `pkt_decode`

What an accepted datagram guarantees about its bytes, and what it does not guarantee about its size.
-/

open Trtp.Lib

namespace Trtp

variable (crc32 : List UInt8 → UInt32)

/-! ## Integrity -/

/-- The header of the datagram, with the TR bit at 0. -/
def clearedHeader (data : Mem) (n : Nat) : List UInt8 := (data 0 &&& 0b11011111) :: bytesAt data 1 (n - 1)

/-- `pkt` says what the bytes of the datagram say, and its checksums hold. -/
structure Integrity (data : Mem) (pkt : Pkt) : Prop where
  type : pkt.type.code = (data 0).toNat / 64
  tr : pkt.tr.toNat = (data 0).toNat / 32 % 2
  window : pkt.window.toNat = (data 0).toNat % 32
  window_le : pkt.window.toNat ≤ MAX_WINDOW_SIZE
  length : pkt.length.toNat = if pkt.type.hasLength then beVal (bytesAt data 1 2) else 0
  length_le : pkt.length.toNat ≤ MAX_PAYLOAD_SIZE
  seqnum : pkt.seqnum = if pkt.type.hasLength then data 3 else data 1
  timestamp : (beBytes 4 pkt.timestamp.toNat).reverse = bytesAt data (if pkt.type.hasLength then 4 else 2) 4
  crc1 :
    if pkt.type.hasLength then bytesAt data 8 4 = beBytes 4 (crc32 (clearedHeader data 8)).toNat
    else bytesAt data 6 4 = beBytes 4 (crc32 (clearedHeader data 6)).toNat
  full : pkt.type = .DATA → pkt.length ≠ 0 →
    pkt.tr = 0 ∧ pkt_get_payload pkt = some (bytesAt data 12 pkt.length.toNat) ∧
      bytesAt data (12 + pkt.length.toNat) 4 = beBytes 4 (crc32 (bytesAt data 12 pkt.length.toNat)).toNat
  fec : pkt.type = .FEC →
    pkt.tr = 0 ∧ pkt.length ≠ 0 ∧ pkt_get_payload pkt = some (bytesAt data 12 MAX_PAYLOAD_SIZE) ∧
      bytesAt data (12 + MAX_PAYLOAD_SIZE) 4 = beBytes 4 (crc32 (bytesAt data 12 MAX_PAYLOAD_SIZE)).toNat
  response : pkt.type = .ACK ∨ pkt.type = .NACK → pkt.tr = 0

theorem hdrType_toNat (data : Mem) : (hdrType data).code = (data 0).toNat / 64 := by
  have hlt := (data 0).toNat_lt
  have hshift : (data 0 >>> 6).toNat = (data 0).toNat / 64 := by
    simp [UInt8.toNat_shiftRight, Nat.shiftRight_eq_div_pow]
  have hdiv : (data 0).toNat / 64 < 4 := by omega
  unfold hdrType
  rw [hshift]
  interval_cases (data 0).toNat / 64 <;> rfl

theorem hdrTr_toNat (data : Mem) : (hdrTr data).toNat = (data 0).toNat / 32 % 2 := by
  have hall : ∀ b : BitVec 8, (((b &&& 0b00100000) >>> 5).setWidth 1).toNat = b.toNat / 32 % 2 := by decide
  simpa [hdrTr] using hall (data 0).toBitVec

theorem hdrWindow_toNat (data : Mem) : (hdrWindow data).toNat = (data 0).toNat % 32 := by
  have hall : ∀ b : BitVec 8, ((b &&& 0b00011111).setWidth 5).toNat = b.toNat % 32 := by decide
  simpa [hdrWindow] using hall (data 0).toBitVec

theorem hdrLength_toNat (data : Mem) :
    (hdrLength data).toNat = if (hdrType data).hasLength then beVal (bytesAt data 1 2) else 0 := by
  have hlt := beVal_lt (bytesAt data 1 2)
  rw [bytesAt_length] at hlt
  unfold hdrLength hdrLengthField
  split
  · rw [UInt16.toNat_ofNat', Nat.mod_eq_of_lt (by omega)]
  · rfl

theorem hdrTimestamp_bytes_le (data : Mem) :
    (beBytes 4 (hdrTimestamp data).toNat).reverse = bytesAt data (seqOffset (hdrType data) + 1) 4 := by
  have hlt := beVal_lt (bytesAt data (seqOffset (hdrType data) + 1) 4).reverse
  have hback := beBytes_beVal (bytesAt data (seqOffset (hdrType data) + 1) 4).reverse
  rw [List.length_reverse, bytesAt_length] at hlt hback
  rw [hdrTimestamp, UInt32.toNat_ofNat', Nat.mod_eq_of_lt (by omega), hback, List.reverse_reverse]

theorem headerCrc_eq (data : Mem) :
    headerCrc crc32 data = crc32 (clearedHeader data (seqOffset (hdrType data) + 5)) := by
  rw [headerCrc, clearedHeader, bytesAt_succ]
  rfl

theorem hdrCrc1_bytes_eq {data : Mem} (hi : Intact crc32 data) :
    bytesAt data (seqOffset (hdrType data) + 5) 4 =
      beBytes 4 (crc32 (clearedHeader data (seqOffset (hdrType data) + 5))).toNat := by
  have hcrc := (crc1_bytes crc32 data).mp hi.crc1.symm
  rwa [headerCrc_eq] at hcrc

theorem not_headerOnly_of_data {data : Mem} (ht : hdrType data = .DATA) (hl : hdrLength data ≠ 0) :
    ¬ HeaderOnly data := by
  simp [HeaderOnly, ht, hl]

theorem not_headerOnly_of_fec {data : Mem} (ht : hdrType data = .FEC) : ¬ HeaderOnly data := by
  simp [HeaderOnly, ht]

theorem Intact.integrity {data : Mem} (hi : Intact crc32 data) : Integrity crc32 data (accepted crc32 data) := by
  obtain ⟨htype, htr, hwin, hlen, hseq, htime⟩ := accepted_header crc32 data
  have htr0 : hdrType data ≠ .DATA → hdrTr data = 0 := by
    intro hne
    exact (hdrTr_cases data).resolve_right (fun h1 => hne (hi.tr h1))
  constructor
  case type => rw [htype, hdrType_toNat]
  case tr => rw [htr, hdrTr_toNat]
  case window => rw [hwin, hdrWindow_toNat]
  case window_le =>
    have := (accepted crc32 data).window.isLt
    unfold MAX_WINDOW_SIZE
    omega
  case length => rw [hlen, htype, hdrLength_toNat]
  case length_le => rw [hlen]; exact hi.length
  case seqnum =>
    rw [hseq, htype, hdrSeqnum, seqOffset]
    split <;> rfl
  case timestamp =>
    rw [htime, htype, hdrTimestamp_bytes_le, seqOffset]
    split <;> rfl
  case crc1 =>
    have hcrc := hdrCrc1_bytes_eq crc32 hi
    rw [htype]
    split
    · rename_i hhas
      rwa [seqOffset, if_pos hhas] at hcrc
    · rename_i hhas
      rwa [seqOffset, if_neg hhas] at hcrc
  case full =>
    intro ht hl
    rw [htype] at ht
    rw [hlen] at hl ⊢
    have hho := not_headerOnly_of_data ht hl
    obtain ⟨_, h0, hcrc⟩ := hi.payload hho
    have hbytes := (crc2_bytes crc32 data).mp hcrc.symm
    rw [payloadAt, payloadLength_data ht] at hbytes
    refine ⟨by rw [htr, h0], ?_, hbytes⟩
    rw [pkt_get_payload_data (by rw [htype, ht]) (by rw [htr, h0]), accepted_payload crc32 hho,
      payloadLength_data ht]
  case fec =>
    intro ht
    rw [htype] at ht
    have hho := not_headerOnly_of_fec ht
    obtain ⟨hl, h0, hcrc⟩ := hi.payload hho
    have hbytes := (crc2_bytes crc32 data).mp hcrc.symm
    rw [payloadAt, payloadLength_fec ht] at hbytes
    refine ⟨by rw [htr, h0], by rwa [hlen], ?_, hbytes⟩
    rw [pkt_get_payload, if_pos (Or.inr (by rw [htype, ht])), accepted_payload crc32 hho, payloadLength_fec ht]
  case response =>
    rw [htype, htr]
    rintro (ht | ht)
    · exact htr0 (by rw [ht]; decide)
    · exact htr0 (by rw [ht]; decide)

/-- Nothing is accepted whose fields or checksums the bytes do not bear out. -/
theorem pkt_decode_integrity (data : Mem) (len : UInt64) (pkt : Pkt)
    (h : pkt_decode crc32 data len pkt_new = (.PKT_OK, pkt)) : Integrity crc32 data pkt := by
  obtain ⟨hi, hl⟩ := tests_of_pkt_decode crc32 (by rw [h] : (pkt_decode crc32 data len pkt_new).1 = .PKT_OK)
  rw [pkt_decode_of_tests crc32 hi hl, Prod.mk.injEq] at h
  rw [← h.2]
  exact hi.integrity

/-- The bytes of `helloPkt` at the start of an empty buffer. -/
def helloData : Mem := load (pkt_bytes crc32 helloPkt) (fun _ => 0)

theorem helloPkt_sendable : Sendable helloPkt :=
  ⟨rfl, by decide, fun _ => by decide, fun h => absurd rfl h⟩

theorem pkt_decode_integrity_hello :
    Integrity zlib_crc32 (helloData zlib_crc32) (accepted zlib_crc32 (helloData zlib_crc32)) := by
  generalize zlib_crc32 = crc32
  exact pkt_decode_integrity crc32 _ _ _ (helloPkt_sendable.decode (load_starts _ _))

/-! ## Size -/

/-- `len` is the size of the packet that the header announces. -/
def RightSize (data : Mem) (len : UInt64) : Prop :=
  match hdrType data with
  | .ACK | .NACK => len.toNat = 10
  | .DATA =>
    if hdrLength data = 0 then len.toNat = 12 ∨ len.toNat = 16 else len.toNat = 16 + (hdrLength data).toNat
  | .FEC => len.toNat = 528

/-- The wrong sizes that the tests of `pkt_decode` let through. -/
def LooseSize (data : Mem) (len : UInt64) : Prop :=
  match hdrType data with
  | .ACK | .NACK => 10 < len.toNat
  | .DATA =>
    if hdrLength data = 0 then 10 ≤ len.toNat ∧ toInt len ≤ 32 ∧ len.toNat ≠ 12 ∧ len.toNat ≠ 16
    else 10 ≤ len.toNat ∧ toInt len ≤ (hdrLength data).toNat + 32 ∧ len.toNat ≤ 544 ∧
      len.toNat ≠ 16 + (hdrLength data).toNat
  | .FEC => 10 ≤ len.toNat ∧ toInt len ≤ (hdrLength data).toNat + 32 ∧ len.toNat ≤ 544 ∧ len.toNat ≠ 528

theorem looseSize_iff (data : Mem) (len : UInt64) : LooseSize data len ↔ LenTests data len ∧ ¬ RightSize data len := by
  have htests : LenTests data len ↔ 10 ≤ len.toNat ∧
      ((hdrType data).hasLength → toInt len ≤ (hdrLength data).toNat + 32) ∧
      (¬ HeaderOnly data → len.toNat ≤ 544) := ⟨fun h => ⟨h.header, h.slack, h.payload⟩, fun h => ⟨h.1, h.2.1, h.2.2⟩⟩
  rw [htests]
  unfold LooseSize RightSize
  cases ht : hdrType data with
  | ACK | NACK =>
    simp only [PType.hasLength, HeaderOnly, ht]
    simp
    omega
  | FEC =>
    simp only [PType.hasLength, HeaderOnly, ht]
    simp
    omega
  | DATA =>
    by_cases h0 : hdrLength data = 0
    · simp only [PType.hasLength, HeaderOnly, ht, h0, if_true]
      simp
      omega
    · simp only [PType.hasLength, HeaderOnly, ht, h0, if_false]
      simp
      omega

/-- The tests of `pkt_decode` leave the size open: it is right exactly when the bytes are not intact, or the size is
none of the wrong ones that the tests let through. -/
theorem pkt_decode_rightSize_iff (data : Mem) (len : UInt64) :
    ((pkt_decode crc32 data len pkt_new).1 = .PKT_OK → RightSize data len) ↔
      (Intact crc32 data → ¬ LooseSize data len) := by
  rw [pkt_decode_ok_iff, looseSize_iff]
  tauto

/-- The `ACK` of a receiver that waits for its first packet. -/
def firstAck : Pkt := { pkt_new with type := .ACK, window := 1 }

theorem firstAck_sendable : Sendable firstAck :=
  ⟨rfl, by decide, fun h => absurd h (by decide), fun _ => rfl⟩

/-- Ten bytes of an `ACK` and ten bytes behind them are accepted. -/
theorem pkt_decode_trailing_bytes :
    (pkt_decode zlib_crc32 (load (pkt_bytes zlib_crc32 firstAck) (fun _ => 0)) 20 pkt_new).1 = .PKT_OK ∧
      ¬ RightSize (load (pkt_bytes zlib_crc32 firstAck) (fun _ => 0)) 20 := by
  generalize zlib_crc32 = crc32
  have hstart := load_starts (pkt_bytes crc32 firstAck) (fun _ => 0)
  have htype := hdrType_bytes hstart
  have hho : HeaderOnly (load (pkt_bytes crc32 firstAck) (fun _ => 0)) := Or.inl htype
  refine ⟨(pkt_decode_ok_iff crc32 _ _).mpr ⟨firstAck_sendable.intact hstart, by decide, ?_, ?_⟩, ?_⟩
  · rw [htype]
    intro h
    exact absurd h (by decide)
  · intro h
    exact absurd hho h
  · unfold RightSize
    rw [htype]
    change ¬ (20 : UInt64).toNat = 10
    decide

end Trtp
