import Trtp.Receiver.Stale

/-!
# When the receiver reacts to stale bytes

Two runs of `receive_data` that differ in the old contents of the buffer are the same to an observer, unless the
datagram is exposed: a `DATA` packet that ends before its checksums do, or no datagram at all.
-/

open Trtp.Lib

namespace Trtp

variable (crc32 : List UInt8 → UInt32)

/-- The receiver shows whether it has taken a `DATA` packet that `pkt_decode` accepts. -/
def Tells (r : Receiver) (m : Mem) : Prop :=
  is_in_window r.window (hdrSeqnum m) = true ∨ r.resent_ack = false

/-- `d` has the header `m` of a `DATA` packet and ends inside what the checksums cover. What it has of the
checksums is right. -/
structure Cut (r : Receiver) (d : List UInt8) (m : Mem) : Prop where
  header : 10 ≤ d.length
  type : hdrType m = .DATA
  length : (hdrLength m).toNat ≤ MAX_PAYLOAD_SIZE
  slack : d.length ≤ (hdrLength m).toNat + 32
  crc1 : (d.drop 8).take 4 <+: beBytes 4 (headerCrc crc32 m).toNat
  empty : hdrLength m = 0 → d.length < 12 ∧ (hdrTr m = 0 → Tells r m) ∧
    (hdrTr m = 1 → is_in_window r.window (hdrSeqnum m) = false)
  full : hdrLength m ≠ 0 → hdrTr m = 0 ∧ d.length < 16 + (hdrLength m).toNat ∧
    (d.drop (12 + (hdrLength m).toNat)).take 4 <+:
      beBytes 4 (crc32 ((d.drop 12).take (hdrLength m).toNat)).toNat ∧ Tells r m

/-- The results of `read` on which `receive_data` reacts to the old contents of the buffer. A failed `read` is
always one. -/
def Exposed (r : Receiver) (bytes_read : Option (List UInt8)) : Prop :=
  match bytes_read with
  | none => True
  | some bytes => Cut crc32 r (bytes.take PKT_MAX_LEN) (load (bytes.take PKT_MAX_LEN) fun _ => 0)

/-! ## Datagrams that are not exposed -/

section Sound

variable {crc32} {r : Receiver} {bytes : List UInt8} {write : Bool} {b : Mem}

theorem readLen_some (bytes : List UInt8) :
    (readLen (some bytes)).toNat = (bytes.take PKT_MAX_LEN).length ∧
      toInt (readLen (some bytes)) = (bytes.take PKT_MAX_LEN).length := by
  apply toInt_ofNat
  rw [List.length_take, PKT_MAX_LEN, MAX_PAYLOAD_SIZE]
  omega

theorem received_refused (htr : hdrTr (readInto (some bytes) b) = 0)
    (hv : ¬ (Intact crc32 (readInto (some bytes) b) ∧ LenTests (readInto (some bytes) b) (readLen (some bytes)))) :
    received crc32 r b (some bytes) write = r.visible.ignore := by
  apply received_ignored hv
  intro h
  have h1 := h.tr
  rw [htr] at h1
  exact absurd h1 (by decide)

theorem receive_valid_outside {pkt : Pkt} (ht : pkt.type = .DATA) (htr : pkt.tr = 0)
    (hout : is_in_window r.window pkt.seqnum = false) :
    (receive_valid crc32 r.visible pkt write).2.visible = { r.visible.ignore with resent_ack := true } := by
  have htype : pkt_get_type pkt = .DATA := ht
  have hwin : is_in_window r.visible.window (pkt_get_seqnum pkt) = false := hout
  have htr0 : pkt_get_tr pkt = 0 := (pkt_get_tr_eq_zero pkt).mpr htr
  simp only [receive_valid, htype, htr0, ne_eq, not_true_eq_false, if_false, Receiver.is_in_window, hwin]
  rfl

theorem received_untold (ht : hdrType (readInto (some bytes) b) = .DATA)
    (htr : hdrTr (readInto (some bytes) b) = 0) (h : ¬ Tells r (readInto (some bytes) b)) :
    received crc32 r b (some bytes) write = r.visible.ignore := by
  unfold Tells at h
  rw [not_or, Bool.not_eq_true, Bool.not_eq_false] at h
  by_cases hv : Intact crc32 (readInto (some bytes) b) ∧
      LenTests (readInto (some bytes) b) (readLen (some bytes))
  · obtain ⟨htype, htr', _, _, hseq, _⟩ := accepted_header crc32 (readInto (some bytes) b)
    have hresent : ({ r.visible.ignore with resent_ack := true } : Receiver) = r.visible.ignore := by
      rw [← h.2]
      rfl
    rw [received_valid hv.1 hv.2, receive_valid_outside (htype.trans ht) (htr'.trans htr) (by rw [hseq, h.1]),
      hresent]
  · exact received_refused htr hv

/-- A truncated packet in the window is answered with a `NACK`, accepted or not. -/
theorem received_nacked (ht : TruncTests crc32 (readInto (some bytes) b) (readLen (some bytes)) ∨
      Intact crc32 (readInto (some bytes) b) ∧ LenTests (readInto (some bytes) b) (readLen (some bytes)))
    (htype : hdrType (readInto (some bytes) b) = .DATA) (htr : hdrTr (readInto (some bytes) b) = 1)
    (hin : is_in_window r.window (hdrSeqnum (readInto (some bytes) b)) = true) :
    received crc32 r b (some bytes) write =
      (send_troncated_nack crc32 r.visible (hdrPkt crc32 (readInto (some bytes) b)) write).visible := by
  rcases ht with ht | hv
  · rw [received_truncated ht, if_pos hin]
  · obtain ⟨htype', htr', _, _, hseq, htime⟩ := accepted_header crc32 (readInto (some bytes) b)
    have hdata : pkt_get_type (accepted crc32 (readInto (some bytes) b)) = .DATA := htype'.trans htype
    have htr0 : pkt_get_tr (accepted crc32 (readInto (some bytes) b)) ≠ 0 := by
      rw [(pkt_get_tr_eq_one _).mpr (htr'.trans htr)]
      decide
    rw [received_valid hv.1 hv.2]
    simp only [receive_valid, hdata, htr0, ne_eq, not_false_eq_true, if_true]
    rw [send_troncated_nack_congr crc32 _ _ (hdrPkt crc32 (readInto (some bytes) b)) _ hseq htime]

/-- The header of a datagram of ten bytes or more does not depend on what was in the buffer. -/
theorem hdrPkt_read (crc32 : List UInt8 → UInt32) (h10 : 10 ≤ (bytes.take PKT_MAX_LEN).length) (b b' : Mem) :
    hdrPkt crc32 (readInto (some bytes) b) = hdrPkt crc32 (readInto (some bytes) b') := by
  apply hdrPkt_congr
  intro i hi
  rw [readInto, readInto, load_lt _ _ _ (by omega), load_lt _ _ _ (by omega)]

theorem crc1_offset {m : Mem} (ht : hdrType m = .DATA) : seqOffset (hdrType m) + 5 = 8 := by
  rw [ht]
  rfl

theorem crc1_wrong (ht : hdrType (readInto (some bytes) b) = .DATA)
    (hc : ¬ ((bytes.take PKT_MAX_LEN).drop 8).take 4 <+: beBytes 4 (headerCrc crc32 (readInto (some bytes) b)).toNat) :
    headerCrc crc32 (readInto (some bytes) b) ≠ hdrCrc1 (readInto (some bytes) b) := by
  intro heq
  have hbytes := (crc1_bytes crc32 _).mp heq.symm
  rw [crc1_offset ht] at hbytes
  have hlen := beBytes_length 4 (headerCrc crc32 (readInto (some bytes) b)).toNat
  have hpre := prefix_of_bytesAt_load (d := bytes.take PKT_MAX_LEN) (m := b)
    (l := beBytes 4 (headerCrc crc32 (readInto (some bytes) b)).toNat) (by rw [hlen]; exact hbytes)
  rw [hlen] at hpre
  exact hc hpre

theorem truncTests_read (h10 : 10 ≤ (bytes.take PKT_MAX_LEN).length)
    (ht : hdrType (readInto (some bytes) b) = .DATA) (htr : hdrTr (readInto (some bytes) b) = 1)
    (hl : (hdrLength (readInto (some bytes) b)).toNat ≤ MAX_PAYLOAD_SIZE)
    (hs : (bytes.take PKT_MAX_LEN).length ≤ (hdrLength (readInto (some bytes) b)).toNat + 32)
    (hc : headerCrc crc32 (readInto (some bytes) b) = hdrCrc1 (readInto (some bytes) b) →
      hdrLength (readInto (some bytes) b) ≠ 0) :
    TruncTests crc32 (readInto (some bytes) b) (readLen (some bytes)) := by
  obtain ⟨hnat, hint⟩ := readLen_some bytes
  refine ⟨by rw [hnat]; exact h10, ht, htr, hl, by rw [hint]; exact_mod_cast hs, fun heq => ⟨hc heq, ?_⟩⟩
  rw [hnat, List.length_take, PKT_MAX_LEN, MAX_PAYLOAD_SIZE]
  omega

theorem received_whole (h10 : 10 ≤ (bytes.take PKT_MAX_LEN).length)
    (ht : hdrType (readInto (some bytes) b) = .DATA) (b' : Mem)
    (h12 : 12 ≤ (bytes.take PKT_MAX_LEN).length)
    (hfull : hdrLength (readInto (some bytes) b) ≠ 0 →
      16 + (hdrLength (readInto (some bytes) b)).toNat ≤ (bytes.take PKT_MAX_LEN).length) :
    received crc32 r b (some bytes) write = received crc32 r b' (some bytes) write := by
  have hP := hdrPkt_read crc32 h10 b b'
  have hsame : ∀ i < (bytes.take PKT_MAX_LEN).length, readInto (some bytes) b i = readInto (some bytes) b' i := by
    intro i hi
    rw [readInto, readInto, load_lt _ _ _ hi, load_lt _ _ _ hi]
  apply received_congr crc32 r b b' (some bytes) write hP
  · unfold hdrCrc1
    rw [← type_of_hdrPkt hP, crc1_offset ht, bytesAt_congr (fun i _ hi => hsame i (by omega))]
  · intro hho
    have hne : hdrLength (readInto (some bytes) b) ≠ 0 := fun h0 => hho (Or.inr (Or.inr ⟨ht, h0⟩))
    have hN := hfull hne
    have hlen : payloadLength (readInto (some bytes) b) = (hdrLength (readInto (some bytes) b)).toNat :=
      payloadLength_data ht
    have hlen' : payloadLength (readInto (some bytes) b') = payloadLength (readInto (some bytes) b) := by
      unfold payloadLength
      rw [type_of_hdrPkt hP, length_of_hdrPkt hP]
    have hpay : payloadAt (readInto (some bytes) b) = payloadAt (readInto (some bytes) b') := by
      unfold payloadAt
      rw [hlen', bytesAt_congr (fun i _ hi => hsame i (by omega))]
    have hcrc2 : hdrCrc2 (readInto (some bytes) b) = hdrCrc2 (readInto (some bytes) b') := by
      unfold hdrCrc2
      rw [hlen', bytesAt_congr (fun i _ hi => hsame i (by omega))]
    simp only [fullPkt, hdrPktPayload, hP, hpay, hcrc2]

/-- CRC2 is wrong whatever was in the buffer, when what arrived of it is wrong. -/
theorem crc2_wrong (ht : hdrType (readInto (some bytes) b) = .DATA)
    (hc : ¬ ((bytes.take PKT_MAX_LEN).drop (12 + (hdrLength (readInto (some bytes) b)).toNat)).take 4 <+:
      beBytes 4 (crc32 (((bytes.take PKT_MAX_LEN).drop 12).take
        (hdrLength (readInto (some bytes) b)).toNat)).toNat) :
    crc32 (payloadAt (readInto (some bytes) b)) ≠ hdrCrc2 (readInto (some bytes) b) := by
  intro heq
  have hlen : payloadLength (readInto (some bytes) b) = (hdrLength (readInto (some bytes) b)).toNat :=
    payloadLength_data ht
  -- something of CRC2 has arrived, so the payload has arrived
  have hreach : 12 + (hdrLength (readInto (some bytes) b)).toNat ≤ (bytes.take PKT_MAX_LEN).length := by
    by_contra hlt
    apply hc
    rw [List.drop_eq_nil_of_le (by omega), List.take_nil]
    exact List.nil_prefix
  have hpay : payloadAt (readInto (some bytes) b) =
      ((bytes.take PKT_MAX_LEN).drop 12).take (hdrLength (readInto (some bytes) b)).toNat := by
    rw [payloadAt, hlen]
    exact (load_starts _ _).bytesAt _ _ hreach
  have hbytes := (crc2_bytes crc32 _).mp heq.symm
  rw [hlen, hpay] at hbytes
  have hblen := beBytes_length 4 (crc32 (((bytes.take PKT_MAX_LEN).drop 12).take
    (hdrLength (readInto (some bytes) b)).toNat)).toNat
  have hpre := prefix_of_bytesAt_load (d := bytes.take PKT_MAX_LEN) (m := b)
    (l := beBytes 4 (crc32 (((bytes.take PKT_MAX_LEN).drop 12).take
      (hdrLength (readInto (some bytes) b)).toNat)).toNat) (by rw [hblen]; exact hbytes)
  rw [hblen] at hpre
  exact hc hpre

/-- The header of a `DATA` packet that passes the tests on the lengths. -/
structure DataHeader (bytes : List UInt8) (m : Mem) : Prop where
  header : 10 ≤ (bytes.take PKT_MAX_LEN).length
  type : hdrType m = .DATA
  length : (hdrLength m).toNat ≤ MAX_PAYLOAD_SIZE
  slack : (bytes.take PKT_MAX_LEN).length ≤ (hdrLength m).toNat + 32

theorem DataHeader.read {b₀ : Mem} (h : DataHeader bytes (readInto (some bytes) b₀)) (b : Mem) :
    DataHeader bytes (readInto (some bytes) b) := by
  have hP := hdrPkt_read (fun _ => 0) h.header b b₀
  refine ⟨h.header, ?_, ?_, ?_⟩
  · rw [type_of_hdrPkt hP]
    exact h.type
  · rw [length_of_hdrPkt hP]
    exact h.length
  · rw [length_of_hdrPkt hP]
    exact h.slack

theorem received_no_header {b₀ : Mem} (h : ¬ DataHeader bytes (readInto (some bytes) b₀)) :
    ∃ seen, ∀ b, received crc32 r b (some bytes) write = seen := by
  obtain ⟨hnat, hint⟩ := readLen_some bytes
  refine ⟨r.visible.ignore, fun b => ?_⟩
  have hb : ¬ DataHeader bytes (readInto (some bytes) b) := fun hb => h (hb.read b₀)
  by_cases ht : hdrType (readInto (some bytes) b) = .DATA
  swap
  · exact received_not_data ht
  refine received_ignored (fun hv => hb ⟨?_, ht, hv.1.length, ?_⟩) fun htrunc => hb ⟨?_, ht, htrunc.length, ?_⟩
  · rw [← hnat]
    exact hv.2.header
  · have hslack := hv.2.slack (Or.inl ht)
    rw [hint] at hslack
    exact_mod_cast hslack
  · rw [← hnat]
    exact htrunc.header
  · have hslack := htrunc.slack
    rw [hint] at hslack
    exact_mod_cast hslack

/-- With TR at 1, and CRC1 wrong wherever the packet is empty. -/
theorem DataHeader.truncated {b₀ : Mem} (h : DataHeader bytes (readInto (some bytes) b₀))
    (h1 : hdrTr (readInto (some bytes) b₀) = 1)
    (hne : ∀ b, headerCrc crc32 (readInto (some bytes) b) = hdrCrc1 (readInto (some bytes) b) →
      hdrLength (readInto (some bytes) b₀) ≠ 0) :
    ∃ seen, ∀ b, received crc32 r b (some bytes) write = seen := by
  refine ⟨if is_in_window r.window (hdrSeqnum (readInto (some bytes) b₀)) then
    (send_troncated_nack crc32 r.visible (hdrPkt crc32 (readInto (some bytes) b₀)) write).visible
      else r.visible.ignore.ignore, fun b => ?_⟩
  have hP := hdrPkt_read crc32 h.header b b₀
  have hb := h.read b
  have htrunc : TruncTests crc32 (readInto (some bytes) b) (readLen (some bytes)) :=
    truncTests_read h.header hb.type (by rw [tr_of_hdrPkt hP, h1]) hb.length hb.slack
      fun heq => by rw [length_of_hdrPkt hP]; exact hne b heq
  rw [received_truncated htrunc, hP, seqnum_of_hdrPkt hP]

theorem DataHeader.untold {b₀ : Mem} (h : DataHeader bytes (readInto (some bytes) b₀))
    (h0 : hdrTr (readInto (some bytes) b₀) = 0) (hno : ¬ Tells r (readInto (some bytes) b₀)) :
    ∃ seen, ∀ b, received crc32 r b (some bytes) write = seen := by
  refine ⟨r.visible.ignore, fun b => ?_⟩
  have hP := hdrPkt_read crc32 h.header b b₀
  refine received_untold (h.read b).type (by rw [tr_of_hdrPkt hP, h0]) ?_
  unfold Tells
  rw [seqnum_of_hdrPkt hP]
  exact hno

theorem DataHeader.refused {b₀ : Mem} (h : DataHeader bytes (readInto (some bytes) b₀))
    (hc : ¬ ((bytes.take PKT_MAX_LEN).drop 8).take 4 <+:
      beBytes 4 (headerCrc crc32 (readInto (some bytes) b₀)).toNat) :
    ∃ seen, ∀ b, received crc32 r b (some bytes) write = seen := by
  have hwrong : ∀ b, headerCrc crc32 (readInto (some bytes) b) ≠ hdrCrc1 (readInto (some bytes) b) := fun b =>
    crc1_wrong (h.read b).type (by rw [headerCrc_of_hdrPkt (hdrPkt_read crc32 h.header b b₀)]; exact hc)
  rcases hdrTr_cases (readInto (some bytes) b₀) with h0 | h1
  · refine ⟨r.visible.ignore, fun b => received_refused ?_ fun hv => hwrong b hv.1.crc1⟩
    rw [tr_of_hdrPkt (hdrPkt_read crc32 h.header b b₀), h0]
  · exact h.truncated h1 fun b heq => absurd heq (hwrong b)

/-- An empty packet in the window with TR at 1 brings a `NACK`, whether or not CRC1 is right. -/
theorem DataHeader.empty_nacked {b₀ : Mem} (h : DataHeader bytes (readInto (some bytes) b₀))
    (hl0 : hdrLength (readInto (some bytes) b₀) = 0) (h1 : hdrTr (readInto (some bytes) b₀) = 1)
    (hin : is_in_window r.window (hdrSeqnum (readInto (some bytes) b₀)) = true) :
    ∃ seen, ∀ b, received crc32 r b (some bytes) write = seen := by
  obtain ⟨hnat, hint⟩ := readLen_some bytes
  refine ⟨(send_troncated_nack crc32 r.visible (hdrPkt crc32 (readInto (some bytes) b₀)) write).visible, fun b => ?_⟩
  have hP := hdrPkt_read crc32 h.header b b₀
  have hb := h.read b
  have htr : hdrTr (readInto (some bytes) b) = 1 := by rw [tr_of_hdrPkt hP, h1]
  have hcase : TruncTests crc32 (readInto (some bytes) b) (readLen (some bytes)) ∨
      Intact crc32 (readInto (some bytes) b) ∧ LenTests (readInto (some bytes) b) (readLen (some bytes)) := by
    by_cases heq : headerCrc crc32 (readInto (some bytes) b) = hdrCrc1 (readInto (some bytes) b)
    · have hho : HeaderOnly (readInto (some bytes) b) :=
        Or.inr (Or.inr ⟨hb.type, by rw [length_of_hdrPkt hP, hl0]⟩)
      refine Or.inr ⟨⟨fun _ => hb.type, hb.length, heq, fun hfull => absurd hho hfull⟩, ⟨?_, fun _ => ?_,
        fun hfull => absurd hho hfull⟩⟩
      · rw [hnat]
        exact h.header
      · rw [hint]
        exact_mod_cast hb.slack
    · exact Or.inl (truncTests_read h.header hb.type htr hb.length hb.slack fun h => absurd h heq)
  rw [received_nacked hcase hb.type htr (by rw [seqnum_of_hdrPkt hP]; exact hin), hP]

theorem DataHeader.empty {b₀ : Mem} (h : DataHeader bytes (readInto (some bytes) b₀))
    (hl0 : hdrLength (readInto (some bytes) b₀) = 0)
    (hcut : ¬ ((bytes.take PKT_MAX_LEN).length < 12 ∧
      (hdrTr (readInto (some bytes) b₀) = 0 → Tells r (readInto (some bytes) b₀)) ∧
      (hdrTr (readInto (some bytes) b₀) = 1 → is_in_window r.window (hdrSeqnum (readInto (some bytes) b₀)) = false))) :
    ∃ seen, ∀ b, received crc32 r b (some bytes) write = seen := by
  by_cases h12 : (bytes.take PKT_MAX_LEN).length < 12
  swap
  · refine ⟨_, fun b => received_whole h.header (h.read b).type b₀ (Nat.le_of_not_lt h12) fun hne => ?_⟩
    rw [length_of_hdrPkt (hdrPkt_read crc32 h.header b b₀)] at hne
    exact absurd hl0 hne
  rcases hdrTr_cases (readInto (some bytes) b₀) with h0 | h1
  · refine h.untold h0 fun hyes => hcut ⟨h12, fun _ => hyes, fun h1 => ?_⟩
    rw [h0] at h1
    exact absurd h1 (by decide)
  · refine h.empty_nacked hl0 h1 ?_
    by_contra hout
    refine hcut ⟨h12, fun h0 => ?_, fun _ => Bool.not_eq_true _ ▸ hout⟩
    rw [h1] at h0
    exact absurd h0 (by decide)

theorem DataHeader.full {b₀ : Mem} (h : DataHeader bytes (readInto (some bytes) b₀))
    (hl0 : hdrLength (readInto (some bytes) b₀) ≠ 0)
    (hcut : ¬ (hdrTr (readInto (some bytes) b₀) = 0 ∧
      (bytes.take PKT_MAX_LEN).length < 16 + (hdrLength (readInto (some bytes) b₀)).toNat ∧
      ((bytes.take PKT_MAX_LEN).drop (12 + (hdrLength (readInto (some bytes) b₀)).toNat)).take 4 <+:
        beBytes 4 (crc32 (((bytes.take PKT_MAX_LEN).drop 12).take
          (hdrLength (readInto (some bytes) b₀)).toNat)).toNat ∧ Tells r (readInto (some bytes) b₀))) :
    ∃ seen, ∀ b, received crc32 r b (some bytes) write = seen := by
  rcases hdrTr_cases (readInto (some bytes) b₀) with h0 | h1
  swap
  · exact h.truncated h1 fun _ _ => hl0
  have hP := fun b => hdrPkt_read crc32 h.header b b₀
  by_cases hn : (bytes.take PKT_MAX_LEN).length < 16 + (hdrLength (readInto (some bytes) b₀)).toNat
  swap
  · refine ⟨_, fun b => received_whole h.header (h.read b).type b₀ (by omega) fun _ => ?_⟩
    rw [length_of_hdrPkt (hP b)]
    exact Nat.le_of_not_lt hn
  by_cases hc2 : ((bytes.take PKT_MAX_LEN).drop (12 + (hdrLength (readInto (some bytes) b₀)).toNat)).take 4 <+:
      beBytes 4 (crc32 (((bytes.take PKT_MAX_LEN).drop 12).take (hdrLength (readInto (some bytes) b₀)).toNat)).toNat
  swap
  · refine ⟨r.visible.ignore, fun b => received_refused (by rw [tr_of_hdrPkt (hP b), h0]) fun hv => ?_⟩
    have hho : ¬ HeaderOnly (readInto (some bytes) b) := by
      simp [HeaderOnly, (h.read b).type, length_of_hdrPkt (hP b), hl0]
    refine crc2_wrong (h.read b).type ?_ (hv.1.payload hho).2.2
    rw [length_of_hdrPkt (hP b)]
    exact hc2
  · exact h.untold h0 fun hyes => hcut ⟨h0, hn, hc2, hyes⟩

theorem received_of_not_cut
    (h : ¬ Cut crc32 r (bytes.take PKT_MAX_LEN) (load (bytes.take PKT_MAX_LEN) fun _ => 0)) :
    ∃ seen, ∀ b, received crc32 r b (some bytes) write = seen := by
  by_cases hh : DataHeader bytes (readInto (some bytes) fun _ => 0)
  swap
  · exact received_no_header hh
  by_cases hc : ((bytes.take PKT_MAX_LEN).drop 8).take 4 <+:
      beBytes 4 (headerCrc crc32 (readInto (some bytes) fun _ => 0)).toNat
  swap
  · exact hh.refused hc
  by_cases hl0 : hdrLength (readInto (some bytes) fun _ => 0) = 0
  · exact hh.empty hl0 fun hcut =>
      h ⟨hh.header, hh.type, hh.length, hh.slack, hc, fun _ => hcut, fun hne => absurd hl0 hne⟩
  · exact hh.full hl0 fun hcut =>
      h ⟨hh.header, hh.type, hh.length, hh.slack, hc, fun heq => absurd heq hl0, fun _ => hcut⟩

end Sound

/-! ## Datagrams that are -/

section Complete

variable {crc32} {r : Receiver} {write : Bool}

theorem send_troncated_nack_counts (r : Receiver) (pkt : Pkt) (write : Bool) :
    (send_troncated_nack crc32 r pkt write).stats.data_truncated_received = r.stats.data_truncated_received + 1 := by
  obtain ⟨_, _, _, heq⟩ := send_troncated_nack_eq crc32 r pkt write
  rw [heq]
  rfl

theorem store_data_counts (r : Receiver) (pkt : Pkt) :
    (store_data r pkt).2.stats.data_received = r.stats.data_received + 1 := by
  unfold store_data
  simp only
  cases linkedList_add_increasing r.window pkt with
  | none => rfl
  | some window =>
    simp only
    split_ifs <;> rfl

theorem receive_valid_truncated {pkt : Pkt} (ht : pkt.type = .DATA) (htr : pkt.tr = 1) :
    (receive_valid crc32 r.visible pkt write).2.visible.stats.data_truncated_received =
      r.stats.data_truncated_received + 1 := by
  have htype : pkt_get_type pkt = .DATA := ht
  have htr0 : pkt_get_tr pkt ≠ 0 := by
    rw [(pkt_get_tr_eq_one pkt).mpr htr]
    decide
  simp only [receive_valid, htype, htr0, ne_eq, not_false_eq_true, if_true]
  exact send_troncated_nack_counts r.visible pkt write

theorem receive_valid_tells {pkt : Pkt} (ht : pkt.type = .DATA) (htr : pkt.tr = 0)
    (h : is_in_window r.window pkt.seqnum = true ∨ r.resent_ack = false) :
    (receive_valid crc32 r.visible pkt write).2.visible ≠ r.visible.ignore := by
  by_cases hin : is_in_window r.window pkt.seqnum = true
  · have htype : pkt_get_type pkt = .DATA := ht
    have htr0 : pkt_get_tr pkt = 0 := (pkt_get_tr_eq_zero pkt).mpr htr
    have hwin : is_in_window r.visible.window (pkt_get_seqnum pkt) = true := hin
    simp only [receive_valid, htype, htr0, ne_eq, not_true_eq_false, if_false, Receiver.is_in_window, hwin, if_true]
    intro heq
    have hcount := congrArg (fun s => s.stats.data_received) heq
    simp only [Receiver.visible, store_data_counts, Receiver.ignore] at hcount
    omega
  · rw [receive_valid_outside ht htr (by simpa using hin)]
    intro heq
    have hfalse : r.resent_ack = false := h.resolve_left hin
    have hresent : true = r.resent_ack := congrArg Receiver.resent_ack heq
    rw [hfalse] at hresent
    contradiction

/-! ### The buffers that make a cut packet valid, and invalid -/

/-- Where the last byte of the checksums is. -/
def lastCrcByte (m : Mem) : Nat := if hdrLength m = 0 then 11 else 15 + (hdrLength m).toNat

/-- A buffer with the right CRC1. -/
def crc1Fill (crc32 : List UInt8 → UInt32) (m : Mem) : Mem := overlay 8 (beBytes 4 (headerCrc crc32 m).toNat) fun _ => 0

/-- A buffer that completes the header `m` and the received bytes `d` to a packet with the right checksums. -/
def crcFill (crc32 : List UInt8 → UInt32) (d : List UInt8) (m : Mem) : Mem :=
  overlay (12 + (hdrLength m).toNat)
    (beBytes 4 (crc32 (bytesAt (load d (crc1Fill crc32 m)) 12 (hdrLength m).toNat)).toNat) (crc1Fill crc32 m)

theorem crcFill_of_lt {d : List UInt8} {m : Mem} {i : Nat} (hi : i < 12 + (hdrLength m).toNat) :
    crcFill crc32 d m i = crc1Fill crc32 m i := overlay_of_lt _ _ hi

section Fill

variable {bytes : List UInt8} (h : Cut crc32 r (bytes.take PKT_MAX_LEN) (load (bytes.take PKT_MAX_LEN) fun _ => 0))
include h

theorem Cut.lastCrcByte_ge :
    (bytes.take PKT_MAX_LEN).length ≤ lastCrcByte (load (bytes.take PKT_MAX_LEN) fun _ => 0) := by
  unfold lastCrcByte
  split
  · rename_i h0
    have := (h.empty h0).1
    omega
  · rename_i hne
    have := (h.full hne).2.1
    omega

theorem Cut.hdrPkt_eq (b : Mem) :
    hdrPkt crc32 (readInto (some bytes) b) = hdrPkt crc32 (load (bytes.take PKT_MAX_LEN) fun _ => 0) :=
  hdrPkt_read crc32 h.header b _

theorem Cut.type_eq (b : Mem) : hdrType (readInto (some bytes) b) = .DATA := by
  rw [type_of_hdrPkt (h.hdrPkt_eq b), h.type]

theorem Cut.lenTests (b : Mem) : LenTests (readInto (some bytes) b) (readLen (some bytes)) := by
  obtain ⟨hnat, hint⟩ := readLen_some bytes
  refine ⟨by rw [hnat]; exact h.header, fun _ => ?_, fun _ => ?_⟩
  · rw [hint, length_of_hdrPkt (h.hdrPkt_eq b)]
    exact_mod_cast h.slack
  · rw [hnat, List.length_take, PKT_MAX_LEN, MAX_PAYLOAD_SIZE]
    omega

theorem Cut.crc1_fill (b : Mem)
    (hb : ∀ i, 8 ≤ i → i < 12 → b i = crc1Fill crc32 (load (bytes.take PKT_MAX_LEN) fun _ => 0) i) :
    headerCrc crc32 (readInto (some bytes) b) = hdrCrc1 (readInto (some bytes) b) := by
  have hlen := beBytes_length 4 (headerCrc crc32 (load (bytes.take PKT_MAX_LEN) fun _ => 0)).toNat
  have hfill : bytesAt b 8 4 = beBytes 4 (headerCrc crc32 (load (bytes.take PKT_MAX_LEN) fun _ => 0)).toNat := by
    have hover := bytesAt_overlay 8 (beBytes 4 (headerCrc crc32 (load (bytes.take PKT_MAX_LEN) fun _ => 0)).toNat)
      (fun _ => 0)
    rw [hlen] at hover
    rw [bytesAt_congr hb]
    exact hover
  have hload := bytesAt_load_of_prefix (d := bytes.take PKT_MAX_LEN) (m := b)
    (l := beBytes 4 (headerCrc crc32 (load (bytes.take PKT_MAX_LEN) fun _ => 0)).toNat)
    (by rw [hlen]; exact h.crc1) (by rw [hlen]; exact hfill)
  rw [hlen] at hload
  symm
  rw [crc1_bytes, crc1_offset (h.type_eq b), headerCrc_of_hdrPkt (h.hdrPkt_eq b)]
  exact hload

theorem Cut.payloadAt_fill (b : Mem)
    (hb : ∀ i, 8 ≤ i → i < 12 + (hdrLength (load (bytes.take PKT_MAX_LEN) fun _ => 0)).toNat →
      b i = crc1Fill crc32 (load (bytes.take PKT_MAX_LEN) fun _ => 0) i) :
    payloadAt (readInto (some bytes) b) =
      bytesAt (load (bytes.take PKT_MAX_LEN) (crc1Fill crc32 (load (bytes.take PKT_MAX_LEN) fun _ => 0))) 12
        (hdrLength (load (bytes.take PKT_MAX_LEN) fun _ => 0)).toNat := by
  rw [payloadAt, payloadLength_data (h.type_eq b), length_of_hdrPkt (h.hdrPkt_eq b)]
  apply bytesAt_congr
  intro i hlo hhi
  by_cases hd : i < (bytes.take PKT_MAX_LEN).length
  · rw [readInto, load_lt _ _ _ hd, load_lt _ _ _ hd]
  · rw [readInto, load_ge _ _ _ (by omega), load_ge _ _ _ (by omega), hb i (by omega) hhi]

theorem Cut.intact :
    Intact crc32 (readInto (some bytes)
      (crcFill crc32 (bytes.take PKT_MAX_LEN) (load (bytes.take PKT_MAX_LEN) fun _ => 0))) := by
  set d := bytes.take PKT_MAX_LEN with hd
  set m := load d (fun _ => 0) with hm
  set b := crcFill crc32 d m with hb
  have hbelow : ∀ i, 8 ≤ i → i < 12 + (hdrLength m).toNat → b i = crc1Fill crc32 m i :=
    fun i _ hi => crcFill_of_lt hi
  refine ⟨fun _ => h.type_eq b, ?_, h.crc1_fill b (fun i h8 h12 => hbelow i h8 (by omega)), fun hho => ?_⟩
  · rw [length_of_hdrPkt (h.hdrPkt_eq b)]
    exact h.length
  · have hne : hdrLength m ≠ 0 := by
      rw [← length_of_hdrPkt (h.hdrPkt_eq b)]
      exact fun h0 => hho (Or.inr (Or.inr ⟨h.type_eq b, h0⟩))
    obtain ⟨htr, _, hpre, _⟩ := h.full hne
    refine ⟨by rwa [length_of_hdrPkt (h.hdrPkt_eq b)], by rw [tr_of_hdrPkt (h.hdrPkt_eq b), htr], ?_⟩
    have hpay := h.payloadAt_fill b hbelow
    rw [← hd, ← hm] at hpay
    symm
    rw [crc2_bytes, payloadLength_data (h.type_eq b), length_of_hdrPkt (h.hdrPkt_eq b), hpay]
    have hlen := beBytes_length 4 (crc32 (bytesAt (load d (crc1Fill crc32 m)) 12 (hdrLength m).toNat)).toNat
    have hover := bytesAt_overlay (12 + (hdrLength m).toNat)
      (beBytes 4 (crc32 (bytesAt (load d (crc1Fill crc32 m)) 12 (hdrLength m).toNat)).toNat) (crc1Fill crc32 m)
    have hload := bytesAt_load_of_prefix (d := d) (m := b)
      (l := beBytes 4 (crc32 (bytesAt (load d (crc1Fill crc32 m)) 12 (hdrLength m).toNat)).toNat) ?_ hover
    · rw [hlen] at hload
      exact hload
    · rw [hlen]
      by_cases hreach : 12 + (hdrLength m).toNat ≤ d.length
      · rw [(load_starts d (crc1Fill crc32 m)).bytesAt _ _ hreach]
        exact hpre
      · rw [List.drop_eq_nil_of_le (by omega), List.take_nil]
        exact List.nil_prefix

theorem Cut.not_intact :
    ¬ Intact crc32 (readInto (some bytes) (Function.update
      (crcFill crc32 (bytes.take PKT_MAX_LEN) (load (bytes.take PKT_MAX_LEN) fun _ => 0))
      (lastCrcByte (load (bytes.take PKT_MAX_LEN) fun _ => 0))
      (crcFill crc32 (bytes.take PKT_MAX_LEN) (load (bytes.take PKT_MAX_LEN) fun _ => 0)
        (lastCrcByte (load (bytes.take PKT_MAX_LEN) fun _ => 0)) + 1))) := by
  have hin := h.intact
  have hge := h.lastCrcByte_ge
  set d := bytes.take PKT_MAX_LEN with hd
  set m := load d (fun _ => 0) with hm
  set b := crcFill crc32 d m with hb
  set b' := Function.update b (lastCrcByte m) (b (lastCrcByte m) + 1) with hb'
  intro hin'
  have hne : readInto (some bytes) b' (lastCrcByte m) ≠ readInto (some bytes) b (lastCrcByte m) := by
    rw [readInto, readInto, load_ge _ _ _ hge, load_ge _ _ _ hge, hb', Function.update_self]
    intro heq
    have hnat := congrArg UInt8.toNat heq
    rw [UInt8.toNat_add, UInt8.toNat_one] at hnat
    omega
  have hP := h.hdrPkt_eq b
  have hP' := h.hdrPkt_eq b'
  by_cases h0 : hdrLength m = 0
  · have hpos : lastCrcByte m = 8 + 3 := if_pos h0
    have hc := (crc1_bytes crc32 _).mp hin.crc1.symm
    have hc' := (crc1_bytes crc32 _).mp hin'.crc1.symm
    rw [crc1_offset (h.type_eq _), headerCrc_of_hdrPkt hP] at hc
    rw [crc1_offset (h.type_eq _), headerCrc_of_hdrPkt hP', ← hc] at hc'
    apply hne
    rw [hpos]
    exact eq_of_bytesAt_eq hc' (by omega)
  · have hpos : lastCrcByte m = 12 + (hdrLength m).toNat + 3 := by
      rw [lastCrcByte, if_neg h0]
      omega
    have hho : ∀ c, ¬ HeaderOnly (readInto (some bytes) c) := by
      intro c
      simp [HeaderOnly, h.type_eq c, length_of_hdrPkt (h.hdrPkt_eq c), ← hd, ← hm, h0]
    have hbelow : ∀ i, 8 ≤ i → i < 12 + (hdrLength m).toNat → b i = crc1Fill crc32 m i :=
      fun i _ hi => crcFill_of_lt hi
    have hbelow' : ∀ i, 8 ≤ i → i < 12 + (hdrLength m).toNat → b' i = crc1Fill crc32 m i := by
      intro i h8 hi
      rw [hb', Function.update_of_ne (by omega), hbelow i h8 hi]
    have hpay := (h.payloadAt_fill b hbelow).trans (h.payloadAt_fill b' hbelow').symm
    have hc := (crc2_bytes crc32 _).mp (hin.payload (hho b)).2.2.symm
    have hc' := (crc2_bytes crc32 _).mp (hin'.payload (hho b')).2.2.symm
    rw [payloadLength_data (h.type_eq _), length_of_hdrPkt hP] at hc
    rw [payloadLength_data (h.type_eq _), length_of_hdrPkt hP', ← hpay, ← hc] at hc'
    apply hne
    rw [hpos]
    exact eq_of_bytesAt_eq hc' (by omega)

theorem Cut.differs :
    ∃ b b', received crc32 r b (some bytes) write ≠ received crc32 r b' (some bytes) write := by
  set d := bytes.take PKT_MAX_LEN with hd
  set m := load d (fun _ => 0) with hm
  refine ⟨crcFill crc32 d m, Function.update (crcFill crc32 d m) (lastCrcByte m)
    (crcFill crc32 d m (lastCrcByte m) + 1), ?_⟩
  set b := crcFill crc32 d m with hb
  set b' := Function.update b (lastCrcByte m) (b (lastCrcByte m) + 1) with hb'
  have hin : Intact crc32 (readInto (some bytes) b) := h.intact
  have hv' : ¬ (Intact crc32 (readInto (some bytes) b') ∧
      LenTests (readInto (some bytes) b') (readLen (some bytes))) := fun hv => h.not_intact hv.1
  obtain ⟨htype, htr, _, _, hseq, _⟩ := accepted_header crc32 (readInto (some bytes) b)
  have htype' : (accepted crc32 (readInto (some bytes) b)).type = .DATA := htype.trans (h.type_eq b)
  have htr' : (accepted crc32 (readInto (some bytes) b)).tr = hdrTr m := htr.trans (tr_of_hdrPkt (h.hdrPkt_eq b))
  have hseq' : (accepted crc32 (readInto (some bytes) b)).seqnum = hdrSeqnum m :=
    hseq.trans (seqnum_of_hdrPkt (h.hdrPkt_eq b))
  rw [received_valid hin (h.lenTests b)]
  -- without TR the packet itself shows, with TR the `NACK` does
  have htold : hdrTr m = 0 → Tells r m →
      (receive_valid crc32 r.visible (accepted crc32 (readInto (some bytes) b)) write).2.visible ≠
        received crc32 r b' (some bytes) write := by
    intro h0 htells
    rw [received_refused (by rw [tr_of_hdrPkt (h.hdrPkt_eq b')]; exact h0) hv']
    apply receive_valid_tells htype' (htr'.trans h0)
    rw [hseq']
    exact htells
  rcases hdrTr_cases m with h0 | h1
  · by_cases hl0 : hdrLength m = 0
    · exact htold h0 ((h.empty hl0).2.1 h0)
    · exact htold h0 (h.full hl0).2.2.2
  · have hl0 : hdrLength m = 0 := by
      by_contra hne
      have htr0 := (h.full hne).1
      rw [h1] at htr0
      exact absurd htr0 (by decide)
    have hout : is_in_window r.window (hdrSeqnum (readInto (some bytes) b')) = false := by
      rw [seqnum_of_hdrPkt (h.hdrPkt_eq b')]
      exact (h.empty hl0).2.2 h1
    have hcrc : headerCrc crc32 (readInto (some bytes) b') ≠ hdrCrc1 (readInto (some bytes) b') := by
      intro heq
      have hho : HeaderOnly (readInto (some bytes) b') :=
        Or.inr (Or.inr ⟨h.type_eq b', by rw [length_of_hdrPkt (h.hdrPkt_eq b')]; exact hl0⟩)
      refine h.not_intact ⟨fun _ => h.type_eq b', ?_, heq, fun hno => absurd hho hno⟩
      rw [length_of_hdrPkt (h.hdrPkt_eq b')]
      exact h.length
    have ht' : TruncTests crc32 (readInto (some bytes) b') (readLen (some bytes)) := by
      refine truncTests_read h.header (h.type_eq b') ?_ ?_ ?_ (fun heq => absurd heq hcrc)
      · rw [tr_of_hdrPkt (h.hdrPkt_eq b')]; exact h1
      · rw [length_of_hdrPkt (h.hdrPkt_eq b')]; exact h.length
      · rw [length_of_hdrPkt (h.hdrPkt_eq b')]; exact h.slack
    rw [received_truncated ht', hout]
    intro heq
    have hcount := congrArg (fun s => s.stats.data_truncated_received) heq
    simp only [receive_valid_truncated htype' (htr'.trans h1)] at hcount
    change r.stats.data_truncated_received + 1 = r.stats.data_truncated_received at hcount
    omega

end Fill

/-! ### A failed `read` -/

/-- The first packet of an empty file, as it was sent or truncated. -/
def emptyPkt (tr : BitVec 1) : Pkt := { pkt_new with type := .DATA, tr }

/-- A buffer that still holds the packet. -/
def staleBuffer (crc32 : List UInt8 → UInt32) (pkt : Pkt) : Mem := load (pkt_bytes crc32 pkt) fun _ => 0

/-- An empty `DATA` packet that was received last is received again when `read` fails. -/
theorem failed_read_valid (pkt : Pkt) (ht : pkt.type = .DATA) (hl : pkt.length = 0) :
    Intact crc32 (readInto none (staleBuffer crc32 pkt)) ∧
      LenTests (readInto none (staleBuffer crc32 pkt)) (readLen none) := by
  have hstart : Starts (pkt_bytes crc32 pkt) (staleBuffer crc32 pkt) := load_starts _ _
  have htype := hdrType_bytes hstart
  have hlen := hdrLength_bytes hstart ht
  have hho : HeaderOnly (staleBuffer crc32 pkt) := Or.inr (Or.inr ⟨by rw [htype, ht], by rw [hlen, hl]⟩)
  refine ⟨⟨fun _ => by rw [readInto, htype, ht], ?_, (hdrCrc1_bytes hstart).symm, fun h => absurd hho h⟩,
    ⟨by decide, fun _ => ?_, fun h => absurd hho h⟩⟩
  · rw [readInto, hlen, hl]
    decide
  · have hneg : toInt (readLen none) = -1 := by decide
    rw [readInto, hneg, hlen]
    omega

theorem failed_read_differs (r : Receiver) (write : Bool) :
    ∃ b b', received crc32 r b none write ≠ received crc32 r b' none write := by
  refine ⟨staleBuffer crc32 (emptyPkt 1), fun _ => 0, ?_⟩
  have hstart : Starts (pkt_bytes crc32 (emptyPkt 1))
      (staleBuffer crc32 (emptyPkt 1)) := load_starts _ _
  obtain ⟨hin, hlt⟩ := failed_read_valid (emptyPkt 1) rfl rfl
  obtain ⟨htype, htr, _⟩ := accepted_header crc32 (staleBuffer crc32 (emptyPkt 1))
  rw [received_valid hin hlt, received_not_data (b := fun _ => 0) (by decide)]
  intro heq
  have hcount := congrArg (fun s => s.stats.data_truncated_received) heq
  simp only [readInto, receive_valid_truncated (htype.trans (hdrType_bytes hstart))
    (htr.trans (hdrTr_bytes hstart))] at hcount
  change r.stats.data_truncated_received + 1 = r.stats.data_truncated_received at hcount
  omega

end Complete

/-! ## The exact condition -/

/-- Whatever the buffer held before, `receive_data` does the same, exactly when the result of `read` is not
exposed. -/
theorem receive_data_stale_iff (r : Receiver) (bytes_read : Option (List UInt8)) (write : Bool) :
    (∀ b b', received crc32 r b bytes_read write = received crc32 r b' bytes_read write) ↔
      ¬ Exposed crc32 r bytes_read := by
  constructor
  · rintro hsame hexp
    cases bytes_read with
    | none =>
      obtain ⟨b, b', hne⟩ := failed_read_differs r write
      exact hne (hsame b b')
    | some bytes =>
      obtain ⟨b, b', hne⟩ := Cut.differs hexp
      exact hne (hsame b b')
  · intro hexp b b'
    cases bytes_read with
    | none => exact absurd trivial hexp
    | some bytes =>
      obtain ⟨seen, hseen⟩ := received_of_not_cut hexp
      rw [hseen b, hseen b']

/-- A failed `read` puts the packet that is still in the buffer in the list. -/
theorem failed_read_stores :
    (received zlib_crc32 (Receiver.initial fun _ => 0) (staleBuffer zlib_crc32 (emptyPkt 0)) none
        true).window.linkedList.length = 1 ∧
      (received zlib_crc32 (Receiver.initial fun _ => 0) (fun _ => 0) none true).window.linkedList.length = 0 := by
  generalize zlib_crc32 = crc32
  have hstart : Starts (pkt_bytes crc32 (emptyPkt 0))
      (staleBuffer crc32 (emptyPkt 0)) := load_starts _ _
  obtain ⟨hin, hlt⟩ := failed_read_valid (emptyPkt 0) rfl rfl
  obtain ⟨htype, htr, _, _, hseq, _⟩ := accepted_header crc32 (staleBuffer crc32 (emptyPkt 0))
  rw [received_valid hin hlt, received_not_data (b := fun _ => 0) (by decide)]
  refine ⟨?_, rfl⟩
  generalize hp : accepted crc32 (readInto none (staleBuffer crc32 (emptyPkt 0))) = pkt
  rw [show accepted crc32 (staleBuffer crc32 (emptyPkt 0)) = pkt from hp] at htype htr hseq
  have hdata : pkt_get_type pkt = .DATA := htype.trans (hdrType_bytes hstart)
  have htr0 : pkt_get_tr pkt = 0 := (pkt_get_tr_eq_zero pkt).mpr (htr.trans (hdrTr_bytes hstart))
  have hseq0 : pkt_get_seqnum pkt = 0 := hseq.trans (hdrSeqnum_bytes hstart)
  have hwin : is_in_window (Receiver.initial fun _ => 0).visible.window 0 = true := by decide
  simp only [receive_valid, hdata, htr0, hseq0, ne_eq, not_true_eq_false, if_false, Receiver.is_in_window, hwin,
    if_true]
  change (store_data _ pkt).2.window.linkedList.length = 1
  rw [store_data_window]
  change (store Window.initial pkt).linkedList.length = 1
  simp only [store, linkedList_add_increasing, add_loop, Window.initial, Option.map_some]
  split
  · rw [increase_window_linkedList]
    rfl
  · rfl

end Trtp
