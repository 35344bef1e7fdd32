import Trtp.Codec.Contract
import Trtp.Receiver.Receive

/-!
# The stale bytes of the buffer

`pkt_decode` takes its offsets from the announced length and not from the received one. These are the datagrams on
which `receive_data` depends on what the buffer held before.
-/

open Trtp.Lib

namespace Trtp

variable (crc32 : List UInt8 → UInt32)

/-! ## What is seen of a receiver -/

/-- Everything but the buffer. -/
def Receiver.visible (r : Receiver) : Receiver := { r with buffer := fun _ => 0 }

theorem send_response_visible (r : Receiver) (type : PType) (seqnum : UInt8) (timestamp : UInt32) (write : Bool) :
    (send_response crc32 r type seqnum timestamp write).1 =
        (send_response crc32 r.visible type seqnum timestamp write).1 ∧
      (send_response crc32 r type seqnum timestamp write).2.visible =
        (send_response crc32 r.visible type seqnum timestamp write).2.visible := by
  have hwin : r.visible.window = r.window := rfl
  unfold send_response
  rw [hwin]
  rcases response_pkt type seqnum r.window.windowsize timestamp with ⟨e, pkt⟩
  cases e <;> try exact ⟨rfl, rfl⟩
  by_cases hsize : encode_size pkt > PKT_MAX_LEN
  · simp only [pkt_encode, hsize, if_true, true_and]
    rfl
  · simp only [pkt_encode, hsize, if_false, bytesAt_load]
    cases write <;> exact ⟨rfl, rfl⟩

theorem send_troncated_nack_visible (r : Receiver) (pkt : Pkt) (write : Bool) :
    (send_troncated_nack crc32 r pkt write).visible = (send_troncated_nack crc32 r.visible pkt write).visible := by
  have hd : r.visible.count_truncated.decrease = r.count_truncated.decrease.visible := rfl
  have hc : ∀ t : Receiver, t.count_nack.visible = t.visible.count_nack := fun _ => rfl
  obtain ⟨h1, h2⟩ := send_response_visible crc32 r.count_truncated.decrease .NACK (pkt_get_seqnum pkt)
    (pkt_get_timestamp pkt) write
  unfold send_troncated_nack
  rw [hd]
  rcases hs : send_response crc32 r.count_truncated.decrease .NACK (pkt_get_seqnum pkt)
    (pkt_get_timestamp pkt) write with ⟨sent, s⟩
  rcases hs' : send_response crc32 r.count_truncated.decrease.visible .NACK (pkt_get_seqnum pkt)
    (pkt_get_timestamp pkt) write with ⟨sent', s'⟩
  rw [hs, hs'] at h1 h2
  cases h1
  cases sent
  · exact h2
  · simp only [hc]
    exact congrArg Receiver.count_nack h2

theorem store_data_visible (r : Receiver) (pkt : Pkt) :
    (store_data r pkt).2.visible = (store_data r.visible pkt).2.visible := by
  have hwin : r.visible.window = r.window := rfl
  unfold store_data
  simp only [hwin]
  cases linkedList_add_increasing r.window pkt with
  | none => rfl
  | some window =>
    simp only
    split_ifs <;> rfl

theorem receive_valid_visible (r : Receiver) (pkt : Pkt) (write : Bool) :
    (receive_valid crc32 r pkt write).2.visible = (receive_valid crc32 r.visible pkt write).2.visible := by
  have hwin : r.visible.window = r.window := rfl
  unfold receive_valid Receiver.is_in_window
  rw [hwin]
  cases pkt_get_type pkt with
  | DATA =>
    simp only
    by_cases htr : pkt_get_tr pkt = 0
    · simp only [htr, ne_eq, not_true_eq_false, if_false]
      by_cases hin : is_in_window r.window (pkt_get_seqnum pkt) = true
      · simp only [hin, if_true]
        exact store_data_visible r pkt
      · simp only [hin]
        rfl
    · simp only [htr, ne_eq, not_false_eq_true, if_true]
      exact send_troncated_nack_visible crc32 r pkt write
  | FEC => rfl
  | ACK => rfl
  | NACK => rfl

/-! ## One run -/

/-- What is seen of the receiver after `receive_data`, when its buffer held `b`. -/
def received (r : Receiver) (b : Mem) (bytes_read : Option (List UInt8)) (write : Bool) : Receiver :=
  (receive_data crc32 { r with buffer := b } bytes_read write).2.visible

section Run

variable {crc32} {r : Receiver} {b : Mem} {bytes_read : Option (List UInt8)} {write : Bool}

theorem received_valid (hi : Intact crc32 (readInto bytes_read b))
    (hl : LenTests (readInto bytes_read b) (readLen bytes_read)) :
    received crc32 r b bytes_read write =
      (receive_valid crc32 r.visible (accepted crc32 (readInto bytes_read b)) write).2.visible := by
  rw [received, receive_data_valid crc32 (r := { r with buffer := b }) write hi hl, receive_valid_visible]
  rfl

theorem received_truncated (h : TruncTests crc32 (readInto bytes_read b) (readLen bytes_read)) :
    received crc32 r b bytes_read write =
      if is_in_window r.window (hdrSeqnum (readInto bytes_read b)) then
        (send_troncated_nack crc32 r.visible (hdrPkt crc32 (readInto bytes_read b)) write).visible
      else r.visible.ignore.ignore := by
  have hbuf : ({ r with buffer := b }.read bytes_read).buffer = readInto bytes_read b := rfl
  rw [received, receive_data_truncated crc32 (r := { r with buffer := b }) write h, hbuf]
  split
  · rw [send_troncated_nack_visible]
    rfl
  · rfl

theorem received_ignored
    (hno : ¬ (Intact crc32 (readInto bytes_read b) ∧ LenTests (readInto bytes_read b) (readLen bytes_read)))
    (hnt : ¬ TruncTests crc32 (readInto bytes_read b) (readLen bytes_read)) :
    received crc32 r b bytes_read write = r.visible.ignore := by
  rw [received, receive_data_ignored crc32 (r := { r with buffer := b }) write hno hnt]
  rfl

theorem received_not_data (ht : hdrType (readInto bytes_read b) ≠ .DATA) :
    received crc32 r b bytes_read write = r.visible.ignore := by
  by_cases hv : Intact crc32 (readInto bytes_read b) ∧ LenTests (readInto bytes_read b) (readLen bytes_read)
  · have htype : pkt_get_type (accepted crc32 (readInto bytes_read b)) ≠ .DATA := by
      rw [pkt_get_type, (accepted_header crc32 _).1]
      exact ht
    rw [received_valid hv.1 hv.2, receive_valid]
    cases hp : pkt_get_type (accepted crc32 (readInto bytes_read b)) with
    | DATA => exact absurd hp htype
    | FEC => rfl
    | ACK => rfl
    | NACK => rfl
  · exact received_ignored hv (fun h => ht h.type)

end Run

/-! ## What the decision depends on -/

theorem hdrPkt_congr {m m' : Mem} (h : ∀ i < 8, m i = m' i) : hdrPkt crc32 m = hdrPkt crc32 m' := by
  have h0 : m 0 = m' 0 := h 0 (by omega)
  have htype : hdrType m = hdrType m' := by unfold hdrType; rw [h0]
  have hoff : seqOffset (hdrType m') ≤ 3 := by unfold seqOffset; split <;> omega
  have hlen : hdrLength m = hdrLength m' := by
    unfold hdrLength hdrLengthField
    rw [htype, bytesAt_congr (fun i _ hi => h i (by omega))]
  have hseq : hdrSeqnum m = hdrSeqnum m' := by
    unfold hdrSeqnum
    rw [htype, h _ (by omega)]
  have htime : hdrTimestamp m = hdrTimestamp m' := by
    unfold hdrTimestamp
    rw [htype, bytesAt_congr (fun i _ hi => h i (by omega))]
  have hcrc : headerCrc crc32 m = headerCrc crc32 m' := by
    unfold headerCrc
    rw [htype, bytesAt_congr (fun i _ hi => h i (by omega))]
  simp only [hdrPkt, htype, hlen, hseq, htime, hcrc, hdrTr, hdrWindow, h0]

section Decision

variable {crc32} {m m' : Mem} {len : UInt64} (hP : hdrPkt crc32 m = hdrPkt crc32 m')
include hP

theorem type_of_hdrPkt : hdrType m = hdrType m' := congrArg Pkt.type hP

theorem tr_of_hdrPkt : hdrTr m = hdrTr m' := congrArg Pkt.tr hP

theorem length_of_hdrPkt : hdrLength m = hdrLength m' := congrArg Pkt.length hP

theorem seqnum_of_hdrPkt : hdrSeqnum m = hdrSeqnum m' := congrArg Pkt.seqnum hP

theorem headerCrc_of_hdrPkt : headerCrc crc32 m = headerCrc crc32 m' := congrArg Pkt.crc1 hP

theorem headerOnly_of_hdrPkt : HeaderOnly m ↔ HeaderOnly m' := by
  unfold HeaderOnly
  rw [type_of_hdrPkt hP, length_of_hdrPkt hP]

theorem lenTests_of_hdrPkt (h : LenTests m len) : LenTests m' len where
  header := h.header
  slack := by
    rw [← type_of_hdrPkt hP, ← length_of_hdrPkt hP]
    exact h.slack
  payload := by
    rw [← headerOnly_of_hdrPkt hP]
    exact h.payload

theorem intact_of_hdrPkt (hc : hdrCrc1 m = hdrCrc1 m')
    (hfull : ¬ HeaderOnly m → fullPkt crc32 m = fullPkt crc32 m') (h : Intact crc32 m) : Intact crc32 m' where
  tr := by
    rw [← tr_of_hdrPkt hP, ← type_of_hdrPkt hP]
    exact h.tr
  length := by
    rw [← length_of_hdrPkt hP]
    exact h.length
  crc1 := by rw [← headerCrc_of_hdrPkt hP, h.crc1, hc]
  payload := by
    rw [← headerOnly_of_hdrPkt hP, ← length_of_hdrPkt hP, ← tr_of_hdrPkt hP]
    intro hho
    have hpay : payloadAt m = payloadAt m' := Option.some.inj (congrArg Pkt.payload (hfull hho))
    have hcrc2 : hdrCrc2 m = hdrCrc2 m' := congrArg Pkt.crc2 (hfull hho)
    rw [← hpay, ← hcrc2]
    exact h.payload hho

theorem truncTests_of_hdrPkt (hc : hdrCrc1 m = hdrCrc1 m') (h : TruncTests crc32 m len) :
    TruncTests crc32 m' len where
  header := h.header
  type := by rw [← type_of_hdrPkt hP, h.type]
  tr := by rw [← tr_of_hdrPkt hP, h.tr]
  length := by rw [← length_of_hdrPkt hP]; exact h.length
  slack := by rw [← length_of_hdrPkt hP]; exact h.slack
  crc1 := by
    rw [← headerCrc_of_hdrPkt hP, ← hc, ← length_of_hdrPkt hP]
    exact h.crc1

theorem accepted_of_hdrPkt (hfull : ¬ HeaderOnly m → fullPkt crc32 m = fullPkt crc32 m') :
    accepted crc32 m = accepted crc32 m' := by
  unfold accepted
  by_cases hho : HeaderOnly m
  · rw [if_pos hho, if_pos ((headerOnly_of_hdrPkt hP).mp hho), hP]
  · rw [if_neg hho, if_neg (fun h => hho ((headerOnly_of_hdrPkt hP).mpr h)), hfull hho]

end Decision

theorem received_congr (r : Receiver) (b b' : Mem) (bytes_read : Option (List UInt8)) (write : Bool)
    (hP : hdrPkt crc32 (readInto bytes_read b) = hdrPkt crc32 (readInto bytes_read b'))
    (hc : hdrCrc1 (readInto bytes_read b) = hdrCrc1 (readInto bytes_read b'))
    (hfull : ¬ HeaderOnly (readInto bytes_read b) →
      fullPkt crc32 (readInto bytes_read b) = fullPkt crc32 (readInto bytes_read b')) :
    received crc32 r b bytes_read write = received crc32 r b' bytes_read write := by
  have hfull' : ¬ HeaderOnly (readInto bytes_read b') →
      fullPkt crc32 (readInto bytes_read b') = fullPkt crc32 (readInto bytes_read b) :=
    fun h => (hfull (fun h' => h ((headerOnly_of_hdrPkt hP).mp h'))).symm
  by_cases hv : Intact crc32 (readInto bytes_read b) ∧ LenTests (readInto bytes_read b) (readLen bytes_read)
  · rw [received_valid hv.1 hv.2, received_valid (intact_of_hdrPkt hP hc hfull hv.1) (lenTests_of_hdrPkt hP hv.2),
      accepted_of_hdrPkt hP hfull]
  have hv' : ¬ (Intact crc32 (readInto bytes_read b') ∧ LenTests (readInto bytes_read b') (readLen bytes_read)) :=
    fun h => hv ⟨intact_of_hdrPkt hP.symm hc.symm hfull' h.1, lenTests_of_hdrPkt hP.symm h.2⟩
  by_cases ht : TruncTests crc32 (readInto bytes_read b) (readLen bytes_read)
  · rw [received_truncated ht, received_truncated (truncTests_of_hdrPkt hP hc ht), seqnum_of_hdrPkt hP, hP]
  · rw [received_ignored hv ht, received_ignored hv' (fun h => ht (truncTests_of_hdrPkt hP.symm hc.symm h))]

end Trtp
