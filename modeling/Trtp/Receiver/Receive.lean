import Trtp.Codec.RoundTrip
import Trtp.Receiver

/-!
# What `receive_data` does with a datagram

A datagram is valid, truncated or ignored. The header decides, with the checksums.
-/

open Trtp.Lib

namespace Trtp

variable (crc32 : List UInt8 → UInt32)

/-! ## Truncated datagrams -/

/-- The datagrams on which `pkt_decode` fails with `E_CRC` and leaves a `DATA` packet with TR at 1. -/
structure TruncTests (data : Mem) (len : UInt64) : Prop where
  header : 10 ≤ len.toNat
  type : hdrType data = .DATA
  tr : hdrTr data = 1
  length : (hdrLength data).toNat ≤ MAX_PAYLOAD_SIZE
  slack : toInt len ≤ (hdrLength data).toNat + 32
  crc1 : headerCrc crc32 data = hdrCrc1 data → hdrLength data ≠ 0 ∧ len.toNat ≤ MAX_PAYLOAD_SIZE + 32

/-- `pkt` has the header of the datagram. -/
structure HasHeader (data : Mem) (pkt : Pkt) : Prop where
  type : pkt.type = hdrType data
  tr : pkt.tr = hdrTr data
  seqnum : pkt.seqnum = hdrSeqnum data
  timestamp : pkt.timestamp = hdrTimestamp data

theorem hasHeader_hdrPkt (data : Mem) : HasHeader data (hdrPkt crc32 data) := ⟨rfl, rfl, rfl, rfl⟩

theorem hasHeader_hdrPktPayload (data : Mem) : HasHeader data (hdrPktPayload crc32 data) := ⟨rfl, rfl, rfl, rfl⟩

theorem pkt_get_tr_eq_one (pkt : Pkt) : pkt_get_tr pkt = 1 ↔ pkt.tr = 1 := by
  have hall : ∀ tr : BitVec 1, UInt8.ofBitVec (tr.setWidth 8) = 1 ↔ tr = 1 := by decide
  exact hall pkt.tr

theorem pkt_decode_truncated {data : Mem} {len : UInt64} (h : TruncTests crc32 data len) :
    ∃ pkt, pkt_decode crc32 data len pkt_new = (.E_CRC, pkt) ∧ HasHeader data pkt := by
  have htr : ¬ (hdrTr data = 1 ∧ hdrType data ≠ .DATA) := fun h' => h'.2 h.type
  have hlen : ¬ (hdrLength data).toNat > MAX_PAYLOAD_SIZE := by have := h.length; omega
  have hslack : ¬ ((hdrType data).hasLength ∧ ((hdrLength data).toNat : Int) + 32 < toInt len) := by
    have := h.slack
    rintro ⟨_, hlt⟩
    omega
  rw [pkt_decode_eq crc32 data len h.header, if_neg htr, if_neg hlen, if_neg hslack]
  by_cases hcrc : headerCrc crc32 data = hdrCrc1 data
  · obtain ⟨hne, hmax⟩ := h.crc1 hcrc
    have hho : ¬ HeaderOnly data := by simp [HeaderOnly, h.type, hne]
    rw [if_neg (by simpa using hcrc), if_neg hho, if_neg (by omega), if_pos (Or.inr h.tr)]
    exact ⟨_, rfl, hasHeader_hdrPktPayload crc32 data⟩
  · rw [if_pos hcrc]
    exact ⟨_, rfl, hasHeader_hdrPkt crc32 data⟩

theorem pkt_decode_ignored {data : Mem} {len : UInt64} (hno : ¬ (Intact crc32 data ∧ LenTests data len))
    (hnt : ¬ TruncTests crc32 data len) :
    ∃ e pkt, pkt_decode crc32 data len pkt_new = (e, pkt) ∧ e ≠ .PKT_OK ∧
      (e = .E_CRC → ¬ (pkt.type = .DATA ∧ pkt.tr = 1)) := by
  refine ⟨(pkt_decode crc32 data len pkt_new).1, (pkt_decode crc32 data len pkt_new).2, rfl,
    fun hok => hno ((pkt_decode_ok_iff crc32 data len).mp hok), ?_⟩
  by_cases h10 : len.toNat < 10
  · rw [(pkt_decode_short crc32 data len h10).2]
    intro _ h
    exact absurd h.1 (by decide)
  rw [pkt_decode_eq crc32 data len (by omega)]
  split_ifs with htr hlen hslack hcrc hho hmax hbad hcrc2 <;> try (intro h; contradiction)
  all_goals
    rintro - ⟨ht, h1⟩
    refine hnt ⟨by omega, ht, h1, by omega, ?_, ?_⟩
    · by_contra hlt
      exact hslack ⟨Or.inl ht, by omega⟩
    · intro heq
      first
        | exact absurd heq hcrc
        | exact ⟨fun h0 => hho (Or.inr (Or.inr ⟨ht, h0⟩)), by omega⟩

/-! ## What a response changes -/

theorem send_response_eq (r : Receiver) (type : PType) (seqnum : UInt8) (timestamp : UInt32) (write : Bool) :
    ∃ ok buffer sent, send_response crc32 r type seqnum timestamp write = (ok, { r with buffer, sent }) := by
  unfold send_response
  rcases response_pkt type seqnum r.window.windowsize timestamp with ⟨e, pkt⟩
  cases e <;> try exact ⟨_, r.buffer, r.sent, rfl⟩
  by_cases hsize : encode_size pkt > PKT_MAX_LEN
  · simp only [pkt_encode, hsize, if_true]
    exact ⟨_, _, r.sent, rfl⟩
  · simp only [pkt_encode, hsize, if_false]
    cases write with
    | false => exact ⟨_, _, r.sent, rfl⟩
    | true => exact ⟨_, _, _, rfl⟩

theorem send_ack_eq (r : Receiver) (timestamp : UInt32) (write : Bool) :
    ∃ buffer sent ack_sent, send_ack crc32 r timestamp write =
      { r with buffer, sent, stats := { r.stats with ack_sent } } := by
  obtain ⟨ok, buffer, sent, hs⟩ := send_response_eq crc32 r .ACK r.window.seqnumHead timestamp write
  unfold send_ack
  rw [hs]
  cases ok with
  | false => exact ⟨buffer, sent, r.stats.ack_sent, rfl⟩
  | true => exact ⟨buffer, sent, _, rfl⟩

theorem send_troncated_nack_eq (r : Receiver) (pkt : Pkt) (write : Bool) :
    ∃ buffer sent nack_sent, send_troncated_nack crc32 r pkt write =
      { r.count_truncated.decrease with
        buffer, sent
        stats := { r.count_truncated.stats with nack_sent } } := by
  obtain ⟨ok, buffer, sent, hs⟩ := send_response_eq crc32 r.count_truncated.decrease .NACK (pkt_get_seqnum pkt)
    (pkt_get_timestamp pkt) write
  unfold send_troncated_nack
  rw [hs]
  cases ok with
  | false => exact ⟨buffer, sent, r.stats.nack_sent, rfl⟩
  | true => exact ⟨buffer, sent, _, rfl⟩

/-! ## `receive_data` by cases -/

theorem store_data_window (r : Receiver) (pkt : Pkt) : (store_data r pkt).2.window = store r.window pkt := by
  unfold store_data store
  simp only
  cases linkedList_add_increasing r.window pkt with
  | none => rfl
  | some window =>
    have hnum : seqnumOf pkt = pkt_get_seqnum pkt := rfl
    by_cases hl : pkt_get_length pkt = 0
    · simp only [hl, if_true, hnum]
      split <;> rfl
    · simp only [hl, if_false, hnum]
      split <;> rfl

theorem send_troncated_nack_congr (r : Receiver) (pkt pkt' : Pkt) (write : Bool) (hs : pkt.seqnum = pkt'.seqnum)
    (ht : pkt.timestamp = pkt'.timestamp) :
    send_troncated_nack crc32 r pkt write = send_troncated_nack crc32 r pkt' write := by
  unfold send_troncated_nack pkt_get_seqnum pkt_get_timestamp
  rw [hs, ht]

section Cases

variable {r : Receiver} {bytes_read : Option (List UInt8)} (write : Bool)

theorem receive_data_of_decode {e : PktStatus} {pkt : Pkt}
    (h : pkt_decode crc32 (r.read bytes_read).buffer (readLen bytes_read) pkt_new = (e, pkt)) :
    receive_data crc32 r bytes_read write = receive_decoded crc32 (r.read bytes_read) e pkt write := by
  simp only [receive_data, h]

theorem receive_data_valid (hi : Intact crc32 (r.read bytes_read).buffer)
    (hl : LenTests (r.read bytes_read).buffer (readLen bytes_read)) :
    receive_data crc32 r bytes_read write =
      receive_valid crc32 (r.read bytes_read) (accepted crc32 (r.read bytes_read).buffer) write := by
  rw [receive_data_of_decode crc32 write (pkt_decode_of_tests crc32 hi hl), receive_decoded, if_neg (by decide),
    if_neg (by decide)]

theorem receive_data_truncated (h : TruncTests crc32 (r.read bytes_read).buffer (readLen bytes_read)) :
    (receive_data crc32 r bytes_read write).2 =
      if is_in_window r.window (hdrSeqnum (r.read bytes_read).buffer) then
        send_troncated_nack crc32 (r.read bytes_read) (hdrPkt crc32 (r.read bytes_read).buffer) write
      else (r.read bytes_read).ignore.ignore := by
  obtain ⟨pkt, hdec, hh⟩ := pkt_decode_truncated crc32 h
  have htype : pkt_get_type pkt = .DATA := hh.type.trans h.type
  have htr : pkt_get_tr pkt = 1 := (pkt_get_tr_eq_one pkt).mpr (hh.tr.trans h.tr)
  have hseq : pkt_get_seqnum pkt = hdrSeqnum (r.read bytes_read).buffer := hh.seqnum
  have hwindow : (r.read bytes_read).window = r.window := rfl
  rw [receive_data_of_decode crc32 write hdec, receive_decoded, if_pos rfl, if_pos ⟨htype, htr⟩, hseq,
    Receiver.is_in_window, hwindow]
  by_cases hwin : is_in_window r.window (hdrSeqnum (r.read bytes_read).buffer) = true
  · rw [if_pos hwin, if_pos hwin]
    exact send_troncated_nack_congr crc32 _ _ _ _ hh.seqnum hh.timestamp
  · rw [if_neg hwin, if_neg hwin]

theorem receive_data_ignored
    (hno : ¬ (Intact crc32 (r.read bytes_read).buffer ∧ LenTests (r.read bytes_read).buffer (readLen bytes_read)))
    (hnt : ¬ TruncTests crc32 (r.read bytes_read).buffer (readLen bytes_read)) :
    receive_data crc32 r bytes_read write = (-1, (r.read bytes_read).ignore) := by
  obtain ⟨e, pkt, hdec, hne, hcrc⟩ := pkt_decode_ignored crc32 hno hnt
  rw [receive_data_of_decode crc32 write hdec, receive_decoded]
  by_cases he : e = .E_CRC
  · have hpkt : ¬ (pkt_get_type pkt = .DATA ∧ pkt_get_tr pkt = 1) := by
      rw [pkt_get_tr_eq_one]
      exact hcrc he
    rw [if_pos he, if_neg hpkt]
  · rw [if_neg he, if_pos hne]

end Cases

end Trtp
