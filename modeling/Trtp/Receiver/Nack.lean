import Trtp.Receiver.Exposed
import Trtp.Receiver.Loop
import Trtp.Refine.Receiver

/-!
# When the receiver sends a `NACK`

It should be for a `DATA` packet in the window that the network has truncated. `pkt_decode` gives `E_CRC` for more than
that, and for less.
-/

open Trtp.Lib

namespace Trtp

variable {crc32 : List UInt8 → UInt32}

/-! ## The two ways to a `NACK` -/

variable (crc32) in
/-- The datagram fails with `E_CRC` and TR at 1, in the window, or is an empty `DATA` packet with TR at 1. -/
def Nacks (r : Receiver) (bytes_read : Option (List UInt8)) : Prop :=
  (TruncTests crc32 (readInto bytes_read r.buffer) (readLen bytes_read) ∧
      is_in_window r.window (hdrSeqnum (readInto bytes_read r.buffer)) = true) ∨
    (Intact crc32 (readInto bytes_read r.buffer) ∧ LenTests (readInto bytes_read r.buffer) (readLen bytes_read) ∧
      hdrType (readInto bytes_read r.buffer) = .DATA ∧ hdrTr (readInto bytes_read r.buffer) = 1)

theorem not_truncTests_of_valid {data : Mem} {len : UInt64} (hi : Intact crc32 data) :
    ¬ TruncTests crc32 data len := by
  intro ht
  have hne := (ht.crc1 hi.crc1).1
  have hho : ¬ HeaderOnly data := by simp [HeaderOnly, ht.type, hne]
  have h0 := (hi.payload hho).2.1
  rw [ht.tr] at h0
  exact absurd h0 (by decide)

theorem receive_data_nacks {r : Receiver} {bytes_read : Option (List UInt8)} (write : Bool)
    (h : Nacks crc32 r bytes_read) :
    ∃ pkt : Pkt, pkt.seqnum = hdrSeqnum (readInto bytes_read r.buffer) ∧
      pkt.timestamp = hdrTimestamp (readInto bytes_read r.buffer) ∧
      (receive_data crc32 r bytes_read write).2 = send_troncated_nack crc32 (r.read bytes_read) pkt write := by
  rcases h with ⟨ht, hwin⟩ | ⟨hi, hl, htype, htr⟩
  · refine ⟨hdrPkt crc32 (readInto bytes_read r.buffer), rfl, rfl, ?_⟩
    have hbuf : (r.read bytes_read).buffer = readInto bytes_read r.buffer := rfl
    rw [receive_data_truncated crc32 (r := r) write ht, hbuf, if_pos hwin]
  · obtain ⟨htype', htr', _, _, hseq, htime⟩ := accepted_header crc32 (readInto bytes_read r.buffer)
    refine ⟨accepted crc32 (readInto bytes_read r.buffer), hseq, htime, ?_⟩
    have hbuf : (r.read bytes_read).buffer = readInto bytes_read r.buffer := rfl
    have hdata : pkt_get_type (accepted crc32 (readInto bytes_read r.buffer)) = .DATA := htype'.trans htype
    have hset : pkt_get_tr (accepted crc32 (readInto bytes_read r.buffer)) ≠ 0 := by
      rw [(pkt_get_tr_eq_one _).mpr (htr'.trans htr)]
      decide
    rw [receive_data_valid crc32 (r := r) write hi hl, receive_valid, hbuf, hdata]
    simp only [hset, ne_eq, not_false_eq_true, if_true]

theorem store_data_sent (r : Receiver) (pkt : Pkt) : (store_data r pkt).2.sent = r.sent := by
  unfold store_data
  simp only
  split
  · split_ifs <;> rfl
  · rfl

/-- Every other datagram is stored or leaves the window as it is. -/
theorem receive_data_keeps {r : Receiver} {bytes_read : Option (List UInt8)} (write : Bool)
    (h : ¬ Nacks crc32 r bytes_read) :
    (receive_data crc32 r bytes_read write).2.sent = r.sent ∧
      ((Stores crc32 r bytes_read ∧ (receive_data crc32 r bytes_read write).2.window =
          store r.window (accepted crc32 (readInto bytes_read r.buffer))) ∨
        ((receive_data crc32 r bytes_read write).2.window = r.window ∧
          ((receive_data crc32 r bytes_read write).2.resent_ack = true ∨
            (receive_data crc32 r bytes_read write).2.resent_ack = r.resent_ack))) := by
  by_cases hst : Stores crc32 r bytes_read
  · rw [receive_data_stores crc32 write hst, store_data_sent, store_data_window]
    exact ⟨rfl, Or.inl ⟨hst, rfl⟩⟩
  by_cases hv : Intact crc32 (r.read bytes_read).buffer ∧ LenTests (r.read bytes_read).buffer (readLen bytes_read)
  · obtain ⟨htype, htr, _, _, hseq, _⟩ := accepted_header crc32 (r.read bytes_read).buffer
    rw [receive_data_valid crc32 write hv.1 hv.2]
    unfold receive_valid
    cases hp : pkt_get_type (accepted crc32 (r.read bytes_read).buffer) with
    | FEC | ACK | NACK => exact ⟨rfl, Or.inr ⟨rfl, Or.inr rfl⟩⟩
    | DATA =>
      have h0 : hdrTr (r.read bytes_read).buffer = 0 := by
        rcases tr_cases (accepted crc32 (r.read bytes_read).buffer) with h0 | h1
        · exact htr.symm.trans h0
        · exact absurd (Or.inr ⟨hv.1, hv.2, htype.symm.trans hp, htr.symm.trans h1⟩) h
      have h0' : pkt_get_tr (accepted crc32 (r.read bytes_read).buffer) = 0 :=
        (pkt_get_tr_eq_zero _).mpr (htr.trans h0)
      have hout : ¬ is_in_window (r.read bytes_read).window
          (pkt_get_seqnum (accepted crc32 (r.read bytes_read).buffer)) = true := by
        intro hin
        have hin' : is_in_window r.window (accepted crc32 (r.read bytes_read).buffer).seqnum = true := hin
        rw [hseq] at hin'
        exact hst ⟨hv.1, hv.2, htype.symm.trans hp, h0, hin'⟩
      simp only [h0', ne_eq, not_true_eq_false, if_false, Receiver.is_in_window, hout]
      exact ⟨rfl, Or.inr ⟨rfl, Or.inl rfl⟩⟩
  · by_cases ht : TruncTests crc32 (r.read bytes_read).buffer (readLen bytes_read)
    · have hout : ¬ is_in_window r.window (hdrSeqnum (r.read bytes_read).buffer) = true :=
        fun hin => h (Or.inl ⟨ht, hin⟩)
      rw [receive_data_truncated crc32 write ht, if_neg hout]
      exact ⟨rfl, Or.inr ⟨rfl, Or.inr rfl⟩⟩
    · rw [receive_data_ignored crc32 write hv ht]
      exact ⟨rfl, Or.inr ⟨rfl, Or.inr rfl⟩⟩

theorem send_troncated_nack_sent {r : Receiver} (hsize : SizeOk r.window) (pkt : Pkt) (write : Bool) :
    ∃ nack : Pkt, nack.type = .NACK ∧ nack.seqnum = pkt.seqnum ∧ nack.timestamp = pkt.timestamp ∧
      (send_troncated_nack crc32 r pkt write).sent =
        if write then r.sent ++ [⟨r.consumed, pkt_bytes crc32 nack⟩] else r.sent := by
  have h31 : r.count_truncated.decrease.window.windowsize ≤ 31 := (decrease_window_sizeOk hsize).2
  obtain ⟨nack, _, htype, hseq, htime, _, buffer, hs⟩ := send_response_sent h31 false (pkt_get_seqnum pkt)
    (pkt_get_timestamp pkt) write
  refine ⟨nack, htype, hseq, htime, ?_⟩
  simp only [Bool.false_eq_true, if_false] at hs
  unfold send_troncated_nack
  rw [hs]
  cases write <;> rfl

/-! ## Truncation -/

variable (crc32) in
/-- A whole header with the right CRC1, of a `DATA` packet with TR at 1, in the window. -/
structure Truncated (r : Receiver) (d : List UInt8) : Prop where
  header : 12 ≤ (d.take PKT_MAX_LEN).length
  crc1 : headerCrc crc32 (readInto (some d) r.buffer) = hdrCrc1 (readInto (some d) r.buffer)
  type : hdrType (readInto (some d) r.buffer) = .DATA
  tr : hdrTr (readInto (some d) r.buffer) = 1
  window : is_in_window r.window (hdrSeqnum (readInto (some d) r.buffer)) = true

variable (crc32) in
/-- For a truncated packet a `NACK` with its number and timestamp is sent and the window is halved. For everything else
there is no `NACK`, and nothing is lost. -/
structure NackExact (r : Receiver) (d : List UInt8) : Prop where
  nack : Truncated crc32 r d →
    (∃ nack : Pkt, nack.type = .NACK ∧ nack.seqnum = hdrSeqnum (readInto (some d) r.buffer) ∧
      nack.timestamp = hdrTimestamp (readInto (some d) r.buffer) ∧
      (receive_data crc32 r (some d) true).2.sent = r.sent ++ [⟨r.consumed, pkt_bytes crc32 nack⟩]) ∧
    (receive_data crc32 r (some d) true).2.window = decrease_window r.window
  keep : ¬ Truncated crc32 r d → (receive_data crc32 r (some d) true).2.sent = r.sent ∧
    r.window.windowsize ≤ (receive_data crc32 r (some d) true).2.window.windowsize ∧
    r.window.linkedList ⊆ (receive_data crc32 r (some d) true).2.window.linkedList

variable (crc32) in
/-- A `DATA` packet with TR at 1 that is in the window with a bad CRC1, or with fewer than 12 bytes; or outside the
window, but empty; or in the window, but with an announced length that does not fit. -/
def Misread (r : Receiver) (d : List UInt8) : Prop :=
  let m := readInto (some d) r.buffer
  let n := (d.take PKT_MAX_LEN).length
  hdrType m = .DATA ∧ hdrTr m = 1 ∧ 10 ≤ n ∧
    (((hdrLength m).toNat ≤ MAX_PAYLOAD_SIZE ∧ n ≤ (hdrLength m).toNat + 32 ∧
        is_in_window r.window (hdrSeqnum m) = true ∧ (headerCrc crc32 m ≠ hdrCrc1 m ∨ n < 12)) ∨
      (headerCrc crc32 m = hdrCrc1 m ∧ hdrLength m = 0 ∧ n ≤ 32 ∧ is_in_window r.window (hdrSeqnum m) = false) ∨
      (headerCrc crc32 m = hdrCrc1 m ∧ 12 ≤ n ∧ is_in_window r.window (hdrSeqnum m) = true ∧
        (MAX_PAYLOAD_SIZE < (hdrLength m).toNat ∨ (hdrLength m).toNat + 32 < n)))

theorem nacks_iff (r : Receiver) (d : List UInt8) :
    Nacks crc32 r (some d) ↔
      hdrType (readInto (some d) r.buffer) = .DATA ∧ hdrTr (readInto (some d) r.buffer) = 1 ∧
        10 ≤ (d.take PKT_MAX_LEN).length ∧ (hdrLength (readInto (some d) r.buffer)).toNat ≤ MAX_PAYLOAD_SIZE ∧
        (d.take PKT_MAX_LEN).length ≤ (hdrLength (readInto (some d) r.buffer)).toNat + 32 ∧
        (is_in_window r.window (hdrSeqnum (readInto (some d) r.buffer)) = true ∨
          (headerCrc crc32 (readInto (some d) r.buffer) = hdrCrc1 (readInto (some d) r.buffer) ∧
            hdrLength (readInto (some d) r.buffer) = 0)) := by
  obtain ⟨hnat, hint⟩ := readLen_some d
  have hmax : (d.take PKT_MAX_LEN).length ≤ MAX_PAYLOAD_SIZE + 32 := by
    rw [List.length_take, PKT_MAX_LEN, MAX_PAYLOAD_SIZE]
    omega
  have h16 : ∀ length : UInt16, length = 0 → length.toNat = 0 := by
    rintro _ rfl
    rfl
  constructor
  · rintro (⟨ht, hwin⟩ | ⟨hi, hl, htype, htr⟩)
    · have h10 := ht.header
      have hslack := ht.slack
      exact ⟨ht.type, ht.tr, by omega, ht.length, by omega, Or.inl hwin⟩
    · have hho : HeaderOnly (readInto (some d) r.buffer) := by
        by_contra hn
        have h0 := (hi.payload hn).2.1
        rw [htr] at h0
        exact absurd h0 (by decide)
      have h0 : hdrLength (readInto (some d) r.buffer) = 0 := by
        rcases hho with h | h | h
        · exact absurd (htype.symm.trans h) (by decide)
        · exact absurd (htype.symm.trans h) (by decide)
        · exact h.2
      have h10 := hl.header
      have hslack := hl.slack (Or.inl htype)
      exact ⟨htype, htr, by omega, hi.length, by omega, Or.inr ⟨hi.crc1, h0⟩⟩
  · rintro ⟨htype, htr, h10, hlen, hslack, hcase⟩
    by_cases hvalid : headerCrc crc32 (readInto (some d) r.buffer) = hdrCrc1 (readInto (some d) r.buffer) ∧
        hdrLength (readInto (some d) r.buffer) = 0
    · have hho : HeaderOnly (readInto (some d) r.buffer) := Or.inr (Or.inr ⟨htype, hvalid.2⟩)
      exact Or.inr ⟨⟨fun _ => htype, hlen, hvalid.1, fun hn => absurd hho hn⟩,
        ⟨by omega, fun _ => by omega, fun hn => absurd hho hn⟩, htype, htr⟩
    · refine Or.inl ⟨⟨by omega, htype, htr, hlen, by omega, fun hcrc => ⟨fun h0 => hvalid ⟨hcrc, h0⟩, by omega⟩⟩, ?_⟩
      exact hcase.resolve_right hvalid

theorem nacks_iff_truncated (r : Receiver) (d : List UInt8) :
    (Nacks crc32 r (some d) ↔ Truncated crc32 r d) ↔ ¬ Misread crc32 r d := by
  have htrunc : Truncated crc32 r d ↔ 12 ≤ (d.take PKT_MAX_LEN).length ∧
      headerCrc crc32 (readInto (some d) r.buffer) = hdrCrc1 (readInto (some d) r.buffer) ∧
      hdrType (readInto (some d) r.buffer) = .DATA ∧ hdrTr (readInto (some d) r.buffer) = 1 ∧
      is_in_window r.window (hdrSeqnum (readInto (some d) r.buffer)) = true :=
    ⟨fun h => ⟨h.header, h.crc1, h.type, h.tr, h.window⟩, fun h => ⟨h.1, h.2.1, h.2.2.1, h.2.2.2.1, h.2.2.2.2⟩⟩
  have hzero : hdrLength (readInto (some d) r.buffer) = 0 → (hdrLength (readInto (some d) r.buffer)).toNat = 0 :=
    fun h => by rw [h]; rfl
  rw [nacks_iff, htrunc, Misread]
  generalize (d.take PKT_MAX_LEN).length = n at *
  generalize readInto (some d) r.buffer = m at *
  generalize (hdrLength m).toNat = length at *
  rw [MAX_PAYLOAD_SIZE]
  grind

theorem nackExact_iff {r : Receiver} (hsize : SizeOk r.window) (d : List UInt8) :
    NackExact crc32 r d ↔ (Nacks crc32 r (some d) ↔ Truncated crc32 r d) := by
  constructor
  · intro hex
    constructor
    · intro hn
      by_contra ht
      obtain ⟨pkt, _, _, heq⟩ := receive_data_nacks true hn
      obtain ⟨nack, _, _, _, hsent⟩ := send_troncated_nack_sent (r := r.read (some d)) hsize pkt true
      have hkeep := (hex.keep ht).1
      rw [heq, hsent, if_pos rfl] at hkeep
      exact absurd hkeep (by simp [Receiver.read])
    · intro ht
      by_contra hn
      obtain ⟨⟨nack, _, _, _, hsent⟩, _⟩ := hex.nack ht
      rw [(receive_data_keeps true hn).1] at hsent
      exact absurd hsent (by simp)
  · intro hiff
    refine ⟨fun ht => ?_, fun ht => ?_⟩
    · obtain ⟨pkt, hseq, htime, heq⟩ := receive_data_nacks true (hiff.mpr ht)
      obtain ⟨nack, htype, hseq', htime', hsent⟩ :=
        send_troncated_nack_sent (r := r.read (some d)) hsize pkt true
      rw [heq]
      exact ⟨⟨nack, htype, hseq'.trans hseq, htime'.trans htime, hsent⟩, send_troncated_nack_window crc32 _ _ _⟩
    · obtain ⟨hsent, ⟨_, hwin⟩ | ⟨hwin, _⟩⟩ := receive_data_keeps true (mt hiff.mp ht)
      · rw [hwin]
        exact ⟨hsent, store_keeps _ _⟩
      · rw [hwin]
        exact ⟨hsent, Nat.le_refl _, List.Subset.refl _⟩

/-- The receiver sends a `NACK` for the truncated packets, and for no others, exactly when the datagram is none of those
that it misreads. -/
theorem receive_data_nack_iff {buffer : Mem} {r : Receiver}
    (h : Reach (loop_step crc32) (fun _ _ => True) (.initial buffer) r) (d : List UInt8) :
    NackExact crc32 r d ↔ ¬ Misread crc32 r d :=
  (nackExact_iff (run_sizeOk h) d).trans (nacks_iff_truncated r d)

/-- The header and CRC1 of a `DATA` packet of one byte with TR at 1. -/
def cutPkt : Pkt := { pkt_new with type := .DATA, tr := 1, length := 1 }

theorem cutPkt_fields (checksum : List UInt8 → UInt32) (buffer : Mem) :
    ((pkt_bytes checksum cutPkt).take PKT_MAX_LEN).length = 12 ∧
      hdrType (readInto (some (pkt_bytes checksum cutPkt)) buffer) = .DATA ∧
      hdrTr (readInto (some (pkt_bytes checksum cutPkt)) buffer) = 1 ∧
      hdrLength (readInto (some (pkt_bytes checksum cutPkt)) buffer) = 1 ∧
      hdrSeqnum (readInto (some (pkt_bytes checksum cutPkt)) buffer) = 0 ∧
      hdrCrc1 (readInto (some (pkt_bytes checksum cutPkt)) buffer) =
        headerCrc checksum (readInto (some (pkt_bytes checksum cutPkt)) buffer) := by
  have hlen : (pkt_bytes checksum cutPkt).length = 12 := by
    rw [pkt_bytes_length]
    rfl
  have htake : (pkt_bytes checksum cutPkt).take PKT_MAX_LEN = pkt_bytes checksum cutPkt :=
    List.take_of_length_le (by rw [hlen]; decide)
  have hread : readInto (some (pkt_bytes checksum cutPkt)) buffer = load (pkt_bytes checksum cutPkt) buffer := by
    rw [readInto, htake]
  have hstart := load_starts (pkt_bytes checksum cutPkt) buffer
  rw [hread, htake]
  exact ⟨hlen, hdrType_bytes hstart, hdrTr_bytes hstart, hdrLength_bytes hstart rfl, hdrSeqnum_bytes hstart,
    hdrCrc1_bytes hstart⟩

theorem receive_data_nack_cut :
    NackExact zlib_crc32 (.initial fun _ => 0) (pkt_bytes zlib_crc32 cutPkt) := by
  generalize zlib_crc32 = crc32
  obtain ⟨hlen, _, _, hlength, hseq, hcrc⟩ := cutPkt_fields crc32 fun _ => 0
  refine (receive_data_nack_iff .start _).mpr ?_
  rintro ⟨_, _, _, ⟨_, _, _, hbad | hshort⟩ | ⟨_, hzero, _⟩ | ⟨_, _, _, hlong⟩⟩
  · exact hbad hcrc.symm
  · omega
  · exact absurd (hlength.symm.trans hzero) (by decide)
  · rw [hlen, show (Receiver.initial fun _ => 0).buffer = fun _ => 0 from rfl, hlength] at hlong
    exact absurd hlong (by decide)

/-- A `NACK` goes out for a header with a wrong CRC1. -/
theorem corrupted_header_nack :
    ¬ NackExact zlib_crc32 (.initial fun _ => 0) (pkt_bytes (fun bytes => zlib_crc32 bytes + 1) cutPkt) := by
  generalize zlib_crc32 = crc32
  obtain ⟨hlen, htype, htr, hlength, hseq, hcrc⟩ := cutPkt_fields (fun bytes => crc32 bytes + 1) fun _ => 0
  generalize pkt_bytes (fun bytes => crc32 bytes + 1) cutPkt = d at *
  have hbuf : (Receiver.initial fun _ => 0).buffer = fun _ => 0 := rfl
  have hwin : is_in_window (Receiver.initial fun _ => 0).window 0 = true :=
    (by decide : is_in_window (Window.initial : Window Pkt) 0 = true)
  intro hex
  have hnack : Nacks crc32 (.initial fun _ => 0) (some d) := by
    rw [nacks_iff, hbuf, hlen, hlength, hseq]
    exact ⟨htype, htr, by omega, by decide, by decide, Or.inl hwin⟩
  have heq := (((nackExact_iff initial_sizeOk d).mp hex).mp hnack).crc1
  rw [hbuf, hcrc] at heq
  simp [headerCrc] at heq

end Trtp
