import Trtp.Refine.Carry
import Trtp.Receiver.Receive

/-!
# The receiver refines the protocol's

A whole packet is delivered, a truncated one is answered with a `NACK`, and the rest is ignored.
-/

open Trtp.Lib

namespace Trtp

open Protocol (Item Reply)

variable (crc32 : List UInt8 → UInt32) (file : List UInt8)

/-- The state of the code stands for the state of the protocol. -/
structure ReceiverRel (r : Receiver) (t : Protocol.Receiver) : Prop where
  window : Window.Rel (Carries file) r.window t.window
  size : SizeOk t.window
  consumed : r.consumed = t.consumed
  output : r.stdout = t.output.map (itemBytes file)
  done : r.eof_wrote = t.done
  replies : ResponsesCarry crc32 r.sent t.replies

theorem receiverRel_initial (buffer : Mem) : ReceiverRel crc32 file (.initial buffer) .initial where
  window := .initial
  size := ⟨Nat.le_refl 1, by decide⟩
  consumed := rfl
  output := rfl
  done := rfl
  replies := ⟨by simp [Receiver.initial], by simp [Protocol.Receiver.initial]⟩

variable {crc32 file}

/-! ## Responses -/

theorem response_pkt_eq {windowsize : Nat} (h : windowsize ≤ 31) (type : PType) (seqnum : UInt8)
    (timestamp : UInt32) :
    response_pkt type seqnum windowsize timestamp =
      (.PKT_OK, { pkt_new with
        type
        window := (UInt8.ofNat windowsize).toBitVec.setWidth 5
        seqnum
        timestamp }) := by
  have hle : ¬ (UInt8.ofNat windowsize).toNat > MAX_WINDOW_SIZE := by
    rw [UInt8.toNat_ofNat', MAX_WINDOW_SIZE]
    omega
  simp only [response_pkt, andThen, pkt_set_type, PType.ofCode_code, pkt_set_window, hle, pkt_set_seqnum,
    pkt_set_timestamp, if_true, if_false]

/-- The response that is sent when the write succeeds. -/
theorem send_response_sent {r : Receiver} (h31 : r.window.windowsize ≤ 31) (ack : Bool) (seqnum : UInt8)
    (timestamp : UInt32) (write : Bool) :
    ∃ reply : Pkt, Sendable reply ∧ reply.type = (if ack then .ACK else .NACK) ∧ reply.seqnum = seqnum ∧
      reply.timestamp = timestamp ∧ reply.window.toNat = r.window.windowsize ∧
      ∃ buffer, send_response crc32 r (if ack then .ACK else .NACK) seqnum timestamp write =
        (write, { r with
          buffer
          sent := if write then r.sent ++ [⟨r.consumed, pkt_bytes crc32 reply⟩] else r.sent }) := by
  have hpkt := response_pkt_eq h31 (if ack then .ACK else .NACK) seqnum timestamp
  generalize hreply : { pkt_new with
    type := (if ack then PType.ACK else .NACK)
    window := (UInt8.ofNat r.window.windowsize).toBitVec.setWidth 5
    seqnum
    timestamp } = reply at hpkt
  have hs : Sendable reply := by
    rw [← hreply]
    refine ⟨rfl, ?_, ?_, fun _ => rfl⟩
    · cases ack <;> simp
    · cases ack <;> simp
  have hwin : reply.window.toNat = r.window.windowsize := by
    rw [← hreply]
    simp only [BitVec.toNat_setWidth, UInt8.toNat_toBitVec, UInt8.toNat_ofNat']
    omega
  refine ⟨reply, hs, by rw [← hreply], by rw [← hreply], by rw [← hreply], hwin,
    load (pkt_bytes crc32 reply) r.buffer, ?_⟩
  simp only [send_response, hpkt, hs.encode, bytesAt_load]
  cases write <;> rfl

theorem send_response_rel {r : Receiver} {t : Protocol.Receiver} (h : ReceiverRel crc32 file r t) (ack : Bool)
    (seqnum : UInt8) (timestamp : UInt32) :
    ∃ r', send_response crc32 r (if ack then .ACK else .NACK) seqnum timestamp true = (true, r') ∧
      ReceiverRel crc32 file r' (t.reply ack seqnum) := by
  have hsize : r.window.windowsize ≤ 31 := by
    rw [h.window.size]
    exact h.size.2
  obtain ⟨reply, hs, htype, hseq, _, hwin, buffer, hsend⟩ := send_response_sent hsize ack seqnum timestamp true
  have hcarry : ResponseCarries crc32 ⟨r.consumed, pkt_bytes crc32 reply⟩
      ⟨ack, seqnum, t.window.windowsize, t.consumed⟩ :=
    ⟨h.consumed, reply, rfl, hs, htype, hseq, hwin.trans h.window.size⟩
  exact ⟨_, hsend, h.window, h.size, h.consumed, h.output, h.done, h.replies.add hcarry⟩

theorem send_ack_rel {r : Receiver} {t : Protocol.Receiver} (h : ReceiverRel crc32 file r t) (timestamp : UInt32) :
    ReceiverRel crc32 file (send_ack crc32 r timestamp true) (t.reply true t.window.seqnumHead) := by
  obtain ⟨r', hsend, hrel⟩ := send_response_rel h true r.window.seqnumHead timestamp
  simp only [if_true] at hsend
  rw [← h.window.head]
  simp only [send_ack, hsend]
  exact ⟨hrel.window, hrel.size, hrel.consumed, hrel.output, hrel.done, hrel.replies⟩

theorem ReceiverRel.resent {r : Receiver} {t : Protocol.Receiver} (h : ReceiverRel crc32 file r t)
    (resent_ack : Bool) : ReceiverRel crc32 file { r with resent_ack } t :=
  ⟨h.window, h.size, h.consumed, h.output, h.done, h.replies⟩

theorem send_troncated_nack_rel {r : Receiver} {t : Protocol.Receiver} (h : ReceiverRel crc32 file r t) (pkt : Pkt) :
    ReceiverRel crc32 file (send_troncated_nack crc32 r pkt true) (t.nack (pkt_get_seqnum pkt)) := by
  have hdec : ReceiverRel crc32 file r.count_truncated.decrease { t with window := decrease_window t.window } :=
    ⟨h.window.decrease (carries_alike file), decrease_window_sizeOk h.size, h.consumed, h.output, h.done, h.replies⟩
  obtain ⟨r', hsend, hrel⟩ := send_response_rel hdec false (pkt_get_seqnum pkt) (pkt_get_timestamp pkt)
  simp only [Bool.false_eq_true, if_false] at hsend
  simp only [send_troncated_nack, hsend]
  exact ⟨hrel.window, hrel.size, hrel.consumed, hrel.output, hrel.done, hrel.replies⟩

/-! ## `receive_data` -/

theorem ReceiverRel.read {r : Receiver} {t : Protocol.Receiver} (h : ReceiverRel crc32 file r t)
    (bytes_read : Option (List UInt8)) : ReceiverRel crc32 file (r.read bytes_read) t :=
  ⟨h.window, h.size, h.consumed, h.output, h.done, h.replies⟩

theorem ReceiverRel.ignore {r : Receiver} {t : Protocol.Receiver} (h : ReceiverRel crc32 file r t) :
    ReceiverRel crc32 file r.ignore t :=
  ⟨h.window, h.size, h.consumed, h.output, h.done, h.replies⟩

theorem store_data_rel {r : Receiver} {t : Protocol.Receiver} (h : ReceiverRel crc32 file r t) {pkt : Pkt} {x : Item}
    (hx : Carries file pkt x) :
    ReceiverRel crc32 file (store_data r pkt).2 { t with window := store t.window x } := by
  have hwin : (store_data r pkt).2.window = store r.window pkt := store_data_window r pkt
  have hrest : (store_data r pkt).2.consumed = r.consumed ∧ (store_data r pkt).2.stdout = r.stdout ∧
      (store_data r pkt).2.eof_wrote = r.eof_wrote ∧ (store_data r pkt).2.sent = r.sent := by
    unfold store_data
    simp only
    split
    · split_ifs <;> exact ⟨rfl, rfl, rfl, rfl⟩
    · exact ⟨rfl, rfl, rfl, rfl⟩
  obtain ⟨h1, h2, h3, h4⟩ := hrest
  refine ⟨?_, store_sizeOk h.size x, h1.trans h.consumed, h2.trans h.output, h3.trans h.done, ?_⟩
  · rw [hwin]
    exact h.window.store (carries_alike file) hx
  · rw [h4]
    exact h.replies

theorem receive_data_whole {r : Receiver} {t : Protocol.Receiver} (h : ReceiverRel crc32 file r t) {pkt : Pkt}
    {x : Item} (hx : Carries file pkt x) :
    ReceiverRel crc32 file (receive_data crc32 r (some (pkt_bytes crc32 pkt)) true).2 (t.deliver x) := by
  obtain ⟨hi, hl, hr⟩ := hx.sendable.received r.buffer
  have hx' := hx.restores hr
  have hread := h.read (some (pkt_bytes crc32 pkt))
  have htr : pkt_get_tr (accepted crc32 (readInto (some (pkt_bytes crc32 pkt)) r.buffer)) = 0 :=
    (pkt_get_tr_eq_zero _).mpr hx'.sendable.tr
  have hvalid : receive_data crc32 r (some (pkt_bytes crc32 pkt)) true =
      receive_valid crc32 (r.read (some (pkt_bytes crc32 pkt)))
        (accepted crc32 (r.read (some (pkt_bytes crc32 pkt))).buffer) true := receive_data_valid crc32 true hi hl
  rw [hvalid]
  simp only [receive_valid, Receiver.is_in_window, Protocol.Receiver.deliver]
  have htype : pkt_get_type (accepted crc32 (r.read (some (pkt_bytes crc32 pkt))).buffer) = .DATA := hx'.type
  have hseq : pkt_get_seqnum (accepted crc32 (r.read (some (pkt_bytes crc32 pkt))).buffer) = seqnumOf x := hx'.seqnum
  rw [htype]
  simp only [show pkt_get_tr (accepted crc32 (r.read (some (pkt_bytes crc32 pkt))).buffer) = 0 from htr, ne_eq,
    not_true_eq_false, if_false, hseq, hread.window.is_in_window]
  by_cases hin : is_in_window t.window (seqnumOf x) = true
  · simp only [hin, if_true]
    exact store_data_rel hread hx'
  · simp only [hin, Bool.false_eq_true, if_false]
    exact ⟨hread.window, hread.size, hread.consumed, hread.output, hread.done, hread.replies⟩

theorem receive_data_other {r : Receiver} {t : Protocol.Receiver} (h : ReceiverRel crc32 file r t)
    {bytes_read : Option (List UInt8)} (ht : hdrType (readInto bytes_read r.buffer) ≠ .DATA) :
    ReceiverRel crc32 file (receive_data crc32 r bytes_read true).2 t := by
  have hread := h.read bytes_read
  by_cases hv : Intact crc32 (r.read bytes_read).buffer ∧ LenTests (r.read bytes_read).buffer (readLen bytes_read)
  · rw [receive_data_valid crc32 true hv.1 hv.2]
    have htype := (accepted_header crc32 (r.read bytes_read).buffer).1
    unfold receive_valid
    cases hp : pkt_get_type (accepted crc32 (r.read bytes_read).buffer) with
    | DATA => exact absurd (htype.symm.trans hp) ht
    | FEC => exact hread.ignore
    | ACK => exact hread.ignore
    | NACK => exact hread.ignore
  · rw [receive_data_ignored crc32 true hv (fun htrunc => ht htrunc.type)]
    exact hread.ignore

theorem receive_data_nack {r : Receiver} {t : Protocol.Receiver} (h : ReceiverRel crc32 file r t)
    {bytes_read : Option (List UInt8)}
    (ht : TruncTests crc32 (r.read bytes_read).buffer (readLen bytes_read)) :
    ReceiverRel crc32 file (receive_data crc32 r bytes_read true).2
      (if is_in_window t.window (hdrSeqnum (readInto bytes_read r.buffer)) then
        t.nack (hdrSeqnum (readInto bytes_read r.buffer)) else t) := by
  have hread := h.read bytes_read
  rw [receive_data_truncated crc32 true ht, h.window.is_in_window]
  have hbuf : (r.read bytes_read).buffer = readInto bytes_read r.buffer := rfl
  rw [hbuf]
  split
  · exact send_troncated_nack_rel hread _
  · exact hread.ignore.ignore

theorem receive_data_rejected {r : Receiver} {t : Protocol.Receiver} (h : ReceiverRel crc32 file r t)
    {datagram : List UInt8} (hrej : Rejected crc32 r.buffer datagram) :
    ReceiverRel crc32 file (receive_data crc32 r (some datagram) true).2 t ∨
      ∃ seqnum, ReceiverRel crc32 file (receive_data crc32 r (some datagram) true).2 (t.nack seqnum) := by
  by_cases ht : TruncTests crc32 (r.read (some datagram)).buffer (readLen (some datagram))
  · have hnack := receive_data_nack h ht
    split at hnack
    · exact Or.inr ⟨_, hnack⟩
    · exact Or.inl hnack
  · have hv : ¬ (Intact crc32 (r.read (some datagram)).buffer ∧
        LenTests (r.read (some datagram)).buffer (readLen (some datagram))) :=
      fun hv => hrej ((pkt_decode_ok_iff crc32 _ _).mpr hv)
    rw [receive_data_ignored crc32 true hv ht]
    exact Or.inl (h.read (some datagram)).ignore

/-! ## Truncated packets -/

theorem firstByte_truncated (window : BitVec 5) :
    firstByte .DATA window 0 ||| 0b00100000 = firstByte .DATA window 1 := by
  revert window
  decide

/-- What is left of a `DATA` packet is the packet with TR at 1. -/
theorem truncate_pkt_bytes {pkt : Pkt} (ht : pkt.type = .DATA) (htr : pkt.tr = 0) :
    truncate (pkt_bytes crc32 pkt) = pkt_bytes crc32 { pkt with tr := 1 } := by
  have hpay : encode_payload crc32 { pkt with tr := 1 } = [] := by simp [encode_payload, ht]
  have hhead : headerBytes { pkt with tr := 1 } = headerBytes pkt := rfl
  have hrest : headerRest { pkt with tr := 1 } = headerRest pkt := rfl
  have hlen : (headerRest pkt).length = 7 := by
    have := headerBytes_length pkt
    simp only [headerBytes, List.length_cons, seqOffset, if_pos (show pkt.type.hasLength from Or.inl ht)] at this
    omega
  rw [truncate, pkt_bytes_eq, pkt_bytes_eq, hpay, hhead, hrest, PKT_MAX_HEADERLEN, List.take_succ_cons,
    List.modifyHead_cons, htr, ht, firstByte_truncated, ← List.append_assoc, List.take_left' (by simp [hlen]),
    List.append_nil]

theorem receive_data_cut {r : Receiver} {t : Protocol.Receiver} (h : ReceiverRel crc32 file r t) {pkt : Pkt}
    {x : Item} (hx : Carries file pkt x) :
    ReceiverRel crc32 file (receive_data crc32 r (some (truncate (pkt_bytes crc32 pkt))) true).2
      (if isFinal x = true ∨ is_in_window t.window (seqnumOf x) = true then t.nack (seqnumOf x) else t) := by
  have hmax := (hx.sendable.data hx.type).1
  rw [truncate_pkt_bytes hx.type hx.sendable.tr]
  generalize hcut : { pkt with tr := 1 } = cut
  have htype : cut.type = .DATA := by rw [← hcut]; exact hx.type
  have hlength : cut.length = pkt.length := by rw [← hcut]
  have hbytes : (pkt_bytes crc32 cut).length = 12 := by
    have hpay : encode_payload crc32 cut = [] := by rw [← hcut]; simp [encode_payload, hx.type]
    rw [pkt_bytes_length, hpay, htype]
    rfl
  obtain ⟨hread, hlen⟩ := readInto_whole (d := pkt_bytes crc32 cut) (by rw [hbytes]; decide) r.buffer
  obtain ⟨hnat, hint⟩ := toInt_ofNat (n := 12) (by decide)
  have hstarts : Starts (pkt_bytes crc32 cut) (r.read (some (pkt_bytes crc32 cut))).buffer := by
    rw [show (r.read (some (pkt_bytes crc32 cut))).buffer = load (pkt_bytes crc32 cut) r.buffer from hread]
    exact load_starts _ _
  have ht := hdrType_bytes hstarts
  have htr := hdrTr_bytes hstarts
  have hl := hdrLength_bytes hstarts htype
  have hs := hdrSeqnum_bytes hstarts
  have hcrc := hdrCrc1_bytes hstarts
  rw [htype] at ht
  rw [hlength] at hl
  rw [show cut.tr = 1 by rw [← hcut]] at htr
  rw [show cut.seqnum = seqnumOf x by rw [← hcut]; exact hx.seqnum] at hs
  rw [hbytes] at hlen
  by_cases hzero : pkt.length = 0
  · -- Without a payload the header is all there is: the packet is valid.
    have hfinal : isFinal x = true := by
      rw [← hx.final]
      simp [isFinal, pkt_get_length, hzero]
    have hho : HeaderOnly (r.read (some (pkt_bytes crc32 cut))).buffer := Or.inr (Or.inr ⟨ht, by rw [hl, hzero]⟩)
    rw [if_pos (Or.inl hfinal), receive_data_valid crc32 true
      ⟨fun _ => ht, by rw [hl]; exact hmax, hcrc.symm, fun hn => absurd hho hn⟩
      ⟨by rw [hlen, hnat]; decide, fun _ => by rw [hlen, hint]; omega, fun hn => absurd hho hn⟩]
    rw [accepted, if_pos hho]
    have htype' : pkt_get_type (hdrPkt crc32 (r.read (some (pkt_bytes crc32 cut))).buffer) = .DATA := ht
    have htr' : pkt_get_tr (hdrPkt crc32 (r.read (some (pkt_bytes crc32 cut))).buffer) ≠ 0 := by
      rw [(pkt_get_tr_eq_one _).mpr htr]
      decide
    have hs' : pkt_get_seqnum (hdrPkt crc32 (r.read (some (pkt_bytes crc32 cut))).buffer) = seqnumOf x := hs
    rw [receive_valid, htype']
    simp only [htr', ne_eq, not_false_eq_true, if_true]
    rw [← hs']
    exact send_troncated_nack_rel (h.read _) _
  · have hfinal : isFinal x = false := by
      rw [← hx.final]
      simp [isFinal, pkt_get_length, hzero]
    have hnack := receive_data_nack h
      ⟨by rw [hlen, hnat]; decide, ht, htr, by rw [hl]; exact hmax, by rw [hlen, hint]; omega,
        fun _ => ⟨by rw [hl]; exact hzero, by rw [hlen, hnat]; decide⟩⟩
    have hs' : hdrSeqnum (readInto (some (pkt_bytes crc32 cut)) r.buffer) = seqnumOf x := hs
    rw [hs'] at hnack
    simpa [hfinal] using hnack

/-! ## `FEC` packets -/

theorem hdrType_fec {segment : Segment} (h : FecSegment crc32 segment) (buffer : Mem) :
    hdrType (readInto (some segment.datagram) buffer) = .FEC ∧
      hdrType (readInto (some (truncate segment.datagram)) buffer) = .FEC := by
  obtain ⟨_, pkt, htype, hd⟩ := h
  have hall : ∀ window : BitVec 5, ∀ tr : BitVec 1, (firstByte .FEC window tr >>> 6).toNat = 0 ∧
      ((firstByte .FEC window tr ||| 0b00100000) >>> 6).toNat = 0 := by decide
  obtain ⟨h1, h2⟩ := hall pkt.window pkt.tr
  rw [hd, pkt_bytes_eq, htype]
  constructor
  · simp only [hdrType, readInto, PKT_MAX_LEN, List.take_succ_cons, load, List.getD_cons_zero, h1]
  · simp only [hdrType, readInto, truncate, PKT_MAX_LEN, PKT_MAX_HEADERLEN, List.take_succ_cons,
      List.modifyHead_cons, load, List.getD_cons_zero, h2]

/-! ## `flush_file` -/

theorem flush_file_eq (r : Receiver) (wr : Nat → Option Nat) :
    flush_file r wr = flush_loop wr r.window.linkedList 0 r := by
  unfold flush_file
  split
  · rename_i hnil
    rw [List.isEmpty_iff.mp hnil]
    rfl
  · rfl

theorem flush_one_rel {r : Receiver} {t : Protocol.Receiver} (h : ReceiverRel crc32 file r t) {current : Pkt}
    {next : List Pkt} {x : Item} {xs : List Item} (hx : Carries file current x)
    (hnext : List.Forall₂ (Carries file) next xs) :
    ReceiverRel crc32 file
      (flush_one r current next ((readBuffer (pkt_get_payload current) current.length.toNat).take current.length.toNat))
      { t with window := flushed t.window xs, output := t.output ++ [x], consumed := t.consumed + 1 } := by
  have hbytes : (readBuffer (pkt_get_payload current) current.length.toNat).take current.length.toNat =
      itemBytes file x := by
    rw [List.take_of_length_le (by simp), hx.sendable.readBuffer_payload hx.type, hx.payload]
  refine ⟨h.window.flushed hnext, h.size, ?_, ?_, h.done, h.replies⟩
  · simp only [flush_one, h.consumed]
  · simp only [flush_one, hbytes, h.output, List.map_append, List.map_cons, List.map_nil]

/-- The writes take what there is, from the packet `n` of the list on. -/
theorem flush_loop_rel {r : Receiver} {t : Protocol.Receiver} (h : ReceiverRel crc32 file r t) {list : List Pkt}
    {items : List Item} (hlist : List.Forall₂ (Carries file) list items) (wr : Nat → Option Nat) (n : Nat)
    (hwr : ∀ i pkt, list[i]? = some pkt → wr (n + i) = some pkt.length.toNat) :
    ((flush_loop wr list n r).1 = -1 ↔ (flush_loop_window items t.window).2.2 = true) ∧
      ReceiverRel crc32 file (flush_loop wr list n r).2
        { t with
          window := (flush_loop_window items t.window).2.1
          output := t.output ++ (flush_loop_window items t.window).1
          consumed := t.consumed + (flush_loop_window items t.window).1.length +
            if (flush_loop_window items t.window).2.2 then 1 else 0 } := by
  induction hlist generalizing r t n with
  | nil =>
    simp only [flush_loop, flush_loop_window, List.append_nil, List.length_nil, Bool.false_eq_true, if_false,
      iff_false]
    exact ⟨by omega, h.window, h.size, h.consumed, h.output, h.done, h.replies⟩
  | @cons current x next xs hx hnext ih =>
    have hhead : r.window.seqnumHead ≠ pkt_get_seqnum current ↔ t.window.seqnumHead ≠ seqnumOf x := by
      rw [h.window.head, pkt_get_seqnum, hx.seqnum]
    have hlen : pkt_get_length current = 0 ↔ isFinal x = true := by
      rw [← hx.final]
      simp [isFinal]
    unfold flush_loop flush_loop_window
    by_cases hne : t.window.seqnumHead ≠ seqnumOf x
    · rw [if_pos hne, if_pos (hhead.mpr hne)]
      simp only [List.append_nil, List.length_nil, Bool.false_eq_true, if_false, iff_false]
      exact ⟨by omega, h.window, h.size, h.consumed, h.output, h.done, h.replies⟩
    rw [if_neg hne, if_neg (mt hhead.mp hne)]
    by_cases hfin : isFinal x = true
    · rw [if_pos hfin, if_pos (hlen.mpr hfin)]
      simp only [List.append_nil, List.length_nil, if_true, true_and]
      refine ⟨⟨?_, h.window.tail, h.window.size, h.window.list⟩, h.size, ?_, h.output, h.done, h.replies⟩
      · simp only [h.window.head]
      · simp only [h.consumed, Nat.add_zero]
    rw [if_neg hfin, if_neg (mt hlen.mp hfin)]
    have hn : wr n = some current.length.toNat := hwr 0 current rfl
    simp only [hn]
    obtain ⟨hret, hrel⟩ := ih (flush_one_rel h hx hnext) (n := n + 1) (fun i pkt hi => by
      have := hwr (i + 1) pkt (by simpa using hi)
      rwa [show n + 1 + i = n + (i + 1) by omega])
    refine ⟨hret, hrel.window, hrel.size, ?_, ?_, hrel.done, hrel.replies⟩
    · refine hrel.consumed.trans ?_
      simp only [List.length_cons, Nat.add_assoc, Nat.add_comm 1]
    · refine hrel.output.trans ?_
      simp only [List.append_assoc, List.singleton_append]

theorem flush_turn_rel {r : Receiver} {t : Protocol.Receiver} (h : ReceiverRel crc32 file r t) :
    ReceiverRel crc32 file (flush_turn crc32 r (fullWrites r) true) t.flush := by
  obtain ⟨hret, hrel⟩ := flush_loop_rel h h.window.list (fullWrites r) 0 (fun i pkt hi => by
    simp [fullWrites, hi, pkt_get_length])
  unfold flush_turn
  rw [flush_file_eq]
  rcases hf : flush_loop (fullWrites r) r.window.linkedList 0 r with ⟨retval, r'⟩
  rw [hf] at hret hrel
  simp only at hret hrel ⊢
  unfold Protocol.Receiver.flush
  rcases hw : flush_loop_window t.window.linkedList t.window with ⟨written, window, eof⟩
  rw [hw] at hret hrel
  cases eof with
  | false =>
    rw [if_neg (by simpa using hret)]
    exact hrel
  | true =>
    have hdone : ReceiverRel crc32 file { r' with eof_wrote := true }
        { t with
          window
          output := t.output ++ written
          consumed := t.consumed + written.length + 1
          done := true } :=
      ⟨hrel.window, hrel.size, hrel.consumed, hrel.output, rfl, hrel.replies⟩
    rw [if_pos (hret.mpr rfl)]
    exact send_ack_rel hdone r'.lastTimestamp

end Trtp
