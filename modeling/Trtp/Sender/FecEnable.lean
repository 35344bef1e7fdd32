import Trtp.Sender.Wire

/-!
# `fec_enable`

The same calls with and without the option: the `FEC` packets come in between, and nothing else is different.
-/

open Trtp.Lib

namespace Trtp

variable {crc32 : List UInt8 → UInt32} {s s' t : Sender}

/-- The call without the option. -/
def SenderCall.plain : SenderCall → SenderCall
  | .fill io _ => .fill io false
  | a => a

variable (crc32) in
/-- The `FEC` packets are written, and what comes in is told by its own bytes. -/
def FecWritten : SenderCall → Prop
  | .fill io fec_enable => fec_enable = true → io.writeFec = true
  | .response bytes_read _ _ => ∀ s t : Sender, incoming crc32 s bytes_read = incoming crc32 t bytes_read
  | _ => True

/-- The sender without its `FEC` packets, and with other memory. -/
def Sender.plain (s : Sender) (copybuf : Mem) (fec : FecPkt) : Sender :=
  { s with
    copybuf, fec
    stats := { s.stats with fec_sent := 0 }
    sent := s.sent.filter fun segment => segment.chunk.isSome }

/-- `t` is `s` without the option. -/
def Unprotected (s t : Sender) : Prop := ∃ copybuf fec, t = s.plain copybuf fec

/-! ## The writes -/

variable (crc32) in
theorem Unprotected.write_pkt (h : Unprotected s t) (index : Nat) {pkt : Pkt} (hsize : encode_size pkt ≤ PKT_MAX_LEN)
    (write : Bool) :
    Unprotected (s.write_pkt crc32 (some index) pkt write) (t.write_pkt crc32 (some index) pkt write) := by
  obtain ⟨copybuf, fec, rfl⟩ := h
  cases write with
  | false => exact ⟨_, fec, rfl⟩
  | true =>
    rw [write_pkt_eq crc32 s (some index) hsize, write_pkt_eq crc32 _ (some index) hsize]
    refine ⟨load (pkt_bytes crc32 pkt) copybuf, fec, ?_⟩
    simp only [Sender.plain, List.filter_append]
    rfl

variable (crc32) in
/-- The `FEC` packet is the only thing that the part under `fec_enable` leaves behind. -/
theorem Unprotected.fill_fec (h : Unprotected s t) (node : Node) :
    (fill_fec crc32 s node true).1 = true ∧ Unprotected (fill_fec crc32 s node true).2 t := by
  obtain ⟨copybuf, fec, rfl⟩ := h
  unfold Trtp.fill_fec
  simp only [if_true]
  split
  swap
  · exact ⟨rfl, copybuf, fec, rfl⟩
  split
  swap
  · exact ⟨rfl, copybuf, fec, rfl⟩
  refine ⟨rfl, copybuf, fec, ?_⟩
  simp [Sender.plain, Sender.write_pkt]

/-! ## A turn of `fill_window` -/

theorem set_payload_congr {pkt : Pkt} (htype : pkt.type = .DATA) {copybuf copybuf' : Mem} {bytes_read : UInt16}
    (h : bytes_read.toNat ≤ MAX_PAYLOAD_SIZE →
      bytesAt copybuf 0 bytes_read.toNat = bytesAt copybuf' 0 bytes_read.toNat) :
    (pkt_set_payload pkt copybuf bytes_read).2 = (pkt_set_payload pkt copybuf' bytes_read).2 := by
  rw [pkt_set_payload, pkt_set_payload, if_pos htype, if_pos htype]
  by_cases hle : bytes_read.toNat ≤ MAX_PAYLOAD_SIZE
  · rw [pkt_set_length_data htype hle, h hle]
  · rw [pkt_set_length_eq (Or.inl htype), if_pos (Nat.lt_of_not_le hle)]

/-- The packet has nothing of what was in the memory before `pread`. -/
theorem readPkt_plain (s : Sender) (copybuf : Mem) (fec : FecPkt) (bytes_read : Option (List UInt8)) (io : FillIO) :
    readPkt (s.plain copybuf fec) bytes_read io = readPkt s bytes_read io := by
  unfold readPkt data_pkt
  simp only [pkt_set_timestamp, Sender.plain]
  refine congrArg (fun pkt : Pkt => { pkt with timestamp := io.time }) (set_payload_congr ?_ fun hle => ?_)
  · simp only [pkt_set_type_code, pkt_set_seqnum, pkt_set_window_snd, pkt_set_tr_zero]
  cases bytes_read with
  | none => exact absurd hle (by decide)
  | some d =>
    have hlen : (readCount (some d)).toNat ≤ d.length := by
      rw [readCount, UInt16.toNat_ofNat']
      exact Nat.mod_le _ _
    rw [Option.getD_some, (load_starts d copybuf).bytesAt 0 _ (by omega),
      (load_starts d s.copybuf).bytesAt 0 _ (by omega)]

theorem Unprotected.fill_read (h : Unprotected s t) {bytes_read : Option (List UInt8)} {io : FillIO} {fec_enable : Bool}
    (hwritten : fec_enable = true → io.writeFec = true) :
    Unprotected (fill_read crc32 s bytes_read io fec_enable).state (fill_read crc32 t bytes_read io false).state := by
  have hsize := readPkt_size s bytes_read io
  obtain ⟨copybuf, fec, rfl⟩ := h
  have hsame := readPkt_plain s copybuf fec bytes_read io
  unfold readPkt at hsize hsame
  unfold Trtp.fill_read
  simp only
  rw [hsame]
  generalize data_pkt s.window.windowsize (UInt8.ofNat (s.global_pkt.toNat % 256))
    (load (bytes_read.getD []) s.copybuf) (readCount bytes_read) io.time = pkt at hsize ⊢
  generalize hu : Sender.add_node _ (chunkIndex s.global_pkt) pkt = u
  generalize hv : Sender.add_node _ (chunkIndex (s.plain copybuf fec).global_pkt) pkt = v
  have hadd : Unprotected u v := by
    rw [← hu, ← hv]
    exact ⟨load (bytes_read.getD []) copybuf, fec, rfl⟩
  replace hadd : Unprotected (u.write_pkt crc32 (some (chunkIndex s.global_pkt)) pkt io.write)
      (v.write_pkt crc32 (some (chunkIndex (s.plain copybuf fec).global_pkt)) pkt io.write) :=
    hadd.write_pkt crc32 _ hsize io.write
  generalize u.write_pkt crc32 (some (chunkIndex s.global_pkt)) pkt io.write = u at hadd ⊢
  generalize v.write_pkt crc32 (some (chunkIndex (s.plain copybuf fec).global_pkt)) pkt io.write = v at hadd ⊢
  split
  swap
  · exact hadd
  have hcount : ∀ {u : Sender}, Unprotected u v → Unprotected (fill_count u (UInt8.ofNat (s.global_pkt.toNat % 256)))
      (fill_count v (UInt8.ofNat (s.global_pkt.toNat % 256))) := by
    rintro u ⟨copybuf, fec, rfl⟩
    exact ⟨copybuf, fec, rfl⟩
  cases fec_enable with
  | false => exact hcount hadd
  | true =>
    obtain ⟨hok, hfec⟩ := hadd.fill_fec crc32 ⟨s.allocated, chunkIndex s.global_pkt, pkt⟩
    simp only [hwritten rfl, if_true]
    split
    · rename_i w hw
      rw [hw] at hfec
      exact hcount hfec
    · rename_i w hw
      rw [hw] at hok
      contradiction

theorem Unprotected.fill_turn (h : Unprotected s t) {io : FillIO} {fec_enable : Bool}
    (hwritten : fec_enable = true → io.writeFec = true) :
    Unprotected (fill_turn crc32 s io fec_enable).state (fill_turn crc32 t io false).state := by
  have hcount : t.global_pkt = s.global_pkt := by
    obtain ⟨copybuf, fec, rfl⟩ := h
    rfl
  unfold Trtp.fill_turn
  rw [hcount]
  split
  · obtain ⟨copybuf, fec, rfl⟩ := h
    exact ⟨copybuf, fec, rfl⟩
  · exact h.fill_read hwritten

/-! ## The other calls -/

theorem Unprotected.send_final_pkt (h : Unprotected s t) (time : UInt32) (write : Bool) :
    Unprotected (send_final_pkt crc32 s time write).2 (send_final_pkt crc32 t time write).2 := by
  obtain ⟨copybuf, fec, rfl⟩ := h
  have hc := final_pkt_carries [] s.window.windowsize (chunkIndex s.global_pkt) (s.window.seqnumTail + 1) time
  have hok : ∀ copybuf, (pkt_encode crc32 (final_pkt s.window.windowsize (s.window.seqnumTail + 1) time) copybuf
      PKT_MAX_LEN).1 = .PKT_OK := fun copybuf => by rw [hc.sendable.encode]
  have htail : Unprotected { s with window := { s.window with seqnumTail := s.window.seqnumTail + 1 } }
      { s.plain copybuf fec with
        window := { (s.plain copybuf fec).window with
          seqnumTail := (s.plain copybuf fec).window.seqnumTail + 1 } } := ⟨copybuf, fec, rfl⟩
  obtain ⟨copybuf', fec', hwrite⟩ := htail.write_pkt crc32 (chunkIndex s.global_pkt) hc.sendable.encode_size_le
    write
  have hplain : (s.plain copybuf fec).window = s.window ∧ (s.plain copybuf fec).global_pkt = s.global_pkt := ⟨rfl, rfl⟩
  simp only [Trtp.send_final_pkt, hplain.1, hplain.2] at hwrite ⊢
  simp only [hok, ne_eq, not_true_eq_false, if_false, hwrite]
  split
  · exact ⟨copybuf', fec', rfl⟩
  · exact ⟨copybuf', fec', rfl⟩

variable (crc32) in
theorem Unprotected.resent_loop (io : Nat → UInt32 × Bool) {list : List Node}
    (hlist : ∀ node ∈ list, encode_size node.pkt ≤ PKT_MAX_LEN) (k nbr_resent : Nat) (h : Unprotected s t) :
    (resent_loop crc32 io list k nbr_resent s).2.1 = (resent_loop crc32 io list k nbr_resent t).2.1 ∧
      Unprotected (resent_loop crc32 io list k nbr_resent s).2.2 (resent_loop crc32 io list k nbr_resent t).2.2 := by
  induction list generalizing k nbr_resent s t with
  | nil => exact ⟨rfl, h⟩
  | cons current next ih =>
    obtain ⟨hcurrent, hnext⟩ := List.forall_mem_cons.mp hlist
    unfold Trtp.resent_loop
    split
    swap
    · obtain ⟨hrest, hsame⟩ := ih hnext (k + 1) nbr_resent h
      exact ⟨congrArg (current :: ·) hrest, hsame⟩
    have hsize : encode_size (pkt_set_timestamp current.pkt (io k).1).2 ≤ PKT_MAX_LEN := hcurrent
    have hwrite := h.write_pkt crc32 current.index hsize (io k).2
    simp only
    generalize s.write_pkt crc32 (some current.index) (pkt_set_timestamp current.pkt (io k).1).2 (io k).2 = u
      at hwrite ⊢
    generalize t.write_pkt crc32 (some current.index) (pkt_set_timestamp current.pkt (io k).1).2 (io k).2 = v
      at hwrite ⊢
    split
    · obtain ⟨copybuf, fec, rfl⟩ := hwrite
      obtain ⟨hrest, hsame⟩ := ih hnext (k + 1) (nbr_resent + 1) (s := { u with
          lastRst := if pkt_get_length (pkt_set_timestamp current.pkt (io k).1).2 = 0 then u.lastRst + 1 else u.lastRst
          stats := { u.stats with packet_retransmitted := u.stats.packet_retransmitted + 1 } }) ⟨copybuf, fec, rfl⟩
      exact ⟨congrArg (_ :: ·) hrest, hsame⟩
    · exact ⟨rfl, hwrite⟩

variable (crc32) in
theorem Unprotected.resent_pkt (h : Unprotected s t) (io : Nat → UInt32 × Bool)
    (hlist : ∀ node ∈ s.window.linkedList, encode_size node.pkt ≤ PKT_MAX_LEN) :
    Unprotected (resent_pkt crc32 s io).2 (resent_pkt crc32 t io).2 := by
  obtain ⟨hsame, copybuf, fec, hresent⟩ := h.resent_loop crc32 io hlist 0 0
  have hwindow : t.window = s.window := by
    obtain ⟨copybuf, fec, rfl⟩ := h
    rfl
  unfold Trtp.resent_pkt
  simp only [hwindow, hresent, ← hsame]
  exact ⟨copybuf, fec, rfl⟩

theorem Unprotected.update_window (h : Unprotected s t) (newSize : UInt8) (stale : Pkt) :
    Unprotected (update_window s newSize stale).2 (update_window t newSize stale).2 := by
  obtain ⟨copybuf, fec, rfl⟩ := h
  by_cases h0 : newSize = 0
  · subst h0
    exact ⟨copybuf, fec, rfl⟩
  have hsize : (s.plain copybuf fec).window.windowsize = s.window.windowsize := rfl
  by_cases hle : s.window.windowsize ≤ newSize.toNat
  · rw [update_window_grow h0 hle, update_window_grow h0 (hsize ▸ hle)]
    exact ⟨copybuf, fec, rfl⟩
  · rw [update_window_shrink h0 (Nat.lt_of_not_le hle), update_window_shrink h0 (hsize ▸ Nat.lt_of_not_le hle)]
    exact ⟨copybuf, fec, rfl⟩

theorem Unprotected.ack_loop (h : Unprotected s t) (ackSeqnum : UInt8) (time : UInt32) (list : List Node)
    (no_acked : Nat) :
    (ack_loop ackSeqnum time list no_acked s).1 = (ack_loop ackSeqnum time list no_acked t).1 ∧
      Unprotected (ack_loop ackSeqnum time list no_acked s).2 (ack_loop ackSeqnum time list no_acked t).2 := by
  induction list generalizing no_acked s t with
  | nil => exact ⟨rfl, h⟩
  | cons current next ih =>
    obtain ⟨copybuf, fec, rfl⟩ := h
    unfold Trtp.ack_loop
    have hin : seqnum_in_window (s.plain copybuf fec).window ackSeqnum (seqnumOf current) =
        seqnum_in_window s.window ackSeqnum (seqnumOf current) := rfl
    rw [hin]
    split
    · exact ih (s := { s.take_rtt time current.pkt with window := remove_acked s.window }) ⟨copybuf, ⟨fec.pkts, 0⟩, rfl⟩
        (no_acked + 1)
    · exact ⟨rfl, copybuf, fec, rfl⟩

theorem Unprotected.ack_window (h : Unprotected s t) (pkt : Pkt) (time : UInt32) (stale : Pkt) :
    (ack_window s pkt time stale).1 = (ack_window t pkt time stale).1 ∧
      Unprotected (ack_window s pkt time stale).2 (ack_window t pkt time stale).2 := by
  have hloop := h.ack_loop (pkt_get_seqnum pkt) time s.window.linkedList 0
  obtain ⟨copybuf, fec, rfl⟩ := h
  have hwindow : (s.plain copybuf fec).window = s.window := rfl
  unfold Trtp.ack_window
  simp only [hwindow]
  by_cases hcan : can_ack_window s.window (pkt_get_seqnum pkt) = false
  · rw [if_pos hcan, if_pos hcan]
    exact ⟨rfl, copybuf, fec, rfl⟩
  rw [if_neg hcan, if_neg hcan]
  by_cases hempty : s.window.linkedList.isEmpty = true
  swap
  · rw [if_neg hempty, if_neg hempty]
    exact hloop
  rw [if_pos hempty, if_pos hempty]
  by_cases hin : seqnum_in_window s.window (pkt_get_seqnum pkt) (pkt_get_seqnum stale) = true
  · rw [if_pos hin, if_pos hin]
    exact ⟨rfl, copybuf, ⟨fec.pkts, 0⟩, rfl⟩
  · rw [if_neg hin, if_neg hin]
    exact ⟨rfl, copybuf, fec, rfl⟩

theorem Unprotected.handle_packet (h : Unprotected s t) (pkt : Pkt) (time : UInt32) (stale : Pkt) :
    Unprotected (handle_packet s pkt time stale) (handle_packet t pkt time stale) := by
  have hupdate := h.update_window (pkt_get_window pkt) stale
  unfold Trtp.handle_packet
  simp only
  generalize (Trtp.update_window s (pkt_get_window pkt) stale).2 = u at hupdate ⊢
  generalize (Trtp.update_window t (pkt_get_window pkt) stale).2 = v at hupdate ⊢
  obtain ⟨copybuf, fec, rfl⟩ := hupdate
  have hwindow : (u.plain copybuf fec).window = u.window := rfl
  split
  · rw [hwindow]
    split
    · exact ⟨copybuf, fec, rfl⟩
    · exact ⟨copybuf, fec, rfl⟩
  · have hcount : Unprotected { u with stats := { u.stats with ack_received := u.stats.ack_received + 1 } }
        { u.plain copybuf fec with
          stats := { (u.plain copybuf fec).stats with
            ack_received := (u.plain copybuf fec).stats.ack_received + 1 } } := ⟨copybuf, fec, rfl⟩
    obtain ⟨hret, hack⟩ := hcount.ack_window pkt time stale
    generalize Trtp.ack_window { u with stats := { u.stats with ack_received := u.stats.ack_received + 1 } } pkt time
      stale = result at hret hack ⊢
    generalize Trtp.ack_window _ pkt time stale = result' at hret hack ⊢
    rw [← hret]
    have hignore : Unprotected (if result.1 = -1 then result.2.ignore else result.2)
        (if result.1 = -1 then result'.2.ignore else result'.2) := by
      obtain ⟨copybuf, fec, hplain⟩ := hack
      rw [hplain]
      split
      · exact ⟨copybuf, fec, rfl⟩
      · exact ⟨copybuf, fec, rfl⟩
    generalize (if result.1 = -1 then result.2.ignore else result.2) = u at hignore ⊢
    generalize (if result.1 = -1 then result'.2.ignore else result'.2) = v at hignore ⊢
    obtain ⟨copybuf, fec, rfl⟩ := hignore
    have hdone : ((u.plain copybuf fec).lastPkt = true ∧ (u.plain copybuf fec).window.linkedList.isEmpty = true) ↔
        u.lastPkt = true ∧ u.window.linkedList.isEmpty = true := Iff.rfl
    by_cases hstop : u.lastPkt = true ∧ u.window.linkedList.isEmpty = true
    · rw [if_pos hstop, if_pos (hdone.mpr hstop)]
      exact ⟨copybuf, fec, rfl⟩
    · rw [if_neg hstop, if_neg fun hlast => hstop (hdone.mp hlast)]
      exact ⟨copybuf, fec, rfl⟩
  · exact ⟨copybuf, fec, rfl⟩
  · exact ⟨copybuf, fec, rfl⟩

theorem Unprotected.handle_response (h : Unprotected s t) {bytes_read : Option (List UInt8)}
    (hsame : incoming crc32 s bytes_read = incoming crc32 t bytes_read) (time : UInt32) (stale : Pkt) :
    Unprotected (handle_response crc32 s bytes_read time stale) (handle_response crc32 t bytes_read time stale) := by
  obtain ⟨copybuf, fec, rfl⟩ := h
  have hread : Unprotected { s with copybuf := readInto bytes_read s.copybuf, lastRst := 0 }
      { s.plain copybuf fec with
        copybuf := readInto bytes_read (s.plain copybuf fec).copybuf
        lastRst := 0 } := ⟨readInto bytes_read copybuf, fec, rfl⟩
  cases hi : incoming crc32 s bytes_read with
  | none =>
    rw [handle_response_none hi, handle_response_none (hsame.symm.trans hi)]
    exact ⟨readInto bytes_read copybuf, fec, rfl⟩
  | some pkt =>
    rw [handle_response_some hi, handle_response_some (hsame.symm.trans hi)]
    exact hread.handle_packet pkt time stale

/-! ## The datagrams -/

/-- Nothing of an `ACK` or of a `NACK` comes from the memory it is read into. -/
theorem response_incoming_same {pkt : Pkt} (hs : Sendable pkt) (hresponse : pkt.type ≠ .DATA) (s t : Sender) :
    incoming crc32 s (some (pkt_bytes crc32 pkt)) = incoming crc32 t (some (pkt_bytes crc32 pkt)) := by
  have hdecode : ∀ buffer, pkt_decode crc32 (readInto (some (pkt_bytes crc32 pkt)) buffer)
      (readLen (some (pkt_bytes crc32 pkt))) pkt_new =
        (.PKT_OK, { pkt with crc1 := crc32 (headerBytes pkt), payload := none, crc2 := 0 }) := by
    intro buffer
    have hstarts := load_starts (pkt_bytes crc32 pkt) buffer
    obtain ⟨hread, hlen⟩ := readInto_whole hs.pkt_bytes_le buffer
    have hr := hs.restores hstarts
    have honly : HeaderOnly (load (pkt_bytes crc32 pkt) buffer) :=
      (hs.headerOnly_iff hstarts).mpr fun hdata => absurd hdata hresponse
    rw [accepted, if_pos honly] at hr
    rw [hread, hlen, hs.decode hstarts, accepted, if_pos honly]
    simp only [hdrPkt, Prod.mk.injEq, true_and, Pkt.mk.injEq, and_true]
    exact ⟨hr.type, hr.tr, hr.window, hr.length, hr.seqnum, hr.timestamp, headerCrc_bytes hstarts⟩
  unfold incoming
  rw [hdecode, hdecode]

/-! ## The runs -/

theorem call_step_unprotected {a : SenderCall} (hs : Emitting crc32 s) (h : Unprotected s t) (ha : FecWritten crc32 a)
    (hstep : call_step crc32 s a = some s') :
    ∃ t', call_step crc32 t a.plain = some t' ∧ Unprotected s' t' := by
  have hguard : t.stopped = s.stopped ∧ t.eof_reached = s.eof_reached ∧ t.lastPkt = s.lastPkt ∧
      t.window = s.window := by
    obtain ⟨copybuf, fec, rfl⟩ := h
    exact ⟨rfl, rfl, rfl, rfl⟩
  obtain ⟨hstopped, heof, hlast, hwindow⟩ := hguard
  cases a with
  | fill io fec_enable =>
    simp only [call_step, turn_step] at hstep
    simp only [call_step, SenderCall.plain, turn_step, hstopped, heof, hwindow]
    split at hstep
    swap
    · contradiction
    rename_i hgo
    rw [if_pos hgo, ← Option.some.inj hstep]
    exact ⟨_, rfl, h.fill_turn ha⟩
  | final time write =>
    simp only [call_step, final_step] at hstep
    simp only [call_step, SenderCall.plain, final_step]
    split at hstep
    swap
    · contradiction
    rename_i hgo
    have hset : Unprotected { s with lastPkt := true } { t with lastPkt := true } := by
      obtain ⟨copybuf, fec, rfl⟩ := h
      exact ⟨copybuf, fec, rfl⟩
    have hgo' : t.stopped = none ∧ t.lastPkt = false ∧ t.eof_reached = true ∧
        t.window.linkedList.length < t.window.windowsize := by
      rw [hstopped, heof, hlast, hwindow]
      exact hgo
    rw [if_pos hgo', ← Option.some.inj hstep]
    exact ⟨_, rfl, hset.send_final_pkt time write⟩
  | resend io =>
    simp only [call_step, resent_step] at hstep
    simp only [call_step, SenderCall.plain, resent_step, hstopped, hwindow]
    split at hstep
    swap
    · contradiction
    rename_i hgo
    rw [if_pos hgo, ← Option.some.inj hstep]
    refine ⟨_, rfl, ?_⟩
    obtain ⟨copybuf, fec, hplain⟩ := h.resent_pkt crc32 io fun node hmem =>
      (hs.list node hmem).sendable.encode_size_le
    rw [hplain]
    generalize (resent_pkt crc32 s io).2 = u
    have hdone : ((u.plain copybuf fec).lastPkt = true ∧ (u.plain copybuf fec).lastRst > MAX_RESENT_LAST_PKT) ↔
        u.lastPkt = true ∧ u.lastRst > MAX_RESENT_LAST_PKT := Iff.rfl
    by_cases hstop : u.lastPkt = true ∧ u.lastRst > MAX_RESENT_LAST_PKT
    · rw [if_pos hstop, if_pos (hdone.mpr hstop)]
      exact ⟨copybuf, fec, rfl⟩
    · rw [if_neg hstop, if_neg fun hlast => hstop (hdone.mp hlast)]
      exact ⟨copybuf, fec, rfl⟩
  | response bytes_read time stale =>
    simp only [call_step, response_step] at hstep
    simp only [call_step, SenderCall.plain, response_step, hstopped]
    split at hstep
    swap
    · contradiction
    rename_i hgo
    rw [if_pos hgo, ← Option.some.inj hstep]
    exact ⟨_, rfl, h.handle_response (ha s t) time stale⟩

variable (crc32) in
/-- As long as the `FEC` packets are written, `fec_enable` puts them in between and changes nothing else. -/
theorem fec_option {copybuf : Mem} {calls : List SenderCall} (hcalls : ∀ a ∈ calls, FecWritten crc32 a)
    (h : run (call_step crc32) (fun _ _ => True) calls (.initial copybuf) = some s) :
    ∃ copybuf' fec, run (call_step crc32) (fun _ _ => True) (calls.map SenderCall.plain) (.initial copybuf) =
      some (s.plain copybuf' fec) := by
  have hmatch : ∃ t, run (call_step crc32) (fun _ _ => True) (calls.map SenderCall.plain) (.initial copybuf) = some t ∧
      Emitting crc32 s ∧ Unprotected s t := by
    refine run_simulation (R := fun s t => Emitting crc32 s ∧ Unprotected s t) ?_ h
      ⟨emitting_initial copybuf, copybuf, (Sender.initial copybuf).fec, rfl⟩
    intro a hmem u u' v hu _ hs
    obtain ⟨v', hv', hplain⟩ := call_step_unprotected hu.1 hu.2 (hcalls a hmem) hs
    exact ⟨trivial, v', hv', call_step_emitting hu.1 hs, hplain⟩
  obtain ⟨t, ht, -, copybuf', fec, rfl⟩ := hmatch
  exact ⟨copybuf', fec, ht⟩

/-- With the window 5, four packets and their `FEC` packet. -/
theorem fec_option_four :
    ∃ calls s copybuf fec, run (call_step zlib_crc32) (fun _ _ => True) calls (.initial fun _ => 0) = some s ∧
      s.sent.map Segment.chunk = [some 0, some 1, some 2, some 3, none] ∧
      run (call_step zlib_crc32) (fun _ _ => True) (calls.map SenderCall.plain) (.initial fun _ => 0) =
        some (s.plain copybuf fec) := by
  have hsome : (run (call_step zlib_crc32) (fun _ _ => True)
      (.response (some (pkt_bytes zlib_crc32 (responsePkt false 0 5))) 0 pkt_new ::
        List.replicate 4 (.fill ⟨fun _ => some [7], 0, true, true⟩ true)) (.initial fun _ => 0)).map
          (fun s => s.sent.map Segment.chunk) = some [some 0, some 1, some 2, some 3, none] := by decide +kernel
  obtain ⟨s, hs, hsent⟩ := Option.map_eq_some_iff.mp hsome
  clear hsome
  generalize zlib_crc32 = crc32 at hs ⊢
  have hwritten : ∀ a ∈ SenderCall.response (some (pkt_bytes crc32 (responsePkt false 0 5))) 0 pkt_new ::
      List.replicate 4 (.fill ⟨fun _ => some [7], 0, true, true⟩ true), FecWritten crc32 a := by
    rintro a hmem
    rcases List.mem_cons.mp hmem with rfl | hfill
    · exact response_incoming_same (responsePkt_sendable false 0 5) (by decide)
    · rw [List.eq_of_mem_replicate hfill]
      exact fun _ => rfl
  obtain ⟨copybuf, fec, hplain⟩ := fec_option crc32 hwritten hs
  exact ⟨_, s, copybuf, fec, hs, hsent, hplain⟩

end Trtp
