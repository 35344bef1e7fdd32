import Trtp.Refine.Carry
import Trtp.Sender.Response
import Trtp.Protocol.Sender

/-!
# The sender refines the protocol's

Each step of the code is the step of `Protocol.Sender` with the same window, or none.
-/

open Trtp.Lib

namespace Trtp

open Protocol (Item)

variable (crc32 : List UInt8 → UInt32) (file : List UInt8)

/-- The state of the code stands for the state of the protocol. What is in the list need not be on its way. -/
structure SenderCarries (s : Sender) (t : Protocol.Sender) : Prop where
  eof : s.eof_reached = t.eof_reached
  lastPkt : s.lastPkt = t.lastPkt
  count : s.global_pkt = t.global_pkt
  window : Window.Rel (NodeCarries file) s.window t.window
  stopped : s.stopped = some .allAcked ↔ t.stopped = true
  sent : SegmentsCarry crc32 file s.sent t.sent
  io : s.io_error = false

/-- What is in the list was sent. -/
structure SenderRel (s : Sender) (t : Protocol.Sender) : Prop extends SenderCarries crc32 file s t where
  listed : t.Listed

theorem senderRel_initial (copybuf : Mem) : SenderRel crc32 file (.initial copybuf) .initial where
  eof := rfl
  lastPkt := rfl
  count := rfl
  window := .initial
  stopped := by simp [Sender.initial, Protocol.Sender.initial]
  sent := ⟨by simp [Sender.initial], by simp [Protocol.Sender.initial]⟩
  listed := Protocol.listed_initial
  io := rfl

/-! ## The packets -/

theorem data_pkt_carries {k : Nat} (hk : k < chunkCount file) (windowsize : Nat) (copybuf : Mem) (time : UInt32) :
    Carries file (data_pkt windowsize (serial k) (load (fileChunk file k) copybuf)
      (UInt16.ofNat (fileChunk file k).length) time) (.chunk k) := by
  have hle := fileChunk_length_le file k
  have hne : fileChunk file k ≠ [] := by
    rw [ne_eq, fileChunk_eq_nil_iff]
    omega
  have hpos := List.length_pos_iff.mpr hne
  have hlen : (UInt16.ofNat (fileChunk file k).length).toNat = (fileChunk file k).length := by
    unfold MAX_PAYLOAD_SIZE at hle
    rw [UInt16.toNat_ofNat']
    omega
  have hzero : ¬ UInt16.ofNat (fileChunk file k).length = 0 := by
    rw [← UInt16.toNat_inj, hlen]
    simpa using hne
  have hfields : data_pkt windowsize (serial k) (load (fileChunk file k) copybuf)
      (UInt16.ofNat (fileChunk file k).length) time =
      { pkt_new with
        type := .DATA
        window := (data_pkt windowsize (serial k) (load (fileChunk file k) copybuf)
          (UInt16.ofNat (fileChunk file k).length) time).window
        length := UInt16.ofNat (fileChunk file k).length
        seqnum := serial k
        timestamp := time
        payload := some (fileChunk file k) } := by
    have hbytes := bytesAt_load (fileChunk file k) copybuf
    simp only [data_pkt, pkt_set_type_code, pkt_set_seqnum, pkt_set_window_snd, pkt_set_tr_zero, pkt_set_timestamp]
    rw [pkt_set_payload_data rfl (by omega) hzero, hlen, hbytes]
    rfl
  rw [hfields]
  refine ⟨⟨rfl, by simp, fun _ => ⟨?_, ?_⟩, by simp⟩, rfl, rfl, rfl, ?_⟩
  · simp only [hlen]
    exact hle
  · simp only [hlen, Option.getD_some]
  · rintro j ⟨⟩
    exact hk

theorem final_pkt_carries (windowsize : Nat) (k : Nat) (seqnum : UInt8) (time : UInt32) :
    Carries file (final_pkt windowsize seqnum time) (.final k seqnum) := by
  have hfields : final_pkt windowsize seqnum time =
      { pkt_new with
        type := .DATA
        window := (final_pkt windowsize seqnum time).window
        seqnum
        timestamp := time } := by
    simp only [final_pkt, pkt_set_type_code, pkt_set_tr_zero, pkt_set_window_snd, pkt_set_seqnum, pkt_set_timestamp]
    rw [pkt_set_length_data rfl (by decide)]
    rfl
  rw [hfields]
  exact ⟨⟨rfl, by simp, fun _ => ⟨by simp [pkt_new], by simp [pkt_new]⟩, by simp⟩, rfl, rfl, rfl, by simp⟩

/-! ## Writes -/

theorem write_pkt_eq (s : Sender) (chunk : Option Nat) {pkt : Pkt} (h : encode_size pkt ≤ PKT_MAX_LEN) :
    s.write_pkt crc32 chunk pkt true =
      { s with
        copybuf := load (pkt_bytes crc32 pkt) s.copybuf
        sent := s.sent ++ [⟨chunk, pkt_bytes crc32 pkt⟩] } := by
  simp [Sender.write_pkt, pkt_encode, Nat.not_lt.mpr h, bytesAt_load]

theorem encode_size_fec {pkt : Pkt} (h : pkt.type = .FEC) : encode_size pkt ≤ PKT_MAX_LEN := by
  simp [encode_size, predict_header_length, pkt_get_type, h, MAX_PAYLOAD_SIZE, PKT_MAX_LEN]

theorem fill_fec_spec (s : Sender) (node : Node) :
    ∃ copybuf fec stats sent, fill_fec crc32 s node true = (true, { s with copybuf, fec, stats, sent }) ∧
      (sent = s.sent ∨ ∃ segment, FecSegment crc32 segment ∧ sent = s.sent ++ [segment]) := by
  unfold fill_fec
  simp only [if_true]
  split
  · split
    · rename_i n0 n1 n2 n3 _ _ _ _
      have htype := fec_generation_type n0.pkt n1.pkt n2.pkt n3.pkt
      rw [write_pkt_eq crc32 _ none (encode_size_fec htype)]
      exact ⟨_, _, _, _, rfl, Or.inr ⟨_, ⟨rfl, _, htype, rfl⟩, rfl⟩⟩
    · exact ⟨_, _, _, _, rfl, Or.inl rfl⟩
  · exact ⟨_, _, _, _, rfl, Or.inl rfl⟩

/-! ## `fill_window` -/

variable {crc32 file}

theorem SegmentsCarry.fec {segments sent : List Segment} {items : List Item}
    (h : SegmentsCarry crc32 file segments items)
    (hsent : sent = segments ∨ ∃ segment, FecSegment crc32 segment ∧ sent = segments ++ [segment]) :
    SegmentsCarry crc32 file sent items := by
  rcases hsent with rfl | ⟨segment, hfec, rfl⟩
  · exact h
  · exact h.again (Or.inl hfec)

theorem chunkIndex_serial (g : UInt64) : UInt8.ofNat (g.toNat % 256) = serial (chunkIndex g) := by
  apply UInt8.toNat_inj.mp
  rw [serial_toNat, Protocol.chunkIndex_eq, UInt8.toNat_ofNat']
  omega

theorem filePread_chunk (g : UInt64) :
    filePread file (chunkOffset g) =
      if 2 ^ 54 ≤ chunkIndex g then none else some (fileChunk file (chunkIndex g)) := by
  have hoff : (chunkOffset g).toNat = MAX_PAYLOAD_SIZE * chunkIndex g := by
    have hmul : (chunkOffset g).toNat = 512 * g.toNat % 2 ^ 64 := by
      rw [chunkOffset, UInt64.toNat_mul]
      rfl
    rw [chunkIndex, hmul, MAX_PAYLOAD_SIZE]
    omega
  unfold filePread fileChunk
  rw [hoff, MAX_PAYLOAD_SIZE]
  by_cases h : 2 ^ 54 ≤ chunkIndex g
  · rw [if_pos h, if_neg (by omega)]
  · rw [if_neg h, if_pos (by omega)]

variable (crc32) in
/-- The state after a turn that reads a chunk. -/
structure Pushed (s s' : Sender) (node : Node) : Prop where
  eof : s'.eof_reached = s.eof_reached
  lastPkt : s'.lastPkt = s.lastPkt
  count : s'.global_pkt = s.global_pkt + 1
  window : s'.window =
    { s.window with
      seqnumHead := if s.window.linkedList.isEmpty then node.pkt.seqnum else s.window.seqnumHead
      seqnumTail := node.pkt.seqnum
      linkedList := s.window.linkedList ++ [node] }
  stopped : s'.stopped = s.stopped
  io : s'.io_error = s.io_error
  sent : ∃ sent, sent = s.sent ++ [⟨some node.index, pkt_bytes crc32 node.pkt⟩] ∧
    (s'.sent = sent ∨ ∃ segment, FecSegment crc32 segment ∧ s'.sent = sent ++ [segment])

theorem SenderCarries.pushed {s s' : Sender} {t : Protocol.Sender} {node : Node} (h : SenderCarries crc32 file s t)
    (hnode : NodeCarries file node (.chunk (chunkIndex t.global_pkt))) (hp : Pushed crc32 s s' node) :
    SenderCarries crc32 file s' t.push := by
  have hseq := hnode.pkt.seqnum
  obtain ⟨sent, rfl, hfec⟩ := hp.sent
  refine ⟨?_, ?_, ?_, ?_, ?_, ?_, ?_⟩
  · rw [hp.eof]; exact h.eof
  · rw [hp.lastPkt]; exact h.lastPkt
  · rw [hp.count, h.count]; rfl
  · rw [hp.window, hseq, h.window.isEmpty, h.window.head]
    refine ⟨rfl, rfl, h.window.size, ?_⟩
    exact List.rel_append h.window.list (.cons hnode .nil)
  · rw [hp.stopped]; exact h.stopped
  · exact (h.sent.add ⟨congrArg some hnode.index, _, hnode.pkt, rfl⟩).fec hfec
  · rw [hp.io]; exact h.io

variable (crc32) in
/-- The state once the packet is in the list and on the wire. -/
def written (s : Sender) (copybuf : Mem) (pkt : Pkt) : Sender :=
  { s with
    copybuf := load (pkt_bytes crc32 pkt) copybuf
    window := { s.window with
      seqnumHead := if s.window.linkedList.isEmpty then pkt.seqnum else s.window.seqnumHead
      linkedList := s.window.linkedList ++ [⟨s.allocated, chunkIndex s.global_pkt, pkt⟩] }
    allocated := s.allocated + 1
    sent := s.sent ++ [⟨some (chunkIndex s.global_pkt), pkt_bytes crc32 pkt⟩] }

theorem fill_read_written {s : Sender} {d : List UInt8} {time : Nat → UInt32} {k : Nat} {pkt : Pkt}
    (hpkt : data_pkt s.window.windowsize (serial (chunkIndex s.global_pkt)) (load d s.copybuf)
      (UInt16.ofNat d.length) (time k) = pkt)
    (hseq : pkt.seqnum = serial (chunkIndex s.global_pkt)) (hsize : encode_size pkt ≤ PKT_MAX_LEN)
    (fec_enable : Bool) :
    fill_read crc32 s (some d) (fileCalls file time k) fec_enable =
      if fec_enable then
        match fill_fec crc32 (written crc32 s (load d s.copybuf) pkt) ⟨s.allocated, chunkIndex s.global_pkt, pkt⟩
          true with
        | (true, s') => .filled (fill_count s' pkt.seqnum)
        | (false, s') => .failed s'
      else .filled (fill_count (written crc32 s (load d s.copybuf) pkt) pkt.seqnum) := by
  simp only [fill_read, fileCalls, readCount, Option.getD_some, Option.isNone_some, Bool.or_false, if_true,
    chunkIndex_serial, hpkt]
  rw [write_pkt_eq crc32 _ _ hsize, hseq]
  simp only [written, hseq]
  rfl

theorem fill_read_rel {s : Sender} {t : Protocol.Sender} (h : SenderCarries crc32 file s t)
    (hk : chunkIndex s.global_pkt < chunkCount file) (time : Nat → UInt32) (k : Nat) (fec_enable : Bool) :
    ∃ s', fill_read crc32 s (some (fileChunk file (chunkIndex s.global_pkt))) (fileCalls file time k) fec_enable =
      .filled s' ∧ SenderCarries crc32 file s' t.push ∧ s'.stopped = s.stopped := by
  have hc := data_pkt_carries file hk s.window.windowsize s.copybuf (time k)
  generalize hpkt : data_pkt s.window.windowsize (serial (chunkIndex s.global_pkt))
    (load (fileChunk file (chunkIndex s.global_pkt)) s.copybuf)
    (UInt16.ofNat (fileChunk file (chunkIndex s.global_pkt)).length) (time k) = pkt at hc
  have hnode : NodeCarries file ⟨s.allocated, chunkIndex s.global_pkt, pkt⟩ (.chunk (chunkIndex t.global_pkt)) := by
    rw [← h.count]
    exact ⟨hc, rfl⟩
  rw [fill_read_written hpkt hc.seqnum hc.sendable.encode_size_le]
  cases fec_enable with
  | false => exact ⟨_, rfl, h.pushed hnode ⟨rfl, rfl, rfl, rfl, rfl, rfl, _, rfl, Or.inl rfl⟩, rfl⟩
  | true =>
    obtain ⟨copybuf, fec, stats, sent, hfec, hsent⟩ := fill_fec_spec crc32
      (written crc32 s (load (fileChunk file (chunkIndex s.global_pkt)) s.copybuf) pkt)
      ⟨s.allocated, chunkIndex s.global_pkt, pkt⟩
    rw [if_pos rfl, hfec]
    exact ⟨_, rfl, h.pushed hnode ⟨rfl, rfl, rfl, rfl, rfl, rfl, _, rfl, hsent⟩, rfl⟩

/-! A `pread` that fails is remembered. -/

theorem fill_fec_io_error {s s' : Sender} {node : Node} {ok : Bool} (h : fill_fec crc32 s node true = (ok, s')) :
    ok = true ∧ s'.io_error = s.io_error := by
  obtain ⟨copybuf, fec, stats, sent, hfec, _⟩ := fill_fec_spec crc32 s node
  obtain ⟨rfl, rfl⟩ := Prod.mk.inj (h.symm.trans hfec)
  exact ⟨rfl, rfl⟩

theorem write_pkt_io_error (s : Sender) (chunk : Option Nat) (pkt : Pkt) :
    (s.write_pkt crc32 chunk pkt true).io_error = s.io_error := by
  simp [Sender.write_pkt]

theorem fill_read_io_error (s : Sender) (bytes_read : Option (List UInt8)) (time : Nat → UInt32) (k : Nat)
    (fec_enable : Bool) (h : s.io_error = true ∨ bytes_read = none) :
    ∃ s', fill_read crc32 s bytes_read (fileCalls file time k) fec_enable = .filled s' ∧ s'.io_error = true := by
  have hio : (s.io_error || bytes_read.isNone) = true := by
    rcases h with h | rfl
    · rw [h]; rfl
    · simp
  simp only [fill_read, fileCalls, if_true, hio]
  cases fec_enable with
  | false => exact ⟨_, rfl, by simp [fill_count, write_pkt_io_error, Sender.add_node]⟩
  | true =>
    rw [if_pos rfl]
    split
    · rename_i hfec
      exact ⟨_, rfl, (fill_fec_io_error hfec).2.trans (write_pkt_io_error ..)⟩
    · rename_i hfec
      exact absurd (fill_fec_io_error hfec).1 (by decide)

theorem fill_turn_io_error {s : Sender} (h : s.io_error = true) (time : Nat → UInt32) (k : Nat) (fec_enable : Bool) :
    ∃ s', (fill_turn crc32 s (fileCalls file time k) fec_enable = .eof s' ∨
        fill_turn crc32 s (fileCalls file time k) fec_enable = .filled s') ∧ s'.io_error = true := by
  unfold fill_turn
  split
  · exact ⟨_, Or.inl rfl, h⟩
  · obtain ⟨s', hs', hio⟩ := fill_read_io_error s
      ((fileCalls file time k).pread (chunkOffset s.global_pkt)) time k fec_enable (Or.inl h)
    exact ⟨s', Or.inr hs', hio⟩

theorem fill_loop_io_error (time : Nat → UInt32) (fec_enable : Bool) (room n_filled : Nat) {s : Sender}
    (h : s.io_error = true) : (fill_loop crc32 (fileCalls file time) fec_enable room n_filled s).2.io_error = true := by
  induction room generalizing s n_filled with
  | zero => exact h
  | succ room ih =>
    unfold fill_loop
    split
    · obtain ⟨s', hs' | hs', hio⟩ := fill_turn_io_error h time n_filled fec_enable
      · rw [hs']
        exact hio
      · rw [hs']
        exact ih (n_filled + 1) hio
    · exact h

/-- `fill_window` refines that of the protocol, or fails in `pread`. -/
theorem fill_loop_rel (time : Nat → UInt32) (fec_enable : Bool) (room n_filled : Nat) {s : Sender}
    {t : Protocol.Sender} (h : SenderCarries crc32 file s t) :
    match Protocol.Sender.fill (chunkCount file) room t with
    | some t' =>
      SenderCarries crc32 file (fill_loop crc32 (fileCalls file time) fec_enable room n_filled s).2 t' ∧
        (fill_loop crc32 (fileCalls file time) fec_enable room n_filled s).2.stopped = s.stopped
    | none => (fill_loop crc32 (fileCalls file time) fec_enable room n_filled s).2.io_error = true := by
  induction room generalizing s t n_filled with
  | zero => exact ⟨h, rfl⟩
  | succ room ih =>
    have hpread : (fileCalls file time n_filled).pread (chunkOffset s.global_pkt) = _ := filePread_chunk s.global_pkt
    unfold fill_loop Protocol.Sender.fill
    rw [h.window.length, h.window.size, h.eof, ← h.count]
    by_cases hguard : t.window.linkedList.length < t.window.windowsize ∧ t.eof_reached = false
    swap
    · rw [if_neg hguard, if_neg hguard]
      exact ⟨h, rfl⟩
    rw [if_pos hguard, if_pos hguard]
    by_cases hoff : 2 ^ 54 ≤ chunkIndex s.global_pkt
    · rw [if_pos hoff] at hpread ⊢
      obtain ⟨s', hs', hio⟩ := fill_read_io_error s none time n_filled fec_enable
        (Or.inr rfl)
      have hturn : fill_turn crc32 s (fileCalls file time n_filled) fec_enable = .filled s' := by
        unfold fill_turn
        rw [hpread]
        exact hs'
      rw [hturn]
      exact fill_loop_io_error time fec_enable room (n_filled + 1) hio
    rw [if_neg hoff] at hpread ⊢
    by_cases hend : chunkCount file ≤ chunkIndex s.global_pkt
    · have hnil : fileChunk file (chunkIndex s.global_pkt) = [] := (fileChunk_eq_nil_iff file _).mpr hend
      have hturn : fill_turn crc32 s (fileCalls file time n_filled) fec_enable =
          .eof { s with eof_reached := true } := by
        unfold fill_turn
        rw [hpread, hnil]
      rw [if_pos hend, hturn]
      exact ⟨⟨rfl, h.lastPkt, rfl, h.window, h.stopped, h.sent, h.io⟩, rfl⟩
    · have hne : fileChunk file (chunkIndex s.global_pkt) ≠ [] := by
        rw [ne_eq, fileChunk_eq_nil_iff]
        exact hend
      obtain ⟨s', hs', hrel, hstop⟩ := fill_read_rel h (by omega) time n_filled fec_enable
      have hturn : fill_turn crc32 s (fileCalls file time n_filled) fec_enable = .filled s' := by
        unfold fill_turn
        rw [hpread]
        split
        · rename_i heq
          exact absurd (Option.some.inj heq) hne
        · exact hs'
      rw [if_neg hend, hturn, ← hstop]
      exact ih (n_filled + 1) hrel

/-! ## `send_final_pkt` -/

theorem send_final_pkt_rel {s : Sender} {t : Protocol.Sender} (h : SenderCarries crc32 file s t) (time : UInt32) :
    SenderCarries crc32 file (send_final_pkt crc32 { s with lastPkt := true } time true).2 t.final ∧
      (send_final_pkt crc32 { s with lastPkt := true } time true).2.stopped = s.stopped := by
  have hc := final_pkt_carries file s.window.windowsize (chunkIndex s.global_pkt) (s.window.seqnumTail + 1) time
  have hok : (pkt_encode crc32 (final_pkt s.window.windowsize (s.window.seqnumTail + 1) time) s.copybuf
      PKT_MAX_LEN).1 = .PKT_OK := by rw [hc.sendable.encode]
  simp only [send_final_pkt, hok, ne_eq, not_true_eq_false, if_false, if_true]
  rw [write_pkt_eq crc32 _ _ hc.sendable.encode_size_le]
  have htail : s.window.seqnumTail + 1 = t.window.seqnumTail + 1 := by rw [h.window.tail]
  rw [h.count, htail] at hc
  refine ⟨⟨h.eof, rfl, h.count, ?_, h.stopped, ?_, h.io⟩, rfl⟩
  · refine ⟨h.window.head, htail, h.window.size, ?_⟩
    refine List.rel_append h.window.list (.cons ⟨?_, congrArg chunkIndex h.count⟩ .nil)
    rw [htail]
    exact hc
  · refine h.sent.add ⟨?_, _, hc, ?_⟩
    · rw [h.count]
      rfl
    · rw [htail]

/-! ## `resent_pkt` -/

theorem resent_loop_rel (io : Nat → UInt32) {list : List Node} {items : List Item}
    (hl : List.Forall₂ (NodeCarries file) list items) (k nbr_resent : Nat) {s : Sender} {t : Protocol.Sender}
    (h : SenderCarries crc32 file s t) (hsent : ∀ x ∈ items, x ∈ t.sent) :
    List.Forall₂ (NodeCarries file) (resent_loop crc32 (fun k => (io k, true)) list k nbr_resent s).2.1 items ∧
      SenderCarries crc32 file (resent_loop crc32 (fun k => (io k, true)) list k nbr_resent s).2.2 t ∧
      (resent_loop crc32 (fun k => (io k, true)) list k nbr_resent s).2.2.stopped = s.stopped := by
  induction hl generalizing k nbr_resent s with
  | nil => exact ⟨.nil, h, rfl⟩
  | @cons node x nodes xs hx _ ih =>
    have hxs : ∀ y ∈ xs, y ∈ t.sent := fun y hy => hsent y (List.mem_cons_of_mem x hy)
    unfold resent_loop
    split
    · have hc := hx.pkt.retime (io k)
      simp only [if_true]
      rw [write_pkt_eq crc32 _ _ hc.sendable.encode_size_le]
      have hagain : SegmentsCarry crc32 file
          (s.sent ++ [⟨some node.index, pkt_bytes crc32 (pkt_set_timestamp node.pkt (io k)).2⟩]) t.sent :=
        h.sent.again (Or.inr ⟨x, hsent x List.mem_cons_self, congrArg some hx.index, _, hc, rfl⟩)
      obtain ⟨h1, h2, h3⟩ := ih (k + 1) (nbr_resent + 1) (s := { s with
        copybuf := load (pkt_bytes crc32 (pkt_set_timestamp node.pkt (io k)).2) s.copybuf
        sent := s.sent ++ [⟨some node.index, pkt_bytes crc32 (pkt_set_timestamp node.pkt (io k)).2⟩]
        lastRst := if pkt_get_length (pkt_set_timestamp node.pkt (io k)).2 = 0 then s.lastRst + 1 else s.lastRst
        stats := { s.stats with packet_retransmitted := s.stats.packet_retransmitted + 1 } })
        ⟨h.eof, h.lastPkt, h.count, h.window, h.stopped, hagain, h.io⟩ hxs
      exact ⟨.cons ⟨hc, hx.index⟩ h1, h2, h3⟩
    · obtain ⟨h1, h2, h3⟩ := ih (k + 1) nbr_resent h hxs
      exact ⟨.cons hx h1, h2, h3⟩

theorem resent_step_rel {s s' : Sender} {t : Protocol.Sender} (h : SenderCarries crc32 file s t) (hlisted : t.Listed)
    {time : Nat → UInt32} (hs : resent_step crc32 s (fun k => (time k, true)) = some s') :
    SenderCarries crc32 file s' t := by
  unfold resent_step at hs
  split at hs
  swap
  · contradiction
  rename_i hguard
  obtain ⟨h1, h2, h3⟩ := resent_loop_rel time h.window.list 0 0 h hlisted
  have hrel : SenderCarries crc32 file (resent_pkt crc32 s fun k => (time k, true)).2 t :=
    ⟨h2.eof, h2.lastPkt, h2.count, ⟨h2.window.head, h2.window.tail, h2.window.size, h1⟩, h2.stopped, h2.sent,
      h2.io⟩
  simp only [Option.some.injEq] at hs
  rw [← hs]
  split
  · have hgo : ¬ t.stopped = true := by
      rw [← h.stopped, hguard.1]
      simp
    refine ⟨hrel.eof, hrel.lastPkt, hrel.count, hrel.window, ?_, hrel.sent, hrel.io⟩
    simp [hgo]
  · exact hrel

/-! ## The handling of a response -/

theorem SenderCarries.ignore {s : Sender} {t : Protocol.Sender} (h : SenderCarries crc32 file s t) :
    SenderCarries crc32 file s.ignore t :=
  ⟨h.eof, h.lastPkt, h.count, h.window, h.stopped, h.sent, h.io⟩

theorem update_window_rel {s : Sender} {t : Protocol.Sender} (h : SenderCarries crc32 file s t) (newSize : UInt8)
    (stale : Pkt) :
    SenderCarries crc32 file (update_window s newSize stale).2 (t.update newSize.toNat (pkt_get_seqnum stale)) := by
  have hsize := h.window.size
  unfold update_window Protocol.Sender.update
  by_cases h0 : newSize = 0
  · rw [if_pos h0, if_pos (show newSize.toNat = 0 by rw [h0]; rfl)]
    exact h.ignore
  have hpos : ¬ newSize.toNat = 0 := fun hzero => h0 (UInt8.toNat_inj.mp hzero)
  rw [if_neg h0, if_neg hpos]
  by_cases heq : newSize.toNat = s.window.windowsize
  · rw [if_pos heq, if_pos (show t.window.windowsize ≤ newSize.toNat by omega)]
    exact ⟨h.eof, h.lastPkt, h.count, ⟨h.window.head, h.window.tail, heq.symm, h.window.list⟩, h.stopped, h.sent,
      h.io⟩
  rw [if_neg heq]
  by_cases hgt : newSize.toNat > s.window.windowsize
  · rw [if_pos hgt, if_pos (show t.window.windowsize ≤ newSize.toNat by omega)]
    exact ⟨h.eof, h.lastPkt, h.count, ⟨h.window.head, h.window.tail, rfl, h.window.list⟩, h.stopped, h.sent,
      h.io⟩
  · have hshrink := h.window.shrink (nodeCarries_alike file) newSize.toNat (pkt_get_seqnum stale)
    rw [if_neg hgt, if_neg (show ¬ t.window.windowsize ≤ newSize.toNat by omega)]
    refine ⟨rfl, rfl, ?_, hshrink, h.stopped, h.sent, h.io⟩
    simp only [h.count, h.window.length, hshrink.length]

theorem acked_window_rel {s : Sender} {t : Protocol.Sender} (h : SenderCarries crc32 file s t) (seqnum : UInt8) :
    Window.Rel (NodeCarries file) (acked_window s.window seqnum) (t.ack seqnum).window := by
  simp only [Protocol.Sender.ack, acked_window, h.window.can_ack_window]
  split
  · exact h.window.ack_loop (nodeCarries_alike file) _ h.window.list
  · exact h.window

theorem handle_packet_rel {s : Sender} {t : Protocol.Sender} (h : SenderCarries crc32 file s t) (pkt : Pkt)
    (time : UInt32) (stale : Pkt) :
    SenderCarries crc32 file (handle_packet s pkt time stale)
      (t.respond (decide (pkt_get_type pkt = .ACK)) (pkt_get_seqnum pkt) (pkt_get_window pkt).toNat
        (pkt_get_seqnum stale)) := by
  have hu := update_window_rel h (pkt_get_window pkt) stale
  obtain ⟨fec, stats, _, _, _, _, heq⟩ := handle_packet_eq s pkt time stale rfl
  rw [heq]
  generalize (update_window s (pkt_get_window pkt) stale).2 = u at hu
  unfold Protocol.Sender.respond
  generalize t.update (pkt_get_window pkt).toNat (pkt_get_seqnum stale) = t₁ at hu
  by_cases hack : pkt_get_type pkt = .ACK
  swap
  · simp only [handled_window, hack, false_and, if_false, decide_false, Bool.false_eq_true]
    exact ⟨hu.eof, hu.lastPkt, hu.count, hu.window, hu.stopped, hu.sent, hu.io⟩
  simp only [handled_window, hack, true_and, if_true, decide_true]
  have hwin := acked_window_rel hu (pkt_get_seqnum pkt)
  refine ⟨hu.eof, hu.lastPkt, hu.count, hwin, ?_, hu.sent, hu.io⟩
  have hstopped : (t₁.ack (pkt_get_seqnum pkt)).stopped =
      (t₁.stopped || (t₁.lastPkt && (t₁.ack (pkt_get_seqnum pkt)).window.linkedList.isEmpty)) := rfl
  rw [hstopped, ← hu.lastPkt, ← hwin.isEmpty]
  have hold := hu.stopped
  split
  · rename_i hdone
    simp [hdone.1, hdone.2]
  · rename_i hmore
    simp only [hold, Bool.or_eq_true, Bool.and_eq_true, hmore, or_false]

theorem handle_response_rel {s : Sender} {t : Protocol.Sender} (h : SenderCarries crc32 file s t)
    (bytes_read : Option (List UInt8)) (time : UInt32) (stale : Pkt) :
    match incoming crc32 s bytes_read with
    | some pkt =>
      SenderCarries crc32 file (handle_response crc32 s bytes_read time stale)
        (t.respond (decide (pkt_get_type pkt = .ACK)) (pkt_get_seqnum pkt) (pkt_get_window pkt).toNat
          (pkt_get_seqnum stale))
    | none => SenderCarries crc32 file (handle_response crc32 s bytes_read time stale) t := by
  have hread : SenderCarries crc32 file { s with copybuf := readInto bytes_read s.copybuf, lastRst := 0 } t :=
    ⟨h.eof, h.lastPkt, h.count, h.window, h.stopped, h.sent, h.io⟩
  cases hi : incoming crc32 s bytes_read with
  | none =>
    simp only [handle_response_none hi]
    exact hread.ignore
  | some pkt =>
    simp only [handle_response_some hi]
    exact handle_packet_rel hread pkt time stale

/-! ## The steps -/

variable (crc32) in
/-- The step of the protocol that a step of the code is, if it is one. -/
def SenderAction.toProtocol (s : Sender) : SenderAction → Option Protocol.SenderAction
  | .fill _ _ => some .fill
  | .final _ => some .final
  | .resend _ => none
  | .response bytes_read _ stale => (incoming crc32 s bytes_read).map fun pkt =>
    .respond (decide (pkt_get_type pkt = .ACK)) (pkt_get_seqnum pkt) (pkt_get_window pkt).toNat (pkt_get_seqnum stale)

theorem SenderCarries.going {s : Sender} {t : Protocol.Sender} (h : SenderCarries crc32 file s t)
    (hgo : s.stopped = none) : t.stopped = false := by
  by_contra hne
  rw [Bool.not_eq_false, ← h.stopped, hgo] at hne
  contradiction

theorem SenderCarries.going_of {s : Sender} {t : Protocol.Sender} (h : SenderCarries crc32 file s t)
    (hgo : t.stopped = false) (hnews : s.stopped ≠ some .noNews) : s.stopped = none := by
  have hno : s.stopped ≠ some .allAcked := by
    rw [ne_eq, h.stopped, hgo]
    simp
  rcases hs : s.stopped with _ | _ | _
  · rfl
  · exact absurd hs hno
  · exact absurd hs hnews

theorem sender_step_rel {s s' : Sender} {t : Protocol.Sender} (h : SenderRel crc32 file s t) {a : SenderAction}
    (hs : sender_step crc32 file s a = some s') :
    match a.toProtocol crc32 s with
    | some b => ∃ t', t.step (chunkCount file) b = some t' ∧ SenderRel crc32 file s' t'
    | none => SenderRel crc32 file s' t := by
  cases a with
  | fill time fec_enable =>
    simp only [SenderAction.toProtocol]
    simp only [sender_step, fill_step] at hs
    split at hs
    swap
    · contradiction
    rename_i hguard
    rw [Option.filter_some] at hs
    split at hs
    swap
    · contradiction
    rename_i hio
    have hfill :=
      fill_loop_rel time fec_enable (s.window.windowsize - s.window.linkedList.length) 0 h.toSenderCarries
    simp only [Option.some.injEq] at hs
    rw [← hs]
    cases hp : Protocol.Sender.fill (chunkCount file) (s.window.windowsize - s.window.linkedList.length) t with
    | none =>
      rw [hp] at hfill
      unfold fill_window at hio
      rw [hfill] at hio
      contradiction
    | some t' =>
      rw [hp] at hfill
      have ht : t.step (chunkCount file) .fill = some t' := by
        rw [Protocol.Sender.step, if_neg (by rw [h.going hguard.1]; simp)]
        rw [← h.eof, ← h.window.length, ← h.window.size, if_pos hguard.2, hp]
      exact ⟨t', ht, hfill.1, Protocol.sender_step_listed h.listed ht⟩
  | final time =>
    simp only [SenderAction.toProtocol]
    simp only [sender_step, final_step] at hs
    split at hs
    swap
    · contradiction
    rename_i hguard
    simp only [Option.some.injEq] at hs
    rw [← hs]
    have ht : t.step (chunkCount file) .final = some t.final := by
      rw [Protocol.Sender.step, if_neg (by rw [h.going hguard.1]; simp)]
      rw [← h.eof, ← h.lastPkt, ← h.window.length, ← h.window.size, if_pos hguard.2]
    exact ⟨t.final, ht, (send_final_pkt_rel h.toSenderCarries time).1, Protocol.sender_step_listed h.listed ht⟩
  | resend time => exact ⟨resent_step_rel h.toSenderCarries h.listed hs, h.listed⟩
  | response bytes_read time stale =>
    simp only [sender_step, response_step] at hs
    split at hs
    swap
    · contradiction
    rename_i hgo
    simp only [Option.some.injEq] at hs
    have hresp := handle_response_rel h.toSenderCarries bytes_read time stale
    rw [hs] at hresp
    simp only [SenderAction.toProtocol]
    cases hi : incoming crc32 s bytes_read with
    | none =>
      rw [hi] at hresp
      exact ⟨hresp, h.listed⟩
    | some pkt =>
      rw [hi] at hresp
      rw [Option.map_some]
      refine ⟨_, ?ht, hresp, Protocol.sender_step_listed h.listed ?ht⟩
      rw [Protocol.Sender.step, if_neg (by rw [h.going hgo]; simp)]
      exact if_pos (pkt_get_window_le pkt)

/-- A step of the protocol that a step of the code stands for is one of the code. -/
theorem sender_step_carries {s : Sender} {t t' : Protocol.Sender} (h : SenderCarries crc32 file s t)
    (hnews : s.stopped ≠ some .noNews) {a : SenderAction} {b : Protocol.SenderAction}
    (hab : a.toProtocol crc32 s = some b) (ht : t.step (chunkCount file) b = some t') :
    ∃ s', sender_step crc32 file s a = some s' ∧ SenderCarries crc32 file s' t' ∧ s'.stopped ≠ some .noNews := by
  have hgo : t.stopped = false := by
    by_contra hne
    unfold Protocol.Sender.step at ht
    rw [if_pos (by simpa using hne)] at ht
    contradiction
  have hnone := h.going_of hgo hnews
  unfold Protocol.Sender.step at ht
  rw [if_neg (by rw [hgo]; simp)] at ht
  cases a with
  | fill time fec_enable =>
    simp only [SenderAction.toProtocol, Option.some.injEq] at hab
    rw [← hab] at ht
    simp only at ht
    split at ht
    swap
    · contradiction
    rename_i hguard
    rw [← h.eof, ← h.window.length, ← h.window.size] at hguard
    rw [← h.window.length, ← h.window.size] at ht
    have hfill := fill_loop_rel time fec_enable (s.window.windowsize - s.window.linkedList.length) 0 h
    rw [ht] at hfill
    refine ⟨_, ?_, hfill.1, by rw [hfill.2]; exact hnews⟩
    have hio : (!(fill_window crc32 s (fileCalls file time) fec_enable).2.io_error) = true := by
      have := hfill.1.io
      unfold fill_window
      rw [this]
      rfl
    simp only [sender_step, fill_step]
    rw [if_pos ⟨hnone, hguard⟩, Option.filter_some, if_pos hio]
    rfl
  | final time =>
    simp only [SenderAction.toProtocol, Option.some.injEq] at hab
    rw [← hab] at ht
    simp only at ht
    split at ht
    swap
    · contradiction
    rename_i hguard
    rw [← h.lastPkt, ← h.eof, ← h.window.length, ← h.window.size] at hguard
    simp only [Option.some.injEq] at ht
    rw [← ht]
    refine ⟨_, ?_, (send_final_pkt_rel h time).1, by rw [(send_final_pkt_rel h time).2]; exact hnews⟩
    simp only [sender_step, final_step]
    rw [if_pos ⟨hnone, hguard⟩]
  | resend time => contradiction
  | response bytes_read time stale =>
    obtain ⟨pkt, hi, rfl⟩ := Option.map_eq_some_iff.mp hab
    simp only at ht
    split at ht
    swap
    · contradiction
    simp only [Option.some.injEq] at ht
    have hresp := handle_response_rel h bytes_read time stale
    rw [hi] at hresp
    rw [← ht]
    refine ⟨_, ?_, hresp, ?_⟩
    · simp only [sender_step, response_step]
      rw [if_pos hnone]
    · rcases handle_response_stopped s bytes_read time stale with hstop | hstop
      · rw [hstop]
        exact hnews
      · rw [hstop]
        simp

theorem sender_step_of_protocol {s : Sender} {t t' : Protocol.Sender} (h : SenderRel crc32 file s t)
    (hnews : s.stopped ≠ some .noNews) {a : SenderAction} {b : Protocol.SenderAction}
    (hab : a.toProtocol crc32 s = some b) (ht : t.step (chunkCount file) b = some t') :
    ∃ s', sender_step crc32 file s a = some s' ∧ SenderRel crc32 file s' t' ∧ s'.stopped ≠ some .noNews := by
  obtain ⟨s', hs', hrel, hnews'⟩ := sender_step_carries h.toSenderCarries hnews hab ht
  exact ⟨s', hs', ⟨hrel, Protocol.sender_step_listed h.listed ht⟩, hnews'⟩

end Trtp
