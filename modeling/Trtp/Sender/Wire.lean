import Trtp.Fec.Wire
import Trtp.Sender.Fill
import Trtp.Sender.FlowControl

/-!
# What the sender puts on the wire

Runs on any datagrams and with any results of `pread`, `read` and `write`. A `pread` that fails makes a packet without
data, and the other end decodes it all the same.
-/

open Trtp.Lib

namespace Trtp

variable (crc32 : List UInt8 → UInt32)

/-- The receiver decodes it to a `DATA` packet with the number of its chunk and a window, or to a `FEC` packet. -/
structure Emits (segment : Segment) (buffer : Mem) (pkt : Pkt) : Prop where
  ok : pkt_decode crc32 (readInto (some segment.datagram) buffer) (readLen (some segment.datagram)) pkt_new =
    (.PKT_OK, pkt)
  type : pkt.type = if segment.chunk.isSome then .DATA else .FEC
  tr : pkt.tr = 0
  length : segment.chunk = none → pkt.length.toNat = MAX_PAYLOAD_SIZE
  window : segment.chunk.isSome → 1 ≤ pkt.window.toNat
  seqnum : ∀ k ∈ segment.chunk, pkt.length ≠ 0 → pkt.seqnum = serial k

/-- A packet of the list. -/
structure Outgoing (index : Nat) (pkt : Pkt) : Prop where
  sendable : Sendable pkt
  type : pkt.type = .DATA
  window : 1 ≤ pkt.window.toNat
  seqnum : pkt.length ≠ 0 → pkt.seqnum = serial index

/-- The datagram is a packet of the list, or a `FEC` packet. -/
structure Encodes (segment : Segment) (pkt : Pkt) : Prop where
  datagram : segment.datagram = pkt_bytes crc32 pkt
  pkt : segment.chunk.elim (FullFec pkt) fun index => Outgoing index pkt

def AllEncoded (s : Sender) : Prop := ∀ segment ∈ s.sent, ∃ pkt, Encodes crc32 segment pkt

structure Emitting (s : Sender) : Prop where
  flow : FlowControl ⟨s, s.window.windowsize⟩
  list : ∀ node ∈ s.window.linkedList, Outgoing node.index node.pkt
  sent : AllEncoded crc32 s

variable {crc32} {s s' : Sender}

theorem emitting_initial (copybuf : Mem) : Emitting crc32 (.initial copybuf) where
  flow := flowControl_initial copybuf
  list := fun _ h => absurd h List.not_mem_nil
  sent := fun _ h => absurd h List.not_mem_nil

/-! ## The packets -/

theorem Outgoing.retime {index : Nat} {pkt : Pkt} (h : Outgoing index pkt) (timestamp : UInt32) :
    Outgoing index { pkt with timestamp } :=
  ⟨⟨h.sendable.tr, h.sendable.type, h.sendable.data, h.sendable.empty⟩, h.type, h.window, h.seqnum⟩

theorem Outgoing.emits {index : Nat} {pkt : Pkt} (h : Outgoing index pkt) (buffer : Mem) :
    ∃ pkt', Emits crc32 ⟨some index, pkt_bytes crc32 pkt⟩ buffer pkt' := by
  obtain ⟨hi, hl, hr⟩ := h.sendable.received buffer
  refine ⟨_, pkt_decode_of_tests crc32 hi hl, hr.type.trans h.type, hr.tr.trans h.sendable.tr, ?_, ?_, ?_⟩
  · simp
  · rw [hr.window]
    exact fun _ => h.window
  · intro k hk
    rw [← Option.some.inj hk, hr.length, hr.seqnum]
    exact h.seqnum

theorem FullFec.emits {pkt : Pkt} (hf : FullFec pkt) (buffer : Mem) :
    ∃ pkt', Emits crc32 ⟨none, pkt_bytes crc32 pkt⟩ buffer pkt' := by
  have hstarts := load_starts (pkt_bytes crc32 pkt) buffer
  obtain ⟨hread, hlen⟩ := readInto_whole (d := pkt_bytes crc32 pkt) hf.pkt_bytes_length.le buffer
  refine ⟨fullPkt crc32 (load (pkt_bytes crc32 pkt) buffer), ?_, ?_, ?_, fun _ => ?_, ?_, ?_⟩
  · rw [hread, hlen]
    exact hf.decode hstarts
  · exact (hdrType_bytes hstarts).trans hf.type
  · exact (hdrTr_bytes hstarts).trans hf.tr
  · exact congrArg UInt16.toNat (hf.hdrLength hstarts)
  · simp
  · simp

theorem Encodes.emits {segment : Segment} {pkt : Pkt} (h : Encodes crc32 segment pkt) (buffer : Mem) :
    ∃ pkt', Emits crc32 segment buffer pkt' := by
  obtain ⟨chunk, datagram⟩ := segment
  obtain ⟨rfl, hpkt⟩ := h
  cases chunk with
  | none => exact FullFec.emits hpkt buffer
  | some index => exact Outgoing.emits hpkt buffer

theorem pkt_set_window_pos {windowsize : Nat} (hpos : 1 ≤ windowsize) (hle : windowsize ≤ MAX_WINDOW_SIZE) (pkt : Pkt) :
    1 ≤ (pkt_set_window pkt (UInt8.ofNat windowsize)).2.window.toNat := by
  unfold MAX_WINDOW_SIZE at hle
  have hsize : (UInt8.ofNat windowsize).toNat = windowsize := by
    rw [UInt8.toNat_ofNat']
    omega
  rw [pkt_set_window_snd, if_neg (by rw [hsize, MAX_WINDOW_SIZE]; omega), BitVec.toNat_setWidth, UInt8.toNat_toBitVec,
    hsize]
  omega

theorem set_payload_outgoing {index : Nat} {pkt : Pkt} (htype : pkt.type = .DATA) (htr : pkt.tr = 0)
    (hlen : pkt.length = 0) (hnone : pkt.payload = none) (hwin : 1 ≤ pkt.window.toNat)
    (hseq : pkt.seqnum = serial index) (copybuf : Mem) (bytes_read : UInt16) :
    Outgoing index (pkt_set_payload pkt copybuf bytes_read).2 := by
  have hnot : pkt.type ≠ .FEC := by
    rw [htype]
    decide
  by_cases hle : bytes_read.toNat ≤ MAX_PAYLOAD_SIZE
  swap
  · -- the count is refused
    rw [pkt_set_payload, if_pos htype, pkt_set_length_eq (Or.inl htype), if_pos (Nat.lt_of_not_le hle)]
    refine ⟨⟨htr, hnot, fun _ => ?_, fun hne => absurd htype hne⟩, htype, hwin, fun _ => hseq⟩
    simp [hlen, hnone]
  by_cases hzero : bytes_read = 0
  · rw [pkt_set_payload, if_pos htype, pkt_set_length_data htype hle]
    simp only [hzero, if_true]
    refine ⟨⟨htr, hnot, fun _ => ?_, fun hne => absurd htype hne⟩, htype, hwin, fun _ => hseq⟩
    simp [hnone]
  · rw [pkt_set_payload_data htype hle hzero]
    exact ⟨⟨htr, hnot, fun _ => ⟨hle, bytesAt_length ..⟩, fun hne => absurd htype hne⟩, htype, hwin, fun _ => hseq⟩

theorem data_pkt_outgoing (h : FlowControl ⟨s, s.window.windowsize⟩) (copybuf : Mem) (bytes_read : UInt16)
    (time : UInt32) :
    Outgoing (chunkIndex s.global_pkt)
      (data_pkt s.window.windowsize (UInt8.ofNat (s.global_pkt.toNat % 256)) copybuf bytes_read time) := by
  have hwindow := pkt_set_window_pos h.pos h.le
    { pkt_new with type := .DATA, seqnum := UInt8.ofNat (s.global_pkt.toNat % 256) }
  rw [pkt_set_window_snd] at hwindow
  simp only [data_pkt, pkt_set_type_code, pkt_set_seqnum, pkt_set_window_snd, pkt_set_tr_zero, pkt_set_timestamp]
  exact (set_payload_outgoing rfl rfl rfl rfl hwindow (chunkIndex_serial _) copybuf bytes_read).retime time

/-- Its number is not that of a chunk. -/
theorem final_pkt_outgoing (h : FlowControl ⟨s, s.window.windowsize⟩) (index : Nat) (seqnum : UInt8) (time : UInt32) :
    Outgoing index (final_pkt s.window.windowsize seqnum time) := by
  have hc := final_pkt_carries [] s.window.windowsize index seqnum time
  have hzero := hc.length
  refine ⟨hc.sendable, hc.type, ?_, fun hne => absurd (UInt16.toNat_inj.mp hzero) hne⟩
  have hwindow := pkt_set_window_pos h.pos h.le { pkt_new with type := .DATA }
  rw [pkt_set_window_snd] at hwindow
  simp only [final_pkt, pkt_set_type_code, pkt_set_tr_zero, pkt_set_window_snd, pkt_set_seqnum, pkt_set_timestamp]
  rw [pkt_set_length_data rfl (by decide)]
  exact hwindow

/-! ## The writes -/

theorem AllEncoded.write_pkt (h : AllEncoded crc32 s) (chunk : Option Nat) {pkt : Pkt}
    (hsize : encode_size pkt ≤ PKT_MAX_LEN)
    (hpkt : chunk.elim (FullFec pkt) fun index => Outgoing index pkt) (write : Bool) :
    AllEncoded crc32 (s.write_pkt crc32 chunk pkt write) := by
  cases write with
  | false => exact h
  | true =>
    rw [write_pkt_eq crc32 s chunk hsize]
    intro segment hmem
    rcases List.mem_append.mp hmem with hold | hnew
    · exact h segment hold
    · rw [List.mem_singleton.mp hnew]
      exact ⟨pkt, rfl, hpkt⟩

theorem AllEncoded.fill_fec (h : AllEncoded crc32 s) (node : Node) (writeFec : Bool) :
    AllEncoded crc32 (fill_fec crc32 s node writeFec).2 := by
  unfold Trtp.fill_fec
  simp only
  split
  swap
  · exact h
  split
  swap
  · exact h
  rename_i n0 n1 n2 n3 _ _ _ _
  have hfull := fullFec_generation n0.pkt n1.pkt n2.pkt n3.pkt
  have hwrite : AllEncoded crc32
      { s with fec := ⟨Function.update s.fec.pkts s.fec.i.toNat (some node), s.fec.i + 1⟩ } := h
  replace hwrite := hwrite.write_pkt none (encode_size_fec hfull.type) hfull writeFec
  split
  · exact hwrite
  · exact hwrite

/-- The packet that `pread` gave, and then the `FEC` packet. -/
theorem AllEncoded.fill_read (h : AllEncoded crc32 s) {bytes_read : Option (List UInt8)} {io : FillIO}
    (hpkt : Outgoing (chunkIndex s.global_pkt) (readPkt s bytes_read io)) (fec_enable : Bool) :
    AllEncoded crc32 (fill_read crc32 s bytes_read io fec_enable).state := by
  unfold readPkt at hpkt
  unfold Trtp.fill_read
  simp only
  generalize data_pkt s.window.windowsize (UInt8.ofNat (s.global_pkt.toNat % 256))
    (load (bytes_read.getD []) s.copybuf) (readCount bytes_read) io.time = pkt at hpkt ⊢
  generalize hu : Sender.add_node _ (chunkIndex s.global_pkt) pkt = u
  have hadd : AllEncoded crc32 u := by
    rw [← hu]
    exact h
  have hwrite := hadd.write_pkt (some _) hpkt.sendable.encode_size_le hpkt io.write
  split
  swap
  · exact hwrite
  split
  swap
  · exact hwrite
  split
  all_goals
    rename_i v hfec
    have hsent := hwrite.fill_fec ⟨s.allocated, chunkIndex s.global_pkt, pkt⟩ io.writeFec
    rw [hfec] at hsent
    exact hsent

theorem AllEncoded.resent_loop (io : Nat → UInt32 × Bool) {list : List Node}
    (hlist : ∀ node ∈ list, Outgoing node.index node.pkt) (k nbr_resent : Nat) (h : AllEncoded crc32 s) :
    AllEncoded crc32 (resent_loop crc32 io list k nbr_resent s).2.2 := by
  induction list generalizing k nbr_resent s with
  | nil => exact h
  | cons current next ih =>
    obtain ⟨hcurrent, hnext⟩ := List.forall_mem_cons.mp hlist
    unfold Trtp.resent_loop
    split
    swap
    · exact ih hnext _ _ h
    have hpkt := hcurrent.retime (io k).1
    have hwrite := h.write_pkt (some _) hpkt.sendable.encode_size_le hpkt (io k).2
    split
    · exact ih hnext _ _ hwrite
    · exact hwrite

/-! ## The calls -/

theorem FlowControl.now {accepted : Nat} (h : FlowControl ⟨s, accepted⟩) : FlowControl ⟨s, s.window.windowsize⟩ := by
  have haccepted : s.window.windowsize = accepted := h.accepted
  rw [haccepted]
  exact h

theorem Emitting.fill (h : Emitting crc32 s) {io : FillIO} {fec_enable : Bool}
    (hs : turn_step crc32 s io fec_enable = some s') : Emitting crc32 s' := by
  have hflow := (h.flow.fill hs).now
  by_cases hend : io.pread (chunkOffset s.global_pkt) = some []
  · obtain ⟨_, _, _, ⟨_, rfl⟩ | ⟨hread, _⟩⟩ := turn_step_cases hs
    · exact ⟨hflow, h.list, h.sent⟩
    · exact absurd hend hread
  have hpkt : Outgoing (chunkIndex s.global_pkt) (turn_node s io).pkt := data_pkt_outgoing h.flow ..
  refine ⟨hflow, ?_, ?_⟩
  · obtain ⟨_, _, _, ⟨hread, _⟩ | ⟨_, copybuf, stats, sent, io_error, rfl⟩⟩ := turn_step_cases hs
    · exact absurd hread hend
    intro node hmem
    rcases List.mem_append.mp hmem with hold | hnew
    · exact h.list node hold
    · rw [List.mem_singleton.mp hnew]
      exact hpkt
  · rw [(turn_step_read hend hs).2]
    exact h.sent.fill_read hpkt fec_enable

theorem Emitting.final (h : Emitting crc32 s) {time : UInt32} {write : Bool}
    (hs : final_step crc32 s time write = some s') : Emitting crc32 s' := by
  have hflow := (h.flow.final hs).now
  have hpkt := final_pkt_outgoing h.flow (chunkIndex s.global_pkt) (s.window.seqnumTail + 1) time
  refine ⟨hflow, ?_, ?_⟩
  · obtain ⟨_, _, _, _, copybuf, stats, sent, io_error, allocated, rfl, _⟩ := final_step_eq hs
    cases write with
    | false => exact h.list
    | true =>
      intro node hmem
      rcases List.mem_append.mp hmem with hold | hnew
      · exact h.list node hold
      · rw [List.mem_singleton.mp hnew]
        exact hpkt
  · unfold final_step at hs
    split at hs
    swap
    · contradiction
    obtain rfl := Option.some.inj hs
    have hlast : AllEncoded crc32
        { s with lastPkt := true, window := { s.window with seqnumTail := s.window.seqnumTail + 1 } } := h.sent
    have hwrite := hlast.write_pkt (some _) hpkt.sendable.encode_size_le hpkt write
    unfold send_final_pkt
    simp only
    split
    · exact h.sent
    split
    · exact hwrite
    · exact hwrite

theorem Emitting.resend (h : Emitting crc32 s) {io : Nat → UInt32 × Bool}
    (hs : resent_step crc32 s io = some s') : Emitting crc32 s' := by
  have hflow := (h.flow.resend hs).now
  refine ⟨hflow, ?_, ?_⟩
  · obtain ⟨_, _, copybuf, stats, sent, io_error, list, hlist, rfl⟩ := resent_step_eq hs
    intro node hmem
    obtain ⟨old, hold, timestamp, rfl⟩ := exists_of_forall₂ hlist.flip hmem
    exact (h.list old hold).retime timestamp
  · have hsent := h.sent.resent_loop io h.list 0 0
    unfold resent_step at hs
    split at hs
    swap
    · contradiction
    obtain rfl := Option.some.inj hs
    split
    · exact hsent
    · exact hsent

theorem Emitting.response (h : Emitting crc32 s) {bytes_read : Option (List UInt8)} {time : UInt32} {stale : Pkt}
    (hs : response_step crc32 s bytes_read time stale = some s') : Emitting crc32 s' := by
  have hflow := (h.flow.response hs).now
  obtain ⟨_, ⟨_, copybuf, stats, rfl⟩ | ⟨pkt, u, fec, stats, _, hu, _, _, _, rfl⟩⟩ := response_step_cases hs
  · exact ⟨hflow, h.list, h.sent⟩
  have hmem : ∀ node ∈ (handled_window u.window pkt).linkedList, node ∈ u.window.linkedList := fun node hnode =>
    (handled_window_suffix _ _).mem hnode
  rcases updated_cases hu with ⟨_, _, rfl⟩ | ⟨_, rfl⟩
  · exact ⟨hflow, fun node hnode => h.list node (hmem node hnode), h.sent⟩
  · refine ⟨hflow, fun node hnode => h.list node ?_, h.sent⟩
    have htake := hmem node hnode
    rw [Protocol.shrink_window_linkedList] at htake
    exact List.mem_of_mem_take htake

theorem call_step_emitting {a : SenderCall} (h : Emitting crc32 s) (hs : call_step crc32 s a = some s') :
    Emitting crc32 s' := by
  cases a with
  | fill io fec_enable => exact h.fill hs
  | final time write => exact h.final hs
  | resend io => exact h.resend hs
  | response bytes_read time stale => exact h.response hs

/-! ## The runs -/

theorem emitting_run {copybuf : Mem} {ok : Sender → SenderCall → Prop}
    (h : Reach (call_step crc32) ok (.initial copybuf) s) : Emitting crc32 s :=
  h.invariant (P := Emitting crc32) (emitting_initial copybuf) fun _ _ _ hs _ => call_step_emitting hs

/-- What the fourth packet is put together with: three packets of the list, and `fec_generation` reads nothing past
their payloads. -/
def FecReadable (s : Sender) (node : Node) : Prop :=
  ∃ n0 ∈ s.fec.pkts 0, ∃ n1 ∈ s.fec.pkts 1, ∃ n2 ∈ s.fec.pkts 2,
    (∀ n ∈ [n0, n1, n2], n.addr ∈ s.window.linkedList.map Node.addr) ∧ FecReads n0.pkt n1.pkt n2.pkt node.pkt

instance (s : Sender) (node : Node) : Decidable (FecReadable s node) :=
  inferInstanceAs (Decidable (∃ n0 ∈ s.fec.pkts 0, ∃ n1 ∈ s.fec.pkts 1, ∃ n2 ∈ s.fec.pkts 2, _ ∧ _))

/-- The source says what the call does, also with the packets of a `FEC`. -/
def WireSafe (s : Sender) : SenderCall → Prop
  | .fill io fec_enable => ¬ Overruns s io fec_enable ∧
      (fec_enable = true ∧ io.pread (chunkOffset s.global_pkt) ≠ some [] ∧ io.write = true ∧ s.fec.i = 3 →
        FecReadable s (turn_node s io))
  | a => ¬ Strays s a

instance (s : Sender) (a : SenderCall) : Decidable (WireSafe s a) :=
  match a with
  | .fill _ _ => inferInstanceAs (Decidable (_ ∧ (_ → _)))
  | .final .. | .resend _ | .response .. => inferInstanceAs (Decidable (¬ Strays s _))

variable (crc32) in
/-- Whatever the calls return, as long as their effect is defined, every datagram that the sender writes decodes, and
says what it was made for. -/
theorem sent_sound {copybuf : Mem} (h : Reach (call_step crc32) WireSafe (.initial copybuf) s) :
    ∀ segment ∈ s.sent, ∀ buffer, ∃ pkt, Emits crc32 segment buffer pkt := by
  intro segment hmem buffer
  obtain ⟨pkt, hpkt⟩ := (emitting_run h).sent segment hmem
  exact hpkt.emits buffer

/-- Four packets and their `FEC`. Then `pread` fails, and a packet without data is sent for the chunk. -/
def wireRun : List SenderCall :=
  .response (some (pkt_bytes zlib_crc32 (responsePkt false 0 5))) 0 pkt_new ::
    List.replicate 4 (.fill ⟨fun _ => some [7], 0, true, true⟩ true) ++ [.fill ⟨fun _ => none, 0, true, true⟩ true]

theorem sent_sound_failed_read :
    ∃ s, Reach (call_step zlib_crc32) WireSafe (.initial fun _ => 0) s ∧
      s.sent.map Segment.chunk = [some 0, some 1, some 2, some 3, none, some 4] ∧
      ∀ segment ∈ s.sent, ∀ buffer, ∃ pkt, Emits zlib_crc32 segment buffer pkt := by
  have hdone : (run (call_step zlib_crc32) WireSafe wireRun (.initial fun _ => 0)).any
      (fun s => s.sent.map Segment.chunk = [some 0, some 1, some 2, some 3, none, some 4]) = true := by
    decide +kernel
  obtain ⟨s, hrun, hchunks⟩ := (Option.any_eq_true _ _).mp hdone
  have hreach := run_reach hrun
  exact ⟨s, hreach, of_decide_eq_true hchunks, sent_sound zlib_crc32 hreach⟩

end Trtp
