import Trtp.Receiver.Accounting
import Trtp.Receiver.Output
import Trtp.Receiver.Run

/-!
# What the receiver answers

Runs on any datagrams and with any results of `read` and `write`: what goes to the socket, what is counted of it, and
what had gone to the output by then.
-/

open Trtp.Lib

namespace Trtp

variable (crc32 : List UInt8 → UInt32)

/-- The sender decodes it to an `ACK` with the number of packets that were consumed, or to a `NACK`, with a window that
it takes. -/
structure Decodes (response : Response) (buffer : Mem) (pkt : Pkt) : Prop where
  ok : pkt_decode crc32 (readInto (some response.datagram) buffer) (readLen (some response.datagram)) pkt_new =
    (.PKT_OK, pkt)
  type : pkt.type = if isAck response then .ACK else .NACK
  tr : pkt.tr = 0
  length : pkt.length = 0
  window : 1 ≤ pkt.window.toNat
  seqnum : isAck response = true → pkt.seqnum = UInt8.ofNat response.consumed

/-- The packet that the response was made of. -/
structure Replies (response : Response) (pkt : Pkt) : Prop where
  datagram : response.datagram = pkt_bytes crc32 pkt
  sendable : Sendable pkt
  type : pkt.type = if isAck response then .ACK else .NACK
  window : 1 ≤ pkt.window.toNat
  seqnum : isAck response = true → pkt.seqnum = UInt8.ofNat response.consumed

/-- What holds of all that was sent. Only the final packet is consumed and not written. -/
structure Answering (r : Receiver) : Prop where
  size : SizeOk r.window
  head : r.window.seqnumHead = UInt8.ofNat r.consumed
  running : r.eof_wrote = false → r.consumed = r.stdout.length
  written : r.stdout.length ≤ r.consumed ∧ r.consumed ≤ r.stdout.length + 1
  sound : ∀ response ∈ r.sent, response.consumed ≤ r.consumed ∧ ∃ pkt, Replies crc32 response pkt
  order : r.sent.Pairwise fun a b => a.consumed ≤ b.consumed
  acks : (r.sent.filter isAck).length = r.stats.ack_sent
  nacks : (r.sent.filter fun response => !isAck response).length = r.stats.nack_sent

variable {crc32}

theorem answering_initial (buffer : Mem) : Answering crc32 (.initial buffer) where
  size := initial_sizeOk
  head := rfl
  running := fun _ => rfl
  written := ⟨Nat.le_refl 0, Nat.zero_le 1⟩
  sound := fun _ h => absurd h List.not_mem_nil
  order := .nil
  acks := rfl
  nacks := rfl

/-! ## A response -/

theorem isAck_bytes (consumed : Nat) {pkt : Pkt} {ack : Bool} (h : pkt.type = if ack then .ACK else .NACK) :
    isAck ⟨consumed, pkt_bytes crc32 pkt⟩ = ack := by
  rw [isAck, hdrType_bytes (load_starts (pkt_bytes crc32 pkt) fun _ => 0), h]
  cases ack <;> rfl

theorem Replies.type_ne {response : Response} {pkt : Pkt} (h : Replies crc32 response pkt) : pkt.type ≠ .DATA := by
  rw [h.type]
  cases isAck response <;> decide

theorem Replies.decodes {response : Response} {pkt : Pkt} (h : Replies crc32 response pkt) (buffer : Mem) :
    ∃ pkt', Decodes crc32 response buffer pkt' := by
  obtain ⟨hi, hl, hr⟩ := h.sendable.received buffer
  rw [← h.datagram] at hi hl hr
  refine ⟨_, pkt_decode_of_tests crc32 hi hl, hr.type.trans h.type, hr.tr.trans h.sendable.tr,
    hr.length.trans (h.sendable.empty h.type_ne), ?_, fun hack => hr.seqnum.trans (h.seqnum hack)⟩
  rw [hr.window]
  exact h.window

variable (crc32) in
/-- At most one response is sent and counted, and nothing is written. -/
structure Responds (ack : Bool) (r r' : Receiver) : Prop where
  size : SizeOk r'.window
  head : r'.window.seqnumHead = r.window.seqnumHead
  consumed : r'.consumed = r.consumed
  stdout : r'.stdout = r.stdout
  done : r'.eof_wrote = r.eof_wrote
  sent : (r'.sent = r.sent ∧ r'.stats.ack_sent = r.stats.ack_sent ∧ r'.stats.nack_sent = r.stats.nack_sent) ∨
    ∃ response, r'.sent = r.sent ++ [response] ∧ response.consumed = r.consumed ∧ isAck response = ack ∧
      (∃ pkt, Replies crc32 response pkt) ∧
      r'.stats.ack_sent = r.stats.ack_sent + (if ack then 1 else 0) ∧
      r'.stats.nack_sent = r.stats.nack_sent + (if ack then 0 else 1)

theorem Answering.responds {r r' : Receiver} {ack : Bool} (h : Answering crc32 r) (hr : Responds crc32 ack r r') :
    Answering crc32 r' := by
  obtain ⟨hsize, hhead, hconsumed, hstdout, hdone, hsent⟩ := hr
  rcases hsent with ⟨hsent, hacks, hnacks⟩ | ⟨response, hsent, hnow, hack, hdec, hacks, hnacks⟩
  · refine ⟨hsize, ?_, ?_, ?_, ?_, ?_, ?_, ?_⟩
    · rw [hhead, hconsumed, h.head]
    · rw [hdone, hconsumed, hstdout]
      exact h.running
    · rw [hconsumed, hstdout]
      exact h.written
    · rw [hsent, hconsumed]
      exact h.sound
    · rw [hsent]
      exact h.order
    · rw [hsent, hacks, h.acks]
    · rw [hsent, hnacks, h.nacks]
  · refine ⟨hsize, ?_, ?_, ?_, ?_, ?_, ?_, ?_⟩
    · rw [hhead, hconsumed, h.head]
    · rw [hdone, hconsumed, hstdout]
      exact h.running
    · rw [hconsumed, hstdout]
      exact h.written
    · rw [hsent, hconsumed]
      intro other hin
      rcases List.mem_append.mp hin with hold | hnew
      · exact h.sound other hold
      · rw [List.mem_singleton.mp hnew]
        exact ⟨hnow.le, hdec⟩
    · rw [hsent, List.pairwise_append]
      refine ⟨h.order, List.pairwise_singleton .., fun a ha b hb => ?_⟩
      rw [List.mem_singleton.mp hb, hnow]
      exact (h.sound a ha).1
    · rw [hsent, List.filter_append, List.length_append, h.acks, hacks]
      cases ack <;> simp [hack]
    · rw [hsent, List.filter_append, List.length_append, h.nacks, hnacks]
      cases ack <;> simp [hack]

/-- `send_response` with its counter. -/
theorem sends_response (crc32 : List UInt8 → UInt32) {r : Receiver} (hsize : SizeOk r.window) (ack : Bool)
    (seqnum : UInt8) (hseq : ack = true → seqnum = UInt8.ofNat r.consumed) (timestamp : UInt32) (write : Bool) :
    ∃ buffer sent, send_response crc32 r (if ack then .ACK else .NACK) seqnum timestamp write =
        (write, { r with buffer, sent }) ∧
      if write then ∃ response, sent = r.sent ++ [response] ∧ response.consumed = r.consumed ∧ isAck response = ack ∧
        ∃ pkt, Replies crc32 response pkt
      else sent = r.sent := by
  obtain ⟨reply, hs, htype, hnum, _, hwin, buffer, heq⟩ := send_response_sent hsize.2 ack seqnum timestamp write
  refine ⟨buffer, _, heq, ?_⟩
  cases write with
  | false => rfl
  | true =>
    have hack : isAck ⟨r.consumed, pkt_bytes crc32 reply⟩ = ack := isAck_bytes r.consumed htype
    refine ⟨_, rfl, rfl, hack, reply, rfl, hs, ?_, ?_, fun h => hnum.trans (hseq (hack.symm.trans h))⟩
    · rw [hack]
      exact htype
    · rw [hwin]
      exact hsize.1

theorem send_ack_responds (crc32 : List UInt8 → UInt32) {r : Receiver} (hsize : SizeOk r.window)
    (hhead : r.window.seqnumHead = UInt8.ofNat r.consumed) (timestamp : UInt32) (write : Bool) :
    Responds crc32 true r (send_ack crc32 r timestamp write) := by
  obtain ⟨buffer, sent, heq, hsent⟩ := sends_response crc32 hsize true r.window.seqnumHead (fun _ => hhead) timestamp
    write
  simp only [if_true] at heq
  unfold send_ack
  rw [heq]
  cases write with
  | false => exact ⟨hsize, rfl, rfl, rfl, rfl, Or.inl ⟨hsent, rfl, rfl⟩⟩
  | true =>
    obtain ⟨response, hsent, hnow, hack, hdec⟩ := hsent
    exact ⟨hsize, rfl, rfl, rfl, rfl, Or.inr ⟨response, hsent, hnow, hack, hdec, rfl, rfl⟩⟩

theorem send_troncated_nack_responds {r : Receiver} (hsize : SizeOk r.window) (pkt : Pkt) (write : Bool) :
    Responds crc32 false r (send_troncated_nack crc32 r pkt write) := by
  have hsize' : SizeOk r.count_truncated.decrease.window := decrease_window_sizeOk hsize
  have hhead : r.count_truncated.decrease.window.seqnumHead = r.window.seqnumHead := decrease_window_seqnumHead r.window
  obtain ⟨buffer, sent, heq, hsent⟩ := sends_response crc32 hsize' false (pkt_get_seqnum pkt)
    (fun h => absurd h (by decide)) (pkt_get_timestamp pkt) write
  simp only [Bool.false_eq_true, if_false] at heq
  unfold send_troncated_nack
  rw [heq]
  cases write with
  | false => exact ⟨hsize', hhead, rfl, rfl, rfl, Or.inl ⟨hsent, rfl, rfl⟩⟩
  | true =>
    obtain ⟨response, hsent, hnow, hack, hdec⟩ := hsent
    exact ⟨hsize', hhead, rfl, rfl, rfl, Or.inr ⟨response, hsent, hnow, hack, hdec, rfl, rfl⟩⟩

/-! ## `receive_data` -/

theorem store_data_responds {r : Receiver} (hsize : SizeOk r.window) (pkt : Pkt) :
    Responds crc32 false r (store_data r pkt).2 := by
  have hrest : (store_data r pkt).2.consumed = r.consumed ∧ (store_data r pkt).2.stdout = r.stdout ∧
      (store_data r pkt).2.eof_wrote = r.eof_wrote ∧
      (store_data r pkt).2.stats.ack_sent = r.stats.ack_sent ∧
      (store_data r pkt).2.stats.nack_sent = r.stats.nack_sent := by
    unfold store_data
    simp only
    split
    · split_ifs <;> exact ⟨rfl, rfl, rfl, rfl, rfl⟩
    · exact ⟨rfl, rfl, rfl, rfl, rfl⟩
  obtain ⟨hconsumed, hstdout, hdone, hacks, hnacks⟩ := hrest
  refine ⟨?_, ?_, hconsumed, hstdout, hdone, Or.inl ⟨store_data_sent r pkt, hacks, hnacks⟩⟩
  · rw [store_data_window]
    exact store_sizeOk hsize pkt
  · rw [store_data_window]
    exact store_seqnumHead r.window pkt

theorem receive_valid_responds (crc32 : List UInt8 → UInt32) {r : Receiver} (hsize : SizeOk r.window) (pkt : Pkt)
    (write : Bool) : Responds crc32 false r (receive_valid crc32 r pkt write).2 := by
  unfold receive_valid
  split
  · split
    · exact send_troncated_nack_responds hsize pkt write
    unfold Receiver.is_in_window
    split_ifs
    · exact store_data_responds hsize pkt
    · exact ⟨hsize, rfl, rfl, rfl, rfl, Or.inl ⟨rfl, rfl, rfl⟩⟩
  · exact ⟨hsize, rfl, rfl, rfl, rfl, Or.inl ⟨rfl, rfl, rfl⟩⟩
  · exact ⟨hsize, rfl, rfl, rfl, rfl, Or.inl ⟨rfl, rfl, rfl⟩⟩
  · exact ⟨hsize, rfl, rfl, rfl, rfl, Or.inl ⟨rfl, rfl, rfl⟩⟩

theorem Responds.of_read {r r' : Receiver} {bytes_read : Option (List UInt8)} {ack : Bool}
    (h : Responds crc32 ack (r.read bytes_read) r') : Responds crc32 ack r r' :=
  ⟨h.size, h.head, h.consumed, h.stdout, h.done, h.sent⟩

theorem receive_data_responds (crc32 : List UInt8 → UInt32) {r : Receiver} (hsize : SizeOk r.window)
    (bytes_read : Option (List UInt8)) (write : Bool) :
    Responds crc32 false r (receive_data crc32 r bytes_read write).2 := by
  have hread : SizeOk (r.read bytes_read).window := hsize
  by_cases hvalid : Intact crc32 (r.read bytes_read).buffer ∧ LenTests (r.read bytes_read).buffer (readLen bytes_read)
  · rw [receive_data_valid crc32 write hvalid.1 hvalid.2]
    exact (receive_valid_responds crc32 hread _ write).of_read
  by_cases htrunc : TruncTests crc32 (r.read bytes_read).buffer (readLen bytes_read)
  · rw [receive_data_truncated crc32 write htrunc]
    split
    · exact (send_troncated_nack_responds hread _ write).of_read
    · exact ⟨hsize, rfl, rfl, rfl, rfl, Or.inl ⟨rfl, rfl, rfl⟩⟩
  · rw [receive_data_ignored crc32 write hvalid htrunc]
    exact ⟨hsize, rfl, rfl, rfl, rfl, Or.inl ⟨rfl, rfl, rfl⟩⟩

/-! ## `flush_file` -/

/-- What is consumed is written, up to the final packet. -/
theorem flush_loop_consumed (wr : Nat → Option Nat) (list : List Pkt) (packet_write : Nat) {r : Receiver}
    (hhead : r.window.seqnumHead = UInt8.ofNat r.consumed) (hrunning : r.consumed = r.stdout.length) :
    (flush_loop wr list packet_write r).2.window.seqnumHead =
        UInt8.ofNat (flush_loop wr list packet_write r).2.consumed ∧
      r.consumed ≤ (flush_loop wr list packet_write r).2.consumed ∧
      ((flush_loop wr list packet_write r).2.consumed = (flush_loop wr list packet_write r).2.stdout.length ∨
        (flush_loop wr list packet_write r).1 = -1 ∧
          (flush_loop wr list packet_write r).2.consumed =
            (flush_loop wr list packet_write r).2.stdout.length + 1) := by
  induction list generalizing packet_write r with
  | nil => exact ⟨hhead, le_rfl, Or.inl hrunning⟩
  | cons current next ih =>
    have hnext : r.window.seqnumHead + 1 = UInt8.ofNat (r.consumed + 1) := by
      rw [hhead, UInt8.ofNat_add]
      rfl
    unfold flush_loop
    split
    · exact ⟨hhead, le_rfl, Or.inl hrunning⟩
    split
    · exact ⟨hnext, Nat.le_succ _, Or.inr ⟨rfl, congrArg (· + 1) hrunning⟩⟩
    split
    · exact ⟨hhead, le_rfl, Or.inl hrunning⟩
    · rename_i n _
      have hwrote : r.consumed + 1 = (r.stdout ++ [(readBuffer (pkt_get_payload current)
          (pkt_get_length current).toNat).take n]).length := by
        rw [List.length_append, List.length_singleton, hrunning]
      obtain ⟨hhead', hle, hout⟩ := ih (packet_write + 1)
        (r := flush_one r current next ((readBuffer (pkt_get_payload current) (pkt_get_length current).toNat).take n))
        hnext hwrote
      exact ⟨hhead', (Nat.le_succ _).trans hle, hout⟩

theorem flush_loop_stats (wr : Nat → Option Nat) (list : List Pkt) (packet_write : Nat) (r : Receiver) :
    (flush_loop wr list packet_write r).2.stats = r.stats := by
  induction list generalizing packet_write r with
  | nil => rfl
  | cons current next ih =>
    unfold flush_loop
    split
    · rfl
    split
    · rfl
    split
    · rfl
    · exact ih _ _

/-- `flush_file` sends nothing. -/
theorem Answering.flush_file {r : Receiver} (h : Answering crc32 r) (hgo : r.eof_wrote = false) (wr : Nat → Option Nat)
    (done : Bool) (hdone : (Trtp.flush_file r wr).1 = -1 → done = true) :
    Answering crc32 { (Trtp.flush_file r wr).2 with eof_wrote := done } := by
  obtain ⟨hhead, hle, hout⟩ := flush_loop_consumed wr r.window.linkedList 0 h.head (h.running hgo)
  have hsent := (flush_loop_keeps wr r.window.linkedList 0 r).1
  have hstats := flush_loop_stats wr r.window.linkedList 0 r
  have hsize := flush_file_windowsize r wr
  rw [← flush_file_eq] at hhead hle hout hsent hstats
  refine ⟨?_, hhead, ?_, ?_, ?_, ?_, ?_, ?_⟩
  · unfold SizeOk
    rw [hsize]
    exact h.size
  · intro hrunning
    rcases hout with heq | ⟨hend, _⟩
    · exact heq
    · exact absurd (hdone hend) (ne_true_of_eq_false hrunning)
  · rcases hout with heq | ⟨_, heq⟩
    · exact ⟨heq.ge, heq.le.trans (Nat.le_succ _)⟩
    · exact ⟨(Nat.le_succ _).trans heq.ge, heq.le⟩
  · rw [hsent]
    exact fun response hin => ⟨(h.sound response hin).1.trans hle, (h.sound response hin).2⟩
  · rw [hsent]
    exact h.order
  · rw [hsent, hstats]
    exact h.acks
  · rw [hsent, hstats]
    exact h.nacks

theorem Answering.flush {r : Receiver} (h : Answering crc32 r) (hgo : r.eof_wrote = false) (wr : Nat → Option Nat)
    (write : Bool) : Answering crc32 (flush_turn crc32 r wr write) := by
  unfold flush_turn
  simp only
  split
  · have hend := h.flush_file hgo wr true fun _ => rfl
    exact hend.responds (send_ack_responds crc32 hend.size hend.head _ write)
  · rename_i hmore
    have hsame : (Trtp.flush_file r wr).2.eof_wrote = false := by
      rw [flush_file_eq, flush_loop_eof_wrote, hgo]
    have hrun := h.flush_file hgo wr false fun hend => absurd hend hmore
    rw [← hsame] at hrun
    exact hrun

/-! ## Runs -/

theorem ack_turn_responds {r : Receiver} (hsize : SizeOk r.window)
    (hhead : r.window.seqnumHead = UInt8.ofNat r.consumed) (write : Bool) :
    Responds crc32 true r (ack_turn crc32 r write) := by
  unfold ack_turn
  split
  · obtain ⟨hsize', hhead', hconsumed, hstdout, hdone, hsent⟩ :=
      send_ack_responds crc32 hsize hhead r.lastTimestamp write
    exact ⟨hsize', hhead', hconsumed, hstdout, hdone, hsent⟩
  · exact ⟨hsize, rfl, rfl, rfl, rfl, Or.inl ⟨rfl, rfl, rfl⟩⟩

theorem loop_step_answering {r r' : Receiver} {a : LoopAction} (h : Answering crc32 r)
    (hs : loop_step crc32 r a = some r') : Answering crc32 r' := by
  obtain ⟨hgo, ⟨bytes_read, write, rfl, rfl⟩ | ⟨wr, write, rfl, rfl⟩ | ⟨write, rfl, rfl⟩⟩ := loop_step_cases hs
  · exact h.responds (receive_data_responds crc32 h.size bytes_read write)
  · exact h.flush hgo wr write
  · exact h.responds (ack_turn_responds h.size h.head write)

theorem answering_run {buffer : Mem} {r : Receiver}
    (h : Reach (loop_step crc32) (fun _ _ => True) (.initial buffer) r) : Answering crc32 r :=
  h.invariant (P := Answering crc32) (answering_initial buffer) fun _ _ _ hs _ => loop_step_answering hs

variable (crc32) in
/-- All that the receiver sends, whatever it receives: responses that the sender decodes, in the order of the number of
packets that were consumed. An `ACK` has that number, and only the final packet is consumed without being written. Each
response is counted. -/
theorem responses_sound {buffer : Mem} {r : Receiver}
    (h : Reach (loop_step crc32) (fun _ _ => True) (.initial buffer) r) :
    (∀ response ∈ r.sent, response.consumed ≤ r.consumed ∧ ∀ buffer, ∃ pkt, Decodes crc32 response buffer pkt) ∧
      r.sent.Pairwise (fun a b => a.consumed ≤ b.consumed) ∧
      r.window.seqnumHead = UInt8.ofNat r.consumed ∧
      (r.eof_wrote = false → r.consumed = r.stdout.length) ∧
      r.stdout.length ≤ r.consumed ∧ r.consumed ≤ r.stdout.length + 1 ∧
      (r.sent.filter isAck).length = r.stats.ack_sent ∧
      (r.sent.filter fun response => !isAck response).length = r.stats.nack_sent := by
  have hr := answering_run h
  have hsound : ∀ response ∈ r.sent, response.consumed ≤ r.consumed ∧
      ∀ buffer, ∃ pkt, Decodes crc32 response buffer pkt := by
    intro response hin
    obtain ⟨hle, pkt, hpkt⟩ := hr.sound response hin
    exact ⟨hle, hpkt.decodes⟩
  exact ⟨hsound, hr.order, hr.head, hr.running, hr.written.1, hr.written.2, hr.acks, hr.nacks⟩

/-- The socket is writable before anything came: `ACK` 0. -/
theorem responses_sound_first :
    ∃ r, Reach (loop_step zlib_crc32) (fun _ _ => True) (.initial fun _ => 0) r ∧ r.stats.ack_sent = 1 ∧
      (r.sent.filter isAck).length = 1 ∧
      ∀ response ∈ r.sent, ∀ buffer, ∃ pkt, Decodes zlib_crc32 response buffer pkt := by
  generalize zlib_crc32 = crc32
  obtain ⟨r, hs⟩ : ∃ r, loop_step crc32 (.initial fun _ => 0) (.ack true) = some r := ⟨_, rfl⟩
  have hreach : Reach (loop_step crc32) (fun _ _ => True) (.initial fun _ => 0) r := .next .start trivial hs
  obtain ⟨hsound, _, _, _, _, _, hacks, _⟩ := responses_sound crc32 hreach
  have hone : r.stats.ack_sent = 1 := by
    obtain ⟨buffer, sent, heq, _⟩ :=
      sends_response crc32 (r := .initial fun _ => 0) initial_sizeOk true 0 (fun _ => rfl)
      0 true
    have hhead : (Receiver.initial fun _ => 0).window.seqnumHead = 0 := rfl
    rw [← Option.some.inj hs]
    change (send_ack crc32 (.initial fun _ => 0) 0 true).stats.ack_sent = 1
    simp only [if_true] at heq
    rw [send_ack, hhead, heq]
    rfl
  exact ⟨r, hreach, hone, hacks.trans hone, fun response hin => (hsound response hin).2⟩

end Trtp
