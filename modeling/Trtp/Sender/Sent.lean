import Trtp.Codec.Canonical
import Trtp.Sender.Wire

/-!
# What the sender sends and counts

Runs with any datagrams and any results of `pread` and `write`. A packet is counted at the end of its turn, which a
failed write of the `FEC` packet does not come to.
-/

open Trtp.Lib

namespace Trtp

/-- The chunks that the datagrams were made for, in the order in which they were sent. -/
def Sender.chunks (s : Sender) : List (Option Nat) := s.sent.map Segment.chunk

/-- What is sent from `s` to `s'`, and what is added to the counters. -/
structure Sends (s s' : Sender) (chunks : List (Option Nat)) (data fec again : Nat) : Prop where
  chunks : s'.chunks = s.chunks ++ chunks
  data_sent : s'.stats.data_sent = s.stats.data_sent + data
  fec_sent : s'.stats.fec_sent = s.stats.fec_sent + fec
  packet_retransmitted : s'.stats.packet_retransmitted = s.stats.packet_retransmitted + again

variable {crc32 : List UInt8 → UInt32} {s s' : Sender}

theorem Sends.refl (s : Sender) : Sends s s [] 0 0 0 := ⟨(List.append_nil _).symm, rfl, rfl, rfl⟩

theorem Sends.trans {u : Sender} {chunks chunks' : List (Option Nat)} {data data' fec fec' again again' : Nat}
    (h : Sends s u chunks data fec again) (h' : Sends u s' chunks' data' fec' again') :
    Sends s s' (chunks ++ chunks') (data + data') (fec + fec') (again + again') where
  chunks := by rw [h'.chunks, h.chunks, List.append_assoc]
  data_sent := by rw [h'.data_sent, h.data_sent, Nat.add_assoc]
  fec_sent := by rw [h'.fec_sent, h.fec_sent, Nat.add_assoc]
  packet_retransmitted := by rw [h'.packet_retransmitted, h.packet_retransmitted, Nat.add_assoc]

/-! ## The functions -/

theorem write_pkt_sends (crc32 : List UInt8 → UInt32) (s : Sender) (chunk : Option Nat) (pkt : Pkt) (write : Bool) :
    Sends s (s.write_pkt crc32 chunk pkt write) (if write then [chunk] else []) 0 0 0 := by
  cases write with
  | false => exact ⟨(List.append_nil _).symm, rfl, rfl, rfl⟩
  | true => exact ⟨List.map_append, rfl, rfl, rfl⟩

/-- Only the fourth packet makes a `FEC` packet. -/
theorem fill_fec_sends (crc32 : List UInt8 → UInt32) (s : Sender) (node : Node) (writeFec : Bool) :
    ∃ n, Sends s (fill_fec crc32 s node writeFec).2 (List.replicate n none) 0 n 0 ∧ (s.fec.i + 1 ≠ 4 → n = 0) := by
  have hnone : Sends s { s with fec := ⟨Function.update s.fec.pkts s.fec.i.toNat (some node), s.fec.i + 1⟩ }
      (List.replicate 0 none) 0 0 0 := ⟨(List.append_nil _).symm, rfl, rfl, rfl⟩
  unfold fill_fec
  simp only
  split
  swap
  · exact ⟨0, hnone, fun _ => rfl⟩
  rename_i hfour
  split
  swap
  · exact ⟨0, hnone, fun _ => rfl⟩
  rename_i n0 n1 n2 n3 _ _ _ _
  have hwrite := hnone.trans (write_pkt_sends crc32 _ none (fec_generation n0.pkt n1.pkt n2.pkt n3.pkt) writeFec)
  cases writeFec with
  | false => exact ⟨0, hwrite, fun _ => rfl⟩
  | true =>
    refine ⟨1, ?_, fun hne => absurd hfour hne⟩
    exact ⟨hwrite.chunks, hwrite.data_sent, congrArg (· + 1) hwrite.fec_sent, hwrite.packet_retransmitted⟩

/-- The chunk, if it is written, and then perhaps a `FEC` packet. -/
def turnChunks (s : Sender) (write : Bool) (fec : Nat) : List (Option Nat) :=
  if write then some (chunkIndex s.global_pkt) :: List.replicate fec none else []

theorem turn_sends {io : FillIO} {fec_enable : Bool} (h : turn_step crc32 s io fec_enable = some s') :
    (io.pread (chunkOffset s.global_pkt) = some [] ∧ Sends s s' [] 0 0 0) ∨
      (io.pread (chunkOffset s.global_pkt) ≠ some [] ∧
        ∃ n, Sends s s' (turnChunks s io.write n) (if (turn_fec s io fec_enable).1 then 1 else 0) n 0 ∧
          (io.write = false → n = 0) ∧ (s.fec.i + 1 ≠ 4 → n = 0)) := by
  by_cases hend : io.pread (chunkOffset s.global_pkt) = some []
  · obtain ⟨_, _, _, ⟨_, rfl⟩ | ⟨hread, _⟩⟩ := turn_step_cases h
    · exact Or.inl ⟨hend, (List.append_nil _).symm, rfl, rfl, rfl⟩
    · exact absurd hend hread
  obtain ⟨_, heq⟩ := turn_step_read hend h
  refine Or.inr ⟨hend, ?_⟩
  rw [heq]
  unfold turn_fec turn_node turnChunks fill_read
  simp only
  generalize data_pkt s.window.windowsize (UInt8.ofNat (s.global_pkt.toNat % 256))
    (load ((io.pread (chunkOffset s.global_pkt)).getD []) s.copybuf)
    (readCount (io.pread (chunkOffset s.global_pkt))) io.time = pkt
  generalize hu : Sender.add_node _ (chunkIndex s.global_pkt) pkt = u
  have hadd : Sends s u [] 0 0 0 := by
    rw [← hu]
    exact ⟨(List.append_nil _).symm, rfl, rfl, rfl⟩
  have hfec : u.fec = s.fec := by
    rw [← hu]
    rfl
  have hwrite := hadd.trans (write_pkt_sends crc32 u (some (chunkIndex s.global_pkt)) pkt io.write)
  cases hw : io.write with
  | false =>
    rw [hw] at hwrite
    simp only [Bool.false_eq_true, if_false]
    exact ⟨0, hwrite, fun _ => rfl, fun _ => rfl⟩
  | true =>
    rw [hw] at hwrite
    simp only [if_true]
    cases fec_enable with
    | false =>
      exact ⟨0, ⟨hwrite.chunks, congrArg (· + 1) hwrite.data_sent, hwrite.fec_sent, hwrite.packet_retransmitted⟩,
        fun _ => rfl, fun _ => rfl⟩
    | true =>
      generalize hnode : (⟨s.allocated, chunkIndex s.global_pkt, pkt⟩ : Node) = node
      obtain ⟨n, hsends, hfour⟩ :=
        fill_fec_sends crc32 (u.write_pkt crc32 (some (chunkIndex s.global_pkt)) pkt true) node io.writeFec
      obtain ⟨_, _, _, _, heq⟩ :=
        @fill_fec_eq crc32 (u.write_pkt crc32 (some (chunkIndex s.global_pkt)) pkt true) node io.writeFec
      have hsame : (u.write_pkt crc32 (some (chunkIndex s.global_pkt)) pkt true).fec = s.fec := hfec
      have hresult := congrArg Prod.fst heq
      rw [hsame] at hfour hresult
      have hboth := hwrite.trans hsends
      refine ⟨n, ?_, fun h => absurd h (by decide), hfour⟩
      rcases hfill : fill_fec crc32 (u.write_pkt crc32 (some (chunkIndex s.global_pkt)) pkt true) node io.writeFec
        with ⟨ok, t⟩
      rw [hfill] at hboth hresult
      simp only at hboth hresult
      simp only [if_true, ← hresult]
      rw [Nat.zero_add, Nat.zero_add] at hboth
      cases ok with
      | false => exact hboth
      | true => exact ⟨hboth.chunks, congrArg (· + 1) hboth.data_sent, hboth.fec_sent, hboth.packet_retransmitted⟩

theorem final_step_sends {time : UInt32} {write : Bool} (h : final_step crc32 s time write = some s') :
    Sends s s' (if write then [some (chunkIndex s.global_pkt)] else []) (if write then 1 else 0) 0 0 := by
  unfold final_step at h
  split at h
  swap
  · contradiction
  have hc := final_pkt_carries [] s.window.windowsize (chunkIndex s.global_pkt) (s.window.seqnumTail + 1) time
  have hok : (pkt_encode crc32 (final_pkt s.window.windowsize (s.window.seqnumTail + 1) time) s.copybuf
      PKT_MAX_LEN).1 = .PKT_OK := by rw [hc.sendable.encode]
  simp only [send_final_pkt, hok, ne_eq, not_true_eq_false, if_false, Option.some.injEq] at h
  rw [← h]
  cases write with
  | false => exact ⟨(List.append_nil _).symm, rfl, rfl, rfl⟩
  | true => exact ⟨List.map_append, rfl, rfl, rfl⟩

theorem resent_loop_sends (crc32 : List UInt8 → UInt32) (io : Nat → UInt32 × Bool) (list : List Node)
    (k nbr_resent : Nat) (s : Sender) :
    Sends s (resent_loop crc32 io list k nbr_resent s).2.2
      ((resent_nodes io list k).map fun node => some node.index) 0 0 (resent_nodes io list k).length := by
  induction list generalizing k nbr_resent s with
  | nil => exact .refl s
  | cons current next ih =>
    unfold resent_loop resent_nodes
    by_cases hold : Expired current (io k).1
    swap
    · rw [if_neg hold, if_neg (id hold : ¬ ((io k).1 - pkt_get_timestamp current.pkt).toNat > TIMEOUT)]
      exact ih (k + 1) nbr_resent s
    rw [if_pos hold, if_pos (id hold : ((io k).1 - pkt_get_timestamp current.pkt).toNat > TIMEOUT)]
    have hwrite := write_pkt_sends crc32 s (some current.index) (pkt_set_timestamp current.pkt (io k).1).2 (io k).2
    cases hok : (io k).2 with
    | false =>
      rw [hok] at hwrite
      simp only [Bool.false_eq_true, if_false]
      exact hwrite
    | true =>
      rw [hok] at hwrite
      simp only [if_true]
      have hone : Sends s
          { s.write_pkt crc32 (some current.index) (pkt_set_timestamp current.pkt (io k).1).2 true with
            lastRst := if pkt_get_length (pkt_set_timestamp current.pkt (io k).1).2 = 0 then s.lastRst + 1
              else s.lastRst
            stats := { s.stats with packet_retransmitted := s.stats.packet_retransmitted + 1 } }
          [some current.index] 0 0 1 := ⟨hwrite.chunks, rfl, rfl, rfl⟩
      have hrest := hone.trans (ih (k + 1) (nbr_resent + 1) _)
      rw [Nat.add_comm 1] at hrest
      exact hrest

theorem resent_step_sends {io : Nat → UInt32 × Bool} (h : resent_step crc32 s io = some s') :
    Sends s s' ((resent_nodes io s.window.linkedList 0).map fun node => some node.index) 0 0
      (resent_nodes io s.window.linkedList 0).length := by
  have hloop := resent_loop_sends crc32 io s.window.linkedList 0 0 s
  unfold resent_step at h
  split at h
  swap
  · contradiction
  obtain rfl := Option.some.inj h
  by_cases hmany : (resent_pkt crc32 s io).2.lastPkt = true ∧ (resent_pkt crc32 s io).2.lastRst > MAX_RESENT_LAST_PKT
  · rw [if_pos hmany]
    exact ⟨hloop.chunks, hloop.data_sent, hloop.fec_sent, hloop.packet_retransmitted⟩
  · rw [if_neg hmany]
    exact ⟨hloop.chunks, hloop.data_sent, hloop.fec_sent, hloop.packet_retransmitted⟩

/-! ## Nothing is sent for a response -/

theorem ack_loop_sends (ackSeqnum : UInt8) (time : UInt32) (list : List Node) (no_acked : Nat) (s : Sender) :
    Sends s (ack_loop ackSeqnum time list no_acked s).2 [] 0 0 0 := by
  induction list generalizing no_acked s with
  | nil => exact .refl s
  | cons current next ih =>
    unfold ack_loop
    split
    · have htake : Sends s { s.take_rtt time current.pkt with window := remove_acked s.window } [] 0 0 0 :=
        ⟨(List.append_nil _).symm, rfl, rfl, rfl⟩
      exact htake.trans (ih (no_acked + 1) _)
    · exact .refl s

theorem ack_window_sends (s : Sender) (pkt : Pkt) (time : UInt32) (stale : Pkt) :
    Sends s (ack_window s pkt time stale).2 [] 0 0 0 := by
  unfold ack_window
  simp only
  split
  · exact .refl s
  split
  · split
    · exact ⟨(List.append_nil _).symm, rfl, rfl, rfl⟩
    · exact .refl s
  · exact ack_loop_sends _ _ _ _ s

theorem update_window_sends (s : Sender) (newSize : UInt8) (stale : Pkt) :
    Sends s (update_window s newSize stale).2 [] 0 0 0 := by
  unfold update_window
  split
  · exact ⟨(List.append_nil _).symm, rfl, rfl, rfl⟩
  split
  · exact .refl s
  split
  · exact ⟨(List.append_nil _).symm, rfl, rfl, rfl⟩
  · exact ⟨(List.append_nil _).symm, rfl, rfl, rfl⟩

theorem handle_packet_sends (s : Sender) (pkt : Pkt) (time : UInt32) (stale : Pkt) :
    Sends s (handle_packet s pkt time stale) [] 0 0 0 := by
  have hupdate := update_window_sends s (pkt_get_window pkt) stale
  unfold handle_packet
  simp only
  generalize (update_window s (pkt_get_window pkt) stale).2 = u at hupdate ⊢
  split
  · split
    · exact ⟨hupdate.chunks, hupdate.data_sent, hupdate.fec_sent, hupdate.packet_retransmitted⟩
    · exact ⟨hupdate.chunks, hupdate.data_sent, hupdate.fec_sent, hupdate.packet_retransmitted⟩
  · have hcount : Sends u { u with stats := { u.stats with ack_received := u.stats.ack_received + 1 } } [] 0 0 0 :=
      ⟨(List.append_nil _).symm, rfl, rfl, rfl⟩
    have hack := (hupdate.trans hcount).trans (ack_window_sends
      { u with stats := { u.stats with ack_received := u.stats.ack_received + 1 } } pkt time stale)
    generalize ack_window { u with stats := { u.stats with ack_received := u.stats.ack_received + 1 } } pkt time
      stale = result at hack ⊢
    have hignore : Sends s (if result.1 = -1 then result.2.ignore else result.2) [] 0 0 0 := by
      split
      · exact ⟨hack.chunks, hack.data_sent, hack.fec_sent, hack.packet_retransmitted⟩
      · exact hack
    generalize (if result.1 = -1 then result.2.ignore else result.2) = v at hignore ⊢
    split
    · exact ⟨hignore.chunks, hignore.data_sent, hignore.fec_sent, hignore.packet_retransmitted⟩
    · exact hignore
  · exact hupdate
  · exact hupdate

theorem response_step_sends {bytes_read : Option (List UInt8)} {time : UInt32} {stale : Pkt}
    (h : response_step crc32 s bytes_read time stale = some s') : Sends s s' [] 0 0 0 := by
  unfold response_step at h
  split at h
  swap
  · contradiction
  obtain rfl := Option.some.inj h
  have hread : Sends s { s with copybuf := readInto bytes_read s.copybuf, lastRst := 0 } [] 0 0 0 :=
    ⟨(List.append_nil _).symm, rfl, rfl, rfl⟩
  unfold handle_response
  simp only
  split
  · exact hread.trans (handle_packet_sends _ _ time stale)
  · exact ⟨hread.chunks, rfl, rfl, rfl⟩

/-! ## The calls -/

/-- A packet that is written and not counted: the `FEC` packet after it is not written. -/
def uncounted (s : Sender) : SenderCall → Nat
  | .fill io fec_enable =>
    if io.pread (chunkOffset s.global_pkt) ≠ some [] ∧ io.write = true ∧ (turn_fec s io fec_enable).1 = false then 1
    else 0
  | _ => 0

/-- The datagrams of packets of the list, and the `FEC` packets. -/
def Sender.datas (s : Sender) : Nat := s.chunks.countP Option.isSome
def Sender.fecs (s : Sender) : Nat := s.chunks.countP Option.isNone

structure SendCounts (s s' : Sender) (lost : Nat) : Prop where
  datas : s'.datas + (s.stats.data_sent + s.stats.packet_retransmitted) =
    s.datas + (s'.stats.data_sent + s'.stats.packet_retransmitted) + lost
  fecs : s'.fecs + s.stats.fec_sent = s.fecs + s'.stats.fec_sent

theorem Sends.counts {chunks : List (Option Nat)} {data fec again lost : Nat} (h : Sends s s' chunks data fec again)
    (hsome : chunks.countP Option.isSome = data + again + lost) (hnone : chunks.countP Option.isNone = fec) :
    SendCounts s s' lost := by
  constructor
  · rw [Sender.datas, h.chunks, List.countP_append, hsome, h.data_sent, h.packet_retransmitted, Sender.datas]
    omega
  · rw [Sender.fecs, h.chunks, List.countP_append, hnone, h.fec_sent, Sender.fecs]
    omega

theorem turn_counts {io : FillIO} {fec_enable : Bool} (h : turn_step crc32 s io fec_enable = some s') :
    SendCounts s s' (uncounted s (.fill io fec_enable)) := by
  simp only [uncounted]
  rcases turn_sends h with ⟨hend, hsends⟩ | ⟨hread, n, hsends, hwrite, _⟩
  · rw [if_neg fun hlost => hlost.1 hend]
    exact hsends.counts rfl rfl
  unfold turnChunks at hsends
  cases hw : io.write with
  | false =>
    have hdone : (turn_fec s io fec_enable).1 = false := by simp [turn_fec, hw]
    rw [hw, hwrite hw, hdone] at hsends
    rw [if_neg fun hlost => Bool.false_ne_true hlost.2.1]
    exact hsends.counts rfl rfl
  | true =>
    rw [hw, if_pos rfl] at hsends
    have hfec : (List.replicate n (none : Option Nat)).countP Option.isSome = 0 ∧
        (List.replicate n (none : Option Nat)).countP Option.isNone = n := by
      simp [List.countP_replicate]
    cases hdone : (turn_fec s io fec_enable).1 with
    | false =>
      rw [hdone] at hsends
      rw [if_pos ⟨hread, rfl, rfl⟩]
      exact hsends.counts (by simp [hfec.1]) (by simp [hfec.2])
    | true =>
      rw [hdone] at hsends
      rw [if_neg fun hlost => Bool.false_ne_true hlost.2.2.symm]
      exact hsends.counts (by simp [hfec.1]) (by simp [hfec.2])

theorem call_step_counts {a : SenderCall} (h : call_step crc32 s a = some s') : SendCounts s s' (uncounted s a) := by
  cases a with
  | fill io fec_enable => exact turn_counts h
  | final time write =>
    have hsends := final_step_sends h
    cases write with
    | false => exact hsends.counts rfl rfl
    | true => exact hsends.counts rfl rfl
  | resend io =>
    refine (resent_step_sends h).counts ?_ ?_
    · simp [List.countP_map, Function.comp_def, uncounted]
    · simp [List.countP_map, Function.comp_def]
  | response bytes_read time stale => exact (response_step_sends h).counts rfl rfl

/-! ## The runs -/

/-- The number of datagrams of a type. -/
def Sender.sentOf (s : Sender) (type : PType) : Nat :=
  s.sent.countP fun segment => hdrType (load segment.datagram fun _ => 0) = type

theorem Emits.hdrType {segment : Segment} {buffer : Mem} {pkt : Pkt} (h : Emits crc32 segment buffer pkt) :
    hdrType (load segment.datagram buffer) = pkt.type := by
  obtain ⟨_, heq⟩ := tests_of_decoded h.ok
  have hfirst : readInto (some segment.datagram) buffer 0 = load segment.datagram buffer 0 := by
    unfold readInto
    cases segment.datagram <;> rfl
  rw [← heq, (accepted_header _ _).1, Trtp.hdrType, Trtp.hdrType, hfirst]

theorem Emitting.sentOf (h : Emitting crc32 s) : s.sentOf .DATA = s.datas ∧ s.sentOf .FEC = s.fecs := by
  have htype : ∀ segment ∈ s.sent, Trtp.hdrType (load segment.datagram fun _ => 0) =
      if segment.chunk.isSome then .DATA else .FEC := by
    intro segment hmem
    obtain ⟨_, hencodes⟩ := h.sent segment hmem
    obtain ⟨pkt, hpkt⟩ := hencodes.emits fun _ => 0
    rw [hpkt.hdrType, hpkt.type]
  unfold Sender.sentOf Sender.datas Sender.fecs Sender.chunks
  rw [List.countP_map, List.countP_map]
  constructor
  · refine List.countP_congr fun segment hmem => ?_
    rw [htype segment hmem]
    cases hc : segment.chunk <;> simp [hc]
  · refine List.countP_congr fun segment hmem => ?_
    rw [htype segment hmem]
    cases hc : segment.chunk <;> simp [hc]

variable (crc32) in
/-- As long as no call strays, the statistics count what was written, but for a packet whose `FEC` packet could not be
written after it. -/
theorem sent_counted {copybuf : Mem} {calls : List SenderCall}
    (h : run (call_step crc32) (fun s a => ¬ Strays s a) calls (.initial copybuf) = some s) :
    s.sentOf .DATA = s.stats.data_sent + s.stats.packet_retransmitted +
        tally (call_step crc32) uncounted calls (.initial copybuf) ∧
      s.sentOf .FEC = s.stats.fec_sent ∧ s.sentOf .DATA + s.sentOf .FEC = s.sent.length := by
  have hreach := run_reach h
  obtain ⟨hdata, hfec⟩ := (emitting_run hreach).sentOf
  have hdatas : s.datas + 0 = 0 + (s.stats.data_sent + s.stats.packet_retransmitted) +
      tally (call_step crc32) uncounted calls (.initial copybuf) :=
    run_tally (g := fun s => s.stats.data_sent + s.stats.packet_retransmitted)
      (fun _ _ _ hs => (call_step_counts hs).datas) h
  have hfecs : s.fecs = s.stats.fec_sent := by
    refine hreach.invariant (P := fun s => s.fecs = s.stats.fec_sent) rfl fun u a u' hu _ hs => ?_
    have hstep := (call_step_counts hs).fecs
    omega
  have hall : s.datas + s.fecs = s.sent.length := by
    rw [← List.length_map (f := Segment.chunk), ← Sender.chunks, List.length_eq_countP_add_countP Option.isSome,
      Sender.datas, Sender.fecs]
    congr 2
    funext chunk
    cases chunk <;> rfl
  rw [hdata, hfec]
  exact ⟨by omega, hfecs, hall⟩

/-- A packet is sent, and sent again after the timeout. -/
theorem sent_counted_again :
    ∃ calls s, run (call_step zlib_crc32) (fun s a => ¬ Strays s a) calls (.initial fun _ => 0) = some s ∧
      s.sentOf .DATA = 2 ∧ s.sentOf .FEC = 0 ∧ s.stats.packet_retransmitted = 1 := by
  generalize zlib_crc32 = crc32
  obtain ⟨u, hu⟩ :
      ∃ u, call_step crc32 (.initial fun _ => 0) (.fill ⟨fun _ => some [7], 0, true, true⟩ false) = some u :=
    ⟨_, rfl⟩
  obtain ⟨s, hs⟩ : ∃ s, call_step crc32 u (.resend fun _ => (5000, true)) = some s := by
    rw [← Option.some.inj hu]
    exact ⟨_, rfl⟩
  have hfill : ¬ Strays (.initial fun _ => 0) (.fill ⟨fun _ => some [7], 0, true, true⟩ false) :=
    fun hover => Bool.false_ne_true hover.1
  have hresend : ¬ Strays u (.resend fun _ => (5000, true)) := id
  have hrun : run (call_step crc32) (fun s a => ¬ Strays s a)
      [.fill ⟨fun _ => some [7], 0, true, true⟩ false, .resend fun _ => (5000, true)] (.initial fun _ => 0) =
        some s := by
    rw [run, if_pos hfill, hu, Option.bind_some, run, if_pos hresend, hs, Option.bind_some, run]
  obtain ⟨hdata, hfec, _⟩ := sent_counted crc32 hrun
  have hstats : s.stats.data_sent = 1 ∧ s.stats.packet_retransmitted = 1 ∧ s.stats.fec_sent = 0 := by
    obtain rfl := Option.some.inj hu
    rw [← Option.some.inj hs]
    exact ⟨rfl, rfl, rfl⟩
  refine ⟨_, s, hrun, ?_, hfec.trans hstats.2.2, hstats.2.1⟩
  rw [hdata, hstats.1, hstats.2.1]
  rfl

end Trtp
