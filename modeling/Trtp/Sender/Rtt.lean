import Trtp.Lib.Extremes
import Trtp.Sender.Accumulator

/-!
# Round trip times

`min_rtt` and `max_rtt` should be the extremes of the samples that `ack_window` takes. A sample that is a new maximum
is not compared with `min_rtt`.
-/

open Trtp.Lib

namespace Trtp

variable (crc32 : List UInt8 → UInt32)

/-! ## The samples -/

/-- `time - pkt_get_timestamp(pkt)` -/
def rtt (time : UInt32) (pkt : Pkt) : Nat := (time - pkt_get_timestamp pkt).toNat

/-- The samples of the loop of `ack_window`, where `list` is the list of the window. -/
def ack_loop_rtts (ackSeqnum : UInt8) (time : UInt32) (list : List Node) (window : Window Node) : List Nat :=
  match list with
  | [] => []
  | current :: next =>
    if seqnum_in_window window ackSeqnum (seqnumOf current) then
      rtt time current.pkt :: ack_loop_rtts ackSeqnum time next (remove_acked window)
    else []

/-- On an empty list the sample is that of the freed packet `stale`. -/
def ack_window_rtts (window : Window Node) (pkt : Pkt) (time : UInt32) (stale : Pkt) : List Nat :=
  let ackSeqnum := pkt_get_seqnum pkt
  if can_ack_window window ackSeqnum = false then []
  else if window.linkedList.isEmpty then
    if seqnum_in_window window ackSeqnum (pkt_get_seqnum stale) then [rtt time stale] else []
  else ack_loop_rtts ackSeqnum time window.linkedList window

/-- The window that `update_window` leaves to `ack_window`. -/
def updated_window (s : Sender) (bytes_read : Option (List UInt8)) (pkt stale : Pkt) : Window Node :=
  (update_window { s with copybuf := readInto bytes_read s.copybuf, lastRst := 0 } (pkt_get_window pkt) stale).2.window

/-- The samples that a call takes. -/
def taken_rtts (s : Sender) : SenderCall → List Nat
  | .response bytes_read time stale =>
    match incoming crc32 s bytes_read with
    | some pkt =>
      if pkt_get_type pkt = .ACK then ack_window_rtts (updated_window s bytes_read pkt stale) pkt time stale else []
    | none => []
  | _ => []

/-- The round trip times of the packets that a call acknowledges. -/
def acked_rtts (s : Sender) : SenderCall → List Nat
  | .response bytes_read time stale =>
    match incoming crc32 s bytes_read with
    | some pkt =>
      let window := updated_window s bytes_read pkt stale
      (window.linkedList.take (window.linkedList.length - (handled_window window pkt).linkedList.length)).map
        fun node => rtt time node.pkt
    | none => []
  | _ => []

/-- The sender, with the samples taken so far and those of the acknowledged packets. -/
structure Timed where
  snd : Sender
  rtts : List Nat
  acked : List Nat

def Timed.initial (copybuf : Mem) : Timed := ⟨.initial copybuf, [], []⟩

def timed_step (t : Timed) (a : SenderCall) : Option Timed :=
  (call_step crc32 t.snd a).map fun snd =>
    ⟨snd, t.rtts ++ taken_rtts crc32 t.snd a, t.acked ++ acked_rtts crc32 t.snd a⟩

structure RttRight (t : Timed) : Prop where
  min_rtt : IsLeast {x | x ∈ t.rtts} t.snd.stats.min_rtt.toNat
  max_rtt : IsGreatest {x | x ∈ t.rtts} t.snd.stats.max_rtt.toNat

/-- No `ACK` that is accepted on an empty list acknowledges the freed packet. -/
def ReadsListed (s : Sender) : SenderCall → Prop
  | .response bytes_read _ stale => ∀ pkt ∈ incoming crc32 s bytes_read, pkt_get_type pkt = .ACK →
      (updated_window s bytes_read pkt stale).linkedList = [] →
        can_ack_window (updated_window s bytes_read pkt stale) (pkt_get_seqnum pkt) = true →
          seqnum_in_window (updated_window s bytes_read pkt stale) (pkt_get_seqnum pkt) (pkt_get_seqnum stale) = false
  | _ => True

variable {crc32}

/-! ## The statistics of a response -/

def SenderStats.extremes (stats : SenderStats) : Extremes Nat := ⟨stats.min_rtt.toNat, stats.max_rtt.toNat⟩

theorem take_rtt_extremes (s : Sender) (time : UInt32) (pkt : Pkt) :
    (s.take_rtt time pkt).stats.extremes = s.stats.extremes.record (rtt time pkt) := by
  unfold Sender.take_rtt SenderStats.extremes Extremes.record rtt
  simp only [gt_iff_lt, UInt32.lt_iff_toNat_lt]
  split_ifs <;> rfl

theorem ack_loop_extremes (ackSeqnum : UInt8) (time : UInt32) (list : List Node) (no_acked : Nat) (s : Sender) :
    (ack_loop ackSeqnum time list no_acked s).2.stats.extremes =
      s.stats.extremes.recordAll (ack_loop_rtts ackSeqnum time list s.window) := by
  induction list generalizing no_acked s with
  | nil => rfl
  | cons current next ih =>
    unfold ack_loop ack_loop_rtts
    split
    · rw [Extremes.recordAll_cons, ← take_rtt_extremes]
      exact ih (no_acked + 1) { s.take_rtt time current.pkt with window := remove_acked s.window }
    · rfl

theorem ack_window_extremes (s : Sender) (pkt : Pkt) (time : UInt32) (stale : Pkt) :
    (ack_window s pkt time stale).2.stats.extremes =
      s.stats.extremes.recordAll (ack_window_rtts s.window pkt time stale) := by
  unfold ack_window ack_window_rtts
  simp only
  split
  · rfl
  split
  · split
    · exact take_rtt_extremes s time stale
    · rfl
  · exact ack_loop_extremes _ time _ 0 s

theorem update_window_extremes (s : Sender) (newSize : UInt8) (stale : Pkt) :
    (update_window s newSize stale).2.stats.extremes = s.stats.extremes := by
  unfold update_window
  split_ifs <;> rfl

theorem handle_packet_extremes (s : Sender) (pkt : Pkt) (time : UInt32) (stale : Pkt) :
    (handle_packet s pkt time stale).stats.extremes = s.stats.extremes.recordAll
      (if pkt_get_type pkt = .ACK then
        ack_window_rtts (update_window s (pkt_get_window pkt) stale).2.window pkt time stale
      else []) := by
  rw [← update_window_extremes s (pkt_get_window pkt) stale]
  unfold handle_packet
  simp only
  generalize (update_window s (pkt_get_window pkt) stale).2 = u
  cases pkt_get_type pkt with
  | DATA | FEC => rfl
  | NACK =>
    simp only [reduceCtorEq, if_false, Extremes.recordAll_nil]
    split <;> rfl
  | ACK =>
    have hack := ack_window_extremes { u with stats := { u.stats with ack_received := u.stats.ack_received + 1 } } pkt
      time stale
    simp only [if_true]
    split_ifs <;> exact hack

theorem handle_response_extremes (s : Sender) (bytes_read : Option (List UInt8)) (time : UInt32) (stale : Pkt) :
    (handle_response crc32 s bytes_read time stale).stats.extremes =
      s.stats.extremes.recordAll (taken_rtts crc32 s (.response bytes_read time stale)) := by
  cases hi : incoming crc32 s bytes_read with
  | none =>
    rw [handle_response_none hi]
    simp only [taken_rtts, hi]
    rfl
  | some pkt =>
    rw [handle_response_some hi]
    simp only [taken_rtts, hi]
    exact handle_packet_extremes { s with copybuf := readInto bytes_read s.copybuf, lastRst := 0 } pkt time stale

/-! ## The calls that take no sample -/

theorem write_pkt_extremes (s : Sender) (chunk : Option Nat) (pkt : Pkt) (write : Bool) :
    (s.write_pkt crc32 chunk pkt write).stats.extremes = s.stats.extremes := by
  obtain ⟨_, _, _, hs⟩ := write_pkt_cases crc32 s chunk pkt write
  rw [hs]

theorem fill_fec_extremes (s : Sender) (node : Node) (writeFec : Bool) :
    (fill_fec crc32 s node writeFec).2.stats.extremes = s.stats.extremes := by
  unfold fill_fec
  simp only
  split
  · split
    · cases writeFec <;> rfl
    · rfl
  · rfl

theorem fill_read_extremes (s : Sender) (bytes_read : Option (List UInt8)) (io : FillIO) (fec_enable : Bool) :
    (fill_read crc32 s bytes_read io fec_enable).state.stats.extremes = s.stats.extremes := by
  obtain ⟨pread, time, write, writeFec⟩ := io
  unfold fill_read
  cases write with
  | false => rfl
  | true =>
    cases fec_enable with
    | false => rfl
    | true =>
      simp only [if_true]
      split
      · rename_i s' hfec
        have hstats := congrArg (fun result => result.2.stats.extremes) hfec
        exact hstats.symm.trans (fill_fec_extremes _ _ _)
      · rename_i s' hfec
        have hstats := congrArg (fun result => result.2.stats.extremes) hfec
        exact hstats.symm.trans (fill_fec_extremes _ _ _)

theorem turn_step_extremes {s s' : Sender} {io : FillIO} {fec_enable : Bool}
    (h : turn_step crc32 s io fec_enable = some s') : s'.stats.extremes = s.stats.extremes := by
  unfold turn_step at h
  split at h
  · obtain rfl := Option.some.inj h
    unfold fill_turn
    split
    · rfl
    · exact fill_read_extremes s _ io fec_enable
  · contradiction

theorem final_step_extremes {s s' : Sender} {time : UInt32} {write : Bool}
    (h : final_step crc32 s time write = some s') : s'.stats.extremes = s.stats.extremes := by
  unfold final_step at h
  split at h
  · obtain rfl := Option.some.inj h
    unfold send_final_pkt
    simp only
    split
    · rfl
    · cases write <;> rfl
  · contradiction

theorem resent_loop_extremes (io : Nat → UInt32 × Bool) (list : List Node) (k nbr_resent : Nat) (s : Sender) :
    (resent_loop crc32 io list k nbr_resent s).2.2.stats.extremes = s.stats.extremes := by
  induction list generalizing k nbr_resent s with
  | nil => rfl
  | cons current next ih =>
    unfold resent_loop
    split
    swap
    · exact ih _ _ s
    simp only
    split
    · exact (ih _ _ _).trans (write_pkt_extremes s (some current.index) _ _)
    · exact write_pkt_extremes s (some current.index) _ _

theorem resent_step_extremes {s s' : Sender} {io : Nat → UInt32 × Bool} (h : resent_step crc32 s io = some s') :
    s'.stats.extremes = s.stats.extremes := by
  unfold resent_step at h
  split at h
  · obtain rfl := Option.some.inj h
    split
    · exact resent_loop_extremes io _ 0 0 s
    · exact resent_loop_extremes io _ 0 0 s
  · contradiction

theorem response_step_extremes {s s' : Sender} {bytes_read : Option (List UInt8)} {time : UInt32} {stale : Pkt}
    (h : response_step crc32 s bytes_read time stale = some s') :
    s'.stats.extremes = s.stats.extremes.recordAll (taken_rtts crc32 s (.response bytes_read time stale)) := by
  unfold response_step at h
  split at h
  · obtain rfl := Option.some.inj h
    exact handle_response_extremes s bytes_read time stale
  · contradiction

/-- Each call records the samples that it takes. -/
theorem call_step_extremes {s s' : Sender} (a : SenderCall) (h : call_step crc32 s a = some s') :
    s'.stats.extremes = s.stats.extremes.recordAll (taken_rtts crc32 s a) :=
  match a, h with
  | .fill _ _, h => turn_step_extremes h
  | .final _ _, h => final_step_extremes h
  | .resend _, h => resent_step_extremes h
  | .response _ _ _, h => response_step_extremes h

/-! ## One sample for each acknowledged packet -/

theorem ack_loop_rtts_eq (ackSeqnum : UInt8) (time : UInt32) (list : List Node) {window : Window Node}
    (hlist : window.linkedList = list) :
    ack_loop_rtts ackSeqnum time list window =
      (list.takeWhile fun node => seqnumOf node ≠ ackSeqnum).map fun node => rtt time node.pkt := by
  induction list generalizing window with
  | nil => rfl
  | cons current next ih =>
    unfold ack_loop_rtts
    by_cases hne : seqnumOf current ≠ ackSeqnum
    · rw [if_pos ((seqnum_in_window_head hlist ackSeqnum).mpr hne), ih (remove_acked_list hlist),
        List.takeWhile_cons_of_pos (by simpa using hne), List.map_cons]
    · rw [if_neg (mt (seqnum_in_window_head hlist ackSeqnum).mp hne),
        List.takeWhile_cons_of_neg (by simpa using hne)]
      rfl

theorem acked_window_removed {window : Window Node} {ackSeqnum : UInt8}
    (hcan : can_ack_window window ackSeqnum = true) :
    window.linkedList.take (window.linkedList.length - (acked_window window ackSeqnum).linkedList.length) =
      window.linkedList.takeWhile fun node => seqnumOf node ≠ ackSeqnum := by
  have hsplit := congrArg List.length
    (List.takeWhile_append_dropWhile (l := window.linkedList) (p := fun node => seqnumOf node ≠ ackSeqnum))
  rw [List.length_append] at hsplit
  have hcount : window.linkedList.length - (acked_window window ackSeqnum).linkedList.length =
      (window.linkedList.takeWhile fun node => seqnumOf node ≠ ackSeqnum).length := by
    rw [acked_window, if_pos hcan, (Protocol.ack_loop_window_spec ackSeqnum _ window rfl).1]
    omega
  rw [hcount]
  exact (List.prefix_iff_eq_take.mp (List.takeWhile_prefix _)).symm

theorem ack_window_rtts_eq {window : Window Node} {pkt : Pkt} (time : UInt32) {stale : Pkt}
    (hlisted : window.linkedList = [] → can_ack_window window (pkt_get_seqnum pkt) = true →
      seqnum_in_window window (pkt_get_seqnum pkt) (pkt_get_seqnum stale) = false) :
    ack_window_rtts window pkt time stale =
      (window.linkedList.take
        (window.linkedList.length - (acked_window window (pkt_get_seqnum pkt)).linkedList.length)).map
          fun node => rtt time node.pkt := by
  unfold ack_window_rtts
  simp only
  split
  · rename_i hno
    rw [acked_window, hno, if_neg (by decide), Nat.sub_self]
    rfl
  rename_i hcan
  rw [Bool.not_eq_false] at hcan
  rw [acked_window_removed hcan]
  split
  · rename_i hempty
    have hnil := List.isEmpty_iff.mp hempty
    rw [hlisted hnil hcan, hnil]
    rfl
  · exact ack_loop_rtts_eq _ time _ rfl

theorem taken_rtts_eq {s : Sender} {a : SenderCall} (h : ReadsListed crc32 s a) :
    taken_rtts crc32 s a = acked_rtts crc32 s a := by
  cases a with
  | fill io fec_enable => rfl
  | final time write => rfl
  | resend io => rfl
  | response bytes_read time stale =>
    cases hi : incoming crc32 s bytes_read with
    | none => simp only [taken_rtts, acked_rtts, hi]
    | some pkt =>
      simp only [taken_rtts, acked_rtts, hi]
      by_cases hack : pkt_get_type pkt = .ACK
      · rw [if_pos hack, handled_window, if_pos hack]
        exact ack_window_rtts_eq time (h pkt hi hack)
      · rw [if_neg hack, handled_window, if_neg hack, Nat.sub_self]
        rfl

/-! ## The samples of a run -/

theorem rtt_le (time : UInt32) (pkt : Pkt) : rtt time pkt ≤ 2 ^ 32 - 1 :=
  Nat.le_sub_one_of_lt (UInt32.toNat_lt (time - pkt_get_timestamp pkt))

theorem ack_loop_rtts_le (ackSeqnum : UInt8) (time : UInt32) (list : List Node) (window : Window Node) :
    ∀ x ∈ ack_loop_rtts ackSeqnum time list window, x ≤ 2 ^ 32 - 1 := by
  induction list generalizing window with
  | nil => exact fun x hx => absurd hx List.not_mem_nil
  | cons current next ih =>
    unfold ack_loop_rtts
    split
    · rw [List.forall_mem_cons]
      exact ⟨rtt_le time current.pkt, ih (remove_acked window)⟩
    · exact fun x hx => absurd hx List.not_mem_nil

theorem ack_window_rtts_le (window : Window Node) (pkt : Pkt) (time : UInt32) (stale : Pkt) :
    ∀ x ∈ ack_window_rtts window pkt time stale, x ≤ 2 ^ 32 - 1 := by
  unfold ack_window_rtts
  simp only
  split
  · exact fun x hx => absurd hx List.not_mem_nil
  split
  · split
    · rw [List.forall_mem_singleton]
      exact rtt_le time stale
    · exact fun x hx => absurd hx List.not_mem_nil
  · exact ack_loop_rtts_le _ time _ window

theorem taken_rtts_le (s : Sender) (a : SenderCall) : ∀ x ∈ taken_rtts crc32 s a, x ≤ 2 ^ 32 - 1 := by
  unfold taken_rtts
  split
  · split
    · split
      · exact ack_window_rtts_le _ _ _ _
      · exact fun x hx => absurd hx List.not_mem_nil
    · exact fun x hx => absurd hx List.not_mem_nil
  · exact fun x hx => absurd hx List.not_mem_nil

structure Timing (t : Timed) : Prop where
  extremes : t.snd.stats.extremes = (⟨2 ^ 32 - 1, 0⟩ : Extremes Nat).recordAll t.rtts
  bound : ∀ x ∈ t.rtts, x ≤ 2 ^ 32 - 1

theorem timing_initial (copybuf : Mem) : Timing (.initial copybuf) :=
  ⟨rfl, fun _ hx => absurd hx List.not_mem_nil⟩

theorem timed_step_timing {t t' : Timed} (h : Timing t) {a : SenderCall} (hs : timed_step crc32 t a = some t') :
    Timing t' := by
  obtain ⟨s', hs', rfl⟩ := Option.map_eq_some_iff.mp hs
  refine ⟨?_, List.forall_mem_append.mpr ⟨h.bound, taken_rtts_le t.snd a⟩⟩
  rw [call_step_extremes a hs', h.extremes, Extremes.recordAll_append]

theorem Timing.min_rtt {t : Timed} (h : Timing t) :
    t.snd.stats.min_rtt.toNat = ((⟨2 ^ 32 - 1, 0⟩ : Extremes Nat).recordAll t.rtts).least :=
  congrArg Extremes.least h.extremes

theorem Timing.max_rtt {t : Timed} (h : Timing t) :
    t.snd.stats.max_rtt.toNat = ((⟨2 ^ 32 - 1, 0⟩ : Extremes Nat).recordAll t.rtts).greatest :=
  congrArg Extremes.greatest h.extremes

theorem Timing.right_iff {t : Timed} (h : Timing t) (hne : t.rtts ≠ []) :
    RttRight t ↔ Extremes.FirstMatched 0 (2 ^ 32 - 1) t.rtts := by
  have hzero : ∀ x ∈ t.rtts, 0 ≤ x := fun x _ => Nat.zero_le x
  rw [← Extremes.recordAll_isLeast_iff hzero h.bound hne, ← h.min_rtt]
  refine ⟨RttRight.min_rtt, fun hmin => ⟨hmin, ?_⟩⟩
  rw [h.max_rtt]
  exact Extremes.recordAll_isGreatest hzero hne

/-! ## One packet at a time -/

/-- Between two packets, with the window 1. -/
structure Idle (s : Sender) : Prop where
  going : s.stopped = none
  reading : s.eof_reached = false
  unfinished : s.lastPkt = false
  empty : s.window.linkedList = []
  size : s.window.windowsize = 1

theorem idle_initial (copybuf : Mem) : Idle (.initial copybuf) := ⟨rfl, rfl, rfl, rfl, rfl⟩

/-- One packet in the window 1. -/
structure Single (s : Sender) (node : Node) : Prop where
  going : s.stopped = none
  reading : s.eof_reached = false
  unfinished : s.lastPkt = false
  window : s.window = ⟨seqnumOf node, seqnumOf node, 1, [node]⟩

variable (crc32) in
/-- The datagram is the `ACK` of the packet, with the same window size. -/
structure Answers (s : Sender) (node : Node) (bytes_read : Option (List UInt8)) (pkt : Pkt) : Prop where
  incoming : incoming crc32 s bytes_read = some pkt
  type : pkt_get_type pkt = .ACK
  seqnum : pkt_get_seqnum pkt = seqnumOf node + 1
  size : (pkt_get_window pkt).toNat = 1

theorem Idle.fill {s : Sender} (h : Idle s) (crc32 : List UInt8 → UInt32) (time : UInt32) :
    ∃ s' node, turn_step crc32 s ⟨fun _ => some [7], time, true, true⟩ false = some s' ∧ Single s' node ∧
      node.pkt.timestamp = time := by
  obtain ⟨s', hs⟩ : ∃ s', turn_step crc32 s ⟨fun _ => some [7], time, true, true⟩ false = some s' :=
    ⟨_, if_pos ⟨h.going, h.reading, by rw [h.empty, h.size]; decide⟩⟩
  refine ⟨s', turn_node s ⟨fun _ => some [7], time, true, true⟩, hs, ?_, ?_⟩
  all_goals obtain ⟨_, _, _, ⟨hend, _⟩ | ⟨_, _, _, _, _, rfl⟩⟩ := turn_step_cases hs
  · exact absurd (Option.some.inj hend) (List.cons_ne_nil _ _)
  · refine ⟨h.going, h.reading, h.unfinished, ?_⟩
    rw [turn_node_seqnum, h.empty, h.size]
    rfl
  · exact absurd (Option.some.inj hend) (List.cons_ne_nil _ _)
  · rfl

/-- The `ACK` of the only packet empties the list. -/
theorem acked_window_single (node : Node) :
    (acked_window ⟨seqnumOf node, seqnumOf node, 1, [node]⟩ (seqnumOf node + 1)).linkedList = [] := by
  have hcan : can_ack_window (⟨seqnumOf node, seqnumOf node, 1, [node]⟩ : Window Node) (seqnumOf node + 1) = true := by
    rw [can_ack_window_iff, dist_self, dist_add]
    decide
  rw [acked_window, if_pos hcan, (Protocol.ack_loop_window_spec _ _ _ rfl).1,
    List.dropWhile_cons_of_pos (by simp)]
  rfl

section Answered

variable {s : Sender} {node : Node} {bytes_read : Option (List UInt8)} {pkt : Pkt} (h : Single s node)
  (ha : Answers crc32 s node bytes_read pkt)
include h ha

theorem Answers.update (stale : Pkt) :
    update_window { s with copybuf := readInto bytes_read s.copybuf, lastRst := 0 } (pkt_get_window pkt) stale =
      (0, { s with copybuf := readInto bytes_read s.copybuf, lastRst := 0 }) := by
  have h0 : pkt_get_window pkt ≠ 0 := by
    intro hzero
    have hsize := ha.size
    rw [hzero] at hsize
    contradiction
  rw [update_window, if_neg h0, if_pos]
  rw [ha.size, h.window]

theorem Answers.updated (stale : Pkt) : updated_window s bytes_read pkt stale = s.window := by
  rw [updated_window, ha.update h]

theorem Answers.empties : (handled_window s.window pkt).linkedList = [] := by
  rw [handled_window, if_pos ha.type, ha.seqnum, h.window]
  exact acked_window_single node

theorem Answers.readsListed (time : UInt32) (stale : Pkt) :
    ReadsListed crc32 s (.response bytes_read time stale) := by
  intro pkt' hpkt' _ hnil
  rw [ha.incoming] at hpkt'
  obtain rfl := Option.mem_some_iff.mp hpkt'
  rw [ha.updated h, h.window] at hnil
  exact absurd hnil (List.cons_ne_nil _ _)

theorem Answers.acked_rtts (time : UInt32) (stale : Pkt) :
    acked_rtts crc32 s (.response bytes_read time stale) = [rtt time node.pkt] := by
  simp only [Trtp.acked_rtts, ha.incoming, ha.updated h]
  rw [ha.empties h, h.window]
  rfl

theorem Answers.idle (time : UInt32) (stale : Pkt) :
    ∃ s', response_step crc32 s bytes_read time stale = some s' ∧ Idle s' := by
  obtain ⟨s', hs'⟩ : ∃ s', response_step crc32 s bytes_read time stale = some s' := ⟨_, if_pos h.going⟩
  refine ⟨s', hs', ?_⟩
  obtain ⟨_, ⟨hnone, _⟩ | ⟨pkt', u, fec, stats, hi, hu, _, _, _, rfl⟩⟩ := response_step_cases hs'
  · rw [ha.incoming] at hnone
    contradiction
  rw [ha.incoming] at hi
  obtain rfl := Option.some.inj hi
  rw [ha.update h] at hu
  subst hu
  have hempty := ha.empties h
  refine ⟨?_, h.reading, h.unfinished, hempty, ?_⟩
  · simp only [h.unfinished, Bool.false_eq_true, false_and, and_false, if_false]
    exact h.going
  · rw [(handled_window_keeps _ _).2]
    exact congrArg Window.windowsize h.window

end Answered

theorem exists_answers (crc32 : List UInt8 → UInt32) (s : Sender) (node : Node) :
    ∃ bytes_read pkt, Answers crc32 s node bytes_read pkt := by
  obtain ⟨pkt, hi, hr⟩ := (responsePkt_sendable true (seqnumOf node + 1) 1).incoming crc32 s
  refine ⟨_, pkt, hi, hr.type, hr.seqnum, ?_⟩
  rw [pkt_get_window_toNat, hr.window]
  rfl

/-- A packet is sent, and acknowledged later. -/
theorem timed_exchange (crc32 : List UInt8 → UInt32) {t : Timed} (h : Idle t.snd) (sending receiving : UInt32) :
    ∃ t', Reach (timed_step crc32) (fun u a => ReadsListed crc32 u.snd a) t t' ∧ Idle t'.snd ∧
      t'.rtts = t.rtts ++ [(receiving - sending).toNat] := by
  obtain ⟨s₁, node, hs₁, hsingle, htime⟩ := h.fill crc32 sending
  have hreach : Reach (timed_step crc32) (fun u a => ReadsListed crc32 u.snd a) t ⟨s₁, t.rtts, t.acked⟩ := by
    refine .next .start (a := .fill ⟨fun _ => some [7], sending, true, true⟩ false) trivial ?_
    rw [timed_step, call_step, hs₁]
    simp only [Option.map_some, taken_rtts, acked_rtts, List.append_nil]
  obtain ⟨bytes_read, pkt, ha⟩ := exists_answers crc32 s₁ node
  obtain ⟨s₂, hs₂, hidle⟩ := ha.idle hsingle receiving pkt_new
  have hlisted := ha.readsListed hsingle receiving pkt_new
  have hstep : timed_step crc32 ⟨s₁, t.rtts, t.acked⟩ (.response bytes_read receiving pkt_new) =
      some ⟨s₂, t.rtts ++ [rtt receiving node.pkt], t.acked ++ [rtt receiving node.pkt]⟩ := by
    rw [timed_step, call_step, hs₂]
    simp only [Option.map_some, taken_rtts_eq hlisted, ha.acked_rtts hsingle]
  refine ⟨_, hreach.next hlisted hstep, hidle, ?_⟩
  rw [rtt, pkt_get_timestamp, htime]

/-- Any samples in any order are those of a run. -/
theorem timed_run (crc32 : List UInt8 → UInt32) (copybuf : Mem) (xs : List UInt32) :
    ∃ t, Reach (timed_step crc32) (fun u a => ReadsListed crc32 u.snd a) (.initial copybuf) t ∧ Idle t.snd ∧
      t.rtts = xs.map UInt32.toNat := by
  induction xs using List.reverseRecOn with
  | nil => exact ⟨_, .start, idle_initial copybuf, rfl⟩
  | append_singleton xs x ih =>
    obtain ⟨t, hreach, hidle, hrtts⟩ := ih
    -- each packet is sent when the one before it is acknowledged
    obtain ⟨t', hreach', hidle', hrtts'⟩ := timed_exchange crc32 hidle xs.sum (x + xs.sum)
    refine ⟨t', hreach.trans hreach', hidle', ?_⟩
    rw [hrtts', hrtts, List.map_append, UInt32.add_sub_cancel]
    rfl

/-! ## The two extremes -/

/-- `min_rtt` and `max_rtt` are right unless the first sample is less than all others, and inside the range. The
samples are those of the acknowledged packets as long as none is that of a freed packet. -/
theorem rtt_statistics_iff {ok : Timed → SenderCall → Prop} {copybuf : Mem} {t : Timed}
    (h : Reach (timed_step crc32) ok (.initial copybuf) t) (hne : t.rtts ≠ []) :
    (RttRight t ↔ Extremes.FirstMatched 0 (2 ^ 32 - 1) t.rtts) ∧
      ((∀ u a, ok u a → ReadsListed crc32 u.snd a) → t.rtts = t.acked) := by
  constructor
  · have htiming : Timing t := h.invariant (timing_initial copybuf) fun _ _ _ ht _ hs => timed_step_timing ht hs
    exact htiming.right_iff hne
  · intro hlisted
    refine h.invariant (P := fun t => t.rtts = t.acked) rfl fun u a u' heq hok hs => ?_
    obtain ⟨s', _, rfl⟩ := Option.map_eq_some_iff.mp hs
    simp only [heq, taken_rtts_eq (hlisted u a hok)]

/-- Two packets, acknowledged after 5 and after 3 milliseconds. -/
theorem rtt_statistics_decreasing :
    ∃ t, Reach (timed_step zlib_crc32) (fun u a => ReadsListed zlib_crc32 u.snd a) (.initial fun _ => 0) t ∧
      t.rtts = [5, 3] ∧ t.rtts = t.acked ∧ RttRight t := by
  generalize zlib_crc32 = crc32
  obtain ⟨t, hreach, _, hrtts⟩ := timed_run crc32 (fun _ => 0) [5, 3]
  have hne : t.rtts ≠ [] := by
    rw [hrtts]
    exact List.cons_ne_nil _ _
  obtain ⟨hright, hacked⟩ := rtt_statistics_iff hreach hne
  refine ⟨t, hreach, hrtts, hacked fun _ _ hlisted => hlisted, hright.mpr ?_⟩
  rw [hrtts]
  exact Or.inr (Or.inr ⟨3, List.mem_singleton_self 3, by decide⟩)

/-- Two packets, acknowledged after 5 and after 8 milliseconds: `min_rtt` is as it was. -/
theorem min_rtt_untouched :
    ∃ t, Reach (timed_step zlib_crc32) (fun u a => ReadsListed zlib_crc32 u.snd a) (.initial fun _ => 0) t ∧
      t.rtts = [5, 8] ∧ t.snd.stats.min_rtt.toNat = 2 ^ 32 - 1 ∧ ¬ RttRight t := by
  generalize zlib_crc32 = crc32
  obtain ⟨t, hreach, _, hrtts⟩ := timed_run crc32 (fun _ => 0) [5, 8]
  have htiming : Timing t := hreach.invariant (timing_initial _) fun _ _ _ ht _ hs => timed_step_timing ht hs
  have hmin : t.snd.stats.min_rtt.toNat = 2 ^ 32 - 1 := by
    rw [htiming.min_rtt, hrtts]
    rfl
  refine ⟨t, hreach, hrtts, hmin, fun hright => ?_⟩
  have hmem : t.snd.stats.min_rtt.toNat ∈ t.rtts := hright.min_rtt.1
  rw [hmin, hrtts] at hmem
  exact absurd hmem (by decide)

end Trtp
