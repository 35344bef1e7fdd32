import Trtp.Network
import Trtp.Protocol.Sender

/-!
# The handling of a datagram

What `handle_response` does to the sender, from the packet that the datagram decodes to.
-/

open Trtp.Lib

namespace Trtp

variable {crc32 : List UInt8 → UInt32}

/-! ## `update_window` -/

theorem update_window_zero (s : Sender) (stale : Pkt) : update_window s 0 stale = (-1, s.ignore) := rfl

theorem update_window_grow {s : Sender} {newSize : UInt8} (h0 : newSize ≠ 0)
    (hle : s.window.windowsize ≤ newSize.toNat) (stale : Pkt) :
    (update_window s newSize stale).2 = { s with window := { s.window with windowsize := newSize.toNat } } := by
  unfold update_window
  rw [if_neg h0]
  split
  · rename_i heq
    rw [heq]
  · rw [if_pos (by omega)]

theorem update_window_shrink {s : Sender} {newSize : UInt8} (h0 : newSize ≠ 0)
    (hlt : newSize.toNat < s.window.windowsize) (stale : Pkt) :
    (update_window s newSize stale).2 =
      { s with
        window := shrink_window s.window newSize.toNat (pkt_get_seqnum stale)
        global_pkt := s.global_pkt - UInt64.ofNat (Protocol.dropped s.window newSize.toNat)
        eof_reached := false
        lastPkt := false
        lastRst := 0 } := by
  have hd : s.window.linkedList.length -
      (shrink_window s.window newSize.toNat (pkt_get_seqnum stale)).linkedList.length =
      Protocol.dropped s.window newSize.toNat := by
    rw [Protocol.shrink_window_linkedList, List.length_take, Protocol.dropped]
    omega
  unfold update_window
  rw [if_neg h0, if_neg (by omega), if_neg (by omega)]
  simp only [hd]

theorem update_window_windowsize {s : Sender} {newSize : UInt8} (h0 : newSize ≠ 0) (stale : Pkt) :
    (update_window s newSize stale).2.window.windowsize = newSize.toNat := by
  by_cases hle : s.window.windowsize ≤ newSize.toNat
  · rw [update_window_grow h0 hle]
  · rw [update_window_shrink h0 (by omega)]
    rfl

/-! ## `ack_window` -/

/-- What `ack_window` makes of the window. -/
def acked_window (window : Window Node) (ackSeqnum : UInt8) : Window Node :=
  if can_ack_window window ackSeqnum then ack_loop_window ackSeqnum window.linkedList window else window

theorem acked_window_suffix (window : Window Node) (ackSeqnum : UInt8) :
    (acked_window window ackSeqnum).linkedList <:+ window.linkedList :=
  Protocol.ack_window_suffix ackSeqnum window

theorem acked_window_keeps (window : Window Node) (ackSeqnum : UInt8) :
    (acked_window window ackSeqnum).seqnumTail = window.seqnumTail ∧
      (acked_window window ackSeqnum).windowsize = window.windowsize :=
  Protocol.ack_window_same ackSeqnum window

/-- An `ACK` that is accepted removes the first packet, unless it has the number of that packet. -/
theorem acked_window_eq_iff (window : Window Node) (ackSeqnum : UInt8) :
    acked_window window ackSeqnum = window ↔
      can_ack_window window ackSeqnum = false ∨ ∀ node ∈ window.linkedList.head?, seqnumOf node = ackSeqnum := by
  unfold acked_window
  cases hcan : can_ack_window window ackSeqnum with
  | false => simp
  | true =>
    simp only [if_true, Bool.true_eq_false, false_or]
    cases hl : window.linkedList with
    | nil => simp [ack_loop_window]
    | cons current next =>
      simp only [List.head?_cons, Option.mem_def, Option.some.injEq, forall_eq']
      constructor
      · intro heq
        by_contra hne
        have hlist := (Protocol.ack_loop_window_spec ackSeqnum _ window hl).1
        rw [heq, hl, List.dropWhile_cons_of_pos (by simpa using hne)] at hlist
        have hle := (List.dropWhile_suffix (fun p => decide (seqnumOf p ≠ ackSeqnum)) (l := next)).length_le
        rw [← hlist, List.length_cons] at hle
        omega
      · intro heq
        rw [Protocol.ack_loop_window_cons ackSeqnum hl, if_neg (by rw [heq]; simp)]

/-- What an `ACK` does besides: it may set `fec->i` to 0, and does so when it removes a packet. -/
structure AckRest (s : Sender) (window : Window Node) (fec : FecPkt) (stats : SenderStats) : Prop where
  pkts : fec.pkts = s.fec.pkts
  i : fec.i = s.fec.i ∨ fec.i = 0
  removed : fec.i = 0 ∨ window = s.window
  ignored : stats.packet_ignored = s.stats.packet_ignored

theorem AckRest.same (s : Sender) : AckRest s s.window s.fec s.stats := ⟨rfl, Or.inl rfl, Or.inr rfl, rfl⟩

theorem ack_loop_eq (ackSeqnum : UInt8) (time : UInt32) (list : List Node) (no_acked : Nat) (s : Sender) :
    ∃ fec stats, AckRest s (ack_loop_window ackSeqnum list s.window) fec stats ∧
      (ack_loop ackSeqnum time list no_acked s).1 ≠ -1 ∧
      (ack_loop ackSeqnum time list no_acked s).2 =
        { s with fec, stats, window := ack_loop_window ackSeqnum list s.window } := by
  induction list generalizing no_acked s with
  | nil => exact ⟨_, _, .same s, by simp only [ack_loop]; omega, rfl⟩
  | cons current next ih =>
    unfold ack_loop ack_loop_window
    split
    · obtain ⟨fec, stats, hrest, hret, heq⟩ :=
        ih (no_acked + 1) { s.take_rtt time current.pkt with window := remove_acked s.window }
      have hzero : fec.i = 0 := hrest.i.elim (fun h => h.trans rfl) id
      exact ⟨fec, stats, ⟨hrest.pkts, Or.inr hzero, Or.inl hzero, hrest.ignored⟩, hret, heq⟩
    · exact ⟨_, _, .same s, by simp only; omega, rfl⟩

theorem ack_window_eq (s : Sender) (pkt : Pkt) (time : UInt32) (stale : Pkt) :
    ∃ fec stats, AckRest s (acked_window s.window (pkt_get_seqnum pkt)) fec stats ∧
      ((ack_window s pkt time stale).1 = -1 ↔ can_ack_window s.window (pkt_get_seqnum pkt) = false) ∧
      (ack_window s pkt time stale).2 =
        { s with fec, stats, window := acked_window s.window (pkt_get_seqnum pkt) } := by
  cases hcan : can_ack_window s.window (pkt_get_seqnum pkt) with
  | false =>
    have hw : acked_window s.window (pkt_get_seqnum pkt) = s.window := by simp [acked_window, hcan]
    have hack : ack_window s pkt time stale = (-1, s) := by simp [ack_window, hcan]
    rw [hw, hack]
    exact ⟨_, _, .same s, by simp, rfl⟩
  | true =>
    have hw : acked_window s.window (pkt_get_seqnum pkt) =
        ack_loop_window (pkt_get_seqnum pkt) s.window.linkedList s.window := by simp [acked_window, hcan]
    rw [hw]
    unfold ack_window
    simp only [hcan, Bool.true_eq_false, if_false, iff_false]
    split
    · rename_i hempty
      rw [List.isEmpty_iff.mp hempty]
      split
      · exact ⟨⟨s.fec.pkts, 0⟩, (s.take_rtt time stale).stats, ⟨rfl, Or.inr rfl, Or.inl rfl, rfl⟩, by simp, rfl⟩
      · exact ⟨_, _, .same s, by simp, rfl⟩
    · exact ack_loop_eq _ _ _ _ _

/-! ## A packet -/

/-- What `packet_ignored` counts once the window is updated. -/
def Refused (window : Window Node) (pkt : Pkt) : Prop :=
  (pkt_get_type pkt = .NACK ∧ is_in_sender_window window (pkt_get_seqnum pkt) = false) ∨
    (pkt_get_type pkt = .ACK ∧ can_ack_window window (pkt_get_seqnum pkt) = false)

instance (window : Window Node) (pkt : Pkt) : Decidable (Refused window pkt) := inferInstanceAs (Decidable (_ ∨ _))

/-- The window once the packet is handled, from the one that `update_window` leaves. -/
def handled_window (window : Window Node) (pkt : Pkt) : Window Node :=
  if pkt_get_type pkt = .ACK then acked_window window (pkt_get_seqnum pkt) else window

theorem handled_window_keeps (window : Window Node) (pkt : Pkt) :
    (handled_window window pkt).seqnumTail = window.seqnumTail ∧
      (handled_window window pkt).windowsize = window.windowsize := by
  unfold handled_window
  split
  · exact acked_window_keeps _ _
  · exact ⟨rfl, rfl⟩

theorem handle_packet_eq (s : Sender) (pkt : Pkt) (time : UInt32) (stale : Pkt) {u : Sender}
    (hu : (update_window s (pkt_get_window pkt) stale).2 = u) :
    ∃ fec stats, fec.pkts = u.fec.pkts ∧ (fec.i = u.fec.i ∨ fec.i = 0) ∧
      (fec.i = 0 ∨ handled_window u.window pkt = u.window) ∧
      stats.packet_ignored = u.stats.packet_ignored + (if Refused u.window pkt then 1 else 0) ∧
      handle_packet s pkt time stale =
        { u with
          fec
          stats
          window := handled_window u.window pkt
          stopped :=
            if pkt_get_type pkt = .ACK ∧ u.lastPkt ∧ (handled_window u.window pkt).linkedList.isEmpty then
              some .allAcked
            else u.stopped } := by
  unfold handle_packet
  rw [hu]
  cases ht : pkt_get_type pkt with
  | DATA | FEC =>
    have hr : ¬ Refused u.window pkt := by simp [Refused, ht]
    have hw : handled_window u.window pkt = u.window := by simp [handled_window, ht]
    rw [hw, if_neg hr]
    exact ⟨u.fec, u.stats, rfl, Or.inl rfl, Or.inr rfl, rfl, by simp⟩
  | NACK =>
    have hr : Refused u.window pkt ↔ is_in_sender_window u.window (pkt_get_seqnum pkt) = false := by simp [Refused, ht]
    have hw : handled_window u.window pkt = u.window := by simp [handled_window, ht]
    rw [hw]
    by_cases hin : is_in_sender_window u.window (pkt_get_seqnum pkt) = false
    · rw [if_pos (hr.mpr hin)]
      exact ⟨u.fec, { u.stats with packet_ignored := u.stats.packet_ignored + 1 }, rfl, Or.inl rfl, Or.inr rfl, rfl,
        by simp [hin, Sender.ignore]⟩
    · rw [if_neg (mt hr.mp hin)]
      exact ⟨u.fec, { u.stats with nack_received := u.stats.nack_received + 1 }, rfl, Or.inl rfl, Or.inr rfl, rfl,
        by simp [hin]⟩
  | ACK =>
    have hr : Refused u.window pkt ↔ can_ack_window u.window (pkt_get_seqnum pkt) = false := by simp [Refused, ht]
    have hw : handled_window u.window pkt = acked_window u.window (pkt_get_seqnum pkt) := by simp [handled_window, ht]
    obtain ⟨fec, stats, ⟨hpkts, hi, hremoved, hignored⟩, hret, heq⟩ := ack_window_eq
      { u with stats := { u.stats with ack_received := u.stats.ack_received + 1 } } pkt time stale
    rcases hack : ack_window { u with stats := { u.stats with ack_received := u.stats.ack_received + 1 } } pkt time
      stale with ⟨retval, s₂⟩
    rw [hack] at hret heq
    simp only at hret heq hpkts hi hremoved hignored
    rw [hw]
    simp only [hack, heq, true_and]
    by_cases hcan : can_ack_window u.window (pkt_get_seqnum pkt) = false
    · rw [if_pos (hr.mpr hcan)]
      refine ⟨fec, { stats with packet_ignored := stats.packet_ignored + 1 }, hpkts, hi, hremoved,
        by rw [← hignored], ?_⟩
      simp only [hret.mpr hcan, if_true, Sender.ignore]
      split <;> rfl
    · rw [if_neg (mt hr.mp hcan)]
      refine ⟨fec, stats, hpkts, hi, hremoved, hignored, ?_⟩
      rw [if_neg (mt hret.mp hcan)]
      split <;> rfl

/-! ## A datagram -/

theorem handle_response_some {s : Sender} {bytes_read : Option (List UInt8)} {pkt : Pkt}
    (hi : incoming crc32 s bytes_read = some pkt) (time : UInt32) (stale : Pkt) :
    handle_response crc32 s bytes_read time stale =
      handle_packet { s with copybuf := readInto bytes_read s.copybuf, lastRst := 0 } pkt time stale := by
  unfold incoming at hi
  unfold handle_response
  rcases hd : pkt_decode crc32 (readInto bytes_read s.copybuf) (readLen bytes_read) pkt_new with ⟨retval, pkt'⟩
  simp only [hd, Option.ite_none_right_eq_some, Option.some.injEq] at hi ⊢
  rw [if_pos hi.1, hi.2]

theorem handle_response_none {s : Sender} {bytes_read : Option (List UInt8)}
    (hi : incoming crc32 s bytes_read = none) (time : UInt32) (stale : Pkt) :
    handle_response crc32 s bytes_read time stale =
      Sender.ignore { s with copybuf := readInto bytes_read s.copybuf, lastRst := 0 } := by
  unfold incoming at hi
  unfold handle_response
  rcases hd : pkt_decode crc32 (readInto bytes_read s.copybuf) (readLen bytes_read) pkt_new with ⟨retval, pkt'⟩
  simp only [hd] at hi ⊢
  split at hi
  · contradiction
  · rename_i hbad
    rw [if_neg hbad]

theorem update_window_stopped (s : Sender) (newSize : UInt8) (stale : Pkt) :
    (update_window s newSize stale).2.stopped = s.stopped := by
  unfold update_window
  split_ifs <;> rfl

theorem handle_response_stopped (s : Sender) (bytes_read : Option (List UInt8)) (time : UInt32) (stale : Pkt) :
    (handle_response crc32 s bytes_read time stale).stopped = s.stopped ∨
      (handle_response crc32 s bytes_read time stale).stopped = some .allAcked := by
  cases hi : incoming crc32 s bytes_read with
  | none =>
    rw [handle_response_none hi]
    exact Or.inl rfl
  | some pkt =>
    obtain ⟨fec, stats, _, _, _, _, heq⟩ :=
      handle_packet_eq { s with copybuf := readInto bytes_read s.copybuf, lastRst := 0 } pkt time stale rfl
    rw [handle_response_some hi, heq]
    simp only
    split
    · exact Or.inr rfl
    · exact Or.inl (update_window_stopped _ _ _)

end Trtp
