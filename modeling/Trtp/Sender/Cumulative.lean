import Trtp.Protocol.Clean
import Trtp.Sender.Response

/-!
# Cumulative acknowledgement

On a list of consecutive numbers an `ACK` removes as many packets as it is ahead of the first.
-/

open Trtp.Lib

namespace Trtp

/-- `n` packets numbered from `h` on, with `seqnumHead` and `seqnumTail` at their ends. -/
structure Spans (window : Window Node) (h : UInt8) (n : Nat) : Prop where
  length : window.linkedList.length = n
  numbers : ∀ i (hi : i < window.linkedList.length), seqnumOf window.linkedList[i] = h + UInt8.ofNat i
  head : window.seqnumHead = h
  tail : window.seqnumTail = h + UInt8.ofNat (n - 1)

theorem Spans.consecutive {window : Window Node} {h : UInt8} {n : Nat} (hw : Spans window h n) :
    Protocol.Consecutive h.toNat window.linkedList := by
  apply List.ext_getElem
  · simp
  · intro i hi _
    rw [List.getElem_map, List.getElem_map, List.getElem_range', Nat.one_mul, serial_toNat_add,
      hw.numbers i (by simpa using hi)]

theorem Spans.can_ack_iff {window : Window Node} {h : UInt8} {n : Nat} (hw : Spans window h n) (h1 : 1 ≤ n)
    (h31 : n ≤ 31) (a : UInt8) : can_ack_window window a = true ↔ dist h a < n + 30 := by
  have htail : dist h (h + UInt8.ofNat (n - 1)) = n - 1 := by
    rw [dist_add, UInt8.toNat_ofNat']
    omega
  rw [can_ack_window_iff, hw.head, hw.tail, htail]
  omega

/-! ## The loop -/

/-- The loop counts the packets before the one that has the number. -/
theorem ack_loop_count (ackSeqnum : UInt8) (time : UInt32) (list : List Node) (no_acked : Nat) (s : Sender)
    (hlist : s.window.linkedList = list) :
    (ack_loop ackSeqnum time list no_acked s).1 =
      (no_acked + (list.takeWhile fun p => seqnumOf p ≠ ackSeqnum).length : Nat) := by
  induction list generalizing no_acked s with
  | nil => rfl
  | cons current next ih =>
    unfold ack_loop
    by_cases hne : seqnumOf current ≠ ackSeqnum
    · rw [if_pos ((seqnum_in_window_head hlist ackSeqnum).mpr hne), ih _ _ (remove_acked_list hlist),
        List.takeWhile_cons_of_pos (by simpa using hne), List.length_cons]
      congr 1
      omega
    · rw [if_neg (fun h => hne ((seqnum_in_window_head hlist ackSeqnum).mp h)),
        List.takeWhile_cons_of_neg (by simpa using hne)]
      rfl

/-- `seqnumHead` stays at the first packet. -/
theorem ack_loop_window_first (ackSeqnum : UInt8) (list : List Node) (window : Window Node)
    (hlist : window.linkedList = list) (hhead : ∀ p ∈ window.linkedList.head?, window.seqnumHead = seqnumOf p) :
    ∀ p ∈ (ack_loop_window ackSeqnum list window).linkedList.head?,
      (ack_loop_window ackSeqnum list window).seqnumHead = seqnumOf p := by
  induction list generalizing window with
  | nil => exact hhead
  | cons current next ih =>
    rw [Protocol.ack_loop_window_cons ackSeqnum hlist]
    split
    · refine ih _ (remove_acked_list hlist) fun p hp => ?_
      rw [remove_acked_list hlist, Option.mem_def] at hp
      rw [remove_acked_head hlist, hp]
      rfl
    · exact hhead

/-! ## `ack_window` -/

theorem takeWhile_consecutive {first : Nat} {list : List Node} (h : Protocol.Consecutive first list) (a : UInt8) :
    (list.takeWhile fun p => seqnumOf p ≠ a).length = min (dist (serial first) a) list.length := by
  have hsplit := congrArg List.length (List.takeWhile_append_dropWhile (l := list) (p := fun p => seqnumOf p ≠ a))
  rw [List.length_append, Protocol.dropWhile_consecutive h, List.length_drop] at hsplit
  omega

/-- An `ACK` at distance `k` of the first of `n` packets removes the first `min k n`, or nothing from `n + 30` on. -/
theorem ack_window_cumulative (s : Sender) (pkt : Pkt) (time : UInt32) (stale : Pkt) (h : UInt8) (n : Nat)
    (h1 : 1 ≤ n) (h31 : n ≤ 31) (hw : Spans s.window h n) :
    (dist h (pkt_get_seqnum pkt) < n + 30 →
      (ack_window s pkt time stale).1 = (min (dist h (pkt_get_seqnum pkt)) n : Nat) ∧
        (ack_window s pkt time stale).2.window.linkedList =
          s.window.linkedList.drop (min (dist h (pkt_get_seqnum pkt)) n) ∧
        ∀ first ∈ (ack_window s pkt time stale).2.window.linkedList.head?,
          (ack_window s pkt time stale).2.window.seqnumHead = seqnumOf first) ∧
    (n + 30 ≤ dist h (pkt_get_seqnum pkt) → ack_window s pkt time stale = (-1, s)) := by
  have hcan := hw.can_ack_iff h1 h31 (pkt_get_seqnum pkt)
  constructor
  · intro hk
    rw [← hcan] at hk
    have hne : s.window.linkedList ≠ [] := by
      rw [← List.length_pos_iff, hw.length]
      exact h1
    have hcount := takeWhile_consecutive hw.consecutive (pkt_get_seqnum pkt)
    have hlist := (Protocol.ack_loop_window_spec (pkt_get_seqnum pkt) _ s.window rfl).1
    have hfirst : ∀ p ∈ s.window.linkedList.head?, s.window.seqnumHead = seqnumOf p := by
      intro p hp
      obtain ⟨tail, hl⟩ := List.head?_eq_some_iff.mp hp
      have hnumber := hw.numbers 0 (List.length_pos_iff.mpr hne)
      simp only [hl, List.getElem_cons_zero] at hnumber
      rw [hw.head, hnumber]
      exact (UInt8.add_zero h).symm
    have hheads := ack_loop_window_first (pkt_get_seqnum pkt) _ s.window rfl hfirst
    have hret : (ack_window s pkt time stale).1 = (min (dist h (pkt_get_seqnum pkt)) n : Nat) := by
      rw [ack_window, if_neg (by simp [hk]), if_neg (by simpa using hne), ack_loop_count _ _ _ _ _ rfl, hcount,
        hw.length, serial_of_toNat, Nat.zero_add]
    obtain ⟨fec, stats, -, -, heq⟩ := ack_window_eq s pkt time stale
    have hwindow : acked_window s.window (pkt_get_seqnum pkt) =
        ack_loop_window (pkt_get_seqnum pkt) s.window.linkedList s.window := if_pos hk
    rw [heq, hwindow]
    refine ⟨hret, ?_, hheads⟩
    rw [hlist, Protocol.dropWhile_consecutive hw.consecutive, serial_of_toNat, ← hw.length]
    exact List.drop_eq_drop_min ..
  · intro hk
    have hno : can_ack_window s.window (pkt_get_seqnum pkt) = false := by
      rw [Bool.eq_false_iff, Ne, hcan]
      omega
    simp [ack_window, hno]

/-- Packets 254, 255 and 0, and an `ACK` of 0. -/
theorem ack_window_cumulative_wrap :
    (ack_window { Sender.initial (fun _ => 0) with
        window := ⟨254, 0, 3, [⟨0, 0, dataPkt 254 [1]⟩, ⟨1, 1, dataPkt 255 [2]⟩, ⟨2, 2, dataPkt 0 [3]⟩]⟩ }
      { pkt_new with type := .ACK, seqnum := 0 } 5 pkt_new).1 = 2 :=
  ((ack_window_cumulative { Sender.initial (fun _ => 0) with
      window := ⟨254, 0, 3, [⟨0, 0, dataPkt 254 [1]⟩, ⟨1, 1, dataPkt 255 [2]⟩, ⟨2, 2, dataPkt 0 [3]⟩]⟩ }
    { pkt_new with type := .ACK, seqnum := 0 } 5 pkt_new 254 3 (by decide) (by decide)
    ⟨rfl, by decide, rfl, rfl⟩).1 (by decide)).1

end Trtp
