import Trtp.Protocol.Undamaged
import Trtp.Window.Insert

/-!
# The end can be reached

As long as both parties go on, a network that damages nothing can bring what is missing: the next packet, or the newest
`ACK` where nothing is missing, and at last the `ACK` of the final packet.
-/

open Trtp.Lib

namespace Trtp.Protocol

variable {n : Nat} {s : State}

theorem Paced.reach {s' : State} (hn : 1 ≤ n) (h : Paced n s) (hr : Reach (step n) Undamaged s s') : Paced n s' :=
  hr.invariant h fun _ _ _ => step_paced hn

theorem Clean.made_le {first : Nat} {s : Sender} (h : Clean n s first) : s.made ≤ n + 1 := by
  have hcount := h.count
  unfold Sender.made
  split <;> omega

theorem Clean.lastPkt_of_made {first : Nat} {s : Sender} (h : Clean n s first) (hmade : n < s.made) :
    s.lastPkt = true := by
  have hcount := h.count
  unfold Sender.made at hmade
  split at hmade
  · assumption
  · omega

/-! ## The next packet arrives -/

theorem Clean.exists_index {first c : Nat} {s : Sender} (h : Clean n s first) (hlo : first ≤ c) (hhi : c < s.made) :
    ∃ x ∈ s.window.linkedList, x.index = c := by
  have hle := h.le
  rw [h.list]
  by_cases hlt : c < s.global_pkt.toNat
  · refine ⟨.chunk c, List.mem_append_left _ (List.mem_map.mpr ⟨c, ?_, rfl⟩), rfl⟩
    rw [List.mem_range'_1]
    omega
  · have hlast : s.lastPkt = true := by
      by_contra hno
      rw [Sender.made, if_neg hno] at hhi
      omega
    have hg := h.last hlast
    rw [Sender.made, if_pos hlast] at hhi
    refine ⟨.final n (serial n), List.mem_append_right _ (by simp [finalPart, hlast]), ?_⟩
    simp only [Item.index]
    omega

/-- Once the packet that the window waits for is stored, it comes first. -/
theorem store_first {window : Window Item} {x : Item} (hord : Ordered (store window x))
    (hseq : seqnumOf x = window.seqnumHead) :
    ∃ current next, (store window x).linkedList = current :: next ∧ (store window x).seqnumHead = seqnumOf current := by
  have hhead := store_seqnumHead window x
  have hmem : ∃ p ∈ (store window x).linkedList, seqnumOf p = window.seqnumHead := by
    cases hadd : linkedList_add_increasing window x with
    | none =>
      have hloop : add_loop window x window.linkedList = none := by
        simpa [linkedList_add_increasing] using hadd
      obtain ⟨q, hq, hsame⟩ := add_loop_none hloop
      exact ⟨q, (store_keeps window x).2 hq, hsame.trans hseq⟩
    | some window' =>
      obtain ⟨_, _, atEnd, hloop⟩ := linkedList_add_increasing_spec hadd
      have hx : x ∈ window'.linkedList := (add_loop_perm hloop).mem_iff.mpr List.mem_cons_self
      refine ⟨x, ?_, hseq⟩
      unfold store
      rw [hadd]
      simp only
      split
      · rwa [increase_window_linkedList]
      · exact hx
  obtain ⟨p, hp, hseqp⟩ := hmem
  have hfirst := hord.head_first hp (hseqp.trans hhead.symm)
  obtain ⟨next, hlist⟩ := List.head?_eq_some_iff.mp hfirst
  exact ⟨p, next, hlist, by rw [hhead, hseqp]⟩

theorem flush_consumes {r : Receiver} {current : Item} {next : List Item}
    (hlist : r.window.linkedList = current :: next) (hhead : r.window.seqnumHead = seqnumOf current) :
    r.consumed < r.flush.consumed := by
  unfold Receiver.flush
  rw [hlist, flush_loop_window, if_neg (by simpa using hhead)]
  by_cases hfinal : isFinal current = true
  · simp only [hfinal, if_true, List.length_nil, Receiver.reply]
    omega
  · simp only [hfinal, Bool.false_eq_true, if_false]
    rcases flush_loop_window next (flushed r.window next) with ⟨written, window, eof⟩
    cases eof
    · simp only [List.length_cons, Bool.false_eq_true, if_false]
      omega
    · simp only [List.length_cons, if_true, Receiver.reply]
      omega

/-- What the newest `ACK` of the receiver says. -/
def Receiver.newest (r : Receiver) : Reply := ⟨true, r.window.seqnumHead, r.window.windowsize, r.consumed⟩

theorem flush_newest {r : Receiver} (hdone : r.flush.done = true) (hgo : r.done = false) :
    r.flush.newest ∈ r.flush.replies := by
  revert hdone
  unfold Receiver.flush
  rcases flush_loop_window r.window.linkedList r.window with ⟨written, window, eof⟩
  cases eof
  · intro hdone
    exact absurd (hgo.symm.trans hdone) (by decide)
  · exact fun _ => List.mem_cons_self

/-- A turn of the receiver's inner loop. It takes what has come only if it waits for something. -/
def Receiver.turn (r : Receiver) (awaits : Bool) (x : Item) : Receiver := (if awaits then r.deliver x else r).flush

theorem deliver_done (r : Receiver) (x : Item) : (r.deliver x).done = r.done := by
  unfold Receiver.deliver
  split <;> rfl

theorem turn_reach {x : Item} (hx : x ∈ s.snd.sent) (hok : Undamaged s (.deliver x)) (hrun : s.rcv.done = false)
    (awaits : Bool) : Reach (step n) Undamaged s { s with rcv := s.rcv.turn awaits x } := by
  have hflush : ∀ rcv : Receiver, rcv.done = false →
      step n { s with rcv } .flush = some { s with rcv := rcv.flush } := by
    intro rcv hgo
    rw [step, Receiver.step, hgo]
    rfl
  cases awaits with
  | false => exact .step_one (a := .flush) trivial (hflush s.rcv hrun)
  | true =>
    have hdeliver : step n s (.deliver x) = some { s with rcv := s.rcv.deliver x } := by
      rw [step, if_pos hx, Receiver.step, hrun]
      rfl
    exact .next (a := .flush) (.step_one (a := .deliver x) hok hdeliver) trivial
      (hflush _ ((deliver_done s.rcv x).trans hrun))

/-- The packet that the receiver waits for arrives, or has come already, and is written. -/
theorem Paced.arrival (h : Paced n s) (hgo : s.snd.stopped = false) (hrun : s.rcv.done = false)
    (hlt : s.rcv.consumed < s.snd.made) {awaits : Bool} (hstored : awaits = false →
      ∃ p ∈ s.rcv.window.linkedList, seqnumOf p = s.rcv.window.seqnumHead) :
    ∃ x ∈ s.snd.sent, Undamaged s (.deliver x) ∧ s.rcv.consumed < (s.rcv.turn awaits x).consumed ∧
      ((s.rcv.turn awaits x).done = true → (s.rcv.turn awaits x).newest ∈ (s.rcv.turn awaits x).replies) := by
  obtain ⟨first, hclean, hfirst⟩ := h.snd.behind hgo
  obtain ⟨x, hmem, hx⟩ := hclean.exists_index hfirst hlt
  have hsent := h.snd.listed x hmem
  obtain ⟨_, _, hcons, _⟩ := h.rcv.delivered.going hrun
  have hgood := h.snd.numbering.sent x hsent
  have hseq : seqnumOf x = s.rcv.window.seqnumHead := by rw [good_seqnum hgood, hx, h.rcv.counts.head]
  have hin : is_in_window s.rcv.window (seqnumOf x) = true := by
    rw [is_in_window_iff _ _ h.rcv.counts.size.1 h.rcv.counts.size.2, hseq, dist_self]
    exact Nat.zero_le _
  have hsafe := h.rcv.deliverSafe hrun hgood (by have := h.rcv.counts.size.1; omega) (by omega) hin
  have hwindow : (s.rcv.deliver x).window = store s.rcv.window x := by rw [Receiver.deliver, if_pos hin]
  refine ⟨x, hsent, ⟨by omega, by omega⟩, ?_⟩
  cases awaits with
  | true =>
    obtain ⟨current, next, hlist, hhead⟩ :=
      store_first (store_ordered h.rcv.counts.size (h.rcv.within hrun).ordered hsafe.2) hseq
    rw [← hwindow] at hlist hhead
    refine ⟨?_, fun hdone => flush_newest hdone ((deliver_done s.rcv x).trans hrun)⟩
    rw [← (deliver_grows s.rcv x).1]
    exact flush_consumes hlist hhead
  | false =>
    obtain ⟨p, hp, hseqp⟩ := hstored rfl
    obtain ⟨next, hlist⟩ := List.head?_eq_some_iff.mp ((h.rcv.within hrun).ordered.head_first hp hseqp)
    exact ⟨flush_consumes hlist hseqp.symm, fun hdone => flush_newest hdone hrun⟩

/-- When everything has been consumed, nothing that comes is stored. -/
theorem Paced.idle (h : Paced n s) (hgo : s.snd.stopped = false) (hrun : s.rcv.done = false)
    (hall : s.rcv.consumed = s.snd.made) {x : Item} (hmem : x ∈ s.snd.window.linkedList) :
    Undamaged s (.deliver x) ∧ s.rcv.window.linkedList = [] ∧ s.rcv.deliver x = s.rcv := by
  obtain ⟨first, hclean, hfirst⟩ := h.snd.behind hgo
  have hsent := h.snd.listed x hmem
  obtain ⟨_, _, hcons, _⟩ := h.rcv.delivered.going hrun
  have hgood := h.snd.numbering.sent x hsent
  obtain ⟨hroom, hbefore⟩ := h.snd.sent x hsent
  have hge := hclean.index_ge hmem
  have hlength := hclean.made
  have hfits := hclean.room
  have hsize := hclean.size
  refine ⟨⟨by omega, by omega⟩, List.eq_nil_iff_forall_not_mem.mpr fun y hy => ?_, ?_⟩
  · have hlo := (h.rcv.held hrun).items y hy
    have hhi := h.rcv.stored hrun y hy
    omega
  · rw [Receiver.deliver, if_neg]
    intro hin
    have hnear := (h.rcv.deliverSafe hrun hgood hroom (by omega) hin).1
    have hwide := h.rcv.counts.size.2
    rw [h.rcv.counts.head, good_seqnum hgood, dist_serial_of_lt (by omega) (by omega)] at hnear
    omega

theorem Receiver.turn_idle {r : Receiver} {x : Item} (hnil : r.window.linkedList = []) (hsame : r.deliver x = r)
    (awaits : Bool) : r.turn awaits x = r := by
  rw [turn, hsame, ite_self, flush, hnil]
  simp [flush_loop_window]

/-! ## The newest `ACK` arrives -/

/-- The sender after the newest `ACK`. -/
def State.informed (s : State) : Sender := (s.snd.update s.rcv.window.windowsize 0).ack s.rcv.window.seqnumHead

theorem Paced.not_shrinks (h : Paced n s) : ¬ Shrinks s.snd.window s.rcv.window.windowsize := by
  intro hs
  have hsize := h.snd.size
  have hlt := hs.2
  omega

theorem Paced.newest_snd (h : Paced n s) (hgo : s.snd.stopped = false) :
    s.snd.step n (.respond true s.rcv.newest.seqnum s.rcv.newest.window 0) = some s.informed := by
  simp only [Sender.step, hgo, Bool.false_eq_true, if_false, Receiver.newest, h.rcv.counts.size.2, if_true,
    Sender.respond, State.informed]

theorem Paced.newest_step (h : Paced n s) (hgo : s.snd.stopped = false) (hmem : s.rcv.newest ∈ s.rcv.replies) :
    Undamaged s (.respond s.rcv.newest 0) ∧ step n s (.respond s.rcv.newest 0) =
      some { s with snd := s.informed, acked := s.rcv.consumed :: s.acked } := by
  refine ⟨⟨?_, h.not_shrinks⟩, ?_⟩
  · simp only [Receiver.newest]
    omega
  · have hsnd := h.newest_snd hgo
    rw [step, if_pos hmem]
    simp only [Receiver.newest] at hsnd ⊢
    rw [hsnd]
    rfl

/-- What the size in the newest `ACK` makes of the sender. -/
theorem Paced.updated (h : Paced n s) {first : Nat} (hclean : Clean n s.snd first) :
    Clean n (s.snd.update s.rcv.window.windowsize 0) first ∧
      (s.snd.update s.rcv.window.windowsize 0).made = s.snd.made ∧
      (s.snd.update s.rcv.window.windowsize 0).lastPkt = s.snd.lastPkt ∧
      (s.snd.update s.rcv.window.windowsize 0).eof_reached = s.snd.eof_reached ∧
      (s.snd.update s.rcv.window.windowsize 0).stopped = s.snd.stopped := by
  have hpos := h.rcv.counts.size.1
  have hupdate := Sender.update_grow (s := s.snd) (by omega) h.not_shrinks 0
  refine ⟨update_clean hclean h.rcv.counts.size.2 (fun hs => absurd hs h.not_shrinks) 0,
    update_made h.not_shrinks 0, ?_, ?_, update_stopped _ _ _⟩ <;> rw [hupdate]

/-- When everything has been consumed, it empties the list of the sender. -/
theorem Paced.newest_empties (h : Paced n s) (hgo : s.snd.stopped = false) (hall : s.rcv.consumed = s.snd.made) :
    s.informed.window.linkedList = [] ∧ s.informed.made = s.snd.made ∧ s.informed.eof_reached = s.snd.eof_reached ∧
      s.informed.stopped = s.snd.lastPkt := by
  obtain ⟨first, hclean, hfirst⟩ := h.snd.behind hgo
  obtain ⟨hclean', hmade, hlast, heof, hstopped⟩ := h.updated hclean
  have hlength := hclean'.made
  unfold State.informed
  rw [h.rcv.counts.head]
  generalize s.snd.update s.rcv.window.windowsize 0 = u at hclean' hlength hmade hlast heof hstopped
  have hremoved : removed u first (serial s.rcv.consumed) = u.window.linkedList.length := by
    by_cases hzero : u.window.linkedList.length = 0
    · have := removed_le u first (serial s.rcv.consumed)
      omega
    · have := hclean'.removed_of_inside (a := s.rcv.consumed) (by omega) (by omega)
      omega
  have hnil : (u.ack (serial s.rcv.consumed)).window.linkedList = [] := by
    rw [hclean'.ack_list, hremoved, List.drop_length]
  have hstop : (u.ack (serial s.rcv.consumed)).stopped =
      (u.stopped || (u.lastPkt && (u.ack (serial s.rcv.consumed)).window.linkedList.isEmpty)) := rfl
  refine ⟨hnil, hmade, heof, ?_⟩
  rw [hstop, hnil, hstopped, hgo, hlast]
  simp

/-- The receiver can always send it. -/
theorem ack_step (hrun : s.rcv.done = false) :
    Reach (step n) Undamaged s { s with rcv := s.rcv.reply true s.rcv.window.seqnumHead } := by
  refine .step_one (a := .ack) trivial ?_
  rw [step, Receiver.step, hrun]
  rfl

/-! ## The next packets are sent -/

theorem fill_full {s : Sender} (h : ¬ (s.window.linkedList.length < s.window.windowsize ∧ s.eof_reached = false))
    (room : Nat) : Sender.fill n room s = some s := by
  cases room with
  | zero => rfl
  | succ room => rw [Sender.fill, if_neg h]

theorem fill_possible {first : Nat} {s : Sender} (hbig : n < 2 ^ 54) (h : Clean n s first) (room : Nat) :
    ∃ s', Sender.fill n room s = some s' ∧ Clean n s' first ∧ s.made ≤ s'.made ∧
      s'.window.windowsize = s.window.windowsize ∧ s'.lastPkt = s.lastPkt ∧ s'.stopped = s.stopped ∧
      (0 < room → s.window.linkedList.length < s.window.windowsize → s.made < s'.made ∨ s'.eof_reached = true) := by
  induction room generalizing s with
  | zero => exact ⟨s, rfl, h, Nat.le_refl _, rfl, rfl, rfl, fun hroom => absurd hroom (by decide)⟩
  | succ room ih =>
    have hidx := chunkIndex_of_le h.small
    have hcount := h.count
    by_cases hguard : s.window.linkedList.length < s.window.windowsize ∧ s.eof_reached = false
    swap
    · refine ⟨s, fill_full hguard _, h, Nat.le_refl _, rfl, rfl, rfl, fun _ hlen => Or.inr ?_⟩
      by_contra heof
      exact hguard ⟨hlen, by simpa using heof⟩
    unfold Sender.fill
    rw [if_pos hguard, if_neg (show ¬ 2 ^ 54 ≤ chunkIndex s.global_pkt by omega)]
    split
    · rename_i hend
      exact ⟨_, rfl, eof_clean h hend, Nat.le_refl _, rfl, rfl, rfl, fun _ _ => Or.inr rfl⟩
    · obtain ⟨s', hs', hclean, hmade, hsize, hlast, hstop, _⟩ :=
        ih (push_clean h hguard.1 hguard.2 (by omega) (by omega))
      rw [push_made h.small] at hmade
      exact ⟨s', hs', hclean, by omega, hsize, hlast, hstop, fun _ _ => Or.inl (by omega)⟩

/-- `fill_window` does not look at what was sent. -/
theorem fill_sent {room : Nat} {s s' : Sender} (h : Sender.fill n room s = some s') :
    ∃ more, s'.sent = more ++ s.sent ∧
      ∀ sent, Sender.fill n room { s with sent } = some { s' with sent := more ++ sent } := by
  induction room generalizing s with
  | zero =>
    obtain rfl := Option.some.inj h
    exact ⟨[], rfl, fun _ => rfl⟩
  | succ room ih =>
    unfold Sender.fill at h ⊢
    simp only
    split at h
    swap
    · rename_i hguard
      obtain rfl := Option.some.inj h
      exact ⟨[], rfl, fun _ => if_neg hguard⟩
    rename_i hguard
    obtain ⟨hoff, h⟩ := Option.ite_none_left_eq_some.mp h
    split at h
    · rename_i hend
      obtain rfl := Option.some.inj h
      exact ⟨[], rfl, fun _ => by rw [if_pos hguard, if_neg hoff, if_pos hend]; rfl⟩
    · rename_i hchunk
      obtain ⟨more, hmore, hall⟩ := ih h
      refine ⟨more ++ [.chunk (chunkIndex s.global_pkt)], ?_, fun sent => ?_⟩
      · rw [hmore, List.append_assoc]
        rfl
      · rw [if_pos hguard, if_neg hoff, if_neg hchunk, List.append_assoc]
        exact hall (.chunk (chunkIndex s.global_pkt) :: sent)

/-- `fill_window` and `send_final_pkt`, where the main loop calls them. -/
def Sender.pollout (n : Nat) (s : Sender) : Option Sender :=
  (Sender.fill n (s.window.windowsize - s.window.linkedList.length) s).map fun s =>
    if s.lastPkt = false ∧ s.eof_reached = true ∧ s.window.linkedList.length < s.window.windowsize then s.final else s

theorem pollout_reach {snd : Sender} (hgo : s.snd.stopped = false) (h : s.snd.pollout n = some snd) :
    Reach (step n) Undamaged s { s with snd } ∧ snd.stopped = false := by
  obtain ⟨snd₁, hfill, rfl⟩ := Option.map_eq_some_iff.mp h
  have hgo₁ : snd₁.stopped = false := Sender.fill_induction (P := fun s => s.stopped = false)
    (fun _ h _ _ _ _ => h) (fun _ h _ _ _ => h) hfill hgo
  have hreach : Reach (step n) Undamaged s { s with snd := snd₁ } := by
    by_cases hguard : s.snd.window.linkedList.length < s.snd.window.windowsize ∧ s.snd.eof_reached = false
    · refine .step_one (a := .fill) trivial ?_
      rw [step, Sender.step, hgo]
      simp only [Bool.false_eq_true, if_false]
      rw [if_pos hguard.symm, hfill]
      rfl
    · rw [fill_full hguard] at hfill
      rw [← Option.some.inj hfill]
      exact .start
  split
  · rename_i hguard
    refine ⟨hreach.next (a := .final) trivial ?_, hgo₁⟩
    rw [step, Sender.step, hgo₁]
    simp only [Bool.false_eq_true, if_false]
    rw [if_pos hguard]
    rfl
  · exact ⟨hreach, hgo₁⟩

/-- After it something is in the list. -/
theorem pollout_possible (hn : 1 ≤ n) (hbig : n < 2 ^ 54) {first : Nat} {s : Sender} (h : Clean n s first)
    (hpos : 1 ≤ s.window.windowsize) :
    ∃ s', s.pollout n = some s' ∧ Clean n s' first ∧ s.made ≤ s'.made ∧ s'.window.linkedList ≠ [] ∧
      (s.window.linkedList = [] → s.made < s'.made) := by
  obtain ⟨s₁, hfill, hclean, hmade, hsize, hlast, _, hmoved⟩ :=
    fill_possible hbig h (s.window.windowsize - s.window.linkedList.length)
  have hlength := h.made
  have hlength₁ := hclean.made
  unfold Sender.pollout
  rw [hfill, Option.map_some]
  by_cases hguard : s₁.lastPkt = false ∧ s₁.eof_reached = true ∧ s₁.window.linkedList.length < s₁.window.windowsize
  · rw [if_pos hguard]
    have hfinal := final_made hguard.1
    exact ⟨_, rfl, final_clean hn hclean hguard.2.1 hguard.1 hguard.2.2, by omega, by simp [Sender.final],
      fun _ => by omega⟩
  · rw [if_neg hguard]
    have hgrows : s.window.linkedList = [] → s.made < s₁.made := by
      intro hnil
      rw [hnil, List.length_nil] at hmoved hlength
      have hdata : s.lastPkt = false := by
        by_contra hl
        rw [h.list, finalPart, if_pos (by simpa using hl)] at hnil
        simp at hnil
      by_contra hsame
      have heof := (hmoved (by omega) (by omega)).resolve_left hsame
      exact hguard ⟨hlast.trans hdata, heof, by omega⟩
    refine ⟨s₁, rfl, hclean, hmade, fun hnil => ?_, hgrows⟩
    rw [hnil, List.length_nil] at hlength₁
    by_cases hold : s.window.linkedList = []
    · have := hgrows hold
      rw [hold, List.length_nil] at hlength
      omega
    · have := List.length_pos_iff.mpr hold
      omega

theorem pollout_sent {s s' : Sender} (h : s.pollout n = some s') :
    ∃ more, s'.sent = more ++ s.sent ∧
      ∀ sent, Sender.pollout n { s with sent } = some { s' with sent := more ++ sent } := by
  obtain ⟨s₁, hfill, rfl⟩ := Option.map_eq_some_iff.mp h
  obtain ⟨more, hmore, hall⟩ := fill_sent hfill
  unfold Sender.pollout
  split
  · rename_i hguard
    refine ⟨.final (chunkIndex s₁.global_pkt) (s₁.window.seqnumTail + 1) :: more, ?_, fun sent => ?_⟩
    · rw [List.cons_append, ← hmore]
      rfl
    · rw [hall, Option.map_some, if_pos hguard]
      rfl
  · rename_i hguard
    refine ⟨more, hmore, fun sent => ?_⟩
    rw [hall, Option.map_some, if_neg hguard]

/-! ## Less on the way -/

/-- What is on the way can be lost, if it is not in the list of the sender. -/
theorem Paced.fewer (h : Paced n s) (sent : List Item) (replies : List Reply) (hsent : ∀ x ∈ sent, x ∈ s.snd.sent)
    (hlisted : ∀ x ∈ s.snd.window.linkedList, x ∈ sent) (hreplies : ∀ q ∈ replies, q ∈ s.rcv.replies) :
    Paced n { s with snd := { s.snd with sent }, rcv := { s.rcv with replies } } := by
  obtain ⟨hsnd, hrcv⟩ := h
  refine ⟨⟨?_, hsnd.pos, hsnd.size, fun hgo => ?_, fun x hx => hsnd.sent x (hsent x hx), hlisted⟩,
    ⟨?_, ?_, hrcv.within, hrcv.finished, fun q hq => hrcv.windows q (hreplies q hq), hrcv.stored, hrcv.consumed⟩⟩
  · refine ⟨fun x hx => hsnd.numbering.sent x (hsent x hx), hsnd.numbering.list, hsnd.numbering.size,
      hsnd.numbering.room, ?_⟩
    exact hsnd.numbering.count.imp (fun hc => { hc with }) id
  · obtain ⟨first, hclean, hfirst⟩ := hsnd.behind hgo
    exact ⟨first, { hclean with }, hfirst⟩
  · exact ⟨hrcv.counts.head, hrcv.counts.size, fun q hq => hrcv.counts.replies q (hreplies q hq)⟩
  · exact ⟨hrcv.delivered.going, hrcv.delivered.finished⟩

/-- At most one packet of the list is the final one. -/
theorem Clean.finals {first : Nat} {s : Sender} (h : Clean n s first) :
    (s.window.linkedList.filter isFinal).length ≤ 1 := by
  have hchunks : (chunks first (s.global_pkt.toNat - first)).filter isFinal = [] :=
    List.filter_eq_nil_iff.mpr fun x hx => by simp [chunks_data hx]
  rw [h.list, List.filter_append, hchunks, List.nil_append, finalPart]
  split
  · exact List.length_filter_le _ _
  · exact Nat.zero_le _

end Trtp.Protocol
