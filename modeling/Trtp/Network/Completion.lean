import Trtp.Network.Turns
import Trtp.Protocol.Completion
import Trtp.Sender.Loop

/-!
# The transfer can be completed

By turns of the two main loops, from every state in which the sender goes on, even if everything that is on the way is
lost. The sender sends its list again, and the receiver takes what it waits for. Where nothing is missing it answers. If
only the receiver has ended, the sender gives up.
-/

open Trtp.Lib

namespace Trtp

open Protocol (Item Reply Paced)

variable {crc32 : List UInt8 → UInt32} {file : List UInt8}

/-- Nothing that the sender has sent will arrive. -/
def Sender.lose (s : Sender) : Sender := { s with sent := [] }

/-- Nothing that the receiver has sent will arrive. -/
def Receiver.lose (r : Receiver) : Receiver := { r with sent := [] }

/-- All that is on the way is lost. -/
def System.lose (s : System) : System := { s with snd := s.snd.lose, rcv := s.rcv.lose }

/-! ## `POLLOUT` at the sender -/

/-- All packets have expired when the clock shows this. -/
def expireAll (list : List Node) (k : Nat) : UInt32 :=
  ((list[k]?.map fun node => pkt_get_timestamp node.pkt).getD 0) + UInt32.ofNat (TIMEOUT + 1)

theorem expireAll_expired {list : List Node} {k : Nat} {node : Node} (h : list[k]? = some node) :
    Expired node (expireAll list k) := by
  rw [expireAll, h, Option.map_some, Option.getD_some]
  exact expired_after node

/-- When all packets have expired, the whole list is sent. -/
theorem resent_loop_all (io : Nat → UInt32) {list : List Node} {items : List Item}
    (hl : List.Forall₂ (NodeCarries file) list items) (k nbr_resent : Nat) (s : Sender) {sent : List Item}
    (hexp : ∀ i node, list[i]? = some node → Expired node (io (k + i)))
    (hsent : SegmentsCarry crc32 file s.sent sent) :
    List.Forall₂ (NodeCarries file) (resent_loop crc32 (fun k => (io k, true)) list k nbr_resent s).2.1 items ∧
      ∃ copybuf stats segments, SegmentsCarry crc32 file segments (items.reverse ++ sent) ∧
        (resent_loop crc32 (fun k => (io k, true)) list k nbr_resent s).2.2 =
          { s with
            copybuf, stats
            sent := segments
            lastRst := s.lastRst + (list.filter isFinal).length } := by
  induction hl generalizing k nbr_resent s sent with
  | nil => exact ⟨.nil, _, _, _, hsent, rfl⟩
  | @cons node x nodes xs hx _ ih =>
    have hc := hx.pkt.retime (io k)
    have hold : (io k - pkt_get_timestamp node.pkt).toNat > TIMEOUT := hexp 0 node rfl
    have hexp' : ∀ i next, nodes[i]? = some next → Expired next (io (k + 1 + i)) := by
      intro i next hi
      rw [Nat.add_assoc, Nat.add_comm 1 i]
      exact hexp (i + 1) next hi
    unfold resent_loop
    simp only [hold, if_true]
    rw [write_pkt_eq crc32 _ _ hc.sendable.encode_size_le]
    have hone : SegmentsCarry crc32 file
        (s.sent ++ [⟨some node.index, pkt_bytes crc32 (pkt_set_timestamp node.pkt (io k)).2⟩]) (x :: sent) :=
      hsent.add ⟨congrArg some hx.index, _, hc, rfl⟩
    obtain ⟨h1, copybuf, stats, segments, h2, h3⟩ := ih (k + 1) (nbr_resent + 1) (s := { s with
      copybuf := load (pkt_bytes crc32 (pkt_set_timestamp node.pkt (io k)).2) s.copybuf
      sent := s.sent ++ [⟨some node.index, pkt_bytes crc32 (pkt_set_timestamp node.pkt (io k)).2⟩]
      lastRst := if pkt_get_length (pkt_set_timestamp node.pkt (io k)).2 = 0 then s.lastRst + 1 else s.lastRst
      stats := { s.stats with packet_retransmitted := s.stats.packet_retransmitted + 1 } }) hexp' hone
    refine ⟨.cons ⟨hc, hx.index⟩ h1, copybuf, stats, segments, ?_, ?_⟩
    · rw [List.reverse_cons, List.append_assoc]
      exact h2
    · rw [h3, List.filter_cons]
      have hfinal : isFinal node = decide (pkt_get_length (pkt_set_timestamp node.pkt (io k)).2 = 0) := rfl
      rw [hfinal]
      by_cases hzero : pkt_get_length (pkt_set_timestamp node.pkt (io k)).2 = 0
      · simp only [hzero, decide_true, if_true, List.length_cons]
        rw [Nat.add_right_comm, Nat.add_assoc]
      · simp only [hzero, decide_false, if_false, Bool.false_eq_true]

theorem Alike.finals {α β : Type} [Numbered α] [Numbered β] {R : α → β → Prop} (hR : Alike R) {l : List α} {l' : List β}
    (h : List.Forall₂ R l l') : (l.filter isFinal).length = (l'.filter isFinal).length := by
  induction h with
  | nil => rfl
  | @cons x y _ _ hxy _ ih =>
    rw [List.filter_cons, List.filter_cons, hR.final hxy]
    cases isFinal y
    · exact ih
    · exact congrArg (· + 1) ih

/-- When all packets have expired, the whole list is sent. -/
theorem resend_all {s : Sender} {t : Protocol.Sender} (h : SenderCarries crc32 file s t) (hgo : s.stopped = none)
    (hne : t.window.linkedList ≠ []) :
    ∃ s', sender_step crc32 file s (.resend (expireAll s.window.linkedList)) = some s' ∧
      SenderRel crc32 file s' { t with sent := t.window.linkedList.reverse ++ t.sent } ∧
      s'.lastRst = s.lastRst + (t.window.linkedList.filter isFinal).length ∧
      s'.stopped = if t.lastPkt = true ∧ s'.lastRst > MAX_RESENT_LAST_PKT then some .noNews else none := by
  have hexp : ∀ i node, s.window.linkedList[i]? = some node → Expired node (expireAll s.window.linkedList (0 + i)) := by
    intro i node hi
    rw [Nat.zero_add]
    exact expireAll_expired hi
  obtain ⟨hlist, copybuf, stats, segments, hsent, hloop⟩ :=
    resent_loop_all (expireAll s.window.linkedList) h.window.list 0 0 s hexp h.sent
  have hcount := (nodeCarries_alike file).finals h.window.list
  have hstep : sender_step crc32 file s (.resend (expireAll s.window.linkedList)) = some _ :=
    if_pos ⟨hgo, mt h.window.nil_iff.mp hne⟩
  have hrel : SenderCarries crc32 file (resent_pkt crc32 s fun k => (expireAll s.window.linkedList k, true)).2
      { t with sent := t.window.linkedList.reverse ++ t.sent } := by
    simp only [resent_pkt, hloop]
    exact ⟨h.eof, h.lastPkt, h.count, ⟨h.window.head, h.window.tail, h.window.size, hlist⟩, h.stopped, hsent, h.io⟩
  have hrst : (resent_pkt crc32 s fun k => (expireAll s.window.linkedList k, true)).2.lastRst =
      s.lastRst + (t.window.linkedList.filter isFinal).length := by
    simp only [resent_pkt, hloop, hcount]
  have hstop : (resent_pkt crc32 s fun k => (expireAll s.window.linkedList k, true)).2.stopped = none := by
    simp only [resent_pkt, hloop, hgo]
  have hlisted : Protocol.Sender.Listed { t with sent := t.window.linkedList.reverse ++ t.sent } :=
    fun x hx => List.mem_append_left _ (List.mem_reverse.mpr hx)
  refine ⟨_, hstep, ?_⟩
  generalize (resent_pkt crc32 s fun k => (expireAll s.window.linkedList k, true)).2 = v at hrel hrst hstop
  have hlast : v.lastPkt = t.lastPkt := hrel.lastPkt
  by_cases hmany : v.lastPkt = true ∧ v.lastRst > MAX_RESENT_LAST_PKT
  · rw [if_pos hmany]
    refine ⟨⟨⟨hrel.eof, hrel.lastPkt, hrel.count, hrel.window, ?_, hrel.sent, hrel.io⟩, hlisted⟩, hrst, ?_⟩
    · simp [h.going hgo]
    · exact (if_pos (hlast ▸ hmany)).symm
  · rw [if_neg hmany]
    exact ⟨⟨hrel, hlisted⟩, hrst, by rw [hstop, ← hlast, if_neg hmany]⟩

theorem system_step_own {s : System} {e : Event} {a : SenderAction} (he : e.snd = some a) (hown : e.Own) :
    system_step crc32 file s e = (sender_step crc32 file s.snd a).map fun snd => { s with snd } := by
  cases e with
  | fill | final | resend =>
    obtain rfl := Option.some.inj he
    rfl
  | flush | ack => contradiction
  | response | badResponse | data | truncated | corrupted => exact absurd hown id

theorem fill_if {s : System} {t t' : Protocol.Sender} (h : SenderCarries crc32 file s.snd t)
    (hgo : s.snd.stopped = none) (time : Nat → UInt32) (fec_enable : Bool)
    (hfill : Protocol.Sender.fill (chunkCount file) (t.window.windowsize - t.window.linkedList.length) t = some t') :
    ∃ snd, step_if crc32 file s.snd.fills (.fill time fec_enable) s = some { s with snd } ∧
      SenderCarries crc32 file snd t' ∧ snd.stopped = none ∧ snd.lastRst = s.snd.lastRst := by
  have htest : s.snd.fills = true ↔ t.window.linkedList.length < t.window.windowsize ∧ t.eof_reached = false := by
    simp [Sender.fills, h.eof, h.window.length, h.window.size, and_comm]
  by_cases hguard : t.window.linkedList.length < t.window.windowsize ∧ t.eof_reached = false
  · have ht : t.step (chunkCount file) .fill = some t' := by
      rw [Protocol.Sender.step, h.going hgo]
      simp only [Bool.false_eq_true, if_false]
      rw [if_pos hguard.symm, hfill]
    obtain ⟨snd, hsnd, hrel, _⟩ := sender_step_carries h (by simp [hgo]) (a := .fill time fec_enable) rfl ht
    obtain ⟨_, _, hkept⟩ := fill_step_filled (Option.filter_eq_some_iff.mp hsnd).1
    refine ⟨snd, ?_, hrel, hkept.stopped.trans hgo, hkept.lastRst⟩
    rw [step_if, if_pos (htest.mpr hguard), system_step_own (e := .fill time fec_enable) rfl trivial, hsnd,
      Option.map_some]
  · rw [Protocol.fill_full hguard] at hfill
    obtain rfl := Option.some.inj hfill
    exact ⟨s.snd, if_neg (mt htest.mp hguard), h, hgo, rfl⟩

theorem final_if {s : System} {t : Protocol.Sender} (h : SenderCarries crc32 file s.snd t)
    (hgo : s.snd.stopped = none) (time : UInt32) :
    ∃ snd, step_if crc32 file s.snd.ends (.final time) s = some { s with snd } ∧
      SenderCarries crc32 file snd
        (if t.lastPkt = false ∧ t.eof_reached = true ∧ t.window.linkedList.length < t.window.windowsize then t.final
          else t) ∧
      snd.stopped = none ∧ snd.lastRst = s.snd.lastRst := by
  have htest : s.snd.ends = true ↔
      t.lastPkt = false ∧ t.eof_reached = true ∧ t.window.linkedList.length < t.window.windowsize := by
    simp [Sender.ends, h.eof, h.lastPkt, h.window.length, h.window.size, and_assoc]
  by_cases hguard : t.lastPkt = false ∧ t.eof_reached = true ∧ t.window.linkedList.length < t.window.windowsize
  · rw [if_pos hguard]
    have ht : t.step (chunkCount file) .final = some t.final := by
      rw [Protocol.Sender.step, h.going hgo]
      simp only [Bool.false_eq_true, if_false]
      rw [if_pos hguard]
    obtain ⟨snd, hsnd, hrel, _⟩ := sender_step_carries h (by simp [hgo]) (a := .final time) rfl ht
    refine ⟨snd, ?_, hrel, ?_⟩
    · rw [step_if, if_pos (htest.mpr hguard), system_step_own (e := .final time) rfl trivial, hsnd, Option.map_some]
    · obtain ⟨_, _, _, _, _, _, _, _, _, heq, _⟩ := final_step_eq hsnd
      rw [heq]
      exact ⟨hgo, rfl⟩
  · rw [if_neg hguard]
    exact ⟨s.snd, if_neg (mt htest.mp hguard), h, hgo, rfl⟩

/-- What was made is on its way, and so is the whole list. -/
theorem pollout_turn {s : System} {t t' : Protocol.Sender} (h : SenderCarries crc32 file s.snd t)
    (hgo : s.snd.stopped = none) (hp : t.pollout (chunkCount file) = some t') (hne : t'.window.linkedList ≠ [])
    (fec_enable : Bool) :
    ∃ turn snd, poll_step crc32 file fec_enable s turn = some { s with snd } ∧ InTime crc32 s turn ∧
      SenderRel crc32 file snd { t' with sent := t'.window.linkedList.reverse ++ t'.sent } ∧
      snd.lastRst = s.snd.lastRst + (t'.window.linkedList.filter isFinal).length ∧
      snd.stopped = if t'.lastPkt = true ∧ snd.lastRst > MAX_RESENT_LAST_PKT then some .noNews else none := by
  obtain ⟨t₁, hfill, rfl⟩ := Option.map_eq_some_iff.mp hp
  obtain ⟨snd₁, hs₁, hrel₁, hgo₁, hrst₁⟩ := fill_if h hgo (fun _ => 0) fec_enable hfill
  obtain ⟨snd₂, hs₂, hrel₂, hgo₂, hrst₂⟩ := final_if (s := { s with snd := snd₁ }) hrel₁ hgo₁ 0
  generalize (if t₁.lastPkt = false ∧ t₁.eof_reached = true ∧
    t₁.window.linkedList.length < t₁.window.windowsize then t₁.final else t₁) = t₂ at hrel₂ hne
  obtain ⟨snd, hs, hrel, hrst, hstop⟩ := resend_all hrel₂ hgo₂ hne
  refine ⟨.pollout (fun _ => 0) 0 (expireAll snd₂.window.linkedList), snd, ?_, inTime_of_none s rfl, hrel, ?_, hstop⟩
  · simp only [poll_step, Option.bind_eq_bind, hs₁, Option.bind_some, hs₂]
    rw [system_step_own (e := .resend _) rfl trivial, hs, Option.map_some]
  · rw [hrst, hrst₂, hrst₁]

/-! ## At the receiver -/

theorem SystemRel.awaited {s : System} {t : Protocol.State} (h : SystemRel crc32 file s t) (heof : EofListed s.rcv)
    (hrun : t.rcv.done = false) (hno : s.rcv.awaits = false) :
    ∃ p ∈ t.rcv.window.linkedList, seqnumOf p = t.rcv.window.seqnumHead := by
  obtain ⟨hreached, hhead⟩ : s.rcv.eof_reached = true ∧ s.rcv.window.seqnumHead = s.rcv.eof_seqnum := by
    simpa [Receiver.awaits] using hno
  obtain ⟨pkt, hmem, _, hseq⟩ := heof (h.rcv.done.trans hrun) hreached
  obtain ⟨x, hx, hc⟩ := exists_of_forall₂ h.rcv.window.list hmem
  refine ⟨x, hx, ?_⟩
  rw [← hc.seqnum, ← h.rcv.window.head, hhead]
  exact hseq

/-- On an empty list an `ACK` is due. -/
theorem readable_turn {s : System} {t : Protocol.State} (h : SystemRel crc32 file s t) (hrun : t.rcv.done = false)
    {x : Item} (hx : x ∈ t.snd.sent) (hok : Protocol.Undamaged t (.deliver x)) (fec_enable : Bool) :
    ∃ segment s', poll_step crc32 file fec_enable s (.readable segment) = some s' ∧
      InTime crc32 s (.readable segment) ∧
      SystemRel crc32 file s' { t with rcv := t.rcv.turn s.rcv.awaits x } ∧ s'.snd = s.snd ∧
      (t.rcv.window.linkedList = [] → t.rcv.deliver x = t.rcv → s'.rcv.resent_ack = true) := by
  have hdeliver : Protocol.step (chunkCount file) t (.deliver x) = some { t with rcv := t.rcv.deliver x } := by
    rw [Protocol.step, if_pos hx, Protocol.Receiver.step, hrun]
    rfl
  obtain ⟨_, s₁, hm, hs₁, hrel₁, hsnd₁⟩ := receiver_step_of_protocol h (b := .deliver x) trivial rfl hdeliver
  cases hm with
  | @data segment x hc =>
    obtain ⟨s₀, hs₀, hrel₀, hsnd₀⟩ : ∃ s₀, step_if crc32 file s.rcv.awaits (.data segment) s = some s₀ ∧
        SystemRel crc32 file s₀ { t with rcv := if s.rcv.awaits then t.rcv.deliver x else t.rcv } ∧
        s₀.snd = s.snd := by
      unfold step_if
      cases s.rcv.awaits
      · exact ⟨s, rfl, h, rfl⟩
      · exact ⟨s₁, hs₁, hrel₁, hsnd₁⟩
    have hflush : Protocol.step (chunkCount file)
        { t with rcv := if s.rcv.awaits then t.rcv.deliver x else t.rcv } .flush =
        some { t with rcv := t.rcv.turn s.rcv.awaits x } := by
      have hgo : (if s.rcv.awaits then t.rcv.deliver x else t.rcv).done = false := by
        split
        · exact (Protocol.deliver_done t.rcv x).trans hrun
        · exact hrun
      simp only [Protocol.step, Protocol.Receiver.step, hgo, Bool.false_eq_true, if_false]
      rfl
    obtain ⟨_, s', hm, hs', hrel, hsnd⟩ := receiver_step_of_protocol hrel₀ (b := .flush) trivial rfl hflush
    cases hm with
    | flush =>
      refine ⟨segment, s', ?_, ?_, hrel, hsnd.trans hsnd₀, fun hnil hsame => ?_⟩
      · simp only [poll_step, Option.bind_eq_bind, hs₀, Option.bind_some, hs']
      · rintro _ ⟨⟩
        exact (undamaged_iff h (.data hc)).mpr hok
      · rw [hsame, ite_self] at hrel₀
        have hempty : s₀.rcv.window.linkedList = [] := hrel₀.rcv.window.nil_iff.mpr hnil
        have hgo : s₀.rcv.eof_wrote = false := hrel₀.rcv.done.trans hrun
        simp only [system_step, Event.snd, Option.isSome_none, Bool.false_eq_true, if_false, receiver_event, hgo,
          Option.some.injEq] at hs'
        rw [← hs', flush_turn, flush_file, if_pos (by rw [hempty]; rfl)]
        rfl

theorem writable_turn {s : System} {t : Protocol.State} (h : SystemRel crc32 file s t) (hrun : t.rcv.done = false)
    (hdue : s.rcv.resent_ack = true) (fec_enable : Bool) :
    ∃ s', poll_step crc32 file fec_enable s .writable = some s' ∧
      SystemRel crc32 file s' { t with rcv := t.rcv.reply true t.rcv.window.seqnumHead } ∧ s'.snd = s.snd := by
  have hack : Protocol.step (chunkCount file) t .ack =
      some { t with rcv := t.rcv.reply true t.rcv.window.seqnumHead } := by
    rw [Protocol.step, Protocol.Receiver.step, hrun]
    rfl
  obtain ⟨_, s', hm, hs', hrel, hsnd⟩ := receiver_step_of_protocol h (b := .ack) trivial rfl hack
  cases hm with
  | ack =>
    have hgo : s.rcv.eof_wrote = false := h.rcv.done.trans hrun
    exact ⟨s', by simp only [poll_step, step_if, hgo, hdue, hs', Bool.false_eq_true, if_false, if_true], hrel, hsnd⟩

/-! ## `POLLIN` at the sender -/

theorem handle_response_lastRst (s : Sender) (bytes_read : Option (List UInt8)) (time : UInt32) (stale : Pkt) :
    (handle_response crc32 s bytes_read time stale).lastRst = 0 := by
  cases hi : incoming crc32 s bytes_read with
  | none =>
    rw [handle_response_none hi]
    rfl
  | some pkt =>
    obtain ⟨fec, stats, _, _, _, _, heq⟩ :=
      handle_packet_eq { s with copybuf := readInto bytes_read s.copybuf, lastRst := 0 } pkt time stale rfl
    rw [handle_response_some hi, heq]
    rcases update_window_cases { s with copybuf := readInto bytes_read s.copybuf, lastRst := 0 } (pkt_get_window pkt)
      stale
      with ⟨_, stats', hu⟩ | ⟨_, hu⟩ <;> rw [hu]

theorem Matches.response_of {e : Event} {q : Reply} {k : UInt8} (h : Matches crc32 file e (.respond q k)) :
    ∃ response time stale, e = .response response time stale := by
  generalize hb : Protocol.Action.respond q k = b at h
  cases h with
  | response _ time stale => exact ⟨_, time, stale, rfl⟩
  | fill | final | data | truncated | corrupted | flush | ack => contradiction

theorem pollin_turn {s : System} {t t' : Protocol.State} (h : SystemRel crc32 file s t) (hgo : s.snd.stopped = none)
    (hne : t.snd.window.linkedList ≠ []) {q : Reply} (hok : Protocol.Undamaged t (.respond q 0))
    (ht : Protocol.step (chunkCount file) t (.respond q 0) = some t') (fec_enable : Bool) :
    ∃ turn s', poll_step crc32 file fec_enable s turn = some s' ∧ InTime crc32 s turn ∧
      SystemRel crc32 file s' t' ∧ s'.snd.stopped ≠ some .noNews ∧ s'.snd.lastRst = 0 := by
  obtain ⟨e, s', hm, hs', hrel, hnews⟩ := system_step_of_protocol h (b := .respond q 0) (by simp [hgo]) trivial ht
  have hevent := (undamaged_iff h hm).mpr hok
  obtain ⟨response, time, stale, rfl⟩ := hm.response_of
  refine ⟨.pollin response time stale, s', ?_, ?_, hrel, hnews, ?_⟩
  · rw [poll_step, if_neg, hs']
    rw [Option.any_eq_true]
    rintro ⟨pkt, _, hreads⟩
    exact hne (h.snd.window.nil_iff.mp (of_decide_eq_true hreads).1)
  · rintro _ ⟨⟩
    exact hevent
  · simp only [system_step, Event.snd, Option.isSome_some, if_true, sender_event, sender_step, response_step, hgo,
      Option.map_some, Option.ite_none_right_eq_some, Option.some.injEq] at hs'
    rw [← hs'.2]
    exact handle_response_lastRst s.snd _ time stale

variable (crc32 file) in
/-- What a turn with `POLLOUT` leaves. -/
structure Polled (s s' : System) (t t' : Protocol.State) : Prop where
  rel : SystemRel crc32 file s' t'
  paced : Paced (chunkCount file) t'
  going : t'.snd.stopped = false
  listed : t'.snd.window.linkedList ≠ []
  made : t.snd.made ≤ t'.snd.made
  grows : t.snd.window.linkedList = [] → t.snd.made < t'.snd.made
  lastRst : s'.snd.lastRst = s.snd.lastRst + (t'.snd.window.linkedList.filter isFinal).length
  stopped : s'.snd.stopped =
    if t'.snd.lastPkt = true ∧ s'.snd.lastRst > MAX_RESENT_LAST_PKT then some .noNews else none
  rcv : s'.rcv = s.rcv

/-- The turn is possible, even if something that was on the way is lost. -/
theorem polled_of_paced {s : System} {t : Protocol.State} {sent : List Item} {replies : List Reply}
    (hn : 1 ≤ chunkCount file) (hbig : chunkCount file < 2 ^ 54) (h : Paced (chunkCount file) t)
    (hsnd : SenderCarries crc32 file s.snd { t.snd with sent })
    (hrcv : ReceiverRel crc32 file s.rcv { t.rcv with replies }) (hacked : s.acked = t.acked)
    (hsent : ∀ x ∈ sent, x ∈ t.snd.sent) (hreplies : ∀ q ∈ replies, q ∈ t.rcv.replies) (hgo : s.snd.stopped = none)
    (fec_enable : Bool) :
    ∃ turn s' snd, poll_step crc32 file fec_enable s turn = some s' ∧ InTime crc32 s turn ∧
      Polled crc32 file s s' t ⟨snd, { t.rcv with replies }, t.acked⟩ := by
  have hgo' : t.snd.stopped = false := hsnd.going hgo
  obtain ⟨first, hclean, _⟩ := h.snd.behind hgo'
  obtain ⟨snd', hp, _, hmade, hne, hgrows⟩ := Protocol.pollout_possible hn hbig hclean h.snd.pos
  obtain ⟨hreach, hgoing⟩ := Protocol.pollout_reach hgo' hp
  obtain ⟨more, hmore, hall⟩ := Protocol.pollout_sent hp
  obtain ⟨turn, snd, hs, htime, hrel, hrst, hstop⟩ := pollout_turn hsnd hgo (hall sent) hne fec_enable
  have hpaced := h.reach hn hreach
  refine ⟨turn, { s with snd }, { snd' with sent := snd'.window.linkedList.reverse ++ (more ++ sent) }, hs, htime,
    ⟨hrel, hrcv, hacked⟩, ?_, hgoing, hne, hmade, hgrows, hrst, hstop, rfl⟩
  refine hpaced.fewer _ replies (fun x hx => ?_) (fun x hx => ?_) hreplies
  · rcases List.mem_append.mp hx with hmem | hmem
    · exact hpaced.snd.listed x (List.mem_reverse.mp hmem)
    · have hmem' : x ∈ snd'.sent := by
        rw [hmore]
        rcases List.mem_append.mp hmem with hnew | hold
        · exact List.mem_append_left _ hnew
        · exact List.mem_append_right _ (hsent x hold)
      exact hmem'
  · exact List.mem_append_left _ (List.mem_reverse.mpr hx)

/-! ## Both go on -/

theorem poll_eofListed {fec_enable : Bool} {s s' : System} (h : EofListed s.rcv)
    (hreach : Reach (poll_step crc32 file fec_enable) (InTime crc32) s s') : EofListed s'.rcv :=
  (poll_run hreach).invariant (P := fun s => EofListed s.rcv) h fun _ _ _ hs _ => system_step_eofListed hs

/-- The packets that are not consumed, and those that are not made. -/
def missing (n : Nat) (u : System) : Nat :=
  (n + 1 - u.rcv.consumed) + (n + 1 - (u.snd.global_pkt.toNat + if u.snd.lastPkt then 1 else 0))

theorem SystemRel.missing {s : System} {t : Protocol.State} (h : SystemRel crc32 file s t) (n : Nat) :
    Trtp.missing n s = (n + 1 - t.rcv.consumed) + (n + 1 - t.snd.made) := by
  rw [Trtp.missing, h.rcv.consumed, h.snd.count, h.snd.lastPkt]
  rfl

variable (crc32 file) in
/-- The receiver has not ended, and the list that the sender has sent is not empty. The sender may have given up if it
was about to. -/
structure Going (late : Prop) (u : System) (t : Protocol.State) : Prop where
  rel : SystemRel crc32 file u t
  paced : Paced (chunkCount file) t
  eof : EofListed u.rcv
  listed : t.snd.window.linkedList ≠ []
  going : t.snd.stopped = false
  running : t.rcv.done = false
  stopped : u.snd.stopped = none ∨ late ∧ u.snd.stopped = some .noNews ∧ t.snd.lastPkt = true

variable (file) in
/-- Both have left their loops, and the file is written. -/
structure Done (late : Prop) (u : System) : Prop where
  rcv : u.rcv.eof_wrote = true
  output : u.rcv.stdout.flatten = file
  snd : u.snd.stopped = some .allAcked ∨ late ∧ u.snd.stopped = some .noNews

variable {late : Prop} {u : System} {t : Protocol.State}

/-- The next packet is written. After the final one its `ACK` arrives, if the sender still listens. -/
theorem Going.deliver (hn : 1 ≤ chunkCount file) (h : Going crc32 file late u t)
    (hlt : t.rcv.consumed < t.snd.made) (fec_enable : Bool) :
    ∃ u', Reach (poll_step crc32 file fec_enable) (InTime crc32) u u' ∧
      ((∃ t', Going crc32 file late u' t') ∨ Done file late u') ∧
      missing (chunkCount file) u' < missing (chunkCount file) u := by
  obtain ⟨x, hx, hok, hmore, hlast⟩ := h.paced.arrival h.going h.running hlt (h.rel.awaited h.eof h.running)
  obtain ⟨segment, s₁, hs₁, htime, hrel₁, hsnd₁, _⟩ := readable_turn h.rel h.running hx hok fec_enable
  have hreach₁ : Reach (poll_step crc32 file fec_enable) (InTime crc32) u s₁ := .step_one htime hs₁
  have hpaced₁ := h.paced.reach hn (Protocol.turn_reach hx hok h.running u.rcv.awaits)
  obtain ⟨hcn, _, hcons, _⟩ := h.paced.rcv.delivered.going h.running
  have hless : missing (chunkCount file) s₁ < missing (chunkCount file) u := by
    rw [hrel₁.missing, h.rel.missing]
    simp only
    omega
  cases hdone : (t.rcv.turn u.rcv.awaits x).done with
  | false =>
    exact ⟨s₁, hreach₁, Or.inl ⟨_, hrel₁, hpaced₁, poll_eofListed h.eof hreach₁, h.listed, h.going, hdone,
      by rw [hsnd₁]; exact h.stopped⟩, hless⟩
  | true =>
    have hall : (t.rcv.turn u.rcv.awaits x).consumed = chunkCount file + 1 := hpaced₁.rcv.finished hdone
    have hbound : (t.rcv.turn u.rcv.awaits x).consumed ≤ t.snd.made := hpaced₁.rcv.consumed
    obtain ⟨first, hclean, _⟩ := h.paced.snd.behind h.going
    have hmade := hclean.made_le
    have hend := hclean.lastPkt_of_made (by omega)
    have hwritten := flatten_delivered hpaced₁.rcv.delivered hrel₁.rcv hdone
    rcases h.stopped with hgo | ⟨hlate, hnews, _⟩
    · obtain ⟨hok', hstep⟩ := hpaced₁.newest_step h.going (hlast hdone)
      obtain ⟨_, hsame, _, hstop⟩ := hpaced₁.newest_empties h.going (by simp only; omega)
      obtain ⟨turn, s₂, hs₂, htime₂, hrel₂, _, _⟩ :=
        pollin_turn hrel₁ (hsnd₁ ▸ hgo) h.listed hok' hstep fec_enable
      refine ⟨s₂, hreach₁.next htime₂ hs₂, Or.inr ⟨hrel₂.rcv.done.trans hdone, ?_, Or.inl ?_⟩, ?_⟩
      · exact flatten_delivered hpaced₁.rcv.delivered hrel₂.rcv hdone
      · exact hrel₂.snd.stopped.mpr (hstop.trans hend)
      · rw [hrel₂.missing, h.rel.missing]
        simp only [hsame]
        omega
    · exact ⟨s₁, hreach₁, Or.inr ⟨hrel₁.rcv.done.trans hdone, hwritten, Or.inr ⟨hlate, hsnd₁ ▸ hnews⟩⟩, hless⟩

/-- Nothing is missing: something comes again, the receiver answers, and the sender makes the next packets. -/
theorem Going.refill (hn : 1 ≤ chunkCount file) (hbig : chunkCount file < 2 ^ 54) (h : Going crc32 file late u t)
    (hall : t.rcv.consumed = t.snd.made) (fec_enable : Bool) :
    ∃ u', Reach (poll_step crc32 file fec_enable) (InTime crc32) u u' ∧ (∃ t', Going crc32 file late u' t') ∧
      missing (chunkCount file) u' < missing (chunkCount file) u := by
  obtain ⟨hcn, _, hcons, _⟩ := h.paced.rcv.delivered.going h.running
  obtain ⟨_, hclean, _⟩ := h.paced.snd.behind h.going
  have hmade := hclean.made_le
  have hmore : t.snd.lastPkt = false := by
    by_contra hlast
    rw [Bool.not_eq_false] at hlast
    have hg := hclean.last hlast
    rw [Protocol.Sender.made, if_pos hlast] at hall
    omega
  have hgo : u.snd.stopped = none := h.stopped.resolve_right fun hstop => by simp [hmore] at hstop
  -- a packet of the list comes again
  obtain ⟨x, hx⟩ := List.exists_mem_of_ne_nil _ h.listed
  obtain ⟨hok, hnil, hsame⟩ := h.paced.idle h.going h.running hall hx
  obtain ⟨segment, s₁, hs₁, htime₁, hrel₁, hsnd₁, hdue⟩ :=
    readable_turn h.rel h.running (h.paced.snd.listed x hx) hok fec_enable
  rw [Protocol.Receiver.turn_idle hnil hsame] at hrel₁
  have hrel₁' : SystemRel crc32 file s₁ t := hrel₁
  -- the receiver answers
  obtain ⟨s₂, hs₂, hrel₂, hsnd₂⟩ := writable_turn hrel₁' h.running (hdue hnil hsame) fec_enable
  have hpaced₂ := h.paced.reach hn (Protocol.ack_step h.running)
  obtain ⟨hok₃, hstep₃⟩ := hpaced₂.newest_step h.going List.mem_cons_self
  obtain ⟨hnil₃, hmade₃, _, hstop₃⟩ := hpaced₂.newest_empties h.going hall
  have hpaced₃ := hpaced₂.reach hn (.step_one hok₃ hstep₃)
  obtain ⟨turn, s₃, hs₃, htime₃, hrel₃, hnews₃, hrst₃⟩ :=
    pollin_turn hrel₂ (by rw [hsnd₂, hsnd₁]; exact hgo) h.listed hok₃ hstep₃ fec_enable
  generalize Protocol.State.informed _ = snd at hnil₃ hmade₃ hstop₃ hpaced₃ hrel₃
  have hgo₃ : snd.stopped = false := hstop₃.trans hmore
  -- the next packets are sent
  obtain ⟨turn', s₄, snd', hs₄, htime₄, hpolled⟩ := polled_of_paced hn hbig hpaced₃ hrel₃.snd.toSenderCarries hrel₃.rcv
    hrel₃.acked (fun _ => id) (fun _ => id) (hrel₃.snd.going_of hgo₃ hnews₃) fec_enable
  obtain ⟨first, hclean₄, _⟩ := hpolled.paced.snd.behind hpolled.going
  have hfew := hclean₄.finals
  have hbound := hclean₄.made_le
  have hgo₄ : s₄.snd.stopped = none := by
    rw [hpolled.stopped, if_neg]
    rintro ⟨_, hmany⟩
    have hrst := hpolled.lastRst
    simp only [MAX_RESENT_LAST_PKT] at hmany
    omega
  have htime₂ : InTime crc32 s₁ .writable := inTime_of_none s₁ rfl
  have hreach : Reach (poll_step crc32 file fec_enable) (InTime crc32) u s₄ :=
    (((Reach.step_one htime₁ hs₁).next htime₂ hs₂).next htime₃ hs₃).next htime₄ hs₄
  refine ⟨s₄, hreach, ⟨_, hpolled.rel, hpolled.paced, poll_eofListed h.eof hreach, hpolled.listed, hpolled.going,
    h.running, Or.inl hgo₄⟩, ?_⟩
  have hsame₃ : snd.made = t.snd.made := hmade₃
  have hmore' : snd.made < snd'.made := hpolled.grows hnil₃
  rw [hpolled.rel.missing, h.rel.missing]
  simp only [Protocol.Receiver.reply] at hbound ⊢
  omega

theorem Going.completes (hn : 1 ≤ chunkCount file) (hbig : chunkCount file < 2 ^ 54) (h : Going crc32 file late u t)
    (fec_enable : Bool) :
    ∃ u', Reach (poll_step crc32 file fec_enable) (InTime crc32) u u' ∧ Done file late u' := by
  obtain ⟨u', hreach, _, hdone⟩ := Reach.descent
    (P := fun u => (∃ t, Going crc32 file late u t) ∨ Done file late u) (Q := Done file late)
    (missing (chunkCount file)) (fun u hu hgoal => by
      obtain ⟨t, h⟩ := hu.resolve_right hgoal
      by_cases hlt : t.rcv.consumed < t.snd.made
      · exact h.deliver hn hlt fec_enable
      · have hle := h.paced.rcv.consumed
        obtain ⟨u', hreach, hgoing, hless⟩ := h.refill hn hbig (by omega) fec_enable
        exact ⟨u', hreach, Or.inl hgoing, hless⟩) (Or.inl ⟨t, h⟩)
  exact ⟨u', hreach, hdone⟩

/-! ## The sender gives up -/

variable (crc32 file) in
/-- The receiver has ended, and the sender sends its final packet again or has given up. -/
structure GivingUp (u : System) (t : Protocol.State) : Prop where
  rel : SystemRel crc32 file u t
  paced : Paced (chunkCount file) t
  going : t.snd.stopped = false
  done : t.rcv.done = true
  stopped : u.snd.stopped = none ∨ u.snd.stopped = some .noNews

/-- The final packet is in the list until its `ACK` comes. -/
theorem final_listed {n : Nat} {t : Protocol.State} (h : Paced n t) (hgo : t.snd.stopped = false)
    (hdone : t.rcv.done = true) :
    t.snd.lastPkt = true ∧ 1 ≤ (t.snd.window.linkedList.filter isFinal).length := by
  obtain ⟨first, hclean, _⟩ := h.snd.behind hgo
  have hall := h.rcv.finished hdone
  have hle := h.rcv.consumed
  have hlast := hclean.lastPkt_of_made (by omega)
  refine ⟨hlast, ?_⟩
  rw [hclean.list, Protocol.finalPart, if_pos hlast, List.filter_append, List.length_append]
  exact Nat.le_add_left 1 _

theorem GivingUp.resend (hn : 1 ≤ chunkCount file) (hbig : chunkCount file < 2 ^ 54) (h : GivingUp crc32 file u t)
    (hmore : u.snd.stopped ≠ some .noNews) (fec_enable : Bool) :
    ∃ u' t', Reach (poll_step crc32 file fec_enable) (InTime crc32) u u' ∧ GivingUp crc32 file u' t' ∧
      u'.rcv = u.rcv ∧
      (MAX_RESENT_LAST_PKT + 1 - u'.snd.lastRst) + (if u'.snd.stopped = none then 1 else 0) <
        (MAX_RESENT_LAST_PKT + 1 - u.snd.lastRst) + (if u.snd.stopped = none then 1 else 0) := by
  have hgo := h.stopped.resolve_right hmore
  obtain ⟨turn, u', snd, hs, htime, hpolled⟩ := polled_of_paced hn hbig h.paced h.rel.snd.toSenderCarries h.rel.rcv
    h.rel.acked (fun _ => id) (fun _ => id) hgo fec_enable
  obtain ⟨hlast, hfinal⟩ := final_listed hpolled.paced hpolled.going h.done
  have hrst := hpolled.lastRst
  have hstop := hpolled.stopped
  rw [hlast] at hstop
  refine ⟨u', _, .step_one htime hs, ⟨hpolled.rel, hpolled.paced, hpolled.going, h.done, ?_⟩, hpolled.rcv, ?_⟩
  · rw [hstop]
    split <;> simp
  · rw [hstop, hgo]
    unfold MAX_RESENT_LAST_PKT at *
    split
    · simp only [reduceCtorEq, if_false, if_true]
      omega
    · rename_i hless
      simp only [true_and, gt_iff_lt, not_lt] at hless
      simp only [if_true]
      omega

/-- The final packet is sent again until the sender has had enough. -/
theorem GivingUp.ends (hn : 1 ≤ chunkCount file) (hbig : chunkCount file < 2 ^ 54) (h : GivingUp crc32 file u t)
    (fec_enable : Bool) :
    ∃ u', Reach (poll_step crc32 file fec_enable) (InTime crc32) u u' ∧ u'.rcv = u.rcv ∧
      u'.snd.stopped = some .noNews := by
  obtain ⟨u', hreach, ⟨_, _, hrcv⟩, hstop⟩ := Reach.descent
    (P := fun v => ∃ t, GivingUp crc32 file v t ∧ v.rcv = u.rcv) (Q := fun v => v.snd.stopped = some .noNews)
    (fun v => (MAX_RESENT_LAST_PKT + 1 - v.snd.lastRst) + if v.snd.stopped = none then 1 else 0)
    (fun v ⟨t, hv, hsame⟩ hgoal => by
      obtain ⟨v', t', hreach, hv', hrcv, hless⟩ := hv.resend hn hbig hgoal fec_enable
      exact ⟨v', hreach, ⟨t', hv', hrcv.trans hsame⟩, hless⟩) ⟨t, h, rfl⟩
  exact ⟨u', hreach, hrcv, hstop⟩

/-! ## Completion -/

theorem SystemRel.completes (hfile : file ≠ []) (hbig : chunkCount file < 2 ^ 54) {s : System}
    (hrel : SystemRel crc32 file s t) (hpaced : Paced (chunkCount file) t) (heof : EofListed s.rcv)
    (hgo : s.snd.stopped = none) (fec_enable : Bool) :
    ∃ s', Reach (poll_step crc32 file fec_enable) (InTime crc32) s.lose s' ∧
      Done file (s.rcv.eof_wrote = true ∨ MAX_RESENT_LAST_PKT ≤ s.snd.lastRst) s' := by
  have hn := one_le_chunkCount hfile
  have hsnd : SenderCarries crc32 file s.lose.snd { t.snd with sent := [] } :=
    ⟨hrel.snd.eof, hrel.snd.lastPkt, hrel.snd.count, hrel.snd.window, hrel.snd.stopped,
      ⟨by simp [System.lose, Sender.lose], by simp⟩, hrel.snd.io⟩
  have hrcv : ReceiverRel crc32 file s.lose.rcv { t.rcv with replies := [] } :=
    ⟨hrel.rcv.window, hrel.rcv.size, hrel.rcv.consumed, hrel.rcv.output, hrel.rcv.done,
      ⟨by simp [System.lose, Receiver.lose], by simp⟩⟩
  obtain ⟨turn, u, snd, hs, htime, hpolled⟩ :=
    polled_of_paced hn hbig hpaced hsnd hrcv hrel.acked (by simp) (by simp) hgo fec_enable
  have hreach : Reach (poll_step crc32 file fec_enable) (InTime crc32) s.lose u := .step_one htime hs
  have hstop := hpolled.stopped
  cases hdone : t.rcv.done with
  | false =>
    obtain ⟨_, hclean, _⟩ := hpolled.paced.snd.behind hpolled.going
    have hfew := hclean.finals
    have hrst := hpolled.lastRst
    have hlate : u.snd.stopped = none ∨ (s.rcv.eof_wrote = true ∨ MAX_RESENT_LAST_PKT ≤ s.snd.lastRst) ∧
        u.snd.stopped = some .noNews ∧ snd.lastPkt = true := by
      rw [hstop]
      split
      · rename_i hmany
        have hold : s.lose.snd.lastRst = s.snd.lastRst := rfl
        exact Or.inr ⟨Or.inr (by omega), rfl, hmany.1⟩
      · exact Or.inl rfl
    obtain ⟨s', hreach', hend⟩ := Going.completes hn hbig
      ⟨hpolled.rel, hpolled.paced, poll_eofListed (s := s.lose) heof hreach, hpolled.listed, hpolled.going, hdone,
        hlate⟩ fec_enable
    exact ⟨s', hreach.trans hreach', hend⟩
  | true =>
    have hwrote : s.rcv.eof_wrote = true := hrel.rcv.done.trans hdone
    have hgiving : GivingUp crc32 file u _ := ⟨hpolled.rel, hpolled.paced, hpolled.going, hdone, by
      rw [hstop]
      split <;> simp⟩
    obtain ⟨s', hreach', hsame, hnews⟩ := hgiving.ends hn hbig fec_enable
    have hkept : s'.rcv = s.rcv.lose := hsame.trans hpolled.rcv
    refine ⟨s', hreach.trans hreach', ?_, ?_, Or.inr ⟨Or.inl hwrote, hnews⟩⟩
    · rw [hkept]
      exact hwrote
    · rw [hkept]
      exact flatten_delivered (r := s.rcv) hpaced.rcv.delivered hrel.rcv hdone

/-- As long as the sender goes on, turns of the two main loops can bring both programs to their ends with the whole
file written, even if all that is on the way is lost. The sender has seen the last `ACK`, unless the receiver had ended
before, or the sender was about to give up. -/
theorem transfer_completes {copybuf buffer : Mem} {s : System} (hfile : file ≠ []) (hsmall : chunkCount file < 2 ^ 54)
    (h : Reach (system_step crc32 file) (Undamaged crc32) (.initial copybuf buffer) s) (hgo : s.snd.stopped = none)
    (fec_enable : Bool) :
    ∃ s', Reach (poll_step crc32 file fec_enable) (InTime crc32) s.lose s' ∧ s'.rcv.eof_wrote = true ∧
      s'.rcv.stdout.flatten = file ∧ (s'.snd.stopped = some .allAcked ∨
        (s.rcv.eof_wrote = true ∨ MAX_RESENT_LAST_PKT ≤ s.snd.lastRst) ∧ s'.snd.stopped = some .noNews) := by
  obtain ⟨t, hrel, hreach⟩ := undamaged_run h
  have heof : EofListed s.rcv := h.invariant (P := fun s => EofListed s.rcv) (eofListed_initial buffer)
    fun _ _ _ hs _ => system_step_eofListed hs
  obtain ⟨s', hreach', hend⟩ :=
    hrel.completes hfile hsmall (Protocol.run_paced (one_le_chunkCount hfile) hreach) heof hgo fec_enable
  exact ⟨s', hreach', hend.rcv, hend.output, hend.snd⟩

/-- One byte is transferred. -/
theorem transfer_completes_one_byte :
    ∃ s', Reach (poll_step zlib_crc32 [7] true) (InTime zlib_crc32) (System.initial (fun _ => 0) fun _ => 0).lose s' ∧
      s'.rcv.eof_wrote = true ∧ s'.rcv.stdout.flatten = [7] ∧ s'.snd.stopped = some .allAcked := by
  generalize zlib_crc32 = crc32
  have hstart : Reach (system_step crc32 [7]) (Undamaged crc32) (.initial (fun _ => 0) fun _ => 0)
      (.initial (fun _ => 0) fun _ => 0) := .start
  obtain ⟨s', hreach, hdone, hout, hend⟩ := transfer_completes (by decide) (by decide) hstart rfl true
  exact ⟨s', hreach, hdone, hout, hend.resolve_right fun hlate => absurd hlate.1 (by decide)⟩

end Trtp
