import Trtp.Protocol.Acknowledgement

/-!
# The empty file

The final packet of an empty file gets the number 1. The receiver waits for the number 0: nothing is ever consumed.
-/

open Trtp.Lib

namespace Trtp.Protocol

/-- The final packet that is sent for an empty file. -/
def emptyFinal : Item := .final 0 1

structure EmptyFile (s : State) : Prop where
  sent : ∀ x ∈ s.snd.sent, x = emptyFinal
  list : s.snd.window.linkedList = [] ∨ (s.snd.lastPkt = true ∧ s.snd.window.linkedList = [emptyFinal])
  count : s.snd.global_pkt = 0
  tail : s.snd.lastPkt = false → s.snd.window.seqnumTail = 0
  sndHead : s.snd.window.seqnumHead = 0
  stored : ∀ x ∈ s.rcv.window.linkedList, x = emptyFinal
  head : s.rcv.window.seqnumHead = 0
  consumed : s.rcv.consumed = 0
  output : s.rcv.output = []
  going : s.rcv.done = false
  replies : ∀ q ∈ s.rcv.replies, q.consumed = 0 ∧ (q.ack = true → q.seqnum = 0)
  acked : ∀ a ∈ s.acked, a = 0

theorem emptyFile_initial : EmptyFile .initial where
  sent := by simp [State.initial, Sender.initial]
  list := Or.inl rfl
  count := rfl
  tail _ := rfl
  sndHead := rfl
  stored := by simp [State.initial, Receiver.initial, Window.initial]
  head := rfl
  consumed := rfl
  output := rfl
  going := rfl
  replies := by simp [State.initial, Receiver.initial]
  acked := by simp [State.initial]

theorem EmptyFile.not_shrinks {s : State} (h : EmptyFile s) {size : Nat} (hok : EndsInData s.snd.window size) :
    ¬ Shrinks s.snd.window size := by
  intro hs
  obtain ⟨p, hp, hdata⟩ := hok hs
  have hmem := List.mem_of_mem_take (List.mem_of_getLast? hp)
  rcases h.list with hnil | ⟨_, hone⟩
  · rw [hnil] at hmem
    contradiction
  · rw [hone, List.mem_singleton] at hmem
    rw [hmem] at hdata
    contradiction

/-! ## The sender -/

/-- The part of the invariant that is about the sender. -/
structure EmptySender (s : Sender) : Prop where
  sent : ∀ x ∈ s.sent, x = emptyFinal
  list : s.window.linkedList = [] ∨ (s.lastPkt = true ∧ s.window.linkedList = [emptyFinal])
  count : s.global_pkt = 0
  tail : s.lastPkt = false → s.window.seqnumTail = 0
  head : s.window.seqnumHead = 0

theorem EmptyFile.sender {s : State} (h : EmptyFile s) : EmptySender s.snd :=
  ⟨h.sent, h.list, h.count, h.tail, h.sndHead⟩

theorem final_empty {s : Sender} (h : EmptySender s) (hlast : s.lastPkt = false) : EmptySender s.final := by
  have htail := h.tail hlast
  have hnil : s.window.linkedList = [] := by
    rcases h.list with hnil | ⟨hl, _⟩
    · exact hnil
    · exact absurd (hlast.symm.trans hl) (by decide)
  have hitem : Item.final (chunkIndex s.global_pkt) (s.window.seqnumTail + 1) = emptyFinal := by
    rw [h.count, htail]
    rfl
  refine ⟨?_, Or.inr ⟨rfl, ?_⟩, h.count, by simp [Sender.final], h.head⟩
  · intro x hx
    rcases List.mem_cons.mp hx with rfl | hmem
    · exact hitem
    · exact h.sent x hmem
  · simp only [Sender.final, hnil, List.nil_append, hitem]

theorem ack_empty {s : Sender} (h : EmptySender s) (a : UInt8) : EmptySender (s.ack a) := by
  obtain ⟨hsuffix, htail, _, _, hlast, hcount, hsent⟩ := s.ack_keeps a
  refine ⟨by rw [hsent]; exact h.sent, ?_, by rw [hcount]; exact h.count, by rw [hlast, htail]; exact h.tail, ?_⟩
  · rcases h.list with hnil | ⟨hl, hone⟩
    · rw [hnil, List.suffix_nil] at hsuffix
      exact Or.inl hsuffix
    · rw [hone] at hsuffix
      rcases List.suffix_cons_iff.mp hsuffix with heq | hnil
      · exact Or.inr ⟨by rw [hlast]; exact hl, heq⟩
      · exact Or.inl (List.suffix_nil.mp hnil)
  · simp only [Sender.ack]
    split
    · rcases h.list with hnil | ⟨_, hone⟩
      · rw [hnil]
        exact h.head
      · rw [hone, ack_loop_window_cons a hone]
        split
        · simp [ack_loop_window, remove_acked, linkedList_remove, hone, h.head]
        · exact h.head
    · exact h.head

theorem sender_step_empty {s s' : Sender} {a : SenderAction} (h : EmptySender s)
    (hok : ∀ ack seqnum size stale, a = .respond ack seqnum size stale → ¬ Shrinks s.window size)
    (hs : s.step 0 a = some s') : EmptySender s' := by
  cases a with
  | fill =>
    unfold Sender.step at hs
    split at hs
    · contradiction
    simp only at hs
    split at hs
    · refine Sender.fill_induction ?_ ?_ hs h
      · intro s h _ _ _ hk
        omega
      · intro s h _ _ _
        exact ⟨h.sent, h.list, h.count, h.tail, h.head⟩
    · contradiction
  | final =>
    unfold Sender.step at hs
    split at hs
    · contradiction
    simp only at hs
    split at hs
    · rename_i hguard
      simp only [Option.some.injEq] at hs
      rw [← hs]
      exact final_empty h hguard.1
    · contradiction
  | respond ack seqnum size stale =>
    obtain ⟨_, _, rfl⟩ := respond_cases hs
    have hupdate : EmptySender (s.update size stale) := by
      apply Sender.update_cases stale (fun _ => h)
      · exact fun _ => ⟨h.sent, h.list, h.count, h.tail, h.head⟩
      · exact fun hs => absurd hs (hok ack seqnum size stale rfl)
    unfold Sender.respond
    cases ack with
    | false => exact hupdate
    | true => exact ack_empty hupdate seqnum

/-! ## The receiver -/

/-- The part of the invariant that is about the receiver. -/
structure EmptyReceiver (r : Receiver) : Prop where
  stored : ∀ x ∈ r.window.linkedList, x = emptyFinal
  head : r.window.seqnumHead = 0
  consumed : r.consumed = 0
  output : r.output = []
  going : r.done = false
  replies : ∀ q ∈ r.replies, q.consumed = 0 ∧ (q.ack = true → q.seqnum = 0)

theorem EmptyFile.receiver {s : State} (h : EmptyFile s) : EmptyReceiver s.rcv :=
  ⟨h.stored, h.head, h.consumed, h.output, h.going, h.replies⟩

/-- The packet in the list is not the one that `flush_file` waits for. -/
theorem flush_empty {r : Receiver} (h : EmptyReceiver r) : r.flush = r := by
  have hnone : flush_loop_window r.window.linkedList r.window = ([], r.window, false) := by
    cases hl : r.window.linkedList with
    | nil => rfl
    | cons x xs =>
      have hx : x = emptyFinal := h.stored x (by rw [hl]; exact List.mem_cons_self)
      rw [flush_loop_window, if_pos]
      rw [h.head, hx]
      decide
  simp [Receiver.flush, hnone]

theorem reply_empty {r : Receiver} (h : EmptyReceiver r) {ack : Bool} {seqnum : UInt8}
    (hack : ack = true → seqnum = 0) : EmptyReceiver (r.reply ack seqnum) := by
  refine ⟨h.stored, h.head, h.consumed, h.output, h.going, ?_⟩
  intro q hq
  rcases List.mem_cons.mp hq with rfl | hmem
  · exact ⟨h.consumed, hack⟩
  · exact h.replies q hmem

theorem receiver_step_empty {r r' : Receiver} {a : ReceiverAction} (h : EmptyReceiver r)
    (hsent : ∀ x, a = .deliver x → x = emptyFinal) (hs : r.step a = some r') : EmptyReceiver r' := by
  unfold Receiver.step at hs
  rw [h.going] at hs
  simp only [Bool.false_eq_true, if_false] at hs
  cases a with
  | deliver x =>
    simp only [Option.some.injEq] at hs
    rw [← hs, Receiver.deliver]
    split
    · refine ⟨?_, by simp only [store_seqnumHead]; exact h.head, h.consumed, h.output, h.going, h.replies⟩
      intro y hy
      rcases mem_store hy with rfl | hmem
      · exact hsent y rfl
      · exact h.stored y hmem
    · exact h
  | nack seqnum =>
    simp only [Option.some.injEq] at hs
    rw [← hs]
    have hdec : EmptyReceiver { r with window := decrease_window r.window } :=
      ⟨fun x hx => h.stored x ((decrease_window_begins r.window).subset hx),
        by simp only [decrease_window_seqnumHead]; exact h.head, h.consumed, h.output, h.going, h.replies⟩
    exact reply_empty hdec (by simp)
  | flush =>
    simp only [Option.some.injEq] at hs
    rw [← hs, flush_empty h]
    exact h
  | ack =>
    simp only [Option.some.injEq] at hs
    rw [← hs]
    exact reply_empty h (fun _ => h.head)

/-! ## Both -/

theorem step_emptyFile {s s' : State} {a : Action} (h : EmptyFile s)
    (hok : ∀ q stale, a = .respond q stale → ¬ Shrinks s.snd.window q.window) (hs : step 0 s a = some s') :
    EmptyFile s' := by
  rcases step_cases hs with ⟨b, hb, hsnd, hrcv, hacked, hq⟩ | ⟨b, hb, hrcv, hsnd, hacked, hmem⟩
  · have hsnd' : EmptySender s'.snd := by
      refine sender_step_empty h.sender ?_ hsnd
      rintro ack seqnum size stale rfl
      cases a <;> simp [Action.snd] at hb
      case respond q stale' =>
        obtain ⟨_, _, rfl, _⟩ := hb
        exact hok q stale' rfl
    have hr := h.receiver
    rw [← hrcv] at hr
    refine ⟨hsnd'.sent, hsnd'.list, hsnd'.count, hsnd'.tail, hsnd'.head, hr.stored, hr.head, hr.consumed, hr.output,
      hr.going, hr.replies, ?_⟩
    rw [hacked]
    intro a' ha'
    unfold Action.acked at ha'
    split at ha'
    · rename_i q stale
      split at ha'
      · rcases List.mem_cons.mp ha' with rfl | hold
        · exact (h.replies q (hq q stale rfl)).1
        · exact h.acked a' hold
      · exact h.acked a' ha'
    · exact h.acked a' ha'
  · have hr : EmptyReceiver s'.rcv := by
      refine receiver_step_empty h.receiver ?_ hrcv
      rintro x rfl
      refine h.sent x (hmem x ?_)
      cases a <;> simp [Action.rcv] at hb ⊢
      exact hb
    have hs := h.sender
    rw [← hsnd] at hs
    exact ⟨hs.sent, hs.list, hs.count, hs.tail, hs.head, hr.stored, hr.head, hr.consumed, hr.output, hr.going,
      hr.replies, by rw [hacked]; exact h.acked⟩

/-! ## Fresh `ACK`s -/

/-- The number of the `ACK`s is `seqnumHead`, and not that of the final packet. -/
theorem EmptyFile.list_of_freshAck {s : State} (h : EmptyFile s) {q : Reply} (hq : q ∈ s.rcv.replies)
    (hack : q.ack = true) (hfresh : FreshAck s.snd.window q.seqnum) : s.snd.window.linkedList = [] := by
  have hzero := (h.replies q hq).2 hack
  rcases h.list with hnil | ⟨_, hone⟩
  · exact hnil
  · have hseq := hfresh emptyFinal (by rw [hone]; rfl) (by rw [hzero, h.sndHead])
    rw [hzero] at hseq
    exact absurd hseq (by decide)

theorem EmptyFile.nothing_removed {s : State} (h : EmptyFile s) {q : Reply} {stale : UInt8} (hq : q ∈ s.rcv.replies)
    (hfresh : q.ack = true → FreshAck s.snd.window q.seqnum) {snd : Sender}
    (hs : s.snd.step 0 (.respond q.ack q.seqnum q.window stale) = some snd) {pre : List Item}
    (hpre : (s.snd.update q.window stale).window.linkedList = pre ++ snd.window.linkedList) : pre = [] := by
  obtain ⟨_, _, rfl⟩ := respond_cases hs
  unfold Sender.respond at hpre
  split at hpre
  · rename_i hack
    have hhead := update_head? s.snd q.window stale
    rw [h.list_of_freshAck hq hack (hfresh hack), List.head?_nil, List.head?_eq_none_iff] at hhead
    rw [hhead] at hpre
    exact (List.nil_eq_append_iff.mp hpre).1
  · exact List.self_eq_append_left.mp hpre

/-- The final packet stays in the list, and the sender in its loop. -/
structure Waiting (s : Sender) : Prop where
  going : s.stopped = false
  list : s.lastPkt = true → s.window.linkedList = [emptyFinal]

theorem waiting_initial : Waiting .initial := ⟨rfl, by simp [Sender.initial]⟩

theorem step_waiting {s s' : State} {a : Action} (h : EmptyFile s) (hw : Waiting s.snd)
    (hok : ∀ q stale, a = .respond q stale → ¬ Shrinks s.snd.window q.window ∧
      (q.ack = true → FreshAck s.snd.window q.seqnum)) (hs : step 0 s a = some s') : Waiting s'.snd := by
  rcases step_cases hs with ⟨b, hb, hsnd, _, _, hq⟩ | ⟨_, _, _, hsnd, _, _⟩
  swap
  · rw [hsnd]
    exact hw
  cases a with
  | fill =>
    obtain rfl := Option.some.inj hb
    unfold Sender.step at hsnd
    rw [if_neg (by simp [hw.going])] at hsnd
    simp only at hsnd
    split at hsnd
    · refine Sender.fill_induction (P := Waiting) ?_ ?_ hsnd hw
      · intro s _ _ _ _ hk
        omega
      · intro s hw _ _ _
        exact ⟨hw.going, hw.list⟩
    · contradiction
  | final =>
    obtain rfl := Option.some.inj hb
    unfold Sender.step at hsnd
    rw [if_neg (by simp [hw.going])] at hsnd
    simp only at hsnd
    split at hsnd
    · rename_i hguard
      rw [← Option.some.inj hsnd]
      refine ⟨hw.going, fun _ => ?_⟩
      rcases (final_empty h.sender hguard.1).list with hnil | ⟨_, hone⟩
      · simp [Sender.final] at hnil
      · exact hone
    · contradiction
  | respond q stale =>
    obtain rfl := Option.some.inj hb
    obtain ⟨hshrink, hfresh⟩ := hok q stale rfl
    obtain ⟨_, _, heq⟩ := respond_cases hsnd
    have hu : Waiting (s.snd.update q.window stale) := by
      apply Sender.update_cases stale (fun _ => hw)
      · exact fun _ => ⟨hw.going, hw.list⟩
      · exact fun hs => absurd hs hshrink
    rw [heq, Sender.respond]
    split
    · rename_i hack
      -- the list is empty: the final packet has not been sent
      have hnil := h.list_of_freshAck (hq q stale rfl) hack (hfresh hack)
      have hlast : (s.snd.update q.window stale).lastPkt = false := by
        by_contra hl
        have hone := hu.list (by simpa using hl)
        have hhead := update_head? s.snd q.window stale
        rw [hone, hnil] at hhead
        contradiction
      refine ⟨?_, fun hl => ?_⟩
      · simp [Sender.ack, hu.going, hlast]
      · rw [(Sender.ack_keeps _ _).lastPkt, hlast] at hl
        contradiction
    · exact hu
  | deliver | truncated | corrupted | flush | ack => contradiction

theorem run_waiting {t : State} (h : Reach (step 0) AckSafe .initial t) : EmptyFile t ∧ Waiting t.snd := by
  refine h.invariant (P := fun t => EmptyFile t ∧ Waiting t.snd) ⟨emptyFile_initial, waiting_initial⟩ ?_
  rintro t a t' ⟨he, hw⟩ hok hs
  have hshrink : ∀ q stale, a = .respond q stale → ¬ Shrinks t.snd.window q.window := by
    rintro q stale rfl
    exact he.not_shrinks hok.2.1.endsInData
  refine ⟨step_emptyFile he hshrink hs, step_waiting he hw ?_ hs⟩
  rintro q stale rfl
  exact ⟨hshrink q stale rfl, hok.2.2⟩

end Trtp.Protocol
