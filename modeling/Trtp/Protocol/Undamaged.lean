import Trtp.Lib.Progress
import Trtp.Protocol.Delivery
import Trtp.Receiver.Capacity

/-!
# A network that damages nothing

It may lose, duplicate, delay and reorder, but what arrives is whole, and a response that has been overtaken by one
with a larger window is lost. The sender then never runs ahead of the window of the receiver.
-/

open Trtp.Lib

namespace Trtp.Protocol

/-- A packet that is not too far from what is written, or a response that is not too old and does not make the window
of the sender smaller. -/
def Undamaged (s : State) : Action → Prop
  | .deliver x => s.rcv.output.length < x.index + 128 ∧ x.index < s.rcv.output.length + 128
  | .truncated _ => False
  | .corrupted _ => False
  | .respond q _ => s.rcv.consumed < q.consumed + 128 ∧ ¬ Shrinks s.snd.window q.window
  | _ => True

instance (s : State) (a : Action) : Decidable (Undamaged s a) :=
  match a with
  | .deliver _ => inferInstanceAs (Decidable (_ ∧ _))
  | .respond _ _ => inferInstanceAs (Decidable (_ ∧ ¬ _))
  | .truncated _ | .corrupted _ => .isFalse id
  | .fill | .final | .flush | .ack => .isTrue trivial

/-- How many packets the sender has made. -/
def Sender.made (s : Sender) : Nat := s.global_pkt.toNat + if s.lastPkt then 1 else 0

/-! ## The sender -/

/-- The sender, beside a receiver that has consumed `c` packets and has a window of `w`. -/
structure PacedSender (n c w : Nat) (s : Sender) : Prop where
  numbering : Numbering n s
  pos : 1 ≤ s.window.windowsize
  size : s.window.windowsize ≤ w
  behind : s.stopped = false → ∃ first, Clean n s first ∧ first ≤ c
  sent : ∀ x ∈ s.sent, x.index < c + w ∧ x.index < s.made
  listed : s.Listed

theorem pacedSender_initial {n : Nat} (hn : 1 ≤ n) : PacedSender n 0 1 .initial where
  numbering := numbering_initial hn
  pos := Nat.le_refl 1
  size := Nat.le_refl 1
  behind _ := ⟨0, clean_initial n, Nat.le_refl 0⟩
  sent := by simp [Sender.initial]
  listed := listed_initial

theorem PacedSender.mono {n c c' w w' : Nat} {s : Sender} (h : PacedSender n c w s) (hc : c ≤ c') (hw : w ≤ w') :
    PacedSender n c' w' s := by
  refine ⟨h.numbering, h.pos, h.size.trans hw, fun hgo => ?_, fun x hx => ?_, h.listed⟩
  · obtain ⟨first, hclean, hle⟩ := h.behind hgo
    exact ⟨first, hclean, hle.trans hc⟩
  · obtain ⟨hroom, hmade⟩ := h.sent x hx
    exact ⟨by omega, hmade⟩

theorem push_made {s : Sender} (h : s.global_pkt.toNat ≤ 2 ^ 54) : s.push.made = s.made + 1 := by
  have hsucc : s.push.global_pkt.toNat = s.global_pkt.toNat + 1 := global_pkt_succ h
  have hlast : s.push.lastPkt = s.lastPkt := rfl
  rw [Sender.made, Sender.made, hsucc, hlast]
  omega

theorem final_made {s : Sender} (h : s.lastPkt = false) : s.final.made = s.made + 1 := by
  simp [Sender.made, Sender.final, h]

theorem Clean.made {n first : Nat} {s : Sender} (h : Clean n s first) :
    first + s.window.linkedList.length = s.made := h.length

theorem push_paced {n c w first : Nat} {s : Sender} (h : PacedSender n c w s) (hclean : Clean n s first)
    (hfirst : first ≤ c) (hlen : s.window.linkedList.length < s.window.windowsize) (heof : s.eof_reached = false)
    (hoff : chunkIndex s.global_pkt < 2 ^ 54) (hk : chunkIndex s.global_pkt < n) : PacedSender n c w s.push := by
  have hidx := chunkIndex_of_le hclean.small
  have hlength := hclean.made
  have hmade := push_made hclean.small
  have hle : s.global_pkt.toNat ≤ s.made := Nat.le_add_right _ _
  have hsize := h.size
  refine ⟨push_numbering h.numbering hlen heof hoff hk, h.pos, h.size,
    fun _ => ⟨first, push_clean hclean hlen heof hoff hk, hfirst⟩, ?_, mem_append_listed h.listed _⟩
  intro x hx
  rcases List.mem_cons.mp hx with rfl | hmem
  · simp only [Item.index, hidx, hmade]
    omega
  · obtain ⟨hroom, hbefore⟩ := h.sent x hmem
    exact ⟨hroom, by omega⟩

theorem final_paced {n c w first : Nat} {s : Sender} (hn : 1 ≤ n) (h : PacedSender n c w s) (hclean : Clean n s first)
    (hfirst : first ≤ c) (heof : s.eof_reached = true) (hlast : s.lastPkt = false)
    (hlen : s.window.linkedList.length < s.window.windowsize) : PacedSender n c w s.final := by
  have hidx := chunkIndex_of_le hclean.small
  have hlength := hclean.made
  have hmade := final_made hlast
  have hle : s.global_pkt.toNat ≤ s.made := Nat.le_add_right _ _
  have hsize := h.size
  refine ⟨final_numbering h.numbering heof hlast hlen, h.pos, h.size,
    fun _ => ⟨first, final_clean hn hclean heof hlast hlen, hfirst⟩, ?_, mem_append_listed h.listed _⟩
  intro x hx
  rcases List.mem_cons.mp hx with rfl | hmem
  · simp only [Item.index, hidx, hmade]
    omega
  · obtain ⟨hroom, hbefore⟩ := h.sent x hmem
    exact ⟨hroom, by omega⟩

theorem update_made {s : Sender} {size : Nat} (h : ¬ Shrinks s.window size) (stale : UInt8) :
    (s.update size stale).made = s.made := by
  apply Sender.update_cases (P := fun s' => s'.made = s.made) stale
  · exact fun _ => rfl
  · exact fun _ => rfl
  · exact fun hs => absurd hs h

theorem update_paced {n c w size : Nat} {s : Sender} (h : PacedSender n c w s) (h31 : size ≤ 31) (hw : size ≤ w)
    (hno : ¬ Shrinks s.window size) (stale : UInt8) : PacedSender n c w (s.update size stale) := by
  have hnum : Numbering n (s.update size stale) := update_numbering h.numbering h31 (fun hs => absurd hs hno) stale
  have hclean : (s.update size stale).stopped = false →
      ∃ first, Clean n (s.update size stale) first ∧ first ≤ c := by
    rw [update_stopped]
    intro hgo
    obtain ⟨first, hc, hle⟩ := h.behind hgo
    exact ⟨first, update_clean hc h31 (fun hs => absurd hs hno) stale, hle⟩
  have hmade := update_made hno stale
  revert hnum hclean hmade
  apply Sender.update_cases
    (P := fun s' => Numbering n s' → (s'.stopped = false → ∃ first, Clean n s' first ∧ first ≤ c) →
      s'.made = s.made → PacedSender n c w s') stale
  · exact fun _ _ _ _ => h
  · intro hgrow hnum hclean hmade
    refine ⟨hnum, h.pos.trans hgrow, hw, hclean, ?_, h.listed⟩
    rw [hmade]
    exact h.sent
  · exact fun hs => absurd hs hno

/-- An `ACK` that is not too old does not go past what was consumed, or it ends the transfer. -/
theorem Clean.removed_le {n first c consumed : Nat} {s : Sender} (h : Clean n s first) (hfirst : first ≤ consumed)
    (hlate : consumed < c + 128) (hgo : (s.ack (serial c)).stopped = false) :
    first + removed s first (serial c) ≤ max first c := by
  by_cases hzero : removed s first (serial c) = 0
  · omega
  have hdist := dist_serial first c
  have hle : removed s first (serial c) ≤ dist (serial first) (serial c) := by
    unfold removed
    split
    · exact Nat.min_le_left _ _
    · exact Nat.zero_le _
  rcases h.ack_close (Nat.pos_of_ne_zero hzero) with hclose | ⟨hn, hl, _, _⟩
  · by_cases hlt : c < first
    · have := dist_serial_of_lt hlt (by omega)
      omega
    · omega
  · -- the final packet is alone in the list
    have hstays := h.final_stays hgo hl
    have hlength := h.length
    have hg := h.last hl
    rw [hl] at hlength
    simp only [if_true] at hlength
    omega

theorem ack_paced {n c w consumed : Nat} {s : Sender} (h : PacedSender n c w s) (hlate : c < consumed + 128)
    (hle : consumed ≤ c) : PacedSender n c w (s.ack (serial consumed)) := by
  have hkeeps := s.ack_keeps (serial consumed)
  have hmade : (s.ack (serial consumed)).made = s.made := rfl
  refine ⟨ack_numbering hkeeps h.numbering, by rw [hkeeps.size]; exact h.pos, by rw [hkeeps.size]; exact h.size, ?_, ?_,
    hkeeps.listed h.listed⟩
  · intro hgo'
    have hgo : s.stopped = false := by
      by_contra hstop
      rw [Bool.not_eq_false] at hstop
      simp [Sender.ack, hstop] at hgo'
    obtain ⟨first, hclean, hfirst⟩ := h.behind hgo
    have hbound := hclean.removed_le hfirst hlate hgo'
    exact ⟨_, hclean.ack hgo', by omega⟩
  · rw [hkeeps.sent, hmade]
    exact h.sent

/-- A response that the receiver has sent, in time, and that does not shrink the window. -/
def Welcome (c w : Nat) (s : Sender) : SenderAction → Prop
  | .respond ack seqnum size _ => size ≤ w ∧ ¬ Shrinks s.window size ∧
      (ack = true → ∃ consumed, seqnum = serial consumed ∧ consumed ≤ c ∧ c < consumed + 128)
  | _ => True

theorem sender_step_paced {n c w : Nat} (hn : 1 ≤ n) {s s' : Sender} {a : SenderAction} (h : PacedSender n c w s)
    (hok : Welcome c w s a) (hs : s.step n a = some s') : PacedSender n c w s' ∧ s.made ≤ s'.made := by
  have hgo : s.stopped = false := by
    unfold Sender.step at hs
    split at hs
    · contradiction
    · rename_i hgo
      simpa using hgo
  obtain ⟨first, hclean, hfirst⟩ := h.behind hgo
  cases a with
  | fill =>
    simp only [Sender.step, hgo, Bool.false_eq_true, if_false] at hs
    split at hs
    swap
    · contradiction
    have hall := Sender.fill_induction
      (P := fun s' => PacedSender n c w s' ∧ Clean n s' first ∧ s.made ≤ s'.made)
      (fun s₁ h₁ hlen heof hoff hk => by
        obtain ⟨hpaced, hclean₁, hmade⟩ := h₁
        refine ⟨push_paced hpaced hclean₁ hfirst hlen heof hoff hk, push_clean hclean₁ hlen heof hoff hk, ?_⟩
        rw [push_made hclean₁.small]
        omega)
      (fun s₁ h₁ _ hoff hend => by
        obtain ⟨hpaced, hclean₁, hmade⟩ := h₁
        have hclean₂ := eof_clean hclean₁ hend
        exact ⟨⟨eof_numbering hpaced.numbering hoff hend, hpaced.pos, hpaced.size, fun _ => ⟨first, hclean₂, hfirst⟩,
          hpaced.sent, hpaced.listed⟩, hclean₂, hmade⟩)
      hs ⟨h, hclean, Nat.le_refl _⟩
    exact ⟨hall.1, hall.2.2⟩
  | final =>
    simp only [Sender.step, hgo, Bool.false_eq_true, if_false] at hs
    split at hs
    swap
    · contradiction
    rename_i hguard
    rw [← Option.some.inj hs]
    refine ⟨final_paced hn h hclean hfirst hguard.2.1 hguard.1 hguard.2.2, ?_⟩
    rw [final_made hguard.1]
    exact Nat.le_succ _
  | respond ack seqnum size stale =>
    obtain ⟨_, h31, rfl⟩ := respond_cases hs
    obtain ⟨hw, hno, hack⟩ := hok
    have hu := update_paced h h31 hw hno stale
    have hmade := update_made hno stale
    unfold Sender.respond
    cases ack with
    | false => exact ⟨hu, hmade.ge⟩
    | true =>
      obtain ⟨consumed, rfl, hle, hlate⟩ := hack rfl
      exact ⟨ack_paced hu hlate hle, hmade.ge⟩

/-! ## The receiver -/

/-- The receiver, beside a sender that has made `m` packets. -/
structure PacedReceiver (n m : Nat) (r : Receiver) : Prop where
  counts : Counts r
  delivered : Delivered n r
  within : r.done = false → Within r.window
  finished : r.done = true → r.consumed = n + 1
  windows : ∀ q ∈ r.replies, q.window ≤ r.window.windowsize
  stored : r.done = false → ∀ x ∈ r.window.linkedList, x.index < m
  consumed : r.consumed ≤ m

theorem pacedReceiver_initial (n : Nat) : PacedReceiver n 0 .initial where
  counts := counts_initial
  delivered := delivered_initial n
  within _ := ⟨List.Pairwise.nil, by simp [Receiver.initial, Window.initial]⟩
  finished h := by contradiction
  windows := by simp [Receiver.initial]
  stored _ := by simp [Receiver.initial, Window.initial]
  consumed := Nat.le_refl 0

theorem PacedReceiver.mono {n m m' : Nat} {r : Receiver} (h : PacedReceiver n m r) (hm : m ≤ m') :
    PacedReceiver n m' r :=
  ⟨h.counts, h.delivered, h.within, h.finished, h.windows, fun hgo x hx => (h.stored hgo x hx).trans_le hm,
    h.consumed.trans hm⟩

theorem PacedReceiver.held {n m : Nat} {r : Receiver} (h : PacedReceiver n m r) (hgo : r.done = false) :
    Held n r.consumed r.window := by
  obtain ⟨_, _, hcons, hheld⟩ := h.delivered.going hgo
  rwa [hcons]

/-- A packet that the sender has sent is not behind the window, or not in it. -/
theorem PacedReceiver.deliverSafe {n m : Nat} {r : Receiver} (h : PacedReceiver n m r) (hgo : r.done = false) {x : Item}
    (hgood : Good n x) (hroom : x.index < r.consumed + r.window.windowsize) (hlo : r.consumed < x.index + 128)
    (hin : is_in_window r.window (seqnumOf x) = true) :
    dist r.window.seqnumHead (seqnumOf x) < r.window.windowsize ∧ BorderSafe r.window (seqnumOf x) := by
  have hsize := h.counts.size
  have hle := (is_in_window_iff r.window _ hsize.1 hsize.2).mp hin
  rw [h.counts.head, good_seqnum hgood] at hle
  have h31 := hsize.2
  have hge : r.consumed ≤ x.index := by
    by_contra hlt
    rw [dist_serial_of_lt (by omega) (by omega)] at hle
    omega
  have hlt : dist r.window.seqnumHead (seqnumOf x) < r.window.windowsize := by
    rw [h.counts.head, good_seqnum hgood, dist_serial_of_le hge (by omega)]
    omega
  exact ⟨hlt, (h.within hgo).borderSafe hlt⟩

theorem deliver_paced {n m : Nat} {r : Receiver} (h : PacedReceiver n m r) (hgo : r.done = false) {x : Item}
    (hgood : Good n x) (hroom : x.index < r.consumed + r.window.windowsize) (hm : x.index < m)
    (hlo : r.consumed < x.index + 128) (hhi : x.index < r.consumed + 128) : PacedReceiver n m (r.deliver x) := by
  obtain ⟨_, _, hcons, _⟩ := h.delivered.going hgo
  have hsafe := h.deliverSafe hgo hgood hroom hlo
  have hdelivered : Delivered n (r.deliver x) := by
    refine receiver_step_delivered (a := .deliver x) h.delivered ?_
      ⟨by omega, by omega, fun hin => (hsafe hin).2⟩ (by simp [Receiver.step, hgo])
    rintro y ⟨⟩
    exact hgood
  have hcounts := deliver_counts h.counts x
  revert hdelivered hcounts
  unfold Receiver.deliver
  split
  · rename_i hin
    intro hdelivered hcounts
    refine ⟨hcounts, hdelivered, fun _ => (h.within hgo).store h.counts.size (hsafe hin).1,
      fun hdone => absurd (hgo.symm.trans hdone) (by decide),
      fun q hq => (h.windows q hq).trans (store_keeps r.window x).1, fun _ y hy => ?_, h.consumed⟩
    rcases mem_store hy with rfl | hmem
    · exact hm
    · exact h.stored hgo y hmem
  · exact fun _ _ => h

theorem flush_loop_window_within {α : Type} [Numbered α] (list : List α) (window : Window α)
    (hlist : window.linkedList = list) (h : Within window) (hend : (flush_loop_window list window).2.2 = false) :
    Within (flush_loop_window list window).2.1 := by
  induction list generalizing window with
  | nil => exact h
  | cons current next ih =>
    unfold flush_loop_window at hend ⊢
    split
    · exact h
    · rename_i hhead
      rw [if_neg hhead] at hend
      split
      · rename_i hfinal
        rw [if_pos hfinal] at hend
        contradiction
      · rename_i hdata
        rw [if_neg hdata] at hend
        exact ih (flushed window next) rfl (h.flushed hlist) hend

theorem flush_loop_window_suffix {α : Type} [Numbered α] (list : List α) (window : Window α)
    (hlist : window.linkedList = list) : (flush_loop_window list window).2.1.linkedList <:+ list := by
  induction list generalizing window with
  | nil => rw [flush_loop_window, hlist]
  | cons current next ih =>
    unfold flush_loop_window
    split
    · rw [hlist]
    · split
      · rw [hlist]
      · exact (ih (flushed window next) rfl).trans (List.suffix_cons current next)

/-- What is consumed was stored. -/
theorem flush_held_le {n c m : Nat} (list : List Item) (window : Window Item) (hlist : window.linkedList = list)
    (h : Held n c window) (hm : ∀ x ∈ list, x.index < m) (hc : c ≤ m) :
    c + (flush_loop_window list window).1.length + (if (flush_loop_window list window).2.2 then 1 else 0) ≤ m := by
  induction list generalizing window c with
  | nil => exact hc
  | cons current next ih =>
    have hcur : current ∈ window.linkedList := by rw [hlist]; exact List.mem_cons_self
    have hlt := hm current List.mem_cons_self
    unfold flush_loop_window
    split
    · exact hc
    rename_i hhead
    rw [ne_eq, not_not] at hhead
    have hidx : current.index = c := by
      have hzero : window.ahead current = 0 := dist_eq_zero.mpr hhead.symm
      rw [h.ahead hcur] at hzero
      have := (h.items current hcur).2.1
      omega
    split
    · simp only [List.length_nil, if_true]
      omega
    · have hnext := ih (flushed window next) rfl (h.flushed hlist hidx)
        (fun x hx => hm x (List.mem_cons_of_mem current hx)) (by omega)
      rcases hf : flush_loop_window next (flushed window next) with ⟨written, window', eof⟩
      rw [hf] at hnext
      simp only [List.length_cons] at hnext ⊢
      omega

theorem flush_paced {n m : Nat} {r : Receiver} (h : PacedReceiver n m r) (hgo : r.done = false) :
    PacedReceiver n m r.flush := by
  have hheld := h.held hgo
  obtain ⟨hcn, _, hcons, _⟩ := h.delivered.going hgo
  have hdelivered : Delivered n r.flush :=
    receiver_step_delivered (a := .flush) h.delivered (by simp) trivial (by simp [Receiver.step, hgo])
  have hcounts := (flush_counts h.counts).1
  have hsize := flush_loop_window_size r.window.linkedList r.window
  have hwithin := flush_loop_window_within r.window.linkedList r.window rfl (h.within hgo)
  have hsuffix := flush_loop_window_suffix r.window.linkedList r.window rfl
  have hle := flush_held_le r.window.linkedList r.window rfl hheld (h.stored hgo) h.consumed
  obtain ⟨_, _, _, hend⟩ := flush_held r.window.linkedList r.window rfl hheld (by omega)
  revert hdelivered hcounts
  unfold Receiver.flush
  rcases hf : flush_loop_window r.window.linkedList r.window with ⟨written, window, eof⟩
  rw [hf] at hsize hwithin hsuffix hle hend
  cases eof with
  | false =>
    simp only [Bool.false_eq_true, if_false, Nat.add_zero] at hle ⊢
    intro hdelivered hcounts
    refine ⟨hcounts, hdelivered, fun _ => hwithin rfl, fun hdone => absurd (hgo.symm.trans hdone) (by decide),
      fun q hq => ?_, fun _ x hx => h.stored hgo x (hsuffix.subset hx), hle⟩
    rw [hsize]
    exact h.windows q hq
  | true =>
    simp only [if_true] at hle ⊢
    intro hdelivered hcounts
    refine ⟨hcounts, hdelivered, fun hno => by contradiction, fun _ => ?_, fun q hq => ?_, fun hno => by contradiction,
      hle⟩
    · have hall : r.consumed + written.length = n := hend rfl
      simp only [Receiver.reply]
      omega
    · simp only [Receiver.reply] at hq ⊢
      rw [hsize]
      rcases List.mem_cons.mp hq with rfl | hmem
      · exact hsize.le
      · exact h.windows q hmem

theorem reply_paced {n m : Nat} {r : Receiver} (h : PacedReceiver n m r) :
    PacedReceiver n m (r.reply true r.window.seqnumHead) := by
  refine ⟨reply_counts h.counts fun _ => h.counts.head, ⟨h.delivered.going, h.delivered.finished⟩, h.within, h.finished,
    fun q hq => ?_, h.stored, h.consumed⟩
  rcases List.mem_cons.mp hq with rfl | hmem
  · exact Nat.le_refl _
  · exact h.windows q hmem

/-- A packet that the sender has sent, not too far from what is consumed. No `NACK` is sent. -/
def Orderly (n m : Nat) (r : Receiver) : ReceiverAction → Prop
  | .deliver x => Good n x ∧ x.index < r.consumed + r.window.windowsize ∧ x.index < m ∧
      r.consumed < x.index + 128 ∧ x.index < r.consumed + 128
  | .nack _ => False
  | _ => True

theorem receiver_step_running {r r' : Receiver} {a : ReceiverAction} (hs : r.step a = some r') : r.done = false := by
  unfold Receiver.step at hs
  split at hs
  · contradiction
  · rename_i hgo
    simpa using hgo

theorem deliver_grows (r : Receiver) (x : Item) :
    (r.deliver x).consumed = r.consumed ∧ r.window.windowsize ≤ (r.deliver x).window.windowsize := by
  unfold Receiver.deliver
  split
  · exact ⟨rfl, (store_keeps r.window x).1⟩
  · exact ⟨rfl, Nat.le_refl _⟩

theorem flush_windowsize (r : Receiver) : r.flush.window.windowsize = r.window.windowsize := by
  have hsize := flush_loop_window_size r.window.linkedList r.window
  unfold Receiver.flush
  rcases hf : flush_loop_window r.window.linkedList r.window with ⟨written, window, eof⟩
  rw [hf] at hsize
  cases eof <;> exact hsize

theorem receiver_step_paced {n m : Nat} {r r' : Receiver} {a : ReceiverAction} (h : PacedReceiver n m r)
    (hok : Orderly n m r a) (hs : r.step a = some r') :
    PacedReceiver n m r' ∧ r.consumed ≤ r'.consumed ∧ r.window.windowsize ≤ r'.window.windowsize := by
  have hgo := receiver_step_running hs
  simp only [Receiver.step, hgo, Bool.false_eq_true, if_false] at hs
  cases a with
  | deliver x =>
    obtain ⟨hgood, hroom, hm, hlo, hhi⟩ := hok
    obtain ⟨hcons, hsize⟩ := deliver_grows r x
    rw [← Option.some.inj hs]
    exact ⟨deliver_paced h hgo hgood hroom hm hlo hhi, hcons.ge, hsize⟩
  | nack seqnum => exact hok.elim
  | flush =>
    rw [← Option.some.inj hs]
    exact ⟨flush_paced h hgo, (flush_counts h.counts).2, (flush_windowsize r).ge⟩
  | ack =>
    rw [← Option.some.inj hs]
    exact ⟨reply_paced h, Nat.le_refl _, Nat.le_refl _⟩

/-! ## Both -/

structure Paced (n : Nat) (s : State) : Prop where
  snd : PacedSender n s.rcv.consumed s.rcv.window.windowsize s.snd
  rcv : PacedReceiver n s.snd.made s.rcv

theorem paced_initial {n : Nat} (hn : 1 ≤ n) : Paced n .initial := ⟨pacedSender_initial hn, pacedReceiver_initial n⟩

theorem Paced.welcome {n : Nat} {s : State} (h : Paced n s) {a : Action} {b : SenderAction} (hb : a.snd = some b)
    (hq : ∀ reply stale, a = .respond reply stale → reply ∈ s.rcv.replies) (hok : Undamaged s a) :
    Welcome s.rcv.consumed s.rcv.window.windowsize s.snd b := by
  cases a with
  | respond q stale =>
    have hmem := hq q stale rfl
    obtain ⟨hle, hack⟩ := h.rcv.counts.replies q hmem
    rw [← Option.some.inj hb]
    exact ⟨h.rcv.windows q hmem, hok.2, fun h => ⟨q.consumed, hack h, hle, hok.1⟩⟩
  | fill | final =>
    rw [← Option.some.inj hb]
    trivial
  | deliver | truncated | corrupted | flush | ack => contradiction

theorem Paced.orderly {n : Nat} {s : State} (h : Paced n s) (hgo : s.rcv.done = false) {a : Action}
    {b : ReceiverAction} (hb : a.rcv = some b) (hmem : ∀ item, a = .deliver item → item ∈ s.snd.sent)
    (hok : Undamaged s a) : Orderly n s.snd.made s.rcv b := by
  cases a with
  | deliver x =>
    obtain ⟨_, _, hcons, _⟩ := h.rcv.delivered.going hgo
    obtain ⟨hroom, hmade⟩ := h.snd.sent x (hmem x rfl)
    rw [← Option.some.inj hb]
    refine ⟨h.snd.numbering.sent x (hmem x rfl), hroom, hmade, ?_⟩
    rw [hcons]
    exact hok
  | truncated | corrupted => exact hok.elim
  | flush | ack =>
    rw [← Option.some.inj hb]
    trivial
  | fill | final | respond => contradiction

theorem step_paced {n : Nat} (hn : 1 ≤ n) {s s' : State} {a : Action} (h : Paced n s) (hok : Undamaged s a)
    (hs : step n s a = some s') : Paced n s' := by
  rcases step_cases hs with ⟨b, hb, hsnd, hrcv, _, hq⟩ | ⟨b, hb, hrcv, hsnd, _, hmem⟩
  · obtain ⟨hsnd', hmade⟩ := sender_step_paced hn h.snd (h.welcome hb hq hok) hsnd
    exact ⟨by rw [hrcv]; exact hsnd', by rw [hrcv]; exact h.rcv.mono hmade⟩
  · obtain ⟨hrcv', hcons, hsize⟩ :=
      receiver_step_paced h.rcv (h.orderly (receiver_step_running hrcv) hb hmem hok) hrcv
    exact ⟨by rw [hsnd]; exact h.snd.mono hcons hsize, by rw [hsnd]; exact hrcv'⟩

theorem run_paced {n : Nat} (hn : 1 ≤ n) {s : State} (h : Reach (step n) Undamaged .initial s) : Paced n s :=
  h.invariant (paced_initial hn) fun _ _ _ => step_paced hn

end Trtp.Protocol
