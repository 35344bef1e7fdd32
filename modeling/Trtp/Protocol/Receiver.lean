import Trtp.Protocol
import Trtp.Window.Order

/-!
# What the receiver counts

`seqnumHead` is the number of the next packet to consume, and each response says how many were consumed.
-/

open Trtp.Lib

namespace Trtp.Protocol

/-! ## `flush_file` -/

section Flush

variable {α : Type} [Numbered α]

theorem flush_loop_window_size (list : List α) (window : Window α) :
    (flush_loop_window list window).2.1.windowsize = window.windowsize := by
  induction list generalizing window with
  | nil => rfl
  | cons current next ih =>
    unfold flush_loop_window
    split
    · rfl
    split
    · rfl
    · exact ih (flushed window next)

theorem flush_loop_window_head (list : List α) (window : Window α) {c : Nat} (h : window.seqnumHead = serial c) :
    (flush_loop_window list window).2.1.seqnumHead =
      serial (c + (flush_loop_window list window).1.length + if (flush_loop_window list window).2.2 then 1 else 0) := by
  induction list generalizing window c with
  | nil => exact h
  | cons current next ih =>
    unfold flush_loop_window
    split
    · exact h
    split
    · simp only [h, List.length_nil, Nat.add_zero, if_true, serial_succ]
    · have hnext : (flushed window next).seqnumHead = serial (c + 1) := by
        rw [serial_succ, ← h]
        rfl
      have hshift : c + 1 + (flush_loop_window next (flushed window next)).1.length =
          c + ((flush_loop_window next (flushed window next)).1.length + 1) := by omega
      simp only [ih (flushed window next) hnext, List.length_cons, hshift]

end Flush

/-! ## The steps -/

structure Counts (r : Receiver) : Prop where
  head : r.window.seqnumHead = serial r.consumed
  size : SizeOk r.window
  replies : ∀ q ∈ r.replies, q.consumed ≤ r.consumed ∧ (q.ack = true → q.seqnum = serial q.consumed)

theorem counts_initial : Counts .initial where
  head := rfl
  size := ⟨Nat.le_refl 1, by decide⟩
  replies := by simp [Receiver.initial]

theorem reply_counts {r : Receiver} (h : Counts r) {ack : Bool} {seqnum : UInt8}
    (hack : ack = true → seqnum = serial r.consumed) : Counts (r.reply ack seqnum) := by
  refine ⟨h.head, h.size, ?_⟩
  intro q hq
  rcases List.mem_cons.mp hq with rfl | hmem
  · exact ⟨Nat.le_refl _, hack⟩
  · exact h.replies q hmem

theorem deliver_counts {r : Receiver} (h : Counts r) (item : Item) : Counts (r.deliver item) := by
  unfold Receiver.deliver
  split
  · exact ⟨by rw [store_seqnumHead]; exact h.head, store_sizeOk h.size item, h.replies⟩
  · exact h

theorem nack_counts {r : Receiver} (h : Counts r) (seqnum : UInt8) : Counts (r.nack seqnum) := by
  have hdec : Counts { r with window := decrease_window r.window } :=
    ⟨by rw [decrease_window_seqnumHead]; exact h.head, decrease_window_sizeOk h.size, h.replies⟩
  exact reply_counts hdec (by simp)

theorem flush_counts {r : Receiver} (h : Counts r) : Counts r.flush ∧ r.consumed ≤ r.flush.consumed := by
  have hhead := flush_loop_window_head r.window.linkedList r.window h.head
  have hsize := flush_loop_window_size r.window.linkedList r.window
  unfold Receiver.flush
  rcases hf : flush_loop_window r.window.linkedList r.window with ⟨written, window, eof⟩
  rw [hf] at hhead hsize
  have hok : SizeOk window := by
    unfold SizeOk
    rw [hsize]
    exact h.size
  cases eof with
  | false =>
    simp only [Bool.false_eq_true, if_false, Nat.add_zero] at hhead ⊢
    refine ⟨⟨hhead, hok, ?_⟩, by omega⟩
    intro q hq
    have := h.replies q hq
    exact ⟨by simp only; omega, this.2⟩
  | true =>
    have hcounts : Counts { r with
        window
        output := r.output ++ written
        consumed := r.consumed + written.length + 1
        done := true } := by
      refine ⟨hhead, hok, ?_⟩
      intro q hq
      have := h.replies q hq
      exact ⟨by simp only; omega, this.2⟩
    exact ⟨reply_counts hcounts (fun _ => hcounts.head), by simp only [Receiver.reply, if_true]; omega⟩

theorem receiver_step_counts {r r' : Receiver} {a : ReceiverAction} (h : Counts r) (hs : r.step a = some r') :
    Counts r' ∧ r.consumed ≤ r'.consumed := by
  unfold Receiver.step at hs
  split at hs
  · contradiction
  cases a with
  | deliver item =>
    simp only [Option.some.injEq] at hs
    rw [← hs]
    refine ⟨deliver_counts h item, ?_⟩
    unfold Receiver.deliver
    split <;> exact Nat.le_refl _
  | nack seqnum =>
    simp only [Option.some.injEq] at hs
    rw [← hs]
    exact ⟨nack_counts h seqnum, Nat.le_refl _⟩
  | flush =>
    simp only [Option.some.injEq] at hs
    rw [← hs]
    exact flush_counts h
  | ack =>
    simp only [Option.some.injEq] at hs
    rw [← hs]
    exact ⟨reply_counts h (fun _ => h.head), Nat.le_refl _⟩

end Trtp.Protocol
