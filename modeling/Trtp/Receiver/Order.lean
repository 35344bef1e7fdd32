import Trtp.Receiver.Receive
import Trtp.Lib.Transition
import Trtp.Window.Order

/-!
# The receiver's list over a run

`receive_data` on any datagrams and `flush_file`, in any order and with any results of `read` and `write`.
-/

open Trtp.Lib

namespace Trtp

variable (crc32 : List UInt8 → UInt32)

/-! ## What a step does to the window -/

theorem send_ack_window (r : Receiver) (timestamp : UInt32) (write : Bool) :
    (send_ack crc32 r timestamp write).window = r.window := by
  obtain ⟨_, _, _, heq⟩ := send_ack_eq crc32 r timestamp write
  rw [heq]

theorem send_troncated_nack_window (r : Receiver) (pkt : Pkt) (write : Bool) :
    (send_troncated_nack crc32 r pkt write).window = decrease_window r.window := by
  obtain ⟨_, _, _, heq⟩ := send_troncated_nack_eq crc32 r pkt write
  rw [heq]
  rfl

/-- The datagram is taken as a `DATA` packet inside the window. -/
structure Stores (r : Receiver) (bytes_read : Option (List UInt8)) : Prop where
  intact : Intact crc32 (readInto bytes_read r.buffer)
  len : LenTests (readInto bytes_read r.buffer) (readLen bytes_read)
  type : hdrType (readInto bytes_read r.buffer) = .DATA
  tr : hdrTr (readInto bytes_read r.buffer) = 0
  window : is_in_window r.window (hdrSeqnum (readInto bytes_read r.buffer)) = true

theorem receive_data_stores {r : Receiver} {bytes_read : Option (List UInt8)} (write : Bool)
    (h : Stores crc32 r bytes_read) :
    receive_data crc32 r bytes_read write =
      store_data (r.read bytes_read) (accepted crc32 (readInto bytes_read r.buffer)) := by
  obtain ⟨htype, htr, _, _, hseq, _⟩ := accepted_header crc32 (readInto bytes_read r.buffer)
  have hdata : pkt_get_type (accepted crc32 (readInto bytes_read r.buffer)) = .DATA := htype.trans h.type
  have htr0 : pkt_get_tr (accepted crc32 (readInto bytes_read r.buffer)) = 0 :=
    (pkt_get_tr_eq_zero _).mpr (htr.trans h.tr)
  have hwin : is_in_window (r.read bytes_read).window
      (pkt_get_seqnum (accepted crc32 (readInto bytes_read r.buffer))) = true := by
    change is_in_window r.window (accepted crc32 (readInto bytes_read r.buffer)).seqnum = true
    rw [hseq]
    exact h.window
  rw [receive_data_valid crc32 write h.intact h.len]
  simp only [receive_valid, Receiver.is_in_window]
  rw [show accepted crc32 (r.read bytes_read).buffer = accepted crc32 (readInto bytes_read r.buffer) from rfl, hdata,
    htr0, hwin]
  rfl

/-- A datagram is stored, or halves the window, or leaves it as it is. -/
theorem receive_data_window (r : Receiver) (bytes_read : Option (List UInt8)) (write : Bool) :
    (Stores crc32 r bytes_read ∧ (receive_data crc32 r bytes_read write).2.window =
        store r.window (accepted crc32 (readInto bytes_read r.buffer))) ∨
      (receive_data crc32 r bytes_read write).2.window = decrease_window r.window ∨
      (receive_data crc32 r bytes_read write).2.window = r.window := by
  by_cases hst : Stores crc32 r bytes_read
  · left
    refine ⟨hst, ?_⟩
    rw [receive_data_stores crc32 write hst, store_data_window]
    rfl
  right
  by_cases hv : Intact crc32 (r.read bytes_read).buffer ∧
      LenTests (r.read bytes_read).buffer (readLen bytes_read)
  · rw [receive_data_valid crc32 write hv.1 hv.2]
    obtain ⟨htype, htr, _, _, hseq, _⟩ := accepted_header crc32 (r.read bytes_read).buffer
    unfold receive_valid
    cases hp : pkt_get_type (accepted crc32 (r.read bytes_read).buffer) with
    | FEC => exact Or.inr rfl
    | ACK => exact Or.inr rfl
    | NACK => exact Or.inr rfl
    | DATA =>
      by_cases h0 : pkt_get_tr (accepted crc32 (r.read bytes_read).buffer) = 0
      · have hout : ¬ is_in_window (r.read bytes_read).window
            (pkt_get_seqnum (accepted crc32 (r.read bytes_read).buffer)) = true := by
          intro hin
          have hin' : is_in_window r.window (accepted crc32 (r.read bytes_read).buffer).seqnum = true := hin
          rw [hseq] at hin'
          exact hst ⟨hv.1, hv.2, htype.symm.trans hp, htr.symm.trans ((pkt_get_tr_eq_zero _).mp h0), hin'⟩
        simp only [h0, ne_eq, not_true_eq_false, if_false, Receiver.is_in_window, hout]
        exact Or.inr rfl
      · simp only [h0, ne_eq, not_false_eq_true, if_true]
        exact Or.inl (send_troncated_nack_window crc32 _ _ _)
  · by_cases ht : TruncTests crc32 (r.read bytes_read).buffer (readLen bytes_read)
    · rw [receive_data_truncated crc32 write ht]
      split
      · exact Or.inl (send_troncated_nack_window crc32 _ _ _)
      · exact Or.inr rfl
    · rw [receive_data_ignored crc32 write hv ht]
      exact Or.inr rfl

/-- `flush_file` does not come to the final packet while others are behind it. -/
def FlushClean (wr : Nat → Option Nat) : List Pkt → Nat → UInt8 → Prop
  | [], _, _ => True
  | current :: next, packet_write, head =>
    pkt_get_seqnum current = head →
      if pkt_get_length current = 0 then next = []
      else (wr packet_write).isSome → FlushClean wr next (packet_write + 1) (head + 1)

theorem flush_loop_ordered (wr : Nat → Option Nat) (list : List Pkt) (packet_write : Nat) (r : Receiver)
    (hlist : r.window.linkedList = list) (hsize : SizeOk r.window) (ho : Ordered r.window)
    (hclean : FlushClean wr list packet_write r.window.seqnumHead) :
    SizeOk (flush_loop wr list packet_write r).2.window ∧ Ordered (flush_loop wr list packet_write r).2.window := by
  induction list generalizing packet_write r with
  | nil => exact ⟨hsize, ho⟩
  | cons current next ih =>
    unfold flush_loop
    split
    · exact ⟨hsize, ho⟩
    rename_i hhead
    rw [ne_eq, not_not] at hhead
    have hnext := hclean hhead.symm
    split
    · rename_i hfinal
      rw [if_pos hfinal] at hnext
      refine ⟨hsize, ?_⟩
      unfold Ordered
      simp only [hlist, hnext]
      exact List.pairwise_singleton _ _
    · rename_i hdata
      rw [if_neg hdata] at hnext
      split
      · exact ⟨hsize, ho⟩
      · rename_i n hwr
        exact ih (packet_write + 1) _ rfl hsize (flushed_ordered hlist ho) (hnext (by rw [hwr]; rfl))

theorem flush_file_ordered (r : Receiver) (wr : Nat → Option Nat) (hsize : SizeOk r.window) (ho : Ordered r.window)
    (hclean : FlushClean wr r.window.linkedList 0 r.window.seqnumHead) :
    SizeOk (flush_file r wr).2.window ∧ Ordered (flush_file r wr).2.window := by
  unfold flush_file
  split
  · exact ⟨hsize, ho⟩
  · exact flush_loop_ordered wr _ 0 r rfl hsize ho hclean

/-! ## Runs -/

inductive ReceiverAction where
  | receive (bytes_read : Option (List UInt8)) (write : Bool)
  | flush (wr : Nat → Option Nat)

def receiver_step (r : Receiver) : ReceiverAction → Option Receiver
  | .receive bytes_read write => some (receive_data crc32 r bytes_read write).2
  | .flush wr => some (flush_file r wr).2

/-- The steps that do not bring the list out of order. -/
def OrderSafe (r : Receiver) : ReceiverAction → Prop
  | .receive bytes_read _ =>
    Stores crc32 r bytes_read → BorderSafe r.window (hdrSeqnum (readInto bytes_read r.buffer))
  | .flush wr => FlushClean wr r.window.linkedList 0 r.window.seqnumHead

theorem receiver_step_ordered {r r' : Receiver} {a : ReceiverAction} (hsize : SizeOk r.window)
    (ho : Ordered r.window) (hok : OrderSafe crc32 r a) (hs : receiver_step crc32 r a = some r') :
    SizeOk r'.window ∧ Ordered r'.window := by
  cases a with
  | receive bytes_read write =>
    simp only [receiver_step, Option.some.injEq] at hs
    rw [← hs]
    rcases receive_data_window crc32 r bytes_read write with ⟨hst, hwin⟩ | hwin | hwin
    · have hseq : seqnumOf (accepted crc32 (readInto bytes_read r.buffer)) =
          hdrSeqnum (readInto bytes_read r.buffer) := (accepted_header crc32 _).2.2.2.2.1
      rw [hwin]
      exact ⟨store_sizeOk hsize _, store_ordered hsize ho (by rw [hseq]; exact hok hst)⟩
    · rw [hwin]
      exact ⟨decrease_window_sizeOk hsize, decrease_window_ordered ho⟩
    · rw [hwin]
      exact ⟨hsize, ho⟩
  | flush wr =>
    simp only [receiver_step, Option.some.injEq] at hs
    rw [← hs]
    exact flush_file_ordered r wr hsize ho hok

end Trtp
