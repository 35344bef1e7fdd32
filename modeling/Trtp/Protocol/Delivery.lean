import Trtp.Protocol.Acknowledgement

/-!
# What the receiver writes

While the sender numbers its packets well and no insertion is at the border, the list of the receiver holds packets
from the next one on, and the output is the beginning of the file.
-/

open Trtp.Lib

namespace Trtp.Protocol

/-- The packets of the window have the indices that their numbers stand for, seen from `c`. -/
structure Held (n c : Nat) (window : Window Item) : Prop where
  head : window.seqnumHead = serial c
  size : SizeOk window
  ordered : Ordered window
  items : ∀ x ∈ window.linkedList, Good n x ∧ c ≤ x.index ∧ x.index < c + 128

theorem good_seqnum {n : Nat} {x : Item} (h : Good n x) : seqnumOf x = serial x.index := by
  cases x with
  | chunk k => rfl
  | final k seqnum => exact h.2.trans (by rw [h.1]; rfl)

theorem Held.ahead {n c : Nat} {window : Window Item} (h : Held n c window) {x : Item}
    (hx : x ∈ window.linkedList) : window.ahead x = x.index - c := by
  obtain ⟨hgood, hlo, hhi⟩ := h.items x hx
  rw [Window.ahead, h.head, good_seqnum hgood, dist_serial_of_le hlo (by omega)]

/-! ## The operations -/

theorem Held.store {n c : Nat} {window : Window Item} (h : Held n c window) {x : Item} (hgood : Good n x)
    (hlo : c < x.index + 128) (hhi : x.index < c + 128) (hin : is_in_window window (seqnumOf x) = true)
    (hsafe : BorderSafe window (seqnumOf x)) : Held n c (store window x) := by
  refine ⟨by rw [store_seqnumHead]; exact h.head, store_sizeOk h.size x, store_ordered h.size h.ordered hsafe, ?_⟩
  intro y hy
  rcases mem_store hy with rfl | hmem
  · refine ⟨hgood, ?_, hhi⟩
    -- a number that is in the window is not behind the head
    rw [is_in_window_iff window _ h.size.1 h.size.2, h.head, good_seqnum hgood] at hin
    have hsize := h.size.2
    by_contra hlt
    rw [dist_serial_of_lt (by omega) (by omega)] at hin
    omega
  · exact h.items y hmem

theorem Held.decrease {n c : Nat} {window : Window Item} (h : Held n c window) : Held n c (decrease_window window) :=
  ⟨by rw [decrease_window_seqnumHead]; exact h.head, decrease_window_sizeOk h.size, decrease_window_ordered h.ordered,
    fun x hx => h.items x ((decrease_window_begins window).subset hx)⟩

theorem Held.flushed {n c : Nat} {window : Window Item} {current : Item} {next : List Item} (h : Held n c window)
    (hlist : window.linkedList = current :: next) (hidx : current.index = c) :
    Held n (c + 1) (flushed window next) := by
  have hcur : current ∈ window.linkedList := by rw [hlist]; exact List.mem_cons_self
  refine ⟨?_, h.size, flushed_ordered hlist h.ordered, ?_⟩
  · rw [serial_succ, ← h.head]
    rfl
  · intro x hx
    have hmem : x ∈ window.linkedList := by rw [hlist]; exact List.mem_cons_of_mem current hx
    obtain ⟨hgood, hlo, hhi⟩ := h.items x hmem
    have hord := h.ordered
    unfold Ordered at hord
    rw [hlist, List.pairwise_cons] at hord
    have hlt := hord.1 x hx
    rw [h.ahead hcur, h.ahead hmem] at hlt
    exact ⟨hgood, by omega, by omega⟩

/-- `flush_file` writes the chunks from `c` on. At the final packet they are all written. -/
theorem flush_held {n c : Nat} (list : List Item) (window : Window Item) (hlist : window.linkedList = list)
    (h : Held n c window) (hc : c ≤ n) :
    (flush_loop_window list window).1 = chunks c (flush_loop_window list window).1.length ∧
      c + (flush_loop_window list window).1.length ≤ n ∧
      ((flush_loop_window list window).2.2 = false →
        Held n (c + (flush_loop_window list window).1.length) (flush_loop_window list window).2.1) ∧
      ((flush_loop_window list window).2.2 = true → c + (flush_loop_window list window).1.length = n) := by
  induction list generalizing window c with
  | nil => exact ⟨rfl, hc, fun _ => h, by simp [flush_loop_window]⟩
  | cons current next ih =>
    have hcur : current ∈ window.linkedList := by rw [hlist]; exact List.mem_cons_self
    obtain ⟨hgood, hlo, hhi⟩ := h.items current hcur
    unfold flush_loop_window
    split
    · exact ⟨rfl, hc, fun _ => h, by simp⟩
    rename_i hhead
    rw [ne_eq, not_not] at hhead
    have hidx : current.index = c := by
      have hzero : window.ahead current = 0 := dist_eq_zero.mpr hhead.symm
      rw [h.ahead hcur] at hzero
      omega
    cases current with
    | final k seqnum =>
      rw [if_pos (show isFinal (Item.final k seqnum) = true from rfl)]
      have hk : c = n := hidx.symm.trans hgood.1
      exact ⟨rfl, hc, by simp, fun _ => by simp [hk]⟩
    | chunk k =>
      rw [if_neg (show ¬ isFinal (Item.chunk k) = true by simp [isFinal])]
      have hk : k = c := hidx
      have hkn : k < n := hgood
      obtain ⟨h1, h2, h3, h4⟩ := ih (flushed window next) rfl (h.flushed hlist hidx) (by omega)
      have hshift : c + ((flush_loop_window next (flushed window next)).1.length + 1) =
          c + 1 + (flush_loop_window next (flushed window next)).1.length := by omega
      simp only [List.length_cons, hshift]
      refine ⟨?_, h2, h3, h4⟩
      conv_lhs => rw [h1]
      rw [hk, chunks, chunks, List.range'_succ, List.map_cons]

/-! ## The steps -/

/-- What the receiver has written, of a file of `n` chunks. -/
structure Delivered (n : Nat) (r : Receiver) : Prop where
  going : r.done = false →
    r.output.length ≤ n ∧ r.output = chunks 0 r.output.length ∧ r.consumed = r.output.length ∧
      Held n r.output.length r.window
  finished : r.done = true → r.output = chunks 0 n

theorem delivered_initial (n : Nat) : Delivered n .initial where
  going _ := ⟨Nat.zero_le n, rfl, rfl, rfl, ⟨Nat.le_refl 1, by decide⟩, List.Pairwise.nil,
    by simp [Receiver.initial, Window.initial]⟩
  finished h := by contradiction

/-- A `DATA` packet that is not too far from what was written, and not at the border of what is stored. -/
def DeliverSafe (r : Receiver) : ReceiverAction → Prop
  | .deliver x => r.output.length < x.index + 128 ∧ x.index < r.output.length + 128 ∧
      (is_in_window r.window (seqnumOf x) = true → BorderSafe r.window (seqnumOf x))
  | _ => True

instance (r : Receiver) (a : ReceiverAction) : Decidable (DeliverSafe r a) :=
  match a with
  | .deliver _ => inferInstanceAs (Decidable (_ ∧ _ ∧ (_ → _)))
  | .nack _ | .flush | .ack => .isTrue trivial

theorem chunks_append (c m k : Nat) : chunks c m ++ chunks (c + m) k = chunks c (m + k) := by
  rw [chunks, chunks, chunks, ← List.map_append]
  congr 1
  simp

theorem receiver_step_delivered {n : Nat} {r r' : Receiver} {a : ReceiverAction} (h : Delivered n r)
    (hgood : ∀ x, a = .deliver x → Good n x) (hok : DeliverSafe r a) (hs : r.step a = some r') : Delivered n r' := by
  unfold Receiver.step at hs
  split at hs
  · contradiction
  rename_i hgo
  rw [Bool.not_eq_true] at hgo
  obtain ⟨hle, hout, hcons, hheld⟩ := h.going hgo
  cases a with
  | deliver x =>
    simp only [Option.some.injEq] at hs
    rw [← hs, Receiver.deliver]
    split
    · rename_i hin
      refine ⟨fun _ => ⟨hle, hout, hcons, ?_⟩, by simp [hgo]⟩
      exact hheld.store (hgood x rfl) hok.1 hok.2.1 hin (hok.2.2 hin)
    · exact h
  | nack seqnum =>
    simp only [Option.some.injEq] at hs
    rw [← hs]
    exact ⟨fun _ => ⟨hle, hout, hcons, hheld.decrease⟩, by simp [Receiver.nack, Receiver.reply, hgo]⟩
  | ack =>
    simp only [Option.some.injEq] at hs
    rw [← hs]
    exact ⟨fun _ => ⟨hle, hout, hcons, hheld⟩, by simp [Receiver.reply, hgo]⟩
  | flush =>
    simp only [Option.some.injEq] at hs
    rw [← hs]
    obtain ⟨h1, h2, h3, h4⟩ := flush_held r.window.linkedList r.window rfl hheld hle
    unfold Receiver.flush
    rcases hf : flush_loop_window r.window.linkedList r.window with ⟨written, window, eof⟩
    rw [hf] at h1 h2 h3 h4
    have hout' : r.output ++ written = chunks 0 (r.output.length + written.length) := by
      rw [← chunks_append, Nat.zero_add, ← hout, ← h1]
    cases eof with
    | false =>
      simp only [Bool.false_eq_true, if_false, Nat.add_zero]
      refine ⟨fun _ => ?_, by simp [hgo]⟩
      simp only [List.length_append]
      exact ⟨h2, hout', by omega, h3 rfl⟩
    | true =>
      simp only [if_true]
      refine ⟨by simp [Receiver.reply], fun _ => ?_⟩
      simp only [Receiver.reply, hout', h4 rfl]

/-- The steps of both parties that keep the output a beginning of the file. -/
def TransferSafe (s : State) (a : Action) : Prop :=
  (∀ b, a.snd = some b → KeepsNumbers s.snd b) ∧ ∀ b, a.rcv = some b → DeliverSafe s.rcv b

instance (s : State) (a : Action) : Decidable (TransferSafe s a) :=
  inferInstanceAs (Decidable ((∀ b ∈ a.snd, KeepsNumbers s.snd b) ∧ ∀ b ∈ a.rcv, DeliverSafe s.rcv b))

theorem step_delivered {n : Nat} {s s' : State} {a : Action} (h : Numbering n s.snd ∧ Delivered n s.rcv)
    (hok : TransferSafe s a) (hs : step n s a = some s') : Numbering n s'.snd ∧ Delivered n s'.rcv := by
  rcases step_cases hs with ⟨b, hb, hsnd, hrcv, _, _⟩ | ⟨b, hb, hrcv, hsnd, _, hmem⟩
  · rw [hrcv]
    exact ⟨step_numbering h.1 (hok.1 b hb) hsnd, h.2⟩
  · rw [hsnd]
    refine ⟨h.1, receiver_step_delivered h.2 ?_ (hok.2 b hb) hrcv⟩
    rintro x rfl
    have hax : a = .deliver x := by
      cases a <;> simp [Action.rcv] at hb ⊢
      exact hb
    exact h.1.sent x (hmem x hax)

end Trtp.Protocol
