import Trtp.Protocol.Clean
import Trtp.Protocol.Receiver

/-!
# What an `ACK` removes

While the shrinks are clean, an `ACK` removes only what the receiver has consumed, and what it has acknowledged does
not come back. Both need more of the `ACK`: the two conditions are `AckSafe` and `KeepSafe`.
-/

open Trtp.Lib

namespace Trtp.Protocol

section

variable {α : Type} [Numbered α]

/-- The `ACK` carries the number `seqnumHead` only if this is the number of the first packet. -/
def FreshAck (window : Window α) (a : UInt8) : Prop :=
  ∀ p ∈ window.linkedList.head?, a = window.seqnumHead → seqnumOf p = a

end

/-! ## The steps of the sender on a clean list -/

theorem Clean.seqnum {n first : Nat} {s : Sender} (h : Clean n s first) {x : Item} (hx : x ∈ s.window.linkedList) :
    seqnumOf x = serial x.index := by
  rw [h.list, finalPart] at hx
  rcases List.mem_append.mp hx with hmem | hmem
  · obtain ⟨k, _, rfl⟩ := List.mem_map.mp hmem
    rfl
  · split at hmem
    · rw [List.mem_singleton.mp hmem]
      rfl
    · contradiction

theorem step_clean {n first : Nat} {s s' : Sender} {a : SenderAction} (hn : 1 ≤ n) (h : Clean n s first)
    (ha : ∀ ack seqnum size stale, a ≠ .respond ack seqnum size stale) (hs : s.step n a = some s') :
    s.stopped = false ∧ s'.stopped = false ∧ Clean n s' first := by
  unfold Sender.step at hs
  split at hs
  · contradiction
  rename_i hgo
  rw [Bool.not_eq_true] at hgo
  refine ⟨hgo, ?_⟩
  cases a with
  | fill =>
    simp only at hs
    split at hs
    · exact Sender.fill_induction (P := fun s => s.stopped = false ∧ Clean n s first)
        (fun s h hlen heof hoff hk => ⟨h.1, push_clean h.2 hlen heof hoff hk⟩)
        (fun s h _ _ hend => ⟨h.1, eof_clean h.2 hend⟩) hs ⟨hgo, h⟩
    · contradiction
  | final =>
    simp only at hs
    split at hs
    · rename_i hguard
      simp only [Option.some.injEq] at hs
      rw [← hs]
      exact ⟨hgo, final_clean hn h hguard.2.1 hguard.1 hguard.2.2⟩
    · contradiction
  | respond ack seqnum size stale => exact absurd rfl (ha ack seqnum size stale)

theorem respond_cases {n : Nat} {s s' : Sender} {ack : Bool} {seqnum : UInt8} {size : Nat} {stale : UInt8}
    (hs : s.step n (.respond ack seqnum size stale) = some s') :
    s.stopped = false ∧ size ≤ 31 ∧ s' = s.respond ack seqnum size stale := by
  unfold Sender.step at hs
  split at hs
  · contradiction
  rename_i hgo
  simp only at hs
  split at hs
  · rename_i h31
    simp only [Option.some.injEq] at hs
    exact ⟨by simpa using hgo, h31, hs.symm⟩
  · contradiction

theorem update_stopped (s : Sender) (size : Nat) (stale : UInt8) : (s.update size stale).stopped = s.stopped := by
  unfold Sender.update
  split
  · rfl
  split <;> rfl

theorem update_seqnumHead (s : Sender) (size : Nat) (stale : UInt8) :
    (s.update size stale).window.seqnumHead = s.window.seqnumHead := by
  unfold Sender.update
  split
  · rfl
  split <;> rfl

theorem update_head? (s : Sender) (size : Nat) (stale : UInt8) :
    (s.update size stale).window.linkedList.head? = s.window.linkedList.head? := by
  apply Sender.update_cases (P := fun s' => s'.window.linkedList.head? = s.window.linkedList.head?) stale
  · exact fun _ => rfl
  · exact fun _ => rfl
  · intro hs
    rw [shrink_window_linkedList, List.head?_take, if_neg hs.1]

theorem update_freshAck {s : Sender} {a : UInt8} (h : FreshAck s.window a) (size : Nat) (stale : UInt8) :
    FreshAck (s.update size stale).window a := by
  unfold FreshAck at *
  rw [update_seqnumHead, update_head?]
  exact h

theorem Clean.index_removed {n first : Nat} {s : Sender} (h : Clean n s first) (a : UInt8) {pre : List Item}
    (hpre : s.window.linkedList = pre ++ (s.ack a).window.linkedList) {x : Item} (hx : x ∈ pre) :
    seqnumOf x = serial x.index ∧ x.index < first + removed s first a := by
  have hlist := h.ack_list a
  have hle := removed_le s first a
  have htake : pre = s.window.linkedList.take (removed s first a) := by
    have hsplit := List.take_append_drop (removed s first a) s.window.linkedList
    rw [← hlist] at hsplit
    exact List.append_cancel_right (hpre.symm.trans hsplit.symm)
  have hmem : x ∈ s.window.linkedList := by
    rw [hpre]
    exact List.mem_append_left _ hx
  exact ⟨h.seqnum hmem, h.index_take (htake ▸ hx)⟩

/-! ## Soundness -/

/-- A response that is not too old, and an `ACK` that is fresh. -/
def AckSafe (s : State) : Action → Prop
  | .respond q _ => s.rcv.consumed < q.consumed + 128 ∧ CleanShrink s.snd.window q.window ∧
      (q.ack = true → FreshAck s.snd.window q.seqnum)
  | _ => True

instance (s : State) (a : Action) : Decidable (AckSafe s a) :=
  match a with
  | .respond q _ =>
    inferInstanceAs (Decidable (_ ∧ _ ∧ (_ → ∀ p ∈ s.snd.window.linkedList.head?, q.seqnum = _ → _ = _)))
  | .fill | .final | .deliver _ | .truncated _ | .corrupted _ | .flush | .ack => .isTrue trivial

/-- The list starts at a packet that the receiver has not passed by. -/
structure Sound (n : Nat) (s : State) : Prop where
  counts : Counts s.rcv
  behind : s.snd.stopped = false → ∃ first, Clean n s.snd first ∧ first ≤ s.rcv.consumed
  stopped : s.snd.stopped = true → n + 1 ≤ s.rcv.consumed

theorem sound_initial (n : Nat) : Sound n .initial where
  counts := counts_initial
  behind _ := ⟨0, clean_initial n, Nat.le_refl 0⟩
  stopped h := by contradiction

/-- An `ACK` of the receiver does not go past what it had consumed. -/
theorem removed_le_acked {n first c consumed : Nat} {s : Sender} (h : Clean n s first) (hfirst : first ≤ consumed)
    (hlate : consumed < c + 128) (hfresh : FreshAck s.window (serial c)) :
    first + removed s first (serial c) ≤ max first c := by
  by_cases hzero : removed s first (serial c) = 0
  · omega
  have hdist := dist_serial first c
  have hle : removed s first (serial c) ≤ dist (serial first) (serial c) := by
    unfold removed
    split
    · exact Nat.min_le_left _ _
    · exact Nat.zero_le _
  rcases h.ack_close (Nat.pos_of_ne_zero hzero) with hclose | ⟨hn, _, hhead, ha⟩
  · by_cases hlt : c < first
    · have := dist_serial_of_lt hlt (by omega)
      omega
    · omega
  · -- the final packet has another number than `seqnumHead`
    exfalso
    have hpos := removed_le s first (serial c)
    cases hlist : s.window.linkedList with
    | nil =>
      rw [hlist, List.length_nil] at hpos
      omega
    | cons x xs =>
      have hx : seqnumOf x = serial first := (consecutive_cons.mp (hlist ▸ h.consecutive)).1
      have hseq := hfresh x (by simp [hlist]) ha
      rw [hx, hn, ← hhead, ha] at hseq
      simp at hseq

/-- What a response of the receiver does to the sender. -/
theorem respond_sound {n : Nat} {s : State} (h : Sound n s) {q : Reply} {stale : UInt8} (hq : q ∈ s.rcv.replies)
    (hok : AckSafe s (.respond q stale)) {snd : Sender}
    (hs : s.snd.step n (.respond q.ack q.seqnum q.window stale) = some snd) :
    (snd.stopped = false → ∃ first, Clean n snd first ∧ first ≤ s.rcv.consumed) ∧
      (snd.stopped = true → n + 1 ≤ s.rcv.consumed) ∧
      ∀ pre, (s.snd.update q.window stale).window.linkedList = pre ++ snd.window.linkedList →
        ∀ x ∈ pre, seqnumOf x = serial x.index ∧ x.index < s.rcv.consumed := by
  obtain ⟨hgo, h31, rfl⟩ := respond_cases hs
  obtain ⟨hlate, hshrink, hfresh⟩ := hok
  obtain ⟨hqle, hqack⟩ := h.counts.replies q hq
  obtain ⟨first, hc, hfirst⟩ := h.behind hgo
  have hu := update_clean hc h31 hshrink stale
  have hugo : (s.snd.update q.window stale).stopped = false := by rw [update_stopped]; exact hgo
  unfold Sender.respond
  cases hack : q.ack with
  | false =>
    simp only [Bool.false_eq_true, if_false]
    refine ⟨fun _ => ⟨first, hu, hfirst⟩, ?_, ?_⟩
    · intro hstop
      rw [hugo] at hstop
      contradiction
    · intro pre hpre x hx
      have hnil : pre = [] := by simpa using hpre
      rw [hnil] at hx
      contradiction
  | true =>
    simp only [if_true]
    have hbound := removed_le_acked hu hfirst hlate (hqack hack ▸ update_freshAck (hfresh hack) q.window stale)
    rw [← hqack hack] at hbound
    refine ⟨fun hstop => ⟨_, hu.ack hstop, by omega⟩, ?_, ?_⟩
    · intro hstop
      have := (hu.ack_stopped hugo hstop).2.2
      omega
    · intro pre hpre x hx
      have := hu.index_removed q.seqnum hpre hx
      exact ⟨this.1, by omega⟩

theorem step_sound {n : Nat} (hn : 1 ≤ n) {s s' : State} {a : Action} (h : Sound n s) (hok : AckSafe s a)
    (hs : step n s a = some s') : Sound n s' := by
  rcases step_cases hs with ⟨b, hb, hsnd, hrcv, _, hq⟩ | ⟨b, _, hrcv, hsnd, _, _⟩
  · by_cases hresp : ∃ q stale, a = .respond q stale
    · obtain ⟨q, stale, rfl⟩ := hresp
      simp only [Action.snd, Option.some.injEq] at hb
      rw [← hb] at hsnd
      obtain ⟨h1, h2, _⟩ := respond_sound h (hq q stale rfl) hok hsnd
      exact ⟨hrcv ▸ h.counts, hrcv ▸ h1, hrcv ▸ h2⟩
    · have hno : ∀ ack seqnum size stale, b ≠ .respond ack seqnum size stale := by
        rintro ack seqnum size stale rfl
        cases a <;> simp [Action.snd] at hb hresp
      by_cases hgo : s.snd.stopped = true
      · unfold Sender.step at hsnd
        rw [if_pos hgo] at hsnd
        contradiction
      obtain ⟨first, hc, hfirst⟩ := h.behind (by simpa using hgo)
      obtain ⟨_, hgo', hc'⟩ := step_clean hn hc hno hsnd
      refine ⟨hrcv ▸ h.counts, fun _ => ⟨first, hc', hrcv ▸ hfirst⟩, ?_⟩
      intro hstop
      rw [hgo'] at hstop
      contradiction
  · obtain ⟨hcounts, hle⟩ := receiver_step_counts h.counts hrcv
    refine ⟨hcounts, ?_, ?_⟩
    · rw [hsnd]
      intro hgo
      obtain ⟨first, hc, hfirst⟩ := h.behind hgo
      exact ⟨first, hc, hfirst.trans hle⟩
    · rw [hsnd]
      intro hstop
      exact (h.stopped hstop).trans hle

/-! ## No regression -/

/-- The `ACK` does not go past the packets that are in the list once the window is smaller. -/
def Covers (s : Sender) (size a : Nat) : Prop :=
  a ≤ chunkIndex s.global_pkt + (if s.lastPkt then 1 else 0) ∧
    (Shrinks s.window size → ∀ x ∈ s.window.linkedList.drop size, a ≤ x.index)

def KeepSafe (s : State) : Action → Prop
  | .respond q _ => CleanShrink s.snd.window q.window ∧ (q.ack = true → Covers s.snd q.window q.consumed)
  | _ => True

instance (s : State) (a : Action) : Decidable (KeepSafe s a) :=
  match a with
  | .respond _ _ => inferInstanceAs (Decidable (_ ∧ (_ → _ ∧ (_ → _))))
  | .fill | .final | .deliver _ | .truncated _ | .corrupted _ | .flush | .ack => .isTrue trivial

/-- The list starts at or after what was acknowledged. -/
structure Forward (n : Nat) (s : State) : Prop where
  counts : Counts s.rcv
  ahead : s.snd.stopped = false → ∃ first, Clean n s.snd first ∧ ∀ a ∈ s.acked, a ≤ first
  stopped : s.snd.stopped = true →
    s.snd.window.linkedList = [] ∧ s.snd.lastPkt = true ∧ chunkIndex s.snd.global_pkt = n

theorem forward_initial (n : Nat) : Forward n .initial where
  counts := counts_initial
  ahead _ := ⟨0, clean_initial n, by simp [State.initial]⟩
  stopped h := by contradiction

theorem Clean.covers {n first size a : Nat} {s : Sender} (h : Clean n s first) (hshrink : CleanShrink s.window size)
    (hcov : Covers s size a) (stale : UInt8) :
    a ≤ first + (s.update size stale).window.linkedList.length := by
  have hlength := h.length
  have hidx := chunkIndex_of_le h.small
  have hroom := h.room
  obtain ⟨hcount, hdrop⟩ := hcov
  rw [hidx] at hcount
  apply Sender.update_cases (P := fun s' => a ≤ first + s'.window.linkedList.length) stale
  · intro _
    omega
  · intro _
    simp only
    omega
  intro hs
  rw [shrink_window_linkedList, List.length_take]
  by_cases hlt : size < s.window.linkedList.length
  swap
  · omega
  obtain ⟨hne, hdata⟩ := hshrink hs
  have hfirst := h.le
  -- the first packet that is dropped is a chunk
  have hmem : Item.chunk (first + size) ∈ s.window.linkedList.drop size := by
    have hl : s.lastPkt = false := by
      by_contra hl
      have hfin := hdata (.final n (serial n)) (by
        rw [h.list, finalPart, if_pos (by simpa using hl)]
        simp)
      contradiction
    have hlist := h.list
    rw [hl] at hlist hlength
    simp only [finalPart, Bool.false_eq_true, if_false, List.append_nil, Nat.add_zero] at hlist hlength
    rw [hlist, chunks_drop]
    exact List.mem_map.mpr ⟨first + size, List.mem_range'_1.mpr (by omega), rfl⟩
  have := hdrop hs _ hmem
  simp only [Item.index] at this
  omega

theorem Clean.removed_of_inside {n first a : Nat} {s : Sender} (h : Clean n s first) (hlo : first < a)
    (hhi : a ≤ first + s.window.linkedList.length) : first + removed s first (serial a) = a := by
  have hroom := h.room
  have hsize := h.size
  have hlen : 1 ≤ s.window.linkedList.length := by omega
  have htail := h.tail (by omega)
  obtain ⟨m, hm⟩ : ∃ m, first + s.window.linkedList.length = m + 1 :=
    ⟨first + s.window.linkedList.length - 1, by omega⟩
  rw [hm, serial_succ] at htail
  have htail' : s.window.seqnumTail = serial m := by simpa using htail
  have hdist := dist_serial_of_le (h := first) (i := a) (by omega) (by omega)
  have hcan : can_ack_window s.window (serial a) = true := by
    rw [can_ack_window_iff, htail']
    rcases h.head (List.length_pos_iff.mp hlen) with hhead | ⟨hn, hl, hhead⟩
    · rw [hhead, dist_serial_of_le (by omega) (by omega), dist_serial_of_le (by omega) (by omega)]
      omega
    · have hlength := h.length
      have hg := h.last hl
      rw [hl] at hlength
      simp only [if_true] at hlength
      have hmn : m = n := by omega
      have han : a = n + 1 := by omega
      have hstep : dist s.window.seqnumHead (serial a) ≤ 2 := by
        have hone : serial a = s.window.seqnumHead + 1 + 1 := by rw [han, serial_succ, ← hhead]
        have hh := s.window.seqnumHead.toNat_lt
        rw [hone, dist_eq, UInt8.toNat_add, UInt8.toNat_add, UInt8.toNat_one]
        omega
      omega
  rw [removed, if_pos hcan, hdist]
  omega

theorem respond_forward {n : Nat} {s : State} (h : Forward n s) {q : Reply} {stale : UInt8} (hq : q ∈ s.rcv.replies)
    (hok : KeepSafe s (.respond q stale)) {snd : Sender}
    (hs : s.snd.step n (.respond q.ack q.seqnum q.window stale) = some snd) :
    (snd.stopped = false →
        ∃ first, Clean n snd first ∧ ∀ a ∈ (Action.respond q stale).acked s.acked, a ≤ first) ∧
      (snd.stopped = true → snd.window.linkedList = [] ∧ snd.lastPkt = true ∧ chunkIndex snd.global_pkt = n) := by
  obtain ⟨hgo, h31, rfl⟩ := respond_cases hs
  obtain ⟨hshrink, hcov⟩ := hok
  obtain ⟨_, hqack⟩ := h.counts.replies q hq
  obtain ⟨first, hc, hfirst⟩ := h.ahead hgo
  have hu := update_clean hc h31 hshrink stale
  have hugo : (s.snd.update q.window stale).stopped = false := by rw [update_stopped]; exact hgo
  cases hack : q.ack with
  | false =>
    simp only [Sender.respond, Action.acked, hack, Bool.false_eq_true, if_false]
    refine ⟨fun _ => ⟨first, hu, hfirst⟩, ?_⟩
    intro hstop
    rw [hugo] at hstop
    contradiction
  | true =>
    simp only [Sender.respond, Action.acked, hack, if_true]
    constructor
    · intro hstop
      refine ⟨_, hu.ack hstop, ?_⟩
      intro a ha
      rcases List.mem_cons.mp ha with rfl | hmem
      · by_cases hle : q.consumed ≤ first
        · omega
        · have hinside := hc.covers hshrink (hcov hack) stale
          rw [hqack hack, hu.removed_of_inside (by omega) hinside]
      · have := hfirst a hmem
        omega
    · intro hstop
      obtain ⟨hl, hnil, _⟩ := hu.ack_stopped hugo hstop
      exact ⟨hnil, hl, (chunkIndex_of_le hu.small).trans (hu.last hl)⟩

theorem step_forward {n : Nat} (hn : 1 ≤ n) {s s' : State} {a : Action} (h : Forward n s) (hok : KeepSafe s a)
    (hs : step n s a = some s') : Forward n s' := by
  rcases step_cases hs with ⟨b, hb, hsnd, hrcv, hacked, hq⟩ | ⟨b, _, hrcv, hsnd, hacked, _⟩
  · by_cases hresp : ∃ q stale, a = .respond q stale
    · obtain ⟨q, stale, rfl⟩ := hresp
      simp only [Action.snd, Option.some.injEq] at hb
      rw [← hb] at hsnd
      obtain ⟨h1, h2⟩ := respond_forward h (hq q stale rfl) hok hsnd
      exact ⟨hrcv ▸ h.counts, hacked ▸ h1, h2⟩
    · have hno : ∀ ack seqnum size stale, b ≠ .respond ack seqnum size stale := by
        rintro ack seqnum size stale rfl
        cases a <;> simp [Action.snd] at hb hresp
      by_cases hgo : s.snd.stopped = true
      · unfold Sender.step at hsnd
        rw [if_pos hgo] at hsnd
        contradiction
      obtain ⟨first, hc, hfirst⟩ := h.ahead (by simpa using hgo)
      obtain ⟨_, hgo', hc'⟩ := step_clean hn hc hno hsnd
      have hsame : a.acked s.acked = s.acked := by
        cases a <;> simp [Action.acked] at hresp ⊢
      refine ⟨hrcv ▸ h.counts, fun _ => ⟨first, hc', ?_⟩, ?_⟩
      · rw [hacked, hsame]
        exact hfirst
      · intro hstop
        rw [hgo'] at hstop
        contradiction
  · obtain ⟨hcounts, _⟩ := receiver_step_counts h.counts hrcv
    exact ⟨hcounts, by rw [hsnd, hacked]; exact h.ahead, by rw [hsnd]; exact h.stopped⟩

end Trtp.Protocol
