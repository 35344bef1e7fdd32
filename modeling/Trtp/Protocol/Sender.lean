import Trtp.Protocol

/-!
# What the sender's operations do

One lemma for each of `fill_window`, `update_window` and `ack_window`.
-/

open Trtp.Lib

namespace Trtp.Protocol

/-! ## The chunk index -/

theorem chunkIndex_eq (g : UInt64) : chunkIndex g = g.toNat % 2 ^ 55 := by
  have hoff : (chunkOffset g).toNat = 512 * g.toNat % 2 ^ 64 := by
    rw [chunkOffset, UInt64.toNat_mul]
    rfl
  rw [chunkIndex, hoff, MAX_PAYLOAD_SIZE]
  omega

theorem chunkIndex_of_le {g : UInt64} (h : g.toNat ≤ 2 ^ 54) : chunkIndex g = g.toNat := by
  rw [chunkIndex_eq]
  omega

theorem global_pkt_succ {g : UInt64} (h : g.toNat ≤ 2 ^ 54) : (g + 1).toNat = g.toNat + 1 := by
  rw [UInt64.toNat_add, UInt64.toNat_one]
  omega

/-- Less packets than the count, or the count wraps below zero. -/
theorem global_pkt_sub (g : UInt64) (d : Nat) (hd : d ≤ 31) :
    (g - UInt64.ofNat d).toNat = if d ≤ g.toNat then g.toNat - d else 2 ^ 64 + g.toNat - d := by
  have hg := g.toNat_lt
  rw [UInt64.toNat_sub, UInt64.toNat_ofNat']
  split <;> omega

/-! ## `fill_window` -/

/-- What a turn keeps, and the end of the file, the whole of `fill_window` keeps. -/
theorem Sender.fill_induction {n : Nat} {P : Sender → Prop}
    (hpush : ∀ s : Sender, P s → s.window.linkedList.length < s.window.windowsize → s.eof_reached = false →
      chunkIndex s.global_pkt < 2 ^ 54 → chunkIndex s.global_pkt < n → P s.push)
    (heof : ∀ s : Sender, P s → s.eof_reached = false → chunkIndex s.global_pkt < 2 ^ 54 →
      n ≤ chunkIndex s.global_pkt → P { s with eof_reached := true })
    {room : Nat} {s s' : Sender} (h : Sender.fill n room s = some s') (hs : P s) : P s' := by
  induction room generalizing s with
  | zero =>
    simp only [fill, Option.some.injEq] at h
    rwa [← h]
  | succ room ih =>
    unfold fill at h
    split at h
    · rename_i hguard
      split at h
      · contradiction
      rename_i hoff
      split at h
      · rename_i hend
        simp only [Option.some.injEq] at h
        rw [← h]
        exact heof s hs hguard.2 (by omega) hend
      · rename_i hchunk
        exact ih h (hpush s hs hguard.1 hguard.2 (by omega) (by omega))
    · simp only [Option.some.injEq] at h
      rwa [← h]

/-! ## `update_window` -/

section Window

variable {α : Type} [Numbered α]

/-- The response makes the window smaller. -/
def Shrinks (window : Window α) (size : Nat) : Prop := size ≠ 0 ∧ size < window.windowsize

instance (window : Window α) (size : Nat) : Decidable (Shrinks window size) := inferInstanceAs (Decidable (_ ∧ _))

@[simp] theorem shrink_window_linkedList (window : Window α) (size : Nat) (stale : UInt8) :
    (shrink_window window size stale).linkedList = window.linkedList.take size := by
  simp [shrink_window]

@[simp] theorem shrink_window_windowsize (window : Window α) (size : Nat) (stale : UInt8) :
    (shrink_window window size stale).windowsize = size := rfl

@[simp] theorem shrink_window_seqnumHead (window : Window α) (size : Nat) (stale : UInt8) :
    (shrink_window window size stale).seqnumHead = window.seqnumHead := rfl

theorem shrink_window_seqnumTail (window : Window α) (size : Nat) (stale : UInt8) :
    (shrink_window window size stale).seqnumTail =
      ((window.linkedList.take size).getLast?.map seqnumOf).getD stale := by
  simp [shrink_window]

/-- How many packets a shrink drops. -/
def dropped (window : Window α) (size : Nat) : Nat := window.linkedList.length - size

end Window

theorem Sender.update_zero (s : Sender) (stale : UInt8) : s.update 0 stale = s := if_pos rfl

theorem Sender.update_grow {s : Sender} {size : Nat} (h0 : size ≠ 0) (h : ¬ Shrinks s.window size) (stale : UInt8) :
    s.update size stale = { s with window := { s.window with windowsize := size } } := by
  unfold Shrinks at h
  rw [update, if_neg h0, if_pos (by omega)]

theorem Sender.update_shrink {s : Sender} {size : Nat} (h : Shrinks s.window size) (stale : UInt8) :
    s.update size stale =
      { s with
        window := shrink_window s.window size stale
        global_pkt := s.global_pkt - UInt64.ofNat (dropped s.window size)
        eof_reached := false
        lastPkt := false } := by
  have hd : s.window.linkedList.length - (shrink_window s.window size stale).linkedList.length =
      dropped s.window size := by
    rw [shrink_window_linkedList, List.length_take, dropped]
    omega
  rw [update, if_neg h.1, if_neg (by have := h.2; omega)]
  simp only [hd]

/-- The window is left alone, made larger, or made smaller. -/
theorem Sender.update_cases {P : Sender → Prop} {s : Sender} {size : Nat} (stale : UInt8) (zero : size = 0 → P s)
    (grow : s.window.windowsize ≤ size → P { s with window := { s.window with windowsize := size } })
    (shrink : Shrinks s.window size → P
      { s with
        window := shrink_window s.window size stale
        global_pkt := s.global_pkt - UInt64.ofNat (dropped s.window size)
        eof_reached := false
        lastPkt := false }) : P (s.update size stale) := by
  by_cases h0 : size = 0
  · rw [h0, update_zero]
    exact zero h0
  by_cases hs : Shrinks s.window size
  · rw [update_shrink hs]
    exact shrink hs
  · rw [update_grow h0 hs]
    apply grow
    unfold Shrinks at hs
    omega

/-! ## `ack_window` -/

section Ack

variable {α : Type} [Numbered α]

theorem ack_loop_window_cons {window : Window α} {current : α} {next : List α} (seqnum : UInt8)
    (h : window.linkedList = current :: next) :
    ack_loop_window seqnum (current :: next) window =
      if seqnumOf current ≠ seqnum then ack_loop_window seqnum next (remove_acked window) else window := by
  rw [ack_loop_window]
  simp only [seqnum_in_window_head h]

/-- The loop removes what comes before the packet with the number of the `ACK`, or everything. -/
theorem ack_loop_window_spec (seqnum : UInt8) (list : List α) (window : Window α) (h : window.linkedList = list) :
    (ack_loop_window seqnum list window).linkedList = list.dropWhile (fun p => seqnumOf p ≠ seqnum) ∧
      (ack_loop_window seqnum list window).seqnumTail = window.seqnumTail ∧
      (ack_loop_window seqnum list window).windowsize = window.windowsize := by
  induction list generalizing window with
  | nil => exact ⟨h, rfl, rfl⟩
  | cons current next ih =>
    rw [ack_loop_window_cons seqnum h]
    by_cases hne : seqnumOf current ≠ seqnum
    · obtain ⟨h1, h2, h3⟩ := ih (remove_acked window) (remove_acked_list h)
      rw [if_pos hne, List.dropWhile_cons_of_pos (by simpa using hne)]
      exact ⟨h1, h2, h3⟩
    · rw [if_neg hne, List.dropWhile_cons_of_neg (by simpa using hne)]
      exact ⟨h, rfl, rfl⟩

theorem ack_window_suffix (seqnum : UInt8) (window : Window α) :
    (if can_ack_window window seqnum then ack_loop_window seqnum window.linkedList window
      else window).linkedList <:+ window.linkedList := by
  split
  · rw [(ack_loop_window_spec seqnum _ window rfl).1]
    exact List.dropWhile_suffix _
  · exact List.suffix_rfl

theorem ack_window_same (seqnum : UInt8) (window : Window α) :
    (if can_ack_window window seqnum then ack_loop_window seqnum window.linkedList window
        else window).seqnumTail = window.seqnumTail ∧
      (if can_ack_window window seqnum then ack_loop_window seqnum window.linkedList window
        else window).windowsize = window.windowsize := by
  split
  · exact (ack_loop_window_spec seqnum _ window rfl).2
  · exact ⟨rfl, rfl⟩

end Ack

/-- What an `ACK` leaves alone. -/
structure AckKeeps (s s' : Sender) : Prop where
  suffix : s'.window.linkedList <:+ s.window.linkedList
  tail : s'.window.seqnumTail = s.window.seqnumTail
  size : s'.window.windowsize = s.window.windowsize
  eof : s'.eof_reached = s.eof_reached
  lastPkt : s'.lastPkt = s.lastPkt
  count : s'.global_pkt = s.global_pkt
  sent : s'.sent = s.sent

theorem Sender.ack_keeps (s : Sender) (seqnum : UInt8) : AckKeeps s (s.ack seqnum) :=
  ⟨ack_window_suffix seqnum s.window, (ack_window_same seqnum s.window).1, (ack_window_same seqnum s.window).2,
    rfl, rfl, rfl, rfl⟩

/-- A property that `ACK`s keep is kept by a response that keeps it in `update_window`. -/
theorem Sender.respond_induction {P : Sender → Prop} {s : Sender} (ack : Bool) (seqnum : UInt8) (size : Nat)
    (stale : UInt8) (hack : ∀ s s', AckKeeps s s' → P s → P s') (h : P (s.update size stale)) :
    P (s.respond ack seqnum size stale) := by
  unfold respond
  cases ack
  · exact h
  · exact hack _ _ (ack_keeps _ seqnum) h

/-! ## What is in the list was sent -/

def Sender.Listed (s : Sender) : Prop := ∀ x ∈ s.window.linkedList, x ∈ s.sent

theorem listed_initial : Sender.initial.Listed := by
  simp [Sender.Listed, Sender.initial, Window.initial]

theorem mem_append_listed {items list : List Item} (h : ∀ x ∈ list, x ∈ items) (x : Item) :
    ∀ y ∈ list ++ [x], y ∈ x :: items := by
  intro y hy
  rcases List.mem_append.mp hy with hmem | hmem
  · exact List.mem_cons_of_mem x (h y hmem)
  · rw [List.mem_singleton.mp hmem]
    exact List.mem_cons_self

theorem AckKeeps.listed {s s' : Sender} (hk : AckKeeps s s') (h : s.Listed) : s'.Listed := by
  intro x hx
  rw [hk.sent]
  exact h x (hk.suffix.subset hx)

theorem Sender.Listed.update {s : Sender} (h : s.Listed) (size : Nat) (stale : UInt8) :
    (s.update size stale).Listed := by
  apply Sender.update_cases (P := Sender.Listed) stale
  · exact fun _ => h
  · exact fun _ => h
  · intro _ x hx
    rw [shrink_window_linkedList] at hx
    exact h x (List.mem_of_mem_take hx)

theorem sender_step_listed {n : Nat} {s s' : Sender} {a : SenderAction} (h : s.Listed) (hs : s.step n a = some s') :
    s'.Listed := by
  unfold Sender.step at hs
  split at hs
  · contradiction
  cases a with
  | fill =>
    obtain ⟨_, hfill⟩ := Option.ite_none_right_eq_some.mp hs
    exact Sender.fill_induction (P := Sender.Listed) (fun s hl _ _ _ _ => mem_append_listed hl _)
      (fun _ hl _ _ _ => hl) hfill h
  | final =>
    obtain ⟨_, hfinal⟩ := Option.ite_none_right_eq_some.mp hs
    rw [← Option.some.inj hfinal]
    exact mem_append_listed h _
  | respond ack seqnum size stale =>
    obtain ⟨_, hresp⟩ := Option.ite_none_right_eq_some.mp hs
    rw [← Option.some.inj hresp]
    exact Sender.respond_induction (P := Sender.Listed) ack seqnum size stale (fun _ _ hk hl => hk.listed hl)
      (h.update size stale)

end Trtp.Protocol
