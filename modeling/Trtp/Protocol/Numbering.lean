import Trtp.Protocol.Sender

/-!
# The numbers of the packets

A chunk takes its number from `global_pkt`, the final packet from `seqnumTail`. They agree as long as a shrink leaves
a chunk at the end of the list, and the file is not empty.
-/

open Trtp.Lib

namespace Trtp.Protocol

/-- A packet with the number that it should have in a file of `n` chunks. -/
def Good (n : Nat) : Item → Prop
  | .chunk k => k < n
  | .final k seqnum => k = n ∧ seqnum = serial n

section

variable {α : Type} [Numbered α]

/-- If the window shrinks, a packet with data is then the last of the list. -/
def EndsInData (window : Window α) (size : Nat) : Prop :=
  Shrinks window size → ∃ p, (window.linkedList.take size).getLast? = some p ∧ isFinal p = false

instance (window : Window α) (size : Nat) : Decidable (EndsInData window size) :=
  decidable_of_iff
    (Shrinks window size → (window.linkedList.take size).getLast?.any (fun p => !isFinal p) = true)
    (by simp [EndsInData, Option.any_eq_true])

end

/-- The steps that keep the numbering. -/
def KeepsNumbers (s : Sender) : SenderAction → Prop
  | .respond _ _ size _ => EndsInData s.window size
  | _ => True

instance (s : Sender) (a : SenderAction) : Decidable (KeepsNumbers s a) :=
  match a with
  | .respond _ _ size _ => inferInstanceAs (Decidable (EndsInData s.window size))
  | .fill | .final => isTrue trivial

/-- `global_pkt` counts the chunks that were read. -/
structure Counted (n : Nat) (s : Sender) : Prop where
  le : s.global_pkt.toNat ≤ n
  small : s.global_pkt.toNat ≤ 2 ^ 54
  eof : s.eof_reached = true → s.global_pkt.toNat = n
  tail : s.global_pkt.toNat = n → s.lastPkt = false → s.window.seqnumTail + 1 = serial n
  last : s.global_pkt.toNat = n → ∀ k, s.window.linkedList.getLast? = some (.chunk k) → k + 1 = n

/-- `global_pkt` has wrapped below zero, by as much as the list can be long. No chunk can be read any more. -/
def Wrapped (s : Sender) : Prop :=
  s.eof_reached = false ∧
    ∃ j, 1 ≤ j ∧ j + s.window.linkedList.length ≤ 31 ∧ s.global_pkt.toNat + j = 2 ^ 64

structure Numbering (n : Nat) (s : Sender) : Prop where
  sent : ∀ x ∈ s.sent, Good n x
  list : ∀ x ∈ s.window.linkedList, Good n x
  size : s.window.windowsize ≤ 31
  room : s.window.linkedList.length ≤ s.window.windowsize
  count : Counted n s ∨ Wrapped s

theorem chunkIndex_of_wrapped {s : Sender} (h : Wrapped s) : 2 ^ 54 ≤ chunkIndex s.global_pkt := by
  obtain ⟨_, j, hj, hlen, hg⟩ := h
  rw [chunkIndex_eq]
  omega

theorem numbering_initial {n : Nat} (hn : 1 ≤ n) : Numbering n .initial where
  sent := by simp [Sender.initial]
  list := by simp [Sender.initial, Window.initial]
  size := by simp [Sender.initial, Window.initial]
  room := by simp [Sender.initial, Window.initial]
  count := by
    have h0 : Sender.initial.global_pkt.toNat = 0 := rfl
    refine Or.inl ⟨by omega, by omega, ?_, ?_, ?_⟩
    · simp [Sender.initial]
    · intro h
      omega
    · intro h
      omega

theorem push_numbering {n : Nat} {s : Sender} (h : Numbering n s)
    (hlen : s.window.linkedList.length < s.window.windowsize) (heof : s.eof_reached = false)
    (hoff : chunkIndex s.global_pkt < 2 ^ 54) (hk : chunkIndex s.global_pkt < n) : Numbering n s.push := by
  rcases h.count with hc | hw
  swap
  · exact absurd (chunkIndex_of_wrapped hw) (by omega)
  have hidx := chunkIndex_of_le hc.small
  have hsucc := global_pkt_succ hc.small
  have hgood : Good n (.chunk (chunkIndex s.global_pkt)) := hk
  refine ⟨?_, ?_, h.size, ?_, Or.inl ⟨?_, ?_, ?_, ?_, ?_⟩⟩
  · intro x hx
    rcases List.mem_cons.mp hx with rfl | hmem
    · exact hgood
    · exact h.sent x hmem
  · intro x hx
    rcases List.mem_append.mp hx with hmem | hmem
    · exact h.list x hmem
    · rw [List.mem_singleton.mp hmem]
      exact hgood
  · simp only [Sender.push, List.length_append, List.length_singleton]
    omega
  · simp only [Sender.push]
    omega
  · simp only [Sender.push]
    omega
  · intro he
    exact absurd (heof.symm.trans he) (by decide)
  · intro hg _
    simp only [Sender.push] at hg ⊢
    change serial (chunkIndex s.global_pkt) + 1 = serial n
    rw [← serial_succ, hidx, ← hg, hsucc]
  · intro hg k hlast
    simp only [Sender.push, List.getLast?_append, List.getLast?_singleton, Option.some_or, Option.some.injEq,
      Item.chunk.injEq] at hg hlast
    omega

theorem eof_numbering {n : Nat} {s : Sender} (h : Numbering n s) (hoff : chunkIndex s.global_pkt < 2 ^ 54)
    (hend : n ≤ chunkIndex s.global_pkt) : Numbering n { s with eof_reached := true } := by
  rcases h.count with hc | hw
  swap
  · exact absurd (chunkIndex_of_wrapped hw) (by omega)
  have hidx := chunkIndex_of_le hc.small
  have hle := hc.le
  exact ⟨h.sent, h.list, h.size, h.room, Or.inl ⟨hc.le, hc.small, fun _ => by simp only; omega, hc.tail, hc.last⟩⟩

theorem final_numbering {n : Nat} {s : Sender} (h : Numbering n s) (heof : s.eof_reached = true)
    (hlast : s.lastPkt = false) (hlen : s.window.linkedList.length < s.window.windowsize) :
    Numbering n s.final := by
  rcases h.count with hc | hw
  swap
  · exact absurd (hw.1.symm.trans heof) (by decide)
  have hg := hc.eof heof
  have hgood : Good n (.final (chunkIndex s.global_pkt) (s.window.seqnumTail + 1)) :=
    ⟨by rw [chunkIndex_of_le hc.small, hg], hc.tail hg hlast⟩
  refine ⟨?_, ?_, h.size, ?_, Or.inl ⟨hc.le, hc.small, fun _ => hg, ?_, ?_⟩⟩
  · intro x hx
    rcases List.mem_cons.mp hx with rfl | hmem
    · exact hgood
    · exact h.sent x hmem
  · intro x hx
    rcases List.mem_append.mp hx with hmem | hmem
    · exact h.list x hmem
    · rw [List.mem_singleton.mp hmem]
      exact hgood
  · simp only [Sender.final, List.length_append, List.length_singleton]
    omega
  · intro _ hno
    simp [Sender.final] at hno
  · intro _ k hk
    simp [Sender.final, List.getLast?_append] at hk

theorem update_numbering {n : Nat} {s : Sender} (h : Numbering n s) {size : Nat} (h31 : size ≤ 31)
    (hok : EndsInData s.window size) (stale : UInt8) : Numbering n (s.update size stale) := by
  apply Sender.update_cases stale (fun _ => h)
  · intro hgrow
    refine ⟨h.sent, h.list, h31, h.room.trans hgrow, ?_⟩
    rcases h.count with hc | hw
    · exact Or.inl ⟨hc.le, hc.small, hc.eof, hc.tail, hc.last⟩
    · exact Or.inr hw
  intro hs
  obtain ⟨p, hlast, hdata⟩ := hok hs
  have htake : (s.window.linkedList.take size).length = min size s.window.linkedList.length := List.length_take
  have hroom := h.room
  have hsize := h.size
  have hd : dropped s.window size ≤ 31 := by unfold dropped; omega
  have hsub := global_pkt_sub s.global_pkt _ hd
  refine ⟨h.sent, ?_, h31, ?_, ?_⟩
  · intro x hx
    rw [shrink_window_linkedList] at hx
    exact h.list x (List.mem_of_mem_take hx)
  · rw [shrink_window_linkedList, shrink_window_windowsize, htake]
    exact Nat.min_le_left _ _
  rcases h.count with hc | ⟨heof, j, hj, hjlen, hg⟩
  · by_cases hle : dropped s.window size ≤ s.global_pkt.toNat
    · rw [if_pos hle] at hsub
      have hcl := hc.le
      have hcs := hc.small
      -- where the count is still that of the whole file, nothing was dropped
      have hall : (s.global_pkt - UInt64.ofNat (dropped s.window size)).toNat = n →
          s.global_pkt.toNat = n ∧ s.window.linkedList.take size = s.window.linkedList := by
        intro hn
        have hzero : dropped s.window size = 0 ∧ s.global_pkt.toNat = n := by omega
        refine ⟨hzero.2, List.take_of_length_le ?_⟩
        have := hzero.1
        unfold dropped at this
        omega
      refine Or.inl ⟨by simp only; omega, by simp only; omega, ?_, ?_, ?_⟩
      · intro he
        contradiction
      · intro hn _
        obtain ⟨hgn, htk⟩ := hall hn
        simp only [shrink_window_seqnumTail, hlast, Option.map_some, Option.getD_some]
        cases p with
        | chunk k =>
          have hk := hc.last hgn k (by rw [← htk]; exact hlast)
          rw [← hk, serial_succ]
          rfl
        | final k q => simp [isFinal] at hdata
      · intro hn k hk
        obtain ⟨hgn, htk⟩ := hall hn
        simp only [shrink_window_linkedList, htk] at hk
        exact hc.last hgn k hk
    · rw [if_neg hle] at hsub
      have hcs := hc.small
      refine Or.inr ⟨rfl, dropped s.window size - s.global_pkt.toNat, by omega, ?_, by simp only; omega⟩
      simp only [shrink_window_linkedList, htake]
      unfold dropped at *
      omega
  · have hle : dropped s.window size ≤ s.global_pkt.toNat := by omega
    rw [if_pos hle] at hsub
    refine Or.inr ⟨rfl, j + dropped s.window size, by omega, ?_, by simp only; omega⟩
    simp only [shrink_window_linkedList, htake]
    unfold dropped at *
    omega

theorem ack_numbering {n : Nat} {s s' : Sender} (hk : AckKeeps s s') (h : Numbering n s) : Numbering n s' := by
  have hlen := hk.suffix.length_le
  have hroom := h.room
  refine ⟨?_, ?_, ?_, ?_, ?_⟩
  · rw [hk.sent]
    exact h.sent
  · exact fun x hx => h.list x (hk.suffix.subset hx)
  · rw [hk.size]
    exact h.size
  · rw [hk.size]
    omega
  · rcases h.count with hc | ⟨heof, j, hj, hjlen, hg⟩
    · refine Or.inl ⟨?_, ?_, ?_, ?_, ?_⟩
      · rw [hk.count]; exact hc.le
      · rw [hk.count]; exact hc.small
      · rw [hk.count, hk.eof]; exact hc.eof
      · rw [hk.count, hk.lastPkt, hk.tail]; exact hc.tail
      · rw [hk.count]
        intro hg k hlast
        apply hc.last hg k
        obtain ⟨pre, hpre⟩ := hk.suffix
        rw [← hpre, List.getLast?_append, hlast]
        rfl
    · exact Or.inr ⟨by rw [hk.eof]; exact heof, j, hj, by omega, by rw [hk.count]; exact hg⟩

theorem step_numbering {n : Nat} {s s' : Sender} {a : SenderAction} (h : Numbering n s) (hok : KeepsNumbers s a)
    (hs : s.step n a = some s') : Numbering n s' := by
  unfold Sender.step at hs
  split at hs
  · contradiction
  cases a with
  | fill =>
    simp only at hs
    split at hs
    · exact Sender.fill_induction (fun s h => push_numbering h) (fun s h _ => eof_numbering h) hs h
    · contradiction
  | final =>
    simp only at hs
    split at hs
    · rename_i hguard
      simp only [Option.some.injEq] at hs
      rw [← hs]
      exact final_numbering h hguard.2.1 hguard.1 hguard.2.2
    · contradiction
  | respond ack seqnum size stale =>
    simp only at hs
    split at hs
    · rename_i h31
      simp only [Option.some.injEq] at hs
      rw [← hs]
      exact Sender.respond_induction ack seqnum size stale (fun _ _ => ack_numbering) (update_numbering h h31 hok stale)
    · contradiction

end Trtp.Protocol
