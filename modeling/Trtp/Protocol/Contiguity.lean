import Trtp.Protocol.Sender

/-!
# The chunks of the sender's list

They are the last ones that were read, in order. A shrink that drops the final packet breaks this: it was never
counted.
-/

open Trtp.Lib

namespace Trtp.Protocol

section

variable {α : Type} [Numbered α]

/-- If the window shrinks, only packets with data are dropped. -/
def DropsData (window : Window α) (size : Nat) : Prop :=
  Shrinks window size → ∀ p ∈ window.linkedList.drop size, isFinal p = false

instance (window : Window α) (size : Nat) : Decidable (DropsData window size) :=
  inferInstanceAs (Decidable (_ → _))

end

/-- The steps that keep the count. -/
def KeepsCount (s : Sender) : SenderAction → Prop
  | .respond _ _ size _ => DropsData s.window size
  | _ => True

instance (s : Sender) (a : SenderAction) : Decidable (KeepsCount s a) :=
  match a with
  | .respond _ _ size _ => inferInstanceAs (Decidable (DropsData s.window size))
  | .fill | .final => isTrue trivial

/-- The chunks from `first` on, `m` of them. -/
def chunks (first m : Nat) : List Item := (List.range' first m).map .chunk

@[simp] theorem chunks_length (first m : Nat) : (chunks first m).length = m := by simp [chunks]

theorem chunks_succ (first m : Nat) : chunks first (m + 1) = chunks first m ++ [.chunk (first + m)] := by
  simp [chunks, List.range'_1_concat]

theorem chunks_data {first m : Nat} {x : Item} (h : x ∈ chunks first m) : isFinal x = false := by
  obtain ⟨k, _, rfl⟩ := List.mem_map.mp h
  rfl

theorem chunks_take (first m k : Nat) : (chunks first m).take k = chunks first (min k m) := by
  apply List.ext_getElem
  · simp
  · intro i h1 h2
    simp [chunks]

theorem chunks_drop (first m k : Nat) : (chunks first m).drop k = chunks (first + k) (m - k) := by
  rw [chunks, ← List.map_drop, List.drop_range', chunks, Nat.mul_one]

/-- The list is the chunks up to `global_pkt`, then final packets if the file has been read. -/
structure Contiguous (n : Nat) (s : Sender) (m : Nat) (finals : List Item) : Prop where
  le : m ≤ s.global_pkt.toNat
  list : s.window.linkedList = chunks (s.global_pkt.toNat - m) m ++ finals
  behind : ∀ x ∈ finals, isFinal x = true
  read : finals ≠ [] → s.global_pkt.toNat = n
  count : s.global_pkt.toNat ≤ n
  small : s.global_pkt.toNat ≤ 2 ^ 54
  eof : s.eof_reached = true → s.global_pkt.toNat = n
  tail : ∀ x, s.window.linkedList.getLast? = some x → seqnumOf x = s.window.seqnumTail
  room : s.window.linkedList.length ≤ s.window.windowsize
  size : s.window.windowsize ≤ 31

/-- For some numbers of chunks and final packets. -/
def Contiguity (n : Nat) (s : Sender) : Prop := ∃ m finals, Contiguous n s m finals

theorem contiguity_initial (n : Nat) : Contiguity n .initial := by
  refine ⟨0, [], Nat.zero_le _, rfl, by simp, by simp, ?_, ?_, by simp [Sender.initial], ?_, ?_, ?_⟩
  · exact Nat.zero_le _
  · exact Nat.zero_le _
  · simp [Sender.initial, Window.initial]
  · simp [Sender.initial, Window.initial]
  · simp [Sender.initial, Window.initial]

theorem push_contiguity {n : Nat} {s : Sender} (h : Contiguity n s)
    (hlen : s.window.linkedList.length < s.window.windowsize) (heof : s.eof_reached = false)
    (hoff : chunkIndex s.global_pkt < 2 ^ 54) (hk : chunkIndex s.global_pkt < n) : Contiguity n s.push := by
  obtain ⟨m, finals, h⟩ := h
  have hidx := chunkIndex_of_le h.small
  have hsucc := global_pkt_succ h.small
  have hle := h.le
  have hnil : finals = [] := by
    by_contra hne
    have := h.read hne
    omega
  refine ⟨m + 1, [], ?_, ?_, by simp, by simp, ?_, ?_, ?_, ?_, ?_, h.size⟩
  · simp only [Sender.push, hsucc]
    omega
  · have hfirst : s.global_pkt.toNat + 1 - (m + 1) = s.global_pkt.toNat - m := by omega
    have hlast : s.global_pkt.toNat - m + m = chunkIndex s.global_pkt := by omega
    simp only [Sender.push, hsucc, hfirst, chunks_succ, hlast, h.list, hnil, List.append_nil]
  · simp only [Sender.push, hsucc]
    omega
  · simp only [Sender.push, hsucc]
    omega
  · intro he
    exact absurd (heof.symm.trans he) (by decide)
  · intro x hx
    simp only [Sender.push, List.getLast?_append, List.getLast?_singleton, Option.some_or, Option.some.injEq] at hx
    rw [← hx]
    rfl
  · simp only [Sender.push, List.length_append, List.length_singleton]
    omega

theorem eof_contiguity {n : Nat} {s : Sender} (h : Contiguity n s) (hend : n ≤ chunkIndex s.global_pkt) :
    Contiguity n { s with eof_reached := true } := by
  obtain ⟨m, finals, h⟩ := h
  have hidx := chunkIndex_of_le h.small
  have hle := h.count
  exact ⟨m, finals, h.le, h.list, h.behind, h.read, h.count, h.small, fun _ => by simp only; omega, h.tail, h.room,
    h.size⟩

theorem final_contiguity {n : Nat} {s : Sender} (h : Contiguity n s) (heof : s.eof_reached = true)
    (hlen : s.window.linkedList.length < s.window.windowsize) : Contiguity n s.final := by
  obtain ⟨m, finals, h⟩ := h
  refine ⟨m, finals ++ [.final (chunkIndex s.global_pkt) (s.window.seqnumTail + 1)], h.le, ?_, ?_,
    fun _ => h.eof heof, h.count, h.small, fun _ => h.eof heof, ?_, ?_, h.size⟩
  · simp only [Sender.final, h.list, List.append_assoc]
  · intro x hx
    rcases List.mem_append.mp hx with hmem | hmem
    · exact h.behind x hmem
    · rw [List.mem_singleton.mp hmem]
      rfl
  · intro x hx
    simp only [Sender.final, List.getLast?_append, List.getLast?_singleton, Option.some_or, Option.some.injEq] at hx
    rw [← hx]
    rfl
  · simp only [Sender.final, List.length_append, List.length_singleton]
    omega

/-- What a shrink drops of a contiguous list, and the count after it. -/
theorem Contiguous.shrink {n : Nat} {s : Sender} {m size : Nat} {finals : List Item} (h : Contiguous n s m finals)
    (hdata : ∀ p ∈ s.window.linkedList.drop size, isFinal p = false) :
    (dropped s.window size = 0 ∧ s.window.linkedList.take size = s.window.linkedList) ∨
      (finals = [] ∧ size < m ∧ dropped s.window size = m - size ∧
        s.window.linkedList.take size = chunks (s.global_pkt.toNat - m) size ∧
        s.window.linkedList.drop size = chunks (s.global_pkt.toNat - m + size) (m - size)) := by
  by_cases hlen : s.window.linkedList.length ≤ size
  · left
    exact ⟨by unfold dropped; omega, List.take_of_length_le hlen⟩
  right
  have hlist := h.list
  -- the last packet is dropped, so it is a chunk
  have hnil : finals = [] := by
    by_contra hne
    have hlast : finals.getLast hne ∈ s.window.linkedList.drop size := by
      have hget : (s.window.linkedList.drop size).getLast? = some (finals.getLast hne) := by
        rw [List.getLast?_drop, if_neg hlen, hlist, List.getLast?_append, List.getLast?_eq_some_getLast hne]
        rfl
      exact List.mem_of_getLast? hget
    have hfin := h.behind _ (List.getLast_mem hne)
    rw [hdata _ hlast] at hfin
    contradiction
  rw [hnil, List.append_nil] at hlist
  have hm : s.window.linkedList.length = m := by rw [hlist, chunks_length]
  refine ⟨hnil, by omega, by unfold dropped; omega, ?_, ?_⟩
  · rw [hlist, chunks_take, Nat.min_eq_left (by omega)]
  · rw [hlist, chunks_drop]

theorem update_contiguity {n : Nat} {s : Sender} (h : Contiguity n s) {size : Nat} (h31 : size ≤ 31)
    (hok : DropsData s.window size) (stale : UInt8) : Contiguity n (s.update size stale) := by
  obtain ⟨m, finals, h⟩ := h
  apply Sender.update_cases stale (fun _ => ⟨m, finals, h⟩)
  · intro hgrow
    exact ⟨m, finals, h.le, h.list, h.behind, h.read, h.count, h.small, h.eof, h.tail, h.room.trans hgrow, h31⟩
  intro hs
  have hroom := h.room
  have hsize := h.size
  have hd : dropped s.window size ≤ 31 := by unfold dropped; omega
  have hsub := global_pkt_sub s.global_pkt _ hd
  have hlen : (s.window.linkedList.take size).length ≤ size := by simp
  have htail : ∀ x, (s.window.linkedList.take size).getLast? = some x →
      seqnumOf x = (shrink_window s.window size stale).seqnumTail := by
    intro x hx
    rw [shrink_window_seqnumTail, hx]
    rfl
  rcases h.shrink (hok hs) with ⟨hzero, hall⟩ | ⟨hnil, hlt, hdrop, htake, _⟩
  · rw [if_pos (by omega), hzero, Nat.sub_zero] at hsub
    refine ⟨m, finals, ?_, ?_, h.behind, ?_, ?_, ?_, ?_, ?_, ?_, h31⟩
    · simp only [hzero, hsub]; exact h.le
    · simp only [hzero, hsub, shrink_window_linkedList, hall]; exact h.list
    · simp only [hzero, hsub]; exact h.read
    · simp only [hzero, hsub]; exact h.count
    · simp only [hzero, hsub]; exact h.small
    · intro he; contradiction
    · simp only [shrink_window_linkedList]; exact htail
    · simp only [shrink_window_linkedList, shrink_window_windowsize]; exact hlen
  · have hle := h.le
    have hcount := h.count
    have hsmall := h.small
    rw [hdrop, if_pos (by omega)] at hsub
    refine ⟨size, [], ?_, ?_, by simp, by simp, ?_, ?_, ?_, ?_, ?_, h31⟩
    · simp only [hdrop, hsub]; omega
    · have hfirst : s.global_pkt.toNat - (m - size) - size = s.global_pkt.toNat - m := by omega
      simp only [hdrop, hsub, shrink_window_linkedList, htake, hfirst, List.append_nil]
    · simp only [hdrop, hsub]; omega
    · simp only [hdrop, hsub]; omega
    · intro he; contradiction
    · simp only [shrink_window_linkedList]; exact htail
    · simp only [shrink_window_linkedList, shrink_window_windowsize]; exact hlen

/-- An end of a contiguous list is one. -/
theorem ack_contiguity {n : Nat} {s s' : Sender} (hk : AckKeeps s s') (h : Contiguity n s) : Contiguity n s' := by
  obtain ⟨m, finals, h⟩ := h
  obtain ⟨pre, hpre⟩ := hk.suffix
  have hlist := h.list
  have hle := h.le
  have hdrop : s'.window.linkedList = s.window.linkedList.drop pre.length := by
    rw [← hpre, List.drop_left]
  have hsplit : s'.window.linkedList =
      chunks (s'.global_pkt.toNat - (m - pre.length)) (m - pre.length) ++ finals.drop (pre.length - m) := by
    rw [hdrop, hlist, List.drop_append, chunks_drop, chunks_length, hk.count]
    by_cases hp : pre.length ≤ m
    · congr 2
      omega
    · rw [show m - pre.length = 0 by omega]
      rfl
  refine ⟨m - pre.length, finals.drop (pre.length - m), ?_, hsplit, ?_, ?_, ?_, ?_, ?_, ?_, ?_, ?_⟩
  · rw [hk.count]; omega
  · exact fun x hx => h.behind x (List.mem_of_mem_drop hx)
  · intro hne
    rw [hk.count]
    apply h.read
    rintro rfl
    simp at hne
  · rw [hk.count]; exact h.count
  · rw [hk.count]; exact h.small
  · rw [hk.eof, hk.count]; exact h.eof
  · intro x hx
    rw [hk.tail]
    apply h.tail
    rw [← hpre, List.getLast?_append, hx]
    rfl
  · have := hk.suffix.length_le
    have := h.room
    rw [hk.size]
    omega
  · rw [hk.size]; exact h.size

theorem step_contiguity {n : Nat} {s s' : Sender} {a : SenderAction} (h : Contiguity n s) (hok : KeepsCount s a)
    (hs : s.step n a = some s') : Contiguity n s' := by
  unfold Sender.step at hs
  split at hs
  · contradiction
  cases a with
  | fill =>
    simp only at hs
    split at hs
    · exact Sender.fill_induction (fun s h => push_contiguity h) (fun s h _ _ => eof_contiguity h) hs h
    · contradiction
  | final =>
    simp only at hs
    split at hs
    · rename_i hguard
      simp only [Option.some.injEq] at hs
      rw [← hs]
      exact final_contiguity h hguard.2.1 hguard.2.2
    · contradiction
  | respond ack seqnum size stale =>
    simp only at hs
    split at hs
    · rename_i h31
      simp only [Option.some.injEq] at hs
      rw [← hs]
      exact Sender.respond_induction ack seqnum size stale (fun _ _ => ack_contiguity)
        (update_contiguity h h31 hok stale)
    · contradiction

end Trtp.Protocol
