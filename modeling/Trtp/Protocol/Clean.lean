import Trtp.Protocol.Contiguity
import Trtp.Protocol.Numbering

/-!
# The sender while its shrinks are clean

A shrink is clean on a list that is not empty and has no final packet. The list is then a run of consecutive packets,
with the final packet last, and `seqnumHead` is the number of the first, except for a final packet that was appended
to an empty list.
-/

open Trtp.Lib

namespace Trtp.Protocol

section

variable {α : Type} [Numbered α]

/-- A shrink finds packets in the list, and none of length 0. -/
def CleanShrink (window : Window α) (size : Nat) : Prop :=
  Shrinks window size → window.linkedList ≠ [] ∧ ∀ p ∈ window.linkedList, isFinal p = false

instance (window : Window α) (size : Nat) : Decidable (CleanShrink window size) :=
  inferInstanceAs (Decidable (_ → _ ∧ _))

theorem CleanShrink.endsInData {window : Window α} {size : Nat} (h : CleanShrink window size) :
    EndsInData window size := by
  intro hs
  obtain ⟨hne, hdata⟩ := h hs
  have htake : window.linkedList.take size ≠ [] := by
    rw [ne_eq, List.take_eq_nil_iff, not_or]
    exact ⟨hs.1, hne⟩
  refine ⟨_, List.getLast?_eq_some_getLast htake, ?_⟩
  exact hdata _ (List.mem_of_mem_take (List.getLast_mem htake))

/-- The numbers of the packets are those of the indices from `first` on. -/
def Consecutive (first : Nat) (list : List α) : Prop := list.map seqnumOf = (List.range' first list.length).map serial

theorem consecutive_cons {first : Nat} {x : α} {xs : List α} :
    Consecutive first (x :: xs) ↔ seqnumOf x = serial first ∧ Consecutive (first + 1) xs := by
  simp [Consecutive, List.range'_succ]

/-- An `ACK` removes as many packets as it is ahead of the first. -/
theorem dropWhile_consecutive {first : Nat} {list : List α} (h : Consecutive first list) (a : UInt8) :
    list.dropWhile (fun p => seqnumOf p ≠ a) = list.drop (dist (serial first) a) := by
  induction list generalizing first with
  | nil => simp
  | cons x xs ih =>
    obtain ⟨hx, hxs⟩ := consecutive_cons.mp h
    by_cases ha : a = serial first
    · rw [List.dropWhile_cons_of_neg (by simp [hx, ha]), ha, dist_self, List.drop_zero]
    · have hstep := dist_succ ha
      rw [List.dropWhile_cons_of_pos (by simpa [hx] using Ne.symm ha), ih hxs, serial_succ, ← hstep,
        List.drop_succ_cons]

theorem ack_loop_window_head {first : Nat} {list : List α} (h : Consecutive first list) (hne : list ≠ []) (a : UInt8)
    (window : Window α) (hlist : window.linkedList = list) (hhead : window.seqnumHead = serial first) :
    (ack_loop_window a list window).seqnumHead =
      serial (first + min (dist (serial first) a) (list.length - 1)) := by
  induction list generalizing first window with
  | nil => contradiction
  | cons x xs ih =>
    obtain ⟨hx, hxs⟩ := consecutive_cons.mp h
    rw [ack_loop_window_cons a hlist]
    by_cases ha : a = serial first
    · rw [if_neg (by simp [hx, ha]), ha, dist_self, Nat.zero_min, Nat.add_zero, hhead]
    · have hstep := dist_succ ha
      rw [if_pos (by simpa [hx] using Ne.symm ha)]
      cases xs with
      | nil =>
        simp [ack_loop_window, remove_acked, linkedList_remove, hlist, hhead]
      | cons y ys =>
        have hy := (consecutive_cons.mp hxs).1
        have hhead' : (remove_acked window).seqnumHead = serial (first + 1) := by
          rw [remove_acked_head hlist, List.head?_cons, Option.map_some, Option.getD_some, hy]
        rw [ih hxs (by simp) _ (remove_acked_list hlist) hhead', serial_succ]
        simp only [List.length_cons, Nat.add_sub_cancel]
        congr 1
        omega

end

/-- The final packet, if it is in the list. -/
def finalPart (n : Nat) (lastPkt : Bool) : List Item := if lastPkt then [.final n (serial n)] else []

/-- The list is the packets from index `first` on. -/
structure Clean (n : Nat) (s : Sender) (first : Nat) : Prop where
  list : s.window.linkedList = chunks first (s.global_pkt.toNat - first) ++ finalPart n s.lastPkt
  le : first ≤ s.global_pkt.toNat
  count : s.global_pkt.toNat ≤ n
  small : s.global_pkt.toNat ≤ 2 ^ 54
  eof : s.eof_reached = true → s.global_pkt.toNat = n
  last : s.lastPkt = true → s.global_pkt.toNat = n
  room : s.window.linkedList.length ≤ s.window.windowsize
  size : s.window.windowsize ≤ 31
  tail : 1 ≤ first + s.window.linkedList.length →
    s.window.seqnumTail + 1 = serial (first + s.window.linkedList.length)
  head : s.window.linkedList ≠ [] → s.window.seqnumHead = serial first ∨
    (first = n ∧ s.lastPkt = true ∧ s.window.seqnumHead + 1 = serial n)
  headEmpty : s.window.linkedList = [] → 1 ≤ first → s.window.seqnumHead + 1 = serial first

theorem consecutive_chunks (first m : Nat) : Consecutive first (chunks first m) := by
  simp [Consecutive, chunks, Function.comp_def, seqnumOf]

theorem Clean.length {n : Nat} {s : Sender} {first : Nat} (h : Clean n s first) :
    first + s.window.linkedList.length = s.global_pkt.toNat + if s.lastPkt then 1 else 0 := by
  have hle := h.le
  rw [h.list, List.length_append, chunks_length, finalPart]
  split <;> simp <;> omega

theorem Clean.consecutive {n : Nat} {s : Sender} {first : Nat} (h : Clean n s first) :
    Consecutive first s.window.linkedList := by
  have hle := h.le
  rw [h.list, finalPart]
  split
  · rename_i hlast
    have hg := h.last hlast
    have hn : n = first + (s.global_pkt.toNat - first) := by omega
    have hchunks := consecutive_chunks first (s.global_pkt.toNat - first)
    unfold Consecutive at *
    rw [chunks_length] at hchunks
    rw [List.map_append, hchunks, List.length_append, chunks_length, List.length_singleton, List.range'_1_concat,
      List.map_append, ← hn]
    rfl
  · rw [List.append_nil]
    exact consecutive_chunks _ _

theorem Clean.index_ge {n : Nat} {s : Sender} {first : Nat} (h : Clean n s first) {x : Item}
    (hx : x ∈ s.window.linkedList) : first ≤ x.index := by
  have hle := h.le
  rw [h.list, finalPart] at hx
  rcases List.mem_append.mp hx with hmem | hmem
  · obtain ⟨k, hk, rfl⟩ := List.mem_map.mp hmem
    exact (List.mem_range'_1.mp hk).1
  · split at hmem
    · rename_i hlast
      rw [List.mem_singleton.mp hmem]
      have := h.last hlast
      simp only [Item.index]
      omega
    · contradiction

theorem Clean.index_take {n : Nat} {s : Sender} {first j : Nat} (h : Clean n s first) {x : Item}
    (hx : x ∈ s.window.linkedList.take j) : x.index < first + j := by
  have hle := h.le
  rw [h.list, List.take_append, chunks_take, chunks_length] at hx
  rcases List.mem_append.mp hx with hmem | hmem
  · obtain ⟨k, hk, rfl⟩ := List.mem_map.mp hmem
    have := (List.mem_range'_1.mp hk).2
    simp only [Item.index]
    omega
  · unfold finalPart at hmem
    split at hmem
    · rename_i hlast
      have hg := h.last hlast
      have hpos : 0 < j - (s.global_pkt.toNat - first) := by
        by_contra hzero
        rw [show j - (s.global_pkt.toNat - first) = 0 by omega] at hmem
        contradiction
      rw [List.mem_singleton.mp (List.mem_of_mem_take hmem)]
      simp only [Item.index]
      omega
    · simp at hmem

/-! ## The steps -/

theorem clean_initial (n : Nat) : Clean n .initial 0 where
  list := rfl
  le := Nat.le_refl _
  count := Nat.zero_le _
  small := Nat.zero_le _
  eof h := by contradiction
  last h := by contradiction
  room := Nat.zero_le _
  size := by decide
  tail h := by simp [Sender.initial, Window.initial] at h
  head h := absurd rfl h
  headEmpty _ h := by omega

theorem push_clean {n first : Nat} {s : Sender} (h : Clean n s first)
    (hlen : s.window.linkedList.length < s.window.windowsize) (heof : s.eof_reached = false)
    (hoff : chunkIndex s.global_pkt < 2 ^ 54) (hk : chunkIndex s.global_pkt < n) : Clean n s.push first := by
  have hidx := chunkIndex_of_le h.small
  have hsucc := global_pkt_succ h.small
  have hle := h.le
  have hlength := h.length
  have hlast : s.lastPkt = false := by
    by_contra hne
    have := h.last (by simpa using hne)
    omega
  have hlist : s.window.linkedList = chunks first (s.global_pkt.toNat - first) := by
    rw [h.list, finalPart, hlast]
    simp
  rw [hlast] at hlength
  simp only [Bool.false_eq_true, if_false, Nat.add_zero] at hlength
  refine ⟨?_, ?_, ?_, ?_, ?_, ?_, ?_, h.size, ?_, ?_, ?_⟩
  · have hm : s.global_pkt.toNat + 1 - first = s.global_pkt.toNat - first + 1 := by omega
    have hnew : first + (s.global_pkt.toNat - first) = chunkIndex s.global_pkt := by omega
    simp only [Sender.push, hsucc, hm, chunks_succ, hnew, hlist, hlast, finalPart, Bool.false_eq_true, if_false,
      List.append_nil]
  · simp only [Sender.push]; omega
  · simp only [Sender.push]; omega
  · simp only [Sender.push]; omega
  · intro he
    exact absurd (heof.symm.trans he) (by decide)
  · intro he
    exact absurd (hlast.symm.trans he) (by decide)
  · simp only [Sender.push, List.length_append, List.length_singleton]
    omega
  · intro _
    simp only [Sender.push, List.length_append, List.length_singleton, ← Nat.add_assoc, hlength, serial_succ, hidx]
    rfl
  · intro _
    left
    simp only [Sender.push]
    split
    · rename_i hempty
      have hzero : s.window.linkedList.length = 0 := by simpa using hempty
      change serial (chunkIndex s.global_pkt) = serial first
      congr 1
      omega
    · rename_i hne
      rcases h.head (by simpa using hne) with hhead | ⟨_, hl, _⟩
      · exact hhead
      · exact absurd (hlast.symm.trans hl) (by decide)
  · intro hnil
    simp [Sender.push] at hnil

theorem eof_clean {n first : Nat} {s : Sender} (h : Clean n s first) (hend : n ≤ chunkIndex s.global_pkt) :
    Clean n { s with eof_reached := true } first := by
  have hidx := chunkIndex_of_le h.small
  have hle := h.count
  exact ⟨h.list, h.le, h.count, h.small, fun _ => by simp only; omega, h.last, h.room, h.size, h.tail, h.head,
    h.headEmpty⟩

theorem final_clean {n first : Nat} {s : Sender} (hn : 1 ≤ n) (h : Clean n s first) (heof : s.eof_reached = true)
    (hlast : s.lastPkt = false) (hlen : s.window.linkedList.length < s.window.windowsize) :
    Clean n s.final first := by
  have hg := h.eof heof
  have hidx := chunkIndex_of_le h.small
  have hlength := h.length
  rw [hlast] at hlength
  simp only [Bool.false_eq_true, if_false, Nat.add_zero] at hlength
  have htail : s.window.seqnumTail + 1 = serial n := by
    rw [h.tail (by omega), hlength, hg]
  refine ⟨?_, h.le, h.count, h.small, fun _ => hg, fun _ => hg, ?_, h.size, ?_, ?_, ?_⟩
  · rw [show s.final.window.linkedList =
      s.window.linkedList ++ [.final (chunkIndex s.global_pkt) (s.window.seqnumTail + 1)] from rfl, h.list, htail,
      hidx, hg]
    simp [finalPart, hlast, Sender.final, hg]
  · simp only [Sender.final, List.length_append, List.length_singleton]
    omega
  · intro _
    simp only [Sender.final, List.length_append, List.length_singleton, ← Nat.add_assoc, hlength, hg, htail,
      serial_succ]
  · intro _
    by_cases hempty : s.window.linkedList = []
    · right
      rw [hempty, List.length_nil] at hlength
      have hfirst : first = n := by omega
      refine ⟨hfirst, rfl, ?_⟩
      rw [← hfirst]
      exact h.headEmpty hempty (by omega)
    · rcases h.head hempty with hhead | ⟨_, hl, _⟩
      · exact Or.inl hhead
      · exact absurd (hlast.symm.trans hl) (by decide)
  · intro hnil
    simp [Sender.final] at hnil

theorem update_clean {n first size : Nat} {s : Sender} (h : Clean n s first) (h31 : size ≤ 31)
    (hok : CleanShrink s.window size) (stale : UInt8) : Clean n (s.update size stale) first := by
  apply Sender.update_cases (P := fun s' => Clean n s' first) stale (fun _ => h)
  · intro hgrow
    exact ⟨h.list, h.le, h.count, h.small, h.eof, h.last, h.room.trans hgrow, h31, h.tail, h.head, h.headEmpty⟩
  intro hs
  obtain ⟨hne, hdata⟩ := hok hs
  have hle := h.le
  have hroom := h.room
  have hsize := h.size
  have hlength := h.length
  have hlast : s.lastPkt = false := by
    by_contra hl
    have hmem : Item.final n (serial n) ∈ s.window.linkedList := by
      rw [h.list, finalPart, if_pos (by simpa using hl)]
      simp
    have hfin := hdata _ hmem
    contradiction
  have hlist : s.window.linkedList = chunks first (s.global_pkt.toNat - first) := by
    rw [h.list, finalPart, hlast]
    simp
  rw [hlast] at hlength
  simp only [Bool.false_eq_true, if_false, Nat.add_zero] at hlength
  have hpos : 1 ≤ s.window.linkedList.length := List.length_pos_iff.mpr hne
  have hd : dropped s.window size ≤ 31 := by unfold dropped; omega
  have hsub := global_pkt_sub s.global_pkt _ hd
  rw [if_pos (by unfold dropped; omega)] at hsub
  have htake : s.window.linkedList.take size =
      chunks first ((s.global_pkt - UInt64.ofNat (dropped s.window size)).toNat - first) := by
    rw [hlist, chunks_take, hsub]
    congr 1
    unfold dropped
    omega
  have hlen : (s.window.linkedList.take size).length = min size s.window.linkedList.length := List.length_take
  have hsize1 : 1 ≤ size := by have := hs.1; omega
  refine ⟨?_, ?_, ?_, ?_, ?_, ?_, ?_, h31, ?_, ?_, ?_⟩
  · simp only [shrink_window_linkedList, htake, finalPart, Bool.false_eq_true, if_false, List.append_nil]
  · simp only [hsub]; unfold dropped; omega
  · have := h.count; simp only [hsub]; omega
  · have := h.small; simp only [hsub]; omega
  · intro he; contradiction
  · intro he; contradiction
  · simp only [shrink_window_linkedList, shrink_window_windowsize, hlen]
    exact Nat.min_le_left _ _
  · intro _
    -- the new tail is the number of the last packet that is kept
    simp only [shrink_window_seqnumTail, shrink_window_linkedList]
    obtain ⟨m, hm⟩ : ∃ m, (s.window.linkedList.take size).length = m + 1 :=
      ⟨(s.window.linkedList.take size).length - 1, by omega⟩
    have hchunks : s.window.linkedList.take size = chunks first m ++ [.chunk (first + m)] := by
      have hcount : (s.global_pkt - UInt64.ofNat (dropped s.window size)).toNat - first = m + 1 := by
        rw [← hm, htake, chunks_length]
      rw [← chunks_succ, htake, hcount]
    rw [hm, hchunks, List.getLast?_append, List.getLast?_singleton, ← Nat.add_assoc, serial_succ]
    rfl
  · intro _
    rcases h.head hne with hhead | ⟨_, hl, _⟩
    · exact Or.inl hhead
    · exact absurd (hlast.symm.trans hl) (by decide)
  · intro hnil
    simp only [shrink_window_linkedList] at hnil
    rw [hnil, List.length_nil] at hlen
    omega

/-! ## An `ACK` -/

/-- How many packets the `ACK` removes. -/
def removed (s : Sender) (first : Nat) (a : UInt8) : Nat :=
  if can_ack_window s.window a then min (dist (serial first) a) s.window.linkedList.length else 0

theorem Clean.ack_list {n first : Nat} {s : Sender} (h : Clean n s first) (a : UInt8) :
    (s.ack a).window.linkedList = s.window.linkedList.drop (removed s first a) := by
  unfold Sender.ack removed
  split
  · simp only [(ack_loop_window_spec a _ s.window rfl).1, dropWhile_consecutive h.consecutive]
    rw [← List.drop_eq_drop_min]
  · rfl

theorem removed_le (s : Sender) (first : Nat) (a : UInt8) : removed s first a ≤ s.window.linkedList.length := by
  unfold removed
  split
  · exact Nat.min_le_right _ _
  · exact Nat.zero_le _

theorem Clean.ack_head {n first : Nat} {s : Sender} (h : Clean n s first) (hne : s.window.linkedList ≠ [])
    (hhead : s.window.seqnumHead = serial first) (a : UInt8) :
    (s.ack a).window.seqnumHead = serial (first + min (removed s first a) (s.window.linkedList.length - 1)) := by
  unfold Sender.ack removed
  split
  · simp only [ack_loop_window_head h.consecutive hne a _ rfl hhead]
    congr 2
    omega
  · rw [Nat.zero_min, Nat.add_zero]
    exact hhead

theorem Clean.ack_window_of_none {n first : Nat} {s : Sender} (h : Clean n s first) {a : UInt8}
    (hzero : removed s first a = 0) : (s.ack a).window = s.window := by
  unfold removed at hzero
  simp only [Sender.ack]
  split
  · rename_i hcan
    rw [if_pos hcan] at hzero
    cases hlist : s.window.linkedList with
    | nil => rfl
    | cons x xs =>
      have hx : seqnumOf x = serial first := (consecutive_cons.mp (hlist ▸ h.consecutive)).1
      rw [hlist, List.length_cons] at hzero
      have hdist : dist (serial first) a = 0 := by omega
      rw [ack_loop_window_cons a hlist, if_neg]
      rw [hx, dist_eq_zero.mp hdist]
      simp
  · rfl

theorem Clean.ack_length {n first : Nat} {s : Sender} (h : Clean n s first) (a : UInt8) :
    (s.ack a).window.linkedList.length = s.window.linkedList.length - removed s first a := by
  rw [h.ack_list a, List.length_drop]

/-- The final packet is not removed, or the sender would have stopped. -/
theorem Clean.final_stays {n first : Nat} {s : Sender} (h : Clean n s first) {a : UInt8}
    (hgo : (s.ack a).stopped = false) (hl : s.lastPkt = true) : removed s first a < s.window.linkedList.length := by
  by_contra hge
  have hlen := h.ack_length a
  have hnil : (s.ack a).window.linkedList = [] := List.length_eq_zero_iff.mp (by omega)
  have hstop : (s.ack a).stopped = (s.stopped || (s.lastPkt && (s.ack a).window.linkedList.isEmpty)) := rfl
  rw [hnil, hl, List.isEmpty_nil, hgo] at hstop
  simp at hstop

theorem Clean.ack_le {n first : Nat} {s : Sender} (h : Clean n s first) {a : UInt8}
    (hgo : (s.ack a).stopped = false) : first + removed s first a ≤ s.global_pkt.toNat := by
  have hle := removed_le s first a
  have hlength := h.length
  have hfirst := h.le
  cases hl : s.lastPkt with
  | false =>
    rw [hl] at hlength
    simp only [Bool.false_eq_true, if_false] at hlength
    omega
  | true =>
    have hstays := h.final_stays hgo hl
    rw [hl] at hlength
    simp only [if_true] at hlength
    omega

theorem Clean.ack {n first : Nat} {s : Sender} (h : Clean n s first) {a : UInt8} (hgo : (s.ack a).stopped = false) :
    Clean n (s.ack a) (first + removed s first a) := by
  have hlist := h.ack_list a
  have hle := removed_le s first a
  have hlength := h.length
  have hle' := h.ack_le hgo
  have hlen := h.ack_length a
  obtain ⟨_, htail, hsize, heof, hlastPkt, hcount, _⟩ := s.ack_keeps a
  refine ⟨?_, ?_, ?_, ?_, ?_, ?_, ?_, ?_, ?_, ?_, ?_⟩
  · rw [hlist, hcount, hlastPkt, h.list, List.drop_append, chunks_drop, chunks_length,
      show removed s first a - (s.global_pkt.toNat - first) = 0 by omega, List.drop_zero]
    congr 2
    omega
  · rw [hcount]; exact hle'
  · rw [hcount]; exact h.count
  · rw [hcount]; exact h.small
  · rw [heof, hcount]; exact h.eof
  · rw [hlastPkt, hcount]; exact h.last
  · have := h.room
    rw [hsize]
    omega
  · rw [hsize]; exact h.size
  · intro hpos
    rw [htail, h.tail (by omega), hlen]
    congr 1
    omega
  · intro hne
    have hpos := List.length_pos_iff.mpr hne
    have hne' : s.window.linkedList ≠ [] := by
      rintro hnil
      rw [hnil, List.length_nil] at hlen
      omega
    rcases h.head hne' with hhead | ⟨hn, hl, hhead⟩
    · left
      rw [h.ack_head hne' hhead, Nat.min_eq_left (by omega)]
    · right
      have hone : removed s first a = 0 := by
        have := h.last hl
        rw [hl] at hlength
        simp only [if_true] at hlength
        omega
      rw [hone, Nat.add_zero, h.ack_window_of_none hone, hlastPkt]
      exact ⟨hn, hl, hhead⟩
  · intro hnil hpos
    rw [hnil, List.length_nil] at hlen
    by_cases hne : s.window.linkedList = []
    · rw [hne, List.length_nil] at hle
      have hzero : removed s first a = 0 := by omega
      rw [hzero, Nat.add_zero] at hpos ⊢
      rw [h.ack_window_of_none hzero]
      exact h.headEmpty hne hpos
    · have hpos' := List.length_pos_iff.mpr hne
      rcases h.head hne with hhead | ⟨hn, hl, _⟩
      · rw [h.ack_head hne hhead, Nat.min_eq_right (by omega), ← serial_succ]
        congr 1
        omega
      · have hstays := h.final_stays hgo hl
        omega

/-- The sender stops when the final packet is removed. -/
theorem Clean.ack_stopped {n first : Nat} {s : Sender} (h : Clean n s first) (hgo : s.stopped = false) {a : UInt8}
    (hstop : (s.ack a).stopped = true) :
    s.lastPkt = true ∧ (s.ack a).window.linkedList = [] ∧ first + removed s first a = n + 1 := by
  have hdef : (s.ack a).stopped = (s.stopped || (s.lastPkt && (s.ack a).window.linkedList.isEmpty)) := rfl
  rw [hstop, hgo, Bool.false_or, eq_comm, Bool.and_eq_true, List.isEmpty_iff] at hdef
  obtain ⟨hl, hnil⟩ := hdef
  have hle := removed_le s first a
  have hlist := congrArg List.length (h.ack_list a)
  have hlength := h.length
  have hg := h.last hl
  rw [hnil, List.length_nil, List.length_drop] at hlist
  rw [hl] at hlength
  simp only [if_true] at hlength
  exact ⟨hl, hnil, by omega⟩

/-- An `ACK` that is taken is not far ahead of the first packet, or is for the packet before the final one. -/
theorem Clean.ack_close {n first : Nat} {s : Sender} (h : Clean n s first) {a : UInt8} (hr : 0 < removed s first a) :
    dist (serial first) a < 61 ∨
      (first = n ∧ s.lastPkt = true ∧ s.window.seqnumHead + 1 = serial n ∧ a = s.window.seqnumHead) := by
  have hpos := removed_le s first a
  have hne : s.window.linkedList ≠ [] := List.length_pos_iff.mp (by omega)
  have hroom := h.room
  have hsize := h.size
  have hcan : can_ack_window s.window a = true := by
    by_contra hcan
    rw [removed, if_neg hcan] at hr
    omega
  rw [can_ack_window_iff] at hcan
  have htail := h.tail (by omega)
  obtain ⟨m, hm⟩ : ∃ m, first + s.window.linkedList.length = m + 1 :=
    ⟨first + s.window.linkedList.length - 1, by omega⟩
  rw [hm, serial_succ] at htail
  have htail' : s.window.seqnumTail = serial m := by simpa using htail
  rcases h.head hne with hhead | ⟨hn, hl, hhead⟩
  · left
    rw [hhead, htail', dist_serial_of_le (by omega) (by omega)] at hcan
    omega
  · by_cases ha : a = s.window.seqnumHead
    · exact Or.inr ⟨hn, hl, hhead, ha⟩
    · left
      have hg := h.last hl
      have hlength := h.length
      rw [hl] at hlength
      simp only [if_true] at hlength
      have hmn : m = n := by omega
      have hstep := dist_succ ha
      have hne : s.window.seqnumTail ≠ s.window.seqnumHead := by
        rw [htail', hmn, ← hhead]
        simp
      have hone := dist_succ hne
      rw [hhead] at hstep hone
      rw [htail', hmn, dist_self] at hone
      rw [htail', hmn, ← hone] at hcan
      rw [hn]
      omega

end Trtp.Protocol
