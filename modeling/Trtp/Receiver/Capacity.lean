import Trtp.Receiver.Nack
import Trtp.Receiver.Run

/-!
# How much the receiver stores

At most `windowsize` packets, all less than `windowsize` ahead of `seqnumHead`, unless the two numbers behind the window
come, or a smaller window leaves packets behind it.
-/

open Trtp.Lib

namespace Trtp

section

variable {α : Type} [Numbered α]

/-- The list is in order and inside the window. -/
structure Within (window : Window α) : Prop where
  ordered : Ordered window
  below : ∀ p ∈ window.linkedList, window.ahead p < window.windowsize

theorem Within.length_le {window : Window α} (h : Within window) : window.linkedList.length ≤ window.windowsize := by
  have hnodup : (window.linkedList.map window.ahead).Nodup := by
    rw [List.nodup_iff_pairwise_ne, List.pairwise_map]
    exact h.ordered.imp fun hlt => Nat.ne_of_lt hlt
  have hsubset : window.linkedList.map window.ahead ⊆ List.range window.windowsize := by
    intro k hk
    obtain ⟨p, hp, rfl⟩ := List.mem_map.mp hk
    exact List.mem_range.mpr (h.below p hp)
  simpa using (List.subperm_of_subset hnodup hsubset).length_le

theorem Within.borderSafe {window : Window α} (h : Within window) {seqnum : UInt8}
    (hlt : dist window.seqnumHead seqnum < window.windowsize) : BorderSafe window seqnum := by
  by_cases hwrap : 256 ≤ window.seqnumHead.toNat + window.windowsize
  · exact Or.inl hwrap
  refine Or.inr (Or.inl fun q hq => ?_)
  have hq' := h.below q hq
  unfold Window.ahead at hq'
  have hq'' := dist_lift window.seqnumHead (seqnumOf q)
  have hs := dist_lift window.seqnumHead seqnum
  constructor
  · intro hlt'
    rw [if_pos hlt'] at hq''
    omega
  · intro hlt'
    rw [if_pos hlt'] at hs
    omega

omit [Numbered α] in
theorem dist_lt_of_inside {window : Window α} (hsize : SizeOk window) {seqnum : UInt8}
    (hin : is_in_window window seqnum = true) (h0 : seqnum ≠ window.border) (h1 : seqnum ≠ window.border + 1) :
    dist window.seqnumHead seqnum < window.windowsize := by
  have hle := (is_in_window_iff window seqnum hsize.1 hsize.2).mp hin
  have hborder := border_toNat window
  have hs := seqnum.toNat_lt
  have hh := window.seqnumHead.toNat_lt
  rw [dist_eq] at hle ⊢
  rw [ne_eq, ← UInt8.toNat_inj, hborder] at h0
  rw [ne_eq, ← UInt8.toNat_inj, UInt8.toNat_add, hborder, UInt8.toNat_one] at h1
  omega

theorem Within.store {window : Window α} (h : Within window) (hsize : SizeOk window) {pkt : α}
    (hlt : dist window.seqnumHead (seqnumOf pkt) < window.windowsize) : Within (store window pkt) := by
  refine ⟨store_ordered hsize h.ordered (h.borderSafe hlt), fun p hp => ?_⟩
  have hmore := (store_keeps window pkt).1
  unfold Window.ahead
  rw [store_seqnumHead]
  rcases mem_store hp with rfl | hmem
  · omega
  · have := h.below p hmem
    unfold Window.ahead at this
    omega

theorem Within.decrease {window : Window α} (h : Within window)
    (hkept : 4 < window.windowsize → ∀ p ∈ window.linkedList.take (window.windowsize / 2),
      window.ahead p < window.windowsize / 2) : Within (decrease_window window) := by
  refine ⟨decrease_window_ordered h.ordered, fun p hp => ?_⟩
  unfold Window.ahead
  rw [decrease_window_seqnumHead]
  unfold decrease_window at hp ⊢
  by_cases h4 : 4 < window.windowsize
  · rw [if_pos h4] at hp ⊢
    simp only [remove_end_while_eq] at hp
    exact hkept h4 p hp
  · rw [if_neg h4] at hp ⊢
    exact h.below p hp

theorem Within.flushed {window : Window α} {current : α} {next : List α} (h : Within window)
    (hlist : window.linkedList = current :: next) : Within (flushed window next) := by
  refine ⟨flushed_ordered hlist h.ordered, fun p hp => ?_⟩
  have hmem : p ∈ window.linkedList := by
    rw [hlist]
    exact List.mem_cons_of_mem current hp
  have hlt : window.ahead current < window.ahead p := by
    have ho := h.ordered
    unfold Ordered at ho
    rw [hlist] at ho
    exact List.rel_of_pairwise_cons ho hp
  have hne : seqnumOf p ≠ window.seqnumHead := by
    intro heq
    have hzero : window.ahead p = 0 := dist_eq_zero.mpr heq
    omega
  have hstep := dist_succ hne
  have hbelow := h.below p hmem
  unfold Window.ahead at hbelow ⊢
  simp only [Trtp.flushed]
  omega

end

/-! ## Runs -/

variable {crc32 : List UInt8 → UInt32}

variable (crc32) in
/-- No `DATA` packet has one of the two numbers behind the window, and a smaller window leaves no packet behind it. -/
def CapacitySafe (r : Receiver) : LoopAction → Prop
  | .receive bytes_read _ =>
    (Stores crc32 r bytes_read → hdrSeqnum (readInto bytes_read r.buffer) ≠ r.window.border ∧
      hdrSeqnum (readInto bytes_read r.buffer) ≠ r.window.border + 1) ∧
    (Nacks crc32 r bytes_read → 4 < r.window.windowsize →
      ∀ p ∈ r.window.linkedList.take (r.window.windowsize / 2), r.window.ahead p < r.window.windowsize / 2)
  | _ => True

/-- The list is inside the window until the end, and then still no longer than it. -/
structure Capacity (r : Receiver) : Prop where
  size : SizeOk r.window
  within : r.eof_wrote = false → Within r.window
  length : r.window.linkedList.length ≤ r.window.windowsize

theorem flush_loop_capacity (wr : Nat → Option Nat) (list : List Pkt) (packet_write : Nat) (r : Receiver)
    (hlist : r.window.linkedList = list) (h : Within r.window) :
    (flush_loop wr list packet_write r).2.window.linkedList.length ≤
        (flush_loop wr list packet_write r).2.window.windowsize ∧
      ((flush_loop wr list packet_write r).1 ≠ -1 → Within (flush_loop wr list packet_write r).2.window) := by
  induction list generalizing packet_write r with
  | nil => exact ⟨h.length_le, fun _ => h⟩
  | cons current next ih =>
    unfold flush_loop
    split
    · exact ⟨h.length_le, fun _ => h⟩
    split
    · exact ⟨h.length_le, fun hne => absurd rfl hne⟩
    split
    · exact ⟨h.length_le, fun hne => absurd rfl hne⟩
    · exact ih _ _ rfl (h.flushed hlist)

theorem flush_turn_capacity {r : Receiver} (hsize : SizeOk r.window) (h : Within r.window) (wr : Nat → Option Nat)
    (write : Bool) : Capacity (flush_turn crc32 r wr write) := by
  have hfile : flush_file r wr = flush_loop wr r.window.linkedList 0 r := flush_file_eq r wr
  obtain ⟨hlen, hwithin⟩ := flush_loop_capacity wr r.window.linkedList 0 r rfl h
  rw [← hfile] at hlen hwithin
  have hwin := flush_turn_window crc32 r wr write
  refine ⟨?_, ?_, by rw [hwin]; exact hlen⟩
  · unfold SizeOk
    rw [hwin, flush_file_windowsize]
    exact hsize
  · intro hgo
    rw [hwin]
    refine hwithin fun hend => ?_
    obtain ⟨_, _, _, heq⟩ := send_ack_eq crc32 { (flush_file r wr).2 with eof_wrote := true }
      (flush_file r wr).2.lastTimestamp write
    unfold flush_turn at hgo
    simp only [hend, if_true, heq] at hgo
    contradiction

theorem loop_step_capacity {r r' : Receiver} {a : LoopAction} (h : Capacity r) (hok : CapacitySafe crc32 r a)
    (hs : loop_step crc32 r a = some r') : Capacity r' := by
  obtain ⟨hgo, ⟨bytes_read, write, rfl, rfl⟩ | ⟨wr, write, rfl, rfl⟩ | ⟨write, rfl, rfl⟩⟩ := loop_step_cases hs
  · have hwithin : Within (receive_data crc32 r bytes_read write).2.window := by
      by_cases hn : Nacks crc32 r bytes_read
      · obtain ⟨pkt, _, _, heq⟩ := receive_data_nacks write hn
        rw [heq, send_troncated_nack_window]
        exact (h.within hgo).decrease (hok.2 hn)
      · obtain ⟨_, ⟨hst, hwin⟩ | ⟨hwin, _⟩⟩ := receive_data_keeps write hn
        · obtain ⟨h0, h1⟩ := hok.1 hst
          have hseq : seqnumOf (accepted crc32 (readInto bytes_read r.buffer)) =
              hdrSeqnum (readInto bytes_read r.buffer) := (accepted_header crc32 _).2.2.2.2.1
          rw [hwin]
          exact (h.within hgo).store h.size (hseq ▸ dist_lt_of_inside h.size hst.window h0 h1)
        · rw [hwin]
          exact h.within hgo
    exact ⟨loop_step_sizeOk h.size hs, fun _ => hwithin, hwithin.length_le⟩
  · exact flush_turn_capacity h.size (h.within hgo) wr write
  · have hwin := ack_turn_window crc32 r write
    exact ⟨by rw [hwin]; exact h.size, fun _ => by rw [hwin]; exact h.within hgo, by rw [hwin]; exact h.length⟩

/-- The window is between 1 and 31, the list is no longer than it, and what is stored is inside it. -/
theorem receiver_capacity {buffer : Mem} {r : Receiver}
    (h : Reach (loop_step crc32) (CapacitySafe crc32) (.initial buffer) r) :
    1 ≤ r.window.windowsize ∧ r.window.windowsize ≤ 31 ∧ r.window.linkedList.length ≤ r.window.windowsize ∧
      ∀ bytes_read write, CapacitySafe crc32 r (.receive bytes_read write) → Stores crc32 r bytes_read →
        dist r.window.seqnumHead (hdrSeqnum (readInto bytes_read r.buffer)) < r.window.windowsize := by
  have hc : Capacity r := by
    refine h.invariant (P := Capacity) ?_ fun _ _ _ => loop_step_capacity
    exact ⟨initial_sizeOk, fun _ => ⟨List.Pairwise.nil, by simp [Receiver.initial, Window.initial]⟩, Nat.zero_le _⟩
  refine ⟨hc.size.1, hc.size.2, hc.length, fun bytes_read _ hok hst => ?_⟩
  obtain ⟨h0, h1⟩ := hok.1 hst
  exact dist_lt_of_inside hc.size hst.window h0 h1

/-- The condition on whole packets. -/
def CapacitySafeItem (t : Protocol.Receiver) : Protocol.ReceiverAction → Prop
  | .deliver x => seqnumOf x ≠ t.window.border ∧ seqnumOf x ≠ t.window.border + 1
  | _ => True

instance (t : Protocol.Receiver) (b : Protocol.ReceiverAction) : Decidable (CapacitySafeItem t b) :=
  match b with
  | .deliver _ => inferInstanceAs (Decidable (_ ∧ _))
  | .flush | .nack _ | .ack => .isTrue trivial

theorem capacitySafe_of_item {file : List UInt8} {r : Receiver} {t : Protocol.Receiver} {pkt : Pkt} {x : Protocol.Item}
    (h : ReceiverRel crc32 file r t) (hb : CapacitySafeItem t (.deliver x)) (hx : Carries file pkt x) :
    CapacitySafe crc32 r (.receive (some (pkt_bytes crc32 pkt)) true) := by
  obtain ⟨hi, hl, hr⟩ := hx.sendable.received r.buffer
  obtain ⟨_, htr, _, _, hseq, _⟩ := accepted_header crc32 (readInto (some (pkt_bytes crc32 pkt)) r.buffer)
  have hseq' : hdrSeqnum (readInto (some (pkt_bytes crc32 pkt)) r.buffer) = seqnumOf x :=
    hseq.symm.trans (hr.seqnum.trans hx.seqnum)
  have htr' : hdrTr (readInto (some (pkt_bytes crc32 pkt)) r.buffer) = 0 :=
    htr.symm.trans (hr.tr.trans hx.sendable.tr)
  have hborder : r.window.border = t.window.border := by
    rw [Window.border, Window.border, h.window.head, h.window.size]
  refine ⟨fun _ => ?_, fun hn => ?_⟩
  · rw [hseq', hborder]
    exact hb
  · rcases hn with ⟨ht, _⟩ | ⟨_, _, _, h1⟩
    · exact absurd ht (not_truncTests_of_valid hi)
    · rw [htr'] at h1
      exact absurd h1 (by decide)

/-- Chunk 0 is written, and chunk 2 is stored in the window of 2. -/
theorem receiver_capacity_gap :
    ∃ r, Reach (loop_step zlib_crc32) (CapacitySafe zlib_crc32) (.initial fun _ => 0) r ∧ r.window.windowsize = 2 ∧
      r.window.linkedList.length = 1 ∧ r.window.linkedList.length ≤ r.window.windowsize := by
  generalize zlib_crc32 = crc32
  obtain ⟨r, t, hrel, ht, hr⟩ := loop_run_of_protocol (n := 2) [.deliver (.chunk 0), .flush, .deliver (.chunk 2)]
    (p := fun t => decide (t.window.windowsize = 2 ∧ t.window.linkedList.length = 1)) (by decide)
    (fun _ _ _ _ hrel hb hx => capacitySafe_of_item hrel hb hx) (fun _ _ _ _ => trivial) fun _ => 0
  obtain ⟨hsize, hlen⟩ := of_decide_eq_true ht
  exact ⟨r, hr, hrel.window.size.trans hsize, hrel.window.length.trans hlen, (receiver_capacity hr).2.2.1⟩

/-- In the first window of 1, packets 1 and 2 are stored. -/
theorem window_overfull :
    ∃ r, Reach (loop_step zlib_crc32) (fun _ _ => True) (.initial fun _ => 0) r ∧ r.window.windowsize = 1 ∧
      r.window.linkedList.map pkt_get_seqnum = [1, 2] := by
  generalize zlib_crc32 = crc32
  have hrun : (run Protocol.Receiver.step (fun t b => Fed 3 b ∧ (fun _ _ => True) t b)
      [.deliver (.chunk 1), .deliver (.chunk 2)] .initial).any
      (fun t => decide (t.window.windowsize = 1 ∧ t.window.linkedList.map seqnumOf = [1, 2])) = true := by decide
  obtain ⟨r, t, hrel, ht, hr⟩ : ∃ r t, ReceiverRel crc32 (markedFile 2) r t ∧
      decide (t.window.windowsize = 1 ∧ t.window.linkedList.map seqnumOf = [1, 2]) = true ∧
        Reach (loop_step crc32) (fun _ _ => True) (.initial fun _ => 0) r :=
    loop_run_of_protocol _ hrun (fun _ _ _ _ _ _ _ => trivial) (fun _ _ _ _ => trivial) fun _ => 0
  obtain ⟨hsize, hlist⟩ := of_decide_eq_true ht
  exact ⟨r, hr, hrel.window.size.trans hsize, hrel.seqnums.trans hlist⟩

end Trtp
