import Trtp.Refine.Conditions

/-!
# Datagrams that the sender ignores

`update_window` runs before the other tests, so what is ignored may still have changed the window.
-/

open Trtp.Lib

namespace Trtp

variable {crc32 : List UInt8 → UInt32}

variable (crc32) in
/-- The datagram is counted in `packet_ignored`, or its packet is neither an `ACK` nor a `NACK`. -/
def Ignored (s : Sender) (bytes_read : Option (List UInt8)) (time : UInt32) (stale : Pkt) : Prop :=
  (handle_response crc32 s bytes_read time stale).stats.packet_ignored ≠ s.stats.packet_ignored ∨
    ∃ pkt ∈ incoming crc32 s bytes_read, pkt_get_type pkt ≠ .ACK ∧ pkt_get_type pkt ≠ .NACK

/-- The window, the counter and the flags are the same. -/
structure Untouched (s s' : Sender) : Prop where
  window : s'.window = s.window
  count : s'.global_pkt = s.global_pkt
  eof : s'.eof_reached = s.eof_reached
  lastPkt : s'.lastPkt = s.lastPkt

/-- The packet has the present window size, or the size 0 and then no `ACK` that removes a packet. For an `ACK` that is
accepted on an empty list the source looks at a freed packet first (`ReadsNothing`), and changes nothing after it. -/
def IgnoreSafe (s : Sender) (pkt : Pkt) : Prop :=
  if pkt_get_window pkt = 0 then
    pkt_get_type pkt = .ACK → can_ack_window s.window (pkt_get_seqnum pkt) = false ∨
      ∀ node ∈ s.window.linkedList.head?, seqnumOf node = pkt_get_seqnum pkt
  else (pkt_get_window pkt).toNat = s.window.windowsize

theorem handled_window_eq_iff (window : Window Node) (pkt : Pkt) :
    handled_window window pkt = window ↔ (pkt_get_type pkt = .ACK →
      can_ack_window window (pkt_get_seqnum pkt) = false ∨
        ∀ node ∈ window.linkedList.head?, seqnumOf node = pkt_get_seqnum pkt) := by
  unfold handled_window
  split
  · rename_i hack
    rw [acked_window_eq_iff]
    exact ⟨fun hsafe _ => hsafe, fun hsafe => hsafe hack⟩
  · rename_i hack
    exact ⟨fun _ hack' => absurd hack' hack, fun _ => rfl⟩

/-- An `ACK` is ignored only when `ack_window` refuses it. -/
theorem Refused.can_ack {window : Window Node} {pkt : Pkt} (h : Refused window pkt) (hack : pkt_get_type pkt = .ACK) :
    can_ack_window window (pkt_get_seqnum pkt) = false := by
  rcases h with ⟨hnack, _⟩ | ⟨_, hcan⟩
  · rw [hack] at hnack
    contradiction
  · exact hcan

/-- What is ignored changes nothing exactly when the window size does not change and an `ACK` with the size 0 removes
nothing. -/
theorem ignored_untouched_iff {s : Sender} {bytes_read : Option (List UInt8)} {time : UInt32} {stale : Pkt}
    (h : Ignored crc32 s bytes_read time stale) :
    Untouched s (handle_response crc32 s bytes_read time stale) ↔
      ∀ pkt ∈ incoming crc32 s bytes_read, IgnoreSafe s pkt := by
  unfold Ignored at h
  cases hi : incoming crc32 s bytes_read with
  | none =>
    rw [handle_response_none hi]
    simp only [Option.mem_def, reduceCtorEq, false_implies, implies_true, iff_true]
    exact ⟨rfl, rfl, rfl, rfl⟩
  | some pkt =>
    rw [hi] at h
    rw [handle_response_some hi] at h ⊢
    obtain ⟨fec, stats, _, _, _, hcount, heq⟩ :=
      handle_packet_eq { s with copybuf := readInto bytes_read s.copybuf, lastRst := 0 } pkt time stale rfl
    rw [heq] at h ⊢
    simp only [hcount, Option.mem_def, Option.some.injEq, exists_eq_left', forall_eq'] at h ⊢
    unfold IgnoreSafe
    by_cases h0 : pkt_get_window pkt = 0
    · -- the packet is handled in the same window
      simp only [h0, update_window_zero, if_true, Sender.ignore]
      rw [← handled_window_eq_iff]
      exact ⟨fun hu => hu.window, fun hsame => ⟨hsame, rfl, rfl, rfl⟩⟩
    · rw [if_neg h0]
      constructor
      · intro hu
        have hsize := congrArg Window.windowsize hu.window
        simp only at hsize
        rw [(handled_window_keeps _ _).2, update_window_windowsize h0] at hsize
        exact hsize
      · intro hsize
        rw [update_window_grow h0 (by simp only [hsize]; exact Nat.le_refl _)] at h ⊢
        have hsame : ({ s.window with windowsize := (pkt_get_window pkt).toNat } : Window Node) = s.window := by
          rw [hsize]
        simp only [hsame] at h ⊢
        refine ⟨?_, rfl, rfl, rfl⟩
        refine (handled_window_eq_iff _ _).mpr fun hack => Or.inl ?_
        rcases h with hne | ⟨hnot, _⟩
        · by_contra hcan
          rw [if_neg fun hr => hcan (hr.can_ack hack)] at hne
          exact hne rfl
        · exact absurd hack hnot

/-- In the first state an `ACK` for 100 is ignored, whatever its window. -/
theorem far_ack_ignored (size : Nat) (h1 : 1 ≤ size) (h31 : size ≤ 31) (copybuf : Mem) :
    Ignored crc32 (.initial copybuf) (some (pkt_bytes crc32 (responsePkt true 100 size))) 0 pkt_new ∧
      ∃ pkt, incoming crc32 (.initial copybuf) (some (pkt_bytes crc32 (responsePkt true 100 size))) = some pkt ∧
        (pkt_get_window pkt).toNat = size := by
  obtain ⟨pkt, hi, hr⟩ := (responsePkt_sendable true 100 size).incoming crc32 (.initial copybuf)
  have hack : pkt_get_type pkt = .ACK := hr.type
  have hseq : pkt_get_seqnum pkt = 100 := hr.seqnum
  have hwin : (pkt_get_window pkt).toNat = size := by
    rw [pkt_get_window_toNat, hr.window, responsePkt, BitVec.toNat_ofNat]
    omega
  have h0 : pkt_get_window pkt ≠ 0 := by
    intro hzero
    rw [hzero, UInt8.toNat_zero] at hwin
    omega
  refine ⟨Or.inl ?_, pkt, hi, hwin⟩
  generalize hs : ({ Sender.initial copybuf with
    copybuf := readInto (some (pkt_bytes crc32 (responsePkt true 100 size))) (Sender.initial copybuf).copybuf
    lastRst := 0 } : Sender) = s
  have hwindow : s.window = Window.initial := by rw [← hs]; rfl
  have hstats : s.stats = (Sender.initial copybuf).stats := by rw [← hs]
  have hle : s.window.windowsize ≤ (pkt_get_window pkt).toNat := by
    rw [hwindow, hwin]
    exact h1
  obtain ⟨fec, stats, _, _, _, hcount, heq⟩ := handle_packet_eq s pkt 0 pkt_new (update_window_grow h0 hle pkt_new)
  have hrefused : Refused { s.window with windowsize := (pkt_get_window pkt).toNat } pkt := by
    refine Or.inr ⟨hack, ?_⟩
    rw [hseq, hwindow]
    exact (by decide : can_ack_window (Window.initial : Window Node) 100 = false)
  rw [if_pos hrefused] at hcount
  rw [handle_response_some hi, hs, heq]
  simp only [hcount, hstats]
  exact (by decide : (0 + 1 : Nat) ≠ 0)

theorem ignored_untouched_far_ack :
    Untouched (.initial fun _ => 0) (handle_response zlib_crc32 (.initial fun _ => 0)
      (some (pkt_bytes zlib_crc32 (responsePkt true 100 1))) 0 pkt_new) := by
  generalize zlib_crc32 = crc32
  obtain ⟨hign, pkt, hi, hwin⟩ := far_ack_ignored 1 (by decide) (by decide) fun _ => 0
  refine (ignored_untouched_iff hign).mpr fun pkt' hi' => ?_
  obtain rfl := Option.some.inj (hi.symm.trans hi')
  have h0 : pkt_get_window pkt ≠ 0 := by
    intro hzero
    rw [hzero, UInt8.toNat_zero] at hwin
    omega
  rw [IgnoreSafe, if_neg h0, hwin]
  rfl

/-- An `ACK` for 100 with window 5 is refused, and the window is 5. -/
theorem refused_ack_resizes :
    Ignored zlib_crc32 (.initial fun _ => 0) (some (pkt_bytes zlib_crc32 (responsePkt true 100 5))) 0 pkt_new ∧
      (Sender.initial fun _ => 0).window.windowsize = 1 ∧
      (handle_response zlib_crc32 (.initial fun _ => 0) (some (pkt_bytes zlib_crc32 (responsePkt true 100 5))) 0
        pkt_new).window.windowsize = 5 := by
  generalize zlib_crc32 = crc32
  obtain ⟨hign, pkt, hi, hwin⟩ := far_ack_ignored 5 (by decide) (by decide) fun _ => 0
  have h0 : pkt_get_window pkt ≠ 0 := by
    intro hzero
    rw [hzero, UInt8.toNat_zero] at hwin
    omega
  refine ⟨hign, rfl, ?_⟩
  obtain ⟨fec, stats, _, _, _, _, heq⟩ := handle_packet_eq
    { Sender.initial fun _ => 0 with
      copybuf := readInto (some (pkt_bytes crc32 (responsePkt true 100 5))) (Sender.initial fun _ => 0).copybuf
      lastRst := 0 } pkt 0 pkt_new rfl
  rw [handle_response_some hi, heq]
  simp only
  rw [(handled_window_keeps _ _).2, update_window_windowsize h0, hwin]

end Trtp
