import Trtp.Network.Acknowledgement
import Trtp.Protocol.Undamaged

/-!
# The transfer over a network that damages nothing

Without truncated packets no window shrinks. The sender then never sends what the receiver has no room for, no
insertion is at the border, and what is written is a beginning of the file.
-/

open Trtp.Lib

namespace Trtp

open Protocol (Item Shrinks Paced Delivered EmptyFile)

variable (crc32 : List UInt8 → UInt32)

/-- What arrives at the receiver is whole. -/
def Whole : Event → Prop
  | .truncated _ | .corrupted _ => False
  | _ => True

/-- What arrives is whole and in time, and no response makes the window of the sender smaller. -/
def Undamaged (s : System) (e : Event) : Prop :=
  Whole e ∧ Timely s e ∧ Recent s e ∧ Fits crc32 (fun window size => ¬ Shrinks window size) s e

variable {crc32} {file : List UInt8}

theorem undamaged_iff {s : System} {t : Protocol.State} (h : SystemRel crc32 file s t) {e : Event}
    {b : Protocol.Action} (hm : Matches crc32 file e b) : Undamaged crc32 s e ↔ Protocol.Undamaged t b := by
  unfold Undamaged
  rw [fits_iff (fun h size => not_congr (h.shrinks size)) h hm, recent_iff h hm]
  cases hm with
  | fill | final | truncated | corrupted | flush | ack => simp [Whole, Timely, Protocol.Undamaged]
  | response hc time stale => simp [Whole, Timely, Protocol.Undamaged]
  | data hx => simp [Whole, Timely, near_iff h hx, Protocol.Undamaged]

theorem undamaged_run {copybuf buffer : Mem} {s : System}
    (h : Reach (system_step crc32 file) (Undamaged crc32) (.initial copybuf buffer) s) :
    ∃ t, SystemRel crc32 file s t ∧ Reach (Protocol.step (chunkCount file)) Protocol.Undamaged .initial t :=
  system_run (fun _ _ _ _ hrel hok hm => (undamaged_iff hrel hm).mp hok) h

theorem Protocol.step_emptyFile_undamaged {t t' : Protocol.State} {b : Protocol.Action} (h : EmptyFile t)
    (hok : Protocol.Undamaged t b) (hs : Protocol.step 0 t b = some t') : EmptyFile t' := by
  refine Protocol.step_emptyFile h ?_ hs
  rintro q stale rfl
  exact hok.2

theorem undamaged_output {s : System} {t : Protocol.State} (hrel : SystemRel crc32 file s t)
    (hreach : Reach (Protocol.step (chunkCount file)) Protocol.Undamaged .initial t) :
    s.rcv.stdout.flatten <+: file ∧ (s.rcv.eof_wrote = true → s.rcv.stdout.flatten = file) := by
  rw [hrel.rcv.done]
  rcases Nat.eq_zero_or_pos (chunkCount file) with hn | hn
  · rw [hn] at hreach
    have hempty : EmptyFile t :=
      hreach.invariant Protocol.emptyFile_initial fun _ _ _ => Protocol.step_emptyFile_undamaged
    rw [hrel.rcv.output, hempty.output, hempty.going]
    simp
  · have hd : Delivered (chunkCount file) t.rcv := (Protocol.run_paced hn hreach).rcv.delivered
    refine ⟨?_, flatten_delivered hd hrel.rcv⟩
    by_cases hdone : t.rcv.done = true
    · rw [flatten_delivered hd hrel.rcv hdone]
    · rw [flatten_output hrel.rcv (hd.going (by simpa using hdone)).2.1]
      exact List.take_prefix _ _

/-- The receiver writes a beginning of the file, and the whole file before it leaves its loop. -/
theorem undamaged_transfer {copybuf buffer : Mem} {s : System}
    (h : Reach (system_step crc32 file) (Undamaged crc32) (.initial copybuf buffer) s) :
    s.rcv.stdout.flatten <+: file ∧ (s.rcv.eof_wrote = true → s.rcv.stdout.flatten = file) := by
  obtain ⟨t, hrel, hreach⟩ := undamaged_run h
  exact undamaged_output hrel hreach

theorem one_le_chunkCount (h : file ≠ []) : 1 ≤ chunkCount file := by
  have hpos := List.length_pos_iff.mpr h
  rw [chunkCount, MAX_PAYLOAD_SIZE]
  omega

/-- The sender never runs ahead of the receiver: what it has sent is consumed or in the window, and the list of the
receiver fits its window. -/
theorem undamaged_flow {copybuf buffer : Mem} {s : System} (hfile : file ≠ [])
    (h : Reach (system_step crc32 file) (Undamaged crc32) (.initial copybuf buffer) s) :
    s.snd.window.windowsize ≤ s.rcv.window.windowsize ∧
      (∀ segment ∈ s.snd.sent, ∀ k ∈ segment.chunk, k < s.rcv.consumed + s.rcv.window.windowsize ∧
        (s.rcv.consumed ≤ k → is_in_window s.rcv.window (segmentSeqnum segment) = true)) ∧
      (s.rcv.eof_wrote = false → s.rcv.window.linkedList.length ≤ s.rcv.window.windowsize) := by
  obtain ⟨t, hrel, hreach⟩ := undamaged_run h
  have hpaced := Protocol.run_paced (one_le_chunkCount hfile) hreach
  have hsize := hpaced.rcv.counts.size
  refine ⟨?_, fun segment hmem k hk => ?_, fun hgo => ?_⟩
  · rw [hrel.snd.window.size, hrel.rcv.window.size]
    exact hpaced.snd.size
  · rw [hrel.rcv.consumed, hrel.rcv.window.size, hrel.rcv.window.is_in_window]
    rcases hrel.snd.sent.item segment hmem with hfec | ⟨x, hx, hc⟩
    · rw [hfec.1] at hk
      contradiction
    obtain rfl : x.index = k := Option.some.inj (hc.1.symm.trans hk)
    obtain ⟨hroom, _⟩ := hpaced.snd.sent x hx
    refine ⟨hroom, fun hle => ?_⟩
    have hseq : segmentSeqnum segment = seqnumOf x := hc.fields.2.1
    rw [hseq, Protocol.good_seqnum (hpaced.snd.numbering.sent x hx), is_in_window_iff _ _ hsize.1 hsize.2,
      hpaced.rcv.counts.head, dist_serial_of_le hle (by have := hsize.2; omega)]
    omega
  · rw [hrel.rcv.window.length, hrel.rcv.window.size]
    exact (hpaced.rcv.within (hrel.rcv.done.symm.trans hgo)).length_le

/-! ## A short run -/

/-- Chunk 1 comes before chunk 0, chunk 0 comes twice, and two responses change places. -/
def reorderedRun : List Protocol.Action :=
  [.fill, .deliver (.chunk 0), .flush, .ack, .respond ⟨true, 1, 2, 1⟩ 0, .fill, .deliver (.chunk 2),
    .deliver (.chunk 0), .flush, .ack, .deliver (.chunk 1), .flush, .ack, .respond ⟨true, 3, 3, 3⟩ 0, .fill, .final,
    .deliver (.final 3 3), .flush]

theorem reorderedRun_done :
    (run (Protocol.step 3) Protocol.Undamaged reorderedRun .initial).any
      (fun t => decide (t.rcv.done = true ∧ t.rcv.consumed = 4)) = true := by
  decide

theorem Protocol.Undamaged.uncorrupted {t : Protocol.State} {b : Protocol.Action} (h : Protocol.Undamaged t b) :
    Uncorrupted b := by
  cases b with
  | corrupted => exact h.elim
  | fill | final | respond | deliver | truncated | flush | ack => trivial

theorem undamaged_run_of_protocol (crc32 : List UInt8 → UInt32) {t : Protocol.State} (copybuf buffer : Mem)
    (h : Reach (Protocol.step (chunkCount file)) Protocol.Undamaged .initial t) :
    ∃ s, SystemRel crc32 file s t ∧ Reach (system_step crc32 file) (Undamaged crc32) (.initial copybuf buffer) s := by
  exact system_run_of_protocol crc32
    (fun s t e b hrel hb hm => (undamaged_iff hrel hm).mpr hb) copybuf buffer
    (h.mono fun t b hb => ⟨hb.uncorrupted, hb⟩)

/-- Three chunks are sent. -/
theorem undamaged_flow_reordered :
    ∃ s, Reach (system_step zlib_crc32 (markedFile 2)) (Undamaged zlib_crc32) (.initial (fun _ => 0) fun _ => 0) s ∧
      s.rcv.consumed = 4 ∧ s.snd.window.windowsize ≤ s.rcv.window.windowsize := by
  generalize zlib_crc32 = crc32
  have hrun := reorderedRun_done
  rw [← show chunkCount (markedFile 2) = 3 from markedFile_count 2] at hrun
  obtain ⟨t, hreach, ht⟩ := reach_of_run hrun
  obtain ⟨s, hrel, hs⟩ := undamaged_run_of_protocol crc32 (fun _ => 0) (fun _ => 0) hreach
  exact ⟨s, hs, hrel.rcv.consumed.trans (of_decide_eq_true ht).2, (undamaged_flow (by simp [markedFile]) hs).1⟩

/-- Three chunks are transferred. -/
theorem undamaged_transfer_reordered :
    ∃ s, Reach (system_step zlib_crc32 (markedFile 2)) (Undamaged zlib_crc32) (.initial (fun _ => 0) fun _ => 0) s ∧
      s.rcv.eof_wrote = true ∧ s.rcv.stdout.flatten = markedFile 2 := by
  generalize zlib_crc32 = crc32
  have hrun := reorderedRun_done
  rw [← show chunkCount (markedFile 2) = 3 from markedFile_count 2] at hrun
  obtain ⟨t, hreach, ht⟩ := reach_of_run hrun
  obtain ⟨s, hrel, hs⟩ := undamaged_run_of_protocol crc32 (fun _ => 0) (fun _ => 0) hreach
  have hdone : s.rcv.eof_wrote = true := hrel.rcv.done.trans (of_decide_eq_true ht).1
  exact ⟨s, hs, hdone, (undamaged_transfer hs).2 hdone⟩

end Trtp
