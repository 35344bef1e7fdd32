import Trtp.Sender.GiveUp
import Trtp.Sender.Sent

/-!
# A receiver that does not answer

`MAX_RESENT_FIRST_PKT` is the number of times that the first packet has to be sent again before the transmission is
cancelled. Nothing uses it.
-/

open Trtp.Lib

namespace Trtp

variable (crc32 : List UInt8 → UInt32)

/-- The file is not empty, and no datagram that comes in is a packet that is valid and not truncated. -/
def Silent (s : Sender) : SenderCall → Prop
  | .fill io _ => io.pread 0 ≠ some []
  | .response bytes_read _ _ => incoming crc32 s bytes_read = none
  | _ => True

variable {crc32} {s s' : Sender}

/-- The sender waits with its first packet, and has sent nothing else. -/
structure Waiting (s : Sender) : Prop where
  stopped : s.stopped = none
  lastPkt : s.lastPkt = false
  eof_reached : s.eof_reached = false
  windowsize : s.window.windowsize = 1
  sent : ∀ chunk ∈ s.chunks, chunk = some 0
  list : (s.window.linkedList = [] ∧ s.global_pkt = 0 ∧ s.fec.i = 0) ∨
    ∃ node, s.window.linkedList = [node] ∧ node.index = 0

theorem waiting_initial (copybuf : Mem) : Waiting (.initial copybuf) :=
  ⟨rfl, rfl, rfl, rfl, fun _ h => absurd h List.not_mem_nil, Or.inl ⟨rfl, rfl, rfl⟩⟩

theorem Waiting.fill (h : Waiting s) {io : FillIO} {fec_enable : Bool} (hok : io.pread 0 ≠ some [])
    (hs : turn_step crc32 s io fec_enable = some s') : Waiting s' := by
  have hchunks := turn_sends hs
  obtain ⟨hgo, heof, hlt, hcases⟩ := turn_step_cases hs
  rw [h.windowsize] at hlt
  obtain ⟨hnil, hzero, hfec⟩ := h.list.resolve_right fun ⟨node, hlist, _⟩ => by
    rw [hlist] at hlt
    exact Nat.lt_irrefl 1 hlt
  have hread : io.pread (chunkOffset s.global_pkt) ≠ some [] := by
    rw [hzero]
    exact hok
  obtain ⟨n, hsends, _, hfour⟩ := (hchunks.resolve_left fun hend => hread hend.1).2
  obtain ⟨_, copybuf, stats, sent, io_error, rfl⟩ := hcases.resolve_left fun hend => hread hend.1
  refine ⟨hgo, h.lastPkt, heof, h.windowsize, ?_, Or.inr ⟨turn_node s io, ?_, ?_⟩⟩
  · rw [hsends.chunks]
    intro chunk hmem
    rcases List.mem_append.mp hmem with hold | hnew
    · exact h.sent chunk hold
    -- it is the first of four packets
    rw [hfour (by rw [hfec]; decide), turnChunks, hzero] at hnew
    split at hnew
    · exact List.mem_singleton.mp hnew
    · exact absurd hnew List.not_mem_nil
  · simp only [hnil, List.nil_append]
  · simp only [turn_node, hzero]
    rfl

theorem Waiting.resend (h : Waiting s) {io : Nat → UInt32 × Bool} (hs : resent_step crc32 s io = some s') :
    Waiting s' := by
  have hsends := resent_step_sends hs
  obtain ⟨hgo, hne, copybuf, stats, sent, io_error, list, hlist, rfl⟩ := resent_step_eq hs
  obtain ⟨node, hnode, hindex⟩ := h.list.resolve_left fun hnil => hne hnil.1
  refine ⟨?_, h.lastPkt, h.eof_reached, h.windowsize, ?_, Or.inr ?_⟩
  · simp [h.lastPkt]
  · rw [hsends.chunks, hnode]
    intro chunk hmem
    rcases List.mem_append.mp hmem with hold | hnew
    · exact h.sent chunk hold
    obtain ⟨again, hagain, rfl⟩ := List.mem_map.mp hnew
    obtain ⟨old, hold, timestamp, rfl⟩ := resent_nodes_listed io 0 hagain
    rw [List.mem_singleton.mp hold, hindex]
  · rw [hnode] at hlist
    obtain ⟨node', next, ⟨timestamp, rfl⟩, hnext, rfl⟩ := List.forall₂_cons_left_iff.mp hlist
    rw [List.forall₂_nil_left_iff.mp hnext]
    exact ⟨_, rfl, hindex⟩

theorem call_step_waiting {a : SenderCall} (h : Waiting s) (hok : Silent crc32 s a)
    (hs : call_step crc32 s a = some s') :
    Waiting s' := by
  cases a with
  | fill io fec_enable => exact h.fill hok hs
  | final time write =>
    obtain ⟨_, _, heof, _⟩ := final_step_eq hs
    exact absurd (h.eof_reached.symm.trans heof) Bool.false_ne_true
  | resend io => exact h.resend hs
  | response bytes_read time stale =>
    have hsends := response_step_sends hs
    obtain ⟨hgo, ⟨_, copybuf, stats, rfl⟩ | ⟨pkt, _, _, _, hi, _⟩⟩ := response_step_cases hs
    · refine ⟨hgo, h.lastPkt, h.eof_reached, h.windowsize, ?_, h.list⟩
      rw [hsends.chunks, List.append_nil]
      exact h.sent
    · exact absurd (hok.symm.trans hi) (by simp)

/-- The timer has run out, and the packet is sent again. -/
theorem Waiting.again (h : Waiting s) (crc32 : List UInt8 → UInt32) (hne : s.window.linkedList ≠ []) :
    ∃ a s', Silent crc32 s a ∧ call_step crc32 s a = some s' ∧ s'.window.linkedList ≠ [] ∧
      s'.stats.packet_retransmitted = s.stats.packet_retransmitted + 1 := by
  obtain ⟨node, hnode, _⟩ := h.list.resolve_left fun hnil => hne hnil.1
  obtain ⟨s', hs⟩ : ∃ s', resent_step crc32 s
      (fun _ => (pkt_get_timestamp node.pkt + UInt32.ofNat (TIMEOUT + 1), true)) = some s' :=
    ⟨_, if_pos ⟨h.stopped, hne⟩⟩
  have hcount := (resent_step_sends hs).packet_retransmitted
  rw [hnode, resent_nodes, if_pos (expired_after node), if_pos rfl] at hcount
  obtain ⟨_, _, _, _, _, _, list, hlist, heq⟩ := resent_step_eq hs
  refine ⟨.resend _, s', trivial, hs, ?_, hcount⟩
  rw [heq]
  rintro rfl
  exact hne (List.forall₂_nil_right_iff.mp hlist)

/-! ## The runs -/

theorem waiting_run {copybuf : Mem} (h : Reach (call_step crc32) (Silent crc32) (.initial copybuf) s) : Waiting s :=
  h.invariant (waiting_initial copybuf) fun _ _ _ => call_step_waiting

theorem again_and_again (crc32 : List UInt8 → UInt32) (copybuf : Mem) (n : Nat) :
    ∃ s, Reach (call_step crc32) (Silent crc32) (.initial copybuf) s ∧ s.window.linkedList ≠ [] ∧
      s.stats.packet_retransmitted = n := by
  induction n with
  | zero =>
    obtain ⟨s, hs⟩ :
        ∃ s, call_step crc32 (.initial copybuf) (.fill ⟨fun _ => some [7], 0, true, true⟩ false) = some s :=
      ⟨_, rfl⟩
    have hok : Silent crc32 (.initial copybuf) (.fill ⟨fun _ => some [7], 0, true, true⟩ false) := by simp [Silent]
    refine ⟨s, .next .start hok hs, ?_⟩
    rw [← Option.some.inj hs]
    exact ⟨List.cons_ne_nil _ _, rfl⟩
  | succ n ih =>
    obtain ⟨s, hreach, hne, hn⟩ := ih
    obtain ⟨a, s', hok, hs, hne', hcount⟩ := (waiting_run hreach).again crc32 hne
    exact ⟨s', hreach.next hok hs, hne', by rw [hcount, hn]⟩

/-- As long as the receiver does not answer, the sender stays in its loop with the packet of chunk 0, and sends nothing
else. There is no bound on how often it sends that. -/
theorem silence (crc32 : List UInt8 → UInt32) (copybuf : Mem) :
    (∀ s, Reach (call_step crc32) (Silent crc32) (.initial copybuf) s →
      s.stopped = none ∧ s.lastPkt = false ∧ s.window.windowsize = 1 ∧ s.window.linkedList.length ≤ 1 ∧
        ∀ segment ∈ s.sent, segment.chunk = some 0) ∧
      ∀ n, ∃ s, Reach (call_step crc32) (Silent crc32) (.initial copybuf) s ∧ s.stats.packet_retransmitted = n := by
  constructor
  · intro s hreach
    have h := waiting_run hreach
    refine ⟨h.stopped, h.lastPkt, h.windowsize, ?_, fun segment hmem => h.sent _ (List.mem_map_of_mem hmem)⟩
    obtain ⟨hnil, _⟩ | ⟨node, hlist, _⟩ := h.list
    · rw [hnil]
      exact Nat.zero_le 1
    · rw [hlist]
      exact Nat.le_refl 1
  · intro n
    obtain ⟨s, hreach, _, hn⟩ := again_and_again crc32 copybuf n
    exact ⟨s, hreach, hn⟩

end Trtp
