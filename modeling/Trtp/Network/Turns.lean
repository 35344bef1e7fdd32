import Trtp.LinkedList.Sender
import Trtp.Network.Undamaged
import Trtp.Receiver.Advance

/-!
# The turns of the two main loops

What each program does when `poll` returns. Here the steps come only where the tests of the source let them, and in its
order.
-/

open Trtp.Lib

namespace Trtp

open Heap (ReadsNothing)

variable (crc32 : List UInt8 → UInt32) (file : List UInt8) (fec_enable : Bool)

/-- `POLLOUT` or `POLLIN` at the sender; at the receiver a turn of the inner loop, or `POLLOUT` alone. -/
inductive Turn where
  | pollout (fill : Nat → UInt32) (final : UInt32) (resend : Nat → UInt32)
  | pollin (response : Response) (time : UInt32) (stale : Pkt)
  | readable (segment : Segment)
  | writable

/-- `!eof_reached && window->linkedList->size < window->windowsize` -/
def Sender.fills (s : Sender) : Bool :=
  !s.eof_reached && decide (s.window.linkedList.length < s.window.windowsize)

/-- `!lastPkt && eof_reached && (window->linkedList->size < window->windowsize)` -/
def Sender.ends (s : Sender) : Bool :=
  !s.lastPkt && s.eof_reached && decide (s.window.linkedList.length < s.window.windowsize)

/-- `if (test)` -/
def step_if (test : Bool) (e : Event) (s : System) : Option System :=
  if test then system_step crc32 file s e else some s

/-- Where the list of the sender is empty, `resent_pkt` and a response that makes the source read a packet that is not
there are not possible. -/
def poll_step (s : System) : Turn → Option System
  | .pollout fill final resend => do
    let s ← step_if crc32 file s.snd.fills (.fill fill fec_enable) s
    let s ← step_if crc32 file s.snd.ends (.final final) s
    system_step crc32 file s (.resend resend)
  | .pollin response time stale =>
    if (incoming crc32 s.snd (some response.datagram)).any (ReadsNothing s.snd.window ·) then none
    else system_step crc32 file s (.response response time stale)
  | .readable segment => do
    let s ← step_if crc32 file s.rcv.awaits (.data segment) s
    system_step crc32 file s .flush
  | .writable => if s.rcv.eof_wrote then none else step_if crc32 file s.rcv.resent_ack .ack s

/-- What the network brings in a turn. -/
def Turn.arrival : Turn → Option Event
  | .pollin response time stale => some (.response response time stale)
  | .readable segment => some (.data segment)
  | .pollout .. | .writable => none

/-- What arrives is in time, and no response makes the window of the sender smaller. -/
def InTime (s : System) (turn : Turn) : Prop := ∀ e ∈ turn.arrival, Undamaged crc32 s e

variable {crc32 file fec_enable}

/-! ## A turn is a run of the system -/

/-- The programs make these steps of their own accord. -/
def Event.Own : Event → Prop
  | .fill .. | .final _ | .resend _ | .flush | .ack => True
  | _ => False

theorem undamaged_own (s : System) {e : Event} (h : e.Own) : Undamaged crc32 s e := by
  cases e with
  | fill | final | resend | flush | ack => simp [Undamaged, Whole, Timely, Recent, Fits, Event.snd, Sized]
  | response | badResponse | data | truncated | corrupted => exact absurd h id

theorem inTime_of_none (s : System) {turn : Turn} (h : turn.arrival = none) : InTime crc32 s turn := by
  intro e he
  rw [h] at he
  contradiction

theorem step_if_run {test : Bool} {e : Event} {s s' : System} (h : step_if crc32 file test e s = some s')
    (hok : Undamaged crc32 s e) : Reach (system_step crc32 file) (Undamaged crc32) s s' := by
  unfold step_if at h
  split at h
  · exact .step_one hok h
  · rw [← Option.some.inj h]
    exact .start

theorem poll_step_run {s s' : System} {turn : Turn} (h : poll_step crc32 file fec_enable s turn = some s')
    (hok : InTime crc32 s turn) : Reach (system_step crc32 file) (Undamaged crc32) s s' := by
  cases turn with
  | pollout fill final resend =>
    obtain ⟨s₁, hfill, hs₁⟩ := Option.bind_eq_some_iff.mp h
    obtain ⟨s₂, hfinal, hresend⟩ := Option.bind_eq_some_iff.mp hs₁
    exact ((step_if_run hfill (undamaged_own s trivial)).trans (step_if_run hfinal (undamaged_own s₁ trivial))).next
      (a := .resend resend) (undamaged_own s₂ trivial) hresend
  | pollin response time stale =>
    obtain ⟨_, hs⟩ := Option.ite_none_left_eq_some.mp h
    exact .step_one (hok _ rfl) hs
  | readable segment =>
    obtain ⟨s₁, hdata, hflush⟩ := Option.bind_eq_some_iff.mp h
    exact (step_if_run hdata (hok _ rfl)).next (a := .flush) (undamaged_own s₁ trivial) hflush
  | writable =>
    obtain ⟨_, hs⟩ := Option.ite_none_left_eq_some.mp h
    exact step_if_run hs (undamaged_own s trivial)

/-- The runs of the two programs are among those of the system. -/
theorem poll_run {s s' : System} (h : Reach (poll_step crc32 file fec_enable) (InTime crc32) s s') :
    Reach (system_step crc32 file) (Undamaged crc32) s s' := by
  obtain ⟨_, rfl, hreach⟩ := h.simulation (R := Eq) rfl
    fun s a s' u heq hok hs => ⟨s', rfl, heq ▸ poll_step_run hs hok⟩
  exact hreach

/-! ## The receiver waits for what is missing -/

/-- Until it is written, the packet that brought the end of the file is in the list. -/
def EofListed (r : Receiver) : Prop :=
  r.eof_wrote = false → r.eof_reached = true →
    ∃ pkt ∈ r.window.linkedList, pkt_get_length pkt = 0 ∧ pkt_get_seqnum pkt = r.eof_seqnum

theorem eofListed_initial (buffer : Mem) : EofListed (.initial buffer) := fun _ h => nomatch h

theorem store_data_eofListed {r : Receiver} (h : EofListed r) (pkt : Pkt) : EofListed (store_data r pkt).2 := by
  unfold store_data
  simp only
  cases hadd : linkedList_add_increasing r.window pkt with
  | none => exact h
  | some window =>
    obtain ⟨_, _, _, hloop⟩ := linkedList_add_increasing_spec hadd
    have hmem : ∀ q, q ∈ window.linkedList ↔ q ∈ pkt :: r.window.linkedList :=
      fun q => (add_loop_perm hloop).mem_iff
    by_cases hlen : pkt_get_length pkt = 0
    · have hnew : ∃ q ∈ window.linkedList, pkt_get_length q = 0 ∧ pkt_get_seqnum q = pkt_get_seqnum pkt :=
        ⟨pkt, (hmem pkt).mpr List.mem_cons_self, hlen, rfl⟩
      simp only [hlen, if_true]
      split <;> exact fun _ _ => by simpa using hnew
    · have hold : EofListed { r with window } := by
        intro hgo heof
        obtain ⟨q, hq, hfinal⟩ := h hgo heof
        exact ⟨q, (hmem q).mpr (List.mem_cons_of_mem pkt hq), hfinal⟩
      simp only [hlen, if_false]
      split
      · intro hgo heof
        simp only [increase_window_linkedList]
        exact hold hgo heof
      · exact hold

theorem send_troncated_nack_eofListed {r : Receiver} (h : EofListed r) (pkt : Pkt) (write : Bool) :
    EofListed (send_troncated_nack crc32 r pkt write) := by
  obtain ⟨_, _, _, heq⟩ := send_troncated_nack_eq crc32 r pkt write
  rw [heq]
  intro hgo heof
  have hsize : ¬ r.window.windowsize > 4 := fun hgt => by
    simp [Receiver.decrease, Receiver.count_truncated, hgt] at heof
  have hsame : decrease_window r.window = r.window := by rw [decrease_window, if_neg hsize]
  simp only [Receiver.decrease, Receiver.count_truncated, hsize, if_false, hsame] at hgo heof ⊢
  exact h hgo heof

theorem receive_data_eofListed {r : Receiver} (h : EofListed r) (bytes_read : Option (List UInt8)) (write : Bool) :
    EofListed (receive_data crc32 r bytes_read write).2 := by
  have hread : EofListed (r.read bytes_read) := h
  have hin : ∀ seqnum, EofListed ((r.read bytes_read).is_in_window seqnum).2 := by
    intro seqnum
    unfold Receiver.is_in_window
    split <;> exact h
  rcases hd : pkt_decode crc32 (r.read bytes_read).buffer (readLen bytes_read) pkt_new with ⟨retval, pkt⟩
  rw [receive_data_of_decode crc32 write hd]
  have hseq := hin (pkt_get_seqnum pkt)
  rcases hw : (r.read bytes_read).is_in_window (pkt_get_seqnum pkt) with ⟨inside, r'⟩
  rw [hw] at hseq
  unfold receive_decoded
  split
  · split
    · rw [hw]
      cases inside
      · exact hseq
      · exact send_troncated_nack_eofListed hseq pkt write
    · exact h
  split
  · exact h
  unfold receive_valid
  cases pkt_get_type pkt with
  | DATA =>
    simp only
    split
    · exact send_troncated_nack_eofListed hread pkt write
    · rw [hw]
      cases inside
      · exact hseq
      · exact store_data_eofListed hseq pkt
  | FEC | ACK | NACK => exact h

theorem flush_loop_eofListed (wr : Nat → Option Nat) {list : List Pkt} (packet_write : Nat) {r : Receiver}
    (hlist : r.window.linkedList = list) (h : EofListed r) :
    (flush_loop wr list packet_write r).1 = -1 ∨ EofListed (flush_loop wr list packet_write r).2 := by
  induction list generalizing packet_write r with
  | nil => exact Or.inr h
  | cons current next ih =>
    unfold flush_loop
    split
    · exact Or.inr h
    split
    · exact Or.inl rfl
    rename_i hdata
    split
    · exact Or.inl rfl
    · refine ih (packet_write + 1) rfl fun hgo heof => ?_
      obtain ⟨q, hq, hlen, hseq⟩ := h hgo heof
      rw [hlist] at hq
      -- what is written has data
      have hne : q ≠ current := fun heq => hdata (heq ▸ hlen)
      exact ⟨q, List.mem_of_ne_of_mem hne hq, hlen, hseq⟩

theorem flush_turn_eofListed {r : Receiver} (h : EofListed r) (wr : Nat → Option Nat) (write : Bool) :
    EofListed (flush_turn crc32 r wr write) := by
  unfold flush_turn
  rw [flush_file_eq]
  have hloop := flush_loop_eofListed wr 0 rfl h
  rcases hf : flush_loop wr r.window.linkedList 0 r with ⟨retval, r'⟩
  rw [hf] at hloop
  simp only
  split
  · obtain ⟨_, _, _, heq⟩ := send_ack_eq crc32 { r' with eof_wrote := true } r'.lastTimestamp write
    rw [heq]
    exact fun hgo => nomatch hgo
  · rename_i hmore
    exact hloop.resolve_left hmore

theorem receiver_event_eofListed {s s' : System} (h : EofListed s.rcv) {e : Event}
    (hs : receiver_event crc32 s e = some s') : EofListed s'.rcv := by
  obtain ⟨_, hs⟩ := Option.ite_none_left_eq_some.mp hs
  cases e with
  | data | truncated | corrupted =>
    obtain ⟨_, hs⟩ := Option.ite_none_right_eq_some.mp hs
    rw [← Option.some.inj hs]
    exact receive_data_eofListed h _ true
  | flush =>
    rw [← Option.some.inj hs]
    exact flush_turn_eofListed h _ true
  | ack =>
    rw [← Option.some.inj hs]
    obtain ⟨_, _, _, heq⟩ := send_ack_eq crc32 s.rcv s.rcv.lastTimestamp true
    simp only [heq]
    exact h
  | fill | final | resend | response | badResponse => contradiction

theorem sender_event_cases {s s' : System} {e : Event} (hs : sender_event crc32 file s e = some s') :
    s'.rcv = s.rcv ∧ ∃ a, sender_step crc32 file s.snd a = some s'.snd := by
  unfold sender_event at hs
  split at hs
  · obtain ⟨_, hs⟩ := Option.ite_none_right_eq_some.mp hs
    obtain ⟨snd, hsnd, rfl⟩ := Option.map_eq_some_iff.mp hs
    exact ⟨rfl, _, hsnd⟩
  · obtain ⟨_, hs⟩ := Option.ite_none_right_eq_some.mp hs
    obtain ⟨snd, hsnd, rfl⟩ := Option.map_eq_some_iff.mp hs
    exact ⟨rfl, _, hsnd⟩
  · obtain ⟨a, _, ha⟩ := Option.bind_eq_some_iff.mp hs
    obtain ⟨snd, hsnd, rfl⟩ := Option.map_eq_some_iff.mp ha
    exact ⟨rfl, a, hsnd⟩

theorem system_step_eofListed {s s' : System} (h : EofListed s.rcv) {e : Event}
    (hs : system_step crc32 file s e = some s') : EofListed s'.rcv := by
  unfold system_step at hs
  split at hs
  · rw [(sender_event_cases hs).1]
    exact h
  · exact receiver_event_eofListed h hs

end Trtp
