import Trtp.Receiver.Advance

/-!
# What the receiver counts

Each datagram should be counted once, in `data_received` or in `packet_ignored`. A truncated packet outside the window
is counted by `is_in_window` and again by `receive_data`.
-/

open Trtp.Lib

namespace Trtp

variable (crc32 : List UInt8 → UInt32)

/-- What is added to the two counters. -/
structure Counts (data_received packet_ignored : Nat) (stats stats' : ReceiverStats) : Prop where
  received : stats'.data_received = stats.data_received + data_received
  ignored : stats'.packet_ignored = stats.packet_ignored + packet_ignored

def CountsOnce (stats stats' : ReceiverStats) : Prop := Counts 1 0 stats stats' ∨ Counts 0 1 stats stats'

/-- The datagrams that the counters account for. -/
def ReceiverStats.accounted (stats : ReceiverStats) : Nat := stats.data_received + stats.packet_ignored

namespace LoopAction

/-- How many datagrams the action processes. -/
def datagrams : LoopAction → Nat
  | .receive _ _ => 1
  | .flush _ _ => 0
  | .ack _ => 0

/-- The datagram is counted exactly once. -/
def CountedOnce (r : Receiver) : LoopAction → Prop
  | .receive bytes_read write => CountsOnce r.stats (receive_data crc32 r bytes_read write).2.stats
  | .flush _ _ => True
  | .ack _ => True

/-- The datagram is truncated, and its number is outside the window. -/
def CountedTwice (r : Receiver) : LoopAction → Prop
  | .receive bytes_read _ =>
    TruncTests crc32 (r.read bytes_read).buffer (readLen bytes_read) ∧
      is_in_window r.window (hdrSeqnum (r.read bytes_read).buffer) = false
  | .flush _ _ => False
  | .ack _ => False

end LoopAction

open LoopAction

/-! ## The parts of `receive_data` -/

theorem counts_ignore (r : Receiver) : Counts 0 1 r.stats r.ignore.stats := ⟨rfl, rfl⟩

theorem counts_store_data (r : Receiver) (pkt : Pkt) : Counts 1 0 r.stats (store_data r pkt).2.stats := by
  unfold store_data
  simp only
  cases linkedList_add_increasing r.window pkt with
  | none => exact ⟨rfl, rfl⟩
  | some window =>
    simp only
    split_ifs <;> exact ⟨rfl, rfl⟩

theorem counts_send_troncated_nack (r : Receiver) (pkt : Pkt) (write : Bool) :
    Counts 0 1 r.stats (send_troncated_nack crc32 r pkt write).stats := by
  obtain ⟨_, _, _, heq⟩ := send_troncated_nack_eq crc32 r pkt write
  rw [heq]
  exact ⟨rfl, rfl⟩

theorem counts_send_ack (r : Receiver) (timestamp : UInt32) (write : Bool) :
    Counts 0 0 r.stats (send_ack crc32 r timestamp write).stats := by
  obtain ⟨_, _, _, heq⟩ := send_ack_eq crc32 r timestamp write
  rw [heq]
  exact ⟨rfl, rfl⟩

theorem countsOnce_receive_valid (r : Receiver) (pkt : Pkt) (write : Bool) :
    CountsOnce r.stats (receive_valid crc32 r pkt write).2.stats := by
  unfold receive_valid
  split
  · split
    · exact Or.inr (counts_send_troncated_nack crc32 r pkt write)
    unfold Receiver.is_in_window
    split_ifs
    · exact Or.inl (counts_store_data r pkt)
    · exact Or.inr ⟨rfl, rfl⟩
  · exact Or.inr (counts_ignore r)
  · exact Or.inr (counts_ignore r)
  · exact Or.inr (counts_ignore r)

/-! ## One step -/

variable {crc32} {r r' : Receiver} {bytes_read : Option (List UInt8)}

theorem counts_receive_twice (write : Bool) (h : CountedTwice crc32 r (.receive bytes_read write)) :
    Counts 0 2 r.stats (receive_data crc32 r bytes_read write).2.stats := by
  obtain ⟨htrunc, hout⟩ := h
  rw [receive_data_truncated crc32 write htrunc, hout]
  exact ⟨rfl, rfl⟩

theorem countsOnce_receive (write : Bool) (h : ¬ CountedTwice crc32 r (.receive bytes_read write)) :
    CountsOnce r.stats (receive_data crc32 r bytes_read write).2.stats := by
  by_cases hvalid : Intact crc32 (r.read bytes_read).buffer ∧ LenTests (r.read bytes_read).buffer (readLen bytes_read)
  · rw [receive_data_valid crc32 write hvalid.1 hvalid.2]
    exact countsOnce_receive_valid crc32 (r.read bytes_read) _ write
  by_cases htrunc : TruncTests crc32 (r.read bytes_read).buffer (readLen bytes_read)
  · have hin : is_in_window r.window (hdrSeqnum (r.read bytes_read).buffer) = true := by
      rw [← Bool.not_eq_false]
      intro hout
      exact h ⟨htrunc, hout⟩
    rw [receive_data_truncated crc32 write htrunc, if_pos hin]
    exact Or.inr (counts_send_troncated_nack crc32 (r.read bytes_read) _ write)
  · rw [receive_data_ignored crc32 write hvalid htrunc]
    exact Or.inr (counts_ignore (r.read bytes_read))

theorem counts_flush_loop (wr : Nat → Option Nat) (list : List Pkt) (packet_write : Nat) (r : Receiver) :
    Counts 0 0 r.stats (flush_loop wr list packet_write r).2.stats := by
  induction list generalizing packet_write r with
  | nil => exact ⟨rfl, rfl⟩
  | cons current next ih =>
    unfold flush_loop
    split
    · exact ⟨rfl, rfl⟩
    split
    · exact ⟨rfl, rfl⟩
    split
    · exact ⟨rfl, rfl⟩
    · exact ⟨(ih _ _).received, (ih _ _).ignored⟩

theorem counts_flush_file (r : Receiver) (wr : Nat → Option Nat) : Counts 0 0 r.stats (flush_file r wr).2.stats := by
  unfold flush_file
  split
  · exact ⟨rfl, rfl⟩
  · exact counts_flush_loop wr _ 0 r

theorem counts_flush_turn (r : Receiver) (wr : Nat → Option Nat) (write : Bool) :
    Counts 0 0 r.stats (flush_turn crc32 r wr write).stats := by
  have hfile := counts_flush_file r wr
  unfold flush_turn
  simp only
  split
  · have hack := counts_send_ack crc32 { (flush_file r wr).2 with eof_wrote := true } (flush_file r wr).2.lastTimestamp
      write
    exact ⟨hack.received.trans hfile.received, hack.ignored.trans hfile.ignored⟩
  · exact hfile

theorem counts_ack_turn (r : Receiver) (write : Bool) : Counts 0 0 r.stats (ack_turn crc32 r write).stats := by
  unfold ack_turn
  split
  · have hack := counts_send_ack crc32 r r.lastTimestamp write
    exact ⟨hack.received, hack.ignored⟩
  · exact ⟨rfl, rfl⟩

theorem Counts.accounted {m n : Nat} {stats stats' : ReceiverStats} (h : Counts m n stats stats') :
    stats'.accounted = stats.accounted + (m + n) := by
  unfold ReceiverStats.accounted
  rw [h.received, h.ignored]
  omega

theorem CountsOnce.accounted {stats stats' : ReceiverStats} (h : CountsOnce stats stats') :
    stats'.accounted = stats.accounted + 1 := by
  rcases h with h | h
  · exact h.accounted
  · exact h.accounted

theorem Counts.not_once {stats stats' : ReceiverStats} (h : Counts 0 2 stats stats') : ¬ CountsOnce stats stats' := by
  obtain ⟨hreceived, hignored⟩ := h
  rintro (⟨hreceived', hignored'⟩ | ⟨hreceived', hignored'⟩) <;> omega

theorem countedOnce_iff (crc32 : List UInt8 → UInt32) (r : Receiver) (a : LoopAction) :
    CountedOnce crc32 r a ↔ ¬ CountedTwice crc32 r a := by
  cases a with
  | receive bytes_read write =>
    constructor
    · intro honce htwice
      exact (counts_receive_twice write htwice).not_once honce
    · exact countsOnce_receive write
  | flush wr write => exact iff_of_true trivial id
  | ack write => exact iff_of_true trivial id

theorem loop_step_accounted {a : LoopAction} (h : loop_step crc32 r a = some r') :
    (¬ CountedTwice crc32 r a → r'.stats.accounted = r.stats.accounted + a.datagrams) ∧
      (CountedTwice crc32 r a → r'.stats.accounted = r.stats.accounted + a.datagrams + 1) := by
  obtain ⟨_, ⟨bytes_read, write, rfl, rfl⟩ | ⟨wr, write, rfl, rfl⟩ | ⟨write, rfl, rfl⟩⟩ := loop_step_cases h
  · exact ⟨fun honce => (countsOnce_receive write honce).accounted,
      fun htwice => (counts_receive_twice write htwice).accounted⟩
  · exact ⟨fun _ => (counts_flush_turn r wr write).accounted, False.elim⟩
  · exact ⟨fun _ => (counts_ack_turn r write).accounted, False.elim⟩

/-! ## Whole runs -/

theorem loop_step_accounted_le (r : Receiver) (a : LoopAction) (r' : Receiver) (h : loop_step crc32 r a = some r') :
    r.stats.accounted + a.datagrams ≤ r'.stats.accounted := by
  obtain ⟨honce, htwice⟩ := loop_step_accounted h
  by_cases h2 : CountedTwice crc32 r a
  · have := htwice h2
    omega
  · have := honce h2
    omega

theorem loop_step_accounted_iff (r : Receiver) (a : LoopAction) (r' : Receiver) (h : loop_step crc32 r a = some r') :
    r'.stats.accounted = r.stats.accounted + a.datagrams ↔ ¬ CountedTwice crc32 r a := by
  obtain ⟨honce, htwice⟩ := loop_step_accounted h
  refine ⟨fun heq h2 => ?_, honce⟩
  have := htwice h2
  omega

/-- The counters add up, and each datagram is counted exactly once, in the runs without a truncated packet outside
the window. -/
theorem receive_accounting_iff {buffer : Mem} {actions : List LoopAction} {r : Receiver}
    (h : run (loop_step crc32) (fun _ _ => True) actions (.initial buffer) = some r) :
    (r.stats.data_received + r.stats.packet_ignored = (actions.map datagrams).sum ↔
        Steps (loop_step crc32) (fun r a => ¬ CountedTwice crc32 r a) actions (.initial buffer)) ∧
      (Steps (loop_step crc32) (CountedOnce crc32) actions (.initial buffer) ↔
        Steps (loop_step crc32) (fun r a => ¬ CountedTwice crc32 r a) actions (.initial buffer)) := by
  have htotal := run_total_iff (fun r : Receiver => r.stats.accounted) loop_step_accounted_le loop_step_accounted_iff h
  have hzero : (Receiver.initial buffer).stats.accounted + (actions.map datagrams).sum =
      (actions.map datagrams).sum := Nat.zero_add _
  refine ⟨?_, steps_congr (fun r a _ _ => countedOnce_iff crc32 r a) h⟩
  rw [hzero] at htotal
  exact htotal

/-- A datagram without a header, a `flush_file`, and a packet that is stored. -/
theorem receive_accounting_run :
    ∃ r, run (loop_step zlib_crc32) (fun _ _ => True) [.receive (some [64]) true, .flush (fun _ => none) true,
        .receive (some (pkt_bytes zlib_crc32 (bytePkt 0))) true] (.initial fun _ => 0) = some r ∧
      r.stats.data_received + r.stats.packet_ignored = 2 := by
  generalize zlib_crc32 = crc32
  obtain ⟨r, hr⟩ : ∃ r, run (loop_step crc32) (fun _ _ => True) [.receive (some [64]) true, .flush (fun _ => none) true,
      .receive (some (pkt_bytes crc32 (bytePkt 0))) true] (.initial fun _ => 0) = some r := ⟨_, rfl⟩
  refine ⟨r, hr, (receive_accounting_iff hr).1.mpr ⟨?_, fun r₁ _ => ⟨id, fun r₂ _ => ⟨?_, fun _ _ => trivial⟩⟩⟩⟩
  · rintro ⟨htrunc, _⟩
    exact absurd htrunc.header (by decide)
  · rintro ⟨htrunc, _⟩
    exact not_truncTests_of_valid ((bytePkt_sendable 0).received r₂.buffer).1 htrunc

/-- A `DATA` packet of one byte with the number 100, cut to its header. -/
def cutDatagram : List UInt8 := [96, 0, 1, 100, 0, 0, 0, 0, 235, 81, 31, 172]

theorem cutDatagram_counts_twice : CountedTwice crc32 (.initial fun _ => 0) (.receive (some cutDatagram) true) where
  left := {
    header := by decide
    type := by decide
    tr := by decide
    length := by decide
    slack := by decide
    crc1 := fun _ => ⟨by decide, by decide⟩ }
  right := by decide

/-- The first datagram is counted twice. -/
theorem cutDatagram_accounting :
    ∃ r, run (loop_step zlib_crc32) (fun _ _ => True) [.receive (some cutDatagram) true] (.initial fun _ => 0) =
        some r ∧
      datagrams (.receive (some cutDatagram) true) = 1 ∧ r.stats.data_received + r.stats.packet_ignored = 2 := by
  generalize zlib_crc32 = crc32
  have htwice : CountedTwice crc32 (.initial fun _ => 0) (.receive (some cutDatagram) true) := cutDatagram_counts_twice
  exact ⟨_, rfl, rfl, (counts_receive_twice true htwice).accounted⟩

end Trtp
