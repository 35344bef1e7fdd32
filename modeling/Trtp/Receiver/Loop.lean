import Trtp.Receiver.Order

/-!
# The loop of the receiver

The steps of `read_write_receiver`: `receive_data`, `flush_file` and `send_ack`, in any order and with any results of
`read` and `write`, until `flush_file` returns -1.
-/

open Trtp.Lib

namespace Trtp

variable (crc32 : List UInt8 → UInt32)

inductive LoopAction where
  | receive (bytes_read : Option (List UInt8)) (write : Bool)
  | flush (wr : Nat → Option Nat) (write : Bool)
  | ack (write : Bool)

/-- A turn where the socket is only writable. -/
def ack_turn (r : Receiver) (write : Bool) : Receiver :=
  if r.resent_ack then { send_ack crc32 r r.lastTimestamp write with resent_ack := false } else r

def loop_step (r : Receiver) (a : LoopAction) : Option Receiver :=
  if r.eof_wrote then none
  else
    match a with
    | .receive bytes_read write => some (receive_data crc32 r bytes_read write).2
    | .flush wr write => some (flush_turn crc32 r wr write)
    | .ack write => some (ack_turn crc32 r write)

variable {crc32}

/-! ## What a step does to the window -/

theorem ack_turn_window (crc32 : List UInt8 → UInt32) (r : Receiver) (write : Bool) :
    (ack_turn crc32 r write).window = r.window := by
  unfold ack_turn
  split
  · exact send_ack_window crc32 r r.lastTimestamp write
  · rfl

theorem flush_turn_window (crc32 : List UInt8 → UInt32) (r : Receiver) (wr : Nat → Option Nat) (write : Bool) :
    (flush_turn crc32 r wr write).window = (flush_file r wr).2.window := by
  unfold flush_turn
  split
  rename_i retval r' hf
  split
  · rw [hf]
    exact send_ack_window crc32 _ _ _
  · rw [hf]

theorem loop_step_cases {r r' : Receiver} {a : LoopAction} (h : loop_step crc32 r a = some r') :
    r.eof_wrote = false ∧
      ((∃ bytes_read write, a = .receive bytes_read write ∧ r' = (receive_data crc32 r bytes_read write).2) ∨
        (∃ wr write, a = .flush wr write ∧ r' = flush_turn crc32 r wr write) ∨
        ∃ write, a = .ack write ∧ r' = ack_turn crc32 r write) := by
  unfold loop_step at h
  split at h
  · contradiction
  rename_i hgo
  refine ⟨by simpa using hgo, ?_⟩
  cases a with
  | receive bytes_read write => exact Or.inl ⟨bytes_read, write, rfl, (Option.some.inj h).symm⟩
  | flush wr write => exact Or.inr (Or.inl ⟨wr, write, rfl, (Option.some.inj h).symm⟩)
  | ack write => exact Or.inr (Or.inr ⟨write, rfl, (Option.some.inj h).symm⟩)

/-! ## The size of the window -/

theorem flush_loop_windowsize (wr : Nat → Option Nat) (list : List Pkt) (packet_write : Nat) (r : Receiver) :
    (flush_loop wr list packet_write r).2.window.windowsize = r.window.windowsize := by
  induction list generalizing packet_write r with
  | nil => rfl
  | cons current next ih =>
    unfold flush_loop
    split
    · rfl
    split
    · rfl
    split
    · rfl
    · exact ih _ _

theorem flush_file_windowsize (r : Receiver) (wr : Nat → Option Nat) :
    (flush_file r wr).2.window.windowsize = r.window.windowsize := by
  unfold flush_file
  split
  · rfl
  · exact flush_loop_windowsize wr _ 0 r

theorem loop_step_sizeOk {r r' : Receiver} {a : LoopAction} (h : SizeOk r.window)
    (hs : loop_step crc32 r a = some r') : SizeOk r'.window := by
  obtain ⟨_, ⟨bytes_read, write, _, rfl⟩ | ⟨wr, write, _, rfl⟩ | ⟨write, _, rfl⟩⟩ := loop_step_cases hs
  · rcases receive_data_window crc32 r bytes_read write with ⟨_, hwin⟩ | hwin | hwin
    · rw [hwin]
      exact store_sizeOk h _
    · rw [hwin]
      exact decrease_window_sizeOk h
    · rw [hwin]
      exact h
  · unfold SizeOk
    rw [flush_turn_window, flush_file_windowsize]
    exact h
  · rw [ack_turn_window]
    exact h

theorem run_sizeOk {ok : Receiver → LoopAction → Prop} {buffer : Mem} {r : Receiver}
    (h : Reach (loop_step crc32) ok (.initial buffer) r) : SizeOk r.window :=
  h.invariant (P := fun r => SizeOk r.window) initial_sizeOk fun _ _ _ hsize _ => loop_step_sizeOk hsize

end Trtp
