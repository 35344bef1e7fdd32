import Trtp.File
import Trtp.Receiver
import Trtp.Sender

/-!
# The two programs and the network

One sender and one receiver, with a network that may lose, duplicate, delay, reorder, truncate and corrupt what they
send. `pread` gives the bytes of a file, and the writes succeed in full.
-/

open Trtp.Lib

namespace Trtp

variable (crc32 : List UInt8 → UInt32) (file : List UInt8)

/-! ## The sender -/

/-- The steps of the sender's loop, with the clock. `bytes_read` is any datagram, or nothing for `-1`. -/
inductive SenderAction where
  | fill (time : Nat → UInt32) (fec_enable : Bool)
  | final (time : UInt32)
  | resend (time : Nat → UInt32)
  | response (bytes_read : Option (List UInt8)) (time : UInt32) (stale : Pkt)

def fileCalls (time : Nat → UInt32) (n : Nat) : FillIO := ⟨filePread file, time n, true, true⟩

/-- A step in which `pread` does not fail. -/
def sender_step (s : Sender) : SenderAction → Option Sender
  | .fill time fec_enable => (fill_step crc32 s (fileCalls file time) fec_enable).filter fun s => !s.io_error
  | .final time => final_step crc32 s time true
  | .resend time => resent_step crc32 s fun k => (time k, true)
  | .response bytes_read time stale => response_step crc32 s bytes_read time stale

/-- The packet that the sender makes of a datagram, if it does not ignore it. -/
def incoming (s : Sender) (bytes_read : Option (List UInt8)) : Option Pkt :=
  let (retval, pkt) := pkt_decode crc32 (readInto bytes_read s.copybuf) (readLen bytes_read) pkt_new
  if retval = .PKT_OK ∧ pkt_get_tr pkt = 0 then some pkt else none

/-! ## Both -/

structure System where
  snd : Sender
  rcv : Receiver
  /-- For each `ACK` that the sender has processed, how many packets the receiver had consumed when it sent it. -/
  acked : List Nat

/-- The buffers are not initialised. -/
def System.initial (copybuf buffer : Mem) : System := ⟨.initial copybuf, .initial buffer, []⟩

/-- The header and CRC1, with TR at 1. -/
def truncate (datagram : List UInt8) : List UInt8 := (datagram.take PKT_MAX_HEADERLEN).modifyHead (· ||| 0b00100000)

/-- The writes of `flush_file` take the whole payload of each packet. -/
def fullWrites (r : Receiver) (n : Nat) : Option Nat :=
  r.window.linkedList[n]?.map fun pkt => (pkt_get_length pkt).toNat

/-- The steps of the two loops, and what the network brings. -/
inductive Event where
  | fill (time : Nat → UInt32) (fec_enable : Bool)
  | final (time : UInt32)
  | resend (time : Nat → UInt32)
  | response (reply : Response) (time : UInt32) (stale : Pkt)
  | badResponse (datagram : List UInt8) (time : UInt32) (stale : Pkt)
  | data (segment : Segment)
  | truncated (segment : Segment)
  | corrupted (datagram : List UInt8)
  | flush
  | ack

/-- The sender's part of an event. -/
def Event.snd : Event → Option SenderAction
  | .fill time fec_enable => some (.fill time fec_enable)
  | .final time => some (.final time)
  | .resend time => some (.resend time)
  | .response reply time stale => some (.response (some reply.datagram) time stale)
  | .badResponse datagram time stale => some (.response (some datagram) time stale)
  | _ => none

/-- What the network brings of its own accord does not decode. -/
def Rejected (buffer : Mem) (datagram : List UInt8) : Prop :=
  (pkt_decode crc32 (readInto (some datagram) buffer) (readLen (some datagram)) pkt_new).1 ≠ .PKT_OK

instance (buffer : Mem) (datagram : List UInt8) : Decidable (Rejected crc32 buffer datagram) :=
  inferInstanceAs (Decidable (_ ≠ _))

/-- The sender handles a response that the receiver has sent, or something corrupted. -/
def sender_event (s : System) (e : Event) : Option System :=
  match e with
  | .response reply time stale =>
    if reply ∈ s.rcv.sent then
      (sender_step crc32 file s.snd (.response (some reply.datagram) time stale)).map fun snd =>
        { s with
          snd
          acked :=
            if (incoming crc32 s.snd (some reply.datagram)).any (pkt_get_type · = .ACK) then
              reply.consumed :: s.acked
            else s.acked }
    else none
  | .badResponse datagram time stale =>
    if Rejected crc32 s.snd.copybuf datagram then
      (sender_step crc32 file s.snd (.response (some datagram) time stale)).map fun snd => { s with snd }
    else none
  | e => e.snd.bind fun a => (sender_step crc32 file s.snd a).map fun snd => { s with snd }

/-- The receiver handles a segment that the sender has sent, whole or truncated, or something corrupted. Here it may
send an `ACK` at any time; the program waits for `resent_ack` (`poll_step`). -/
def receiver_event (s : System) (e : Event) : Option System :=
  if s.rcv.eof_wrote then none
  else
    match e with
    | .data segment =>
      if segment ∈ s.snd.sent then
        some { s with rcv := (receive_data crc32 s.rcv (some segment.datagram) true).2 }
      else none
    | .truncated segment =>
      if segment ∈ s.snd.sent then
        some { s with rcv := (receive_data crc32 s.rcv (some (truncate segment.datagram)) true).2 }
      else none
    | .corrupted datagram =>
      if Rejected crc32 s.rcv.buffer datagram then
        some { s with rcv := (receive_data crc32 s.rcv (some datagram) true).2 }
      else none
    | .flush => some { s with rcv := flush_turn crc32 s.rcv (fullWrites s.rcv) true }
    | .ack => some { s with rcv := { send_ack crc32 s.rcv s.rcv.lastTimestamp true with resent_ack := false } }
    | _ => none

def system_step (s : System) (e : Event) : Option System :=
  if e.snd.isSome then sender_event crc32 file s e else receiver_event crc32 s e

end Trtp
