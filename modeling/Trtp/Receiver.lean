import Trtp.Codec
import Trtp.Window

/-!
# The receiver

`read_write_receiver.c`: what `receive_data`, `flush_file` and `send_ack` do to the state. What `read` and `write`
return is an argument.
-/

open Trtp.Lib

namespace Trtp

/-- A datagram of the receiver. `consumed` is how many packets it had consumed when it sent this. -/
structure Response where
  consumed : Nat
  datagram : List UInt8
  deriving DecidableEq

/-- The statistics that the code updates. The counters are `int`s there, and stay below 2^31. -/
structure ReceiverStats where
  data_received : Nat
  data_truncated_received : Nat
  ack_sent : Nat
  nack_sent : Nat
  packet_ignored : Nat
  packet_duplicated : Nat

/-- The static variables and the window, with what went to the socket and to the output. -/
structure Receiver where
  buffer : Mem
  eof_reached : Bool
  eof_seqnum : UInt8
  lastTimestamp : UInt32
  resent_ack : Bool
  stats : ReceiverStats
  window : Window Pkt
  eof_wrote : Bool
  /-- How often `seqnumHead` has advanced: `seqnumHead` before it is cut to eight bits. -/
  consumed : Nat
  sent : List Response
  stdout : List (List UInt8)

/-- `buffer` is not initialised. -/
def Receiver.initial (buffer : Mem) : Receiver where
  buffer
  eof_reached := false
  eof_seqnum := 0
  lastTimestamp := 0
  resent_ack := true
  stats := ⟨0, 0, 0, 0, 0, 0⟩
  window := Window.initial
  eof_wrote := false
  consumed := 0
  sent := []
  stdout := []

variable (crc32 : List UInt8 → UInt32)

/-! ## Responses -/

/-- The packet that `send_response` fills in. -/
def response_pkt (type : PType) (seqnum : UInt8) (windowsize : Nat) (timestamp : UInt32) : PktStatus × Pkt :=
  andThen (pkt_set_type pkt_new type.code) fun pkt =>
  andThen (pkt_set_window pkt (UInt8.ofNat windowsize)) fun pkt =>
  andThen (pkt_set_seqnum pkt seqnum) fun pkt =>
  pkt_set_timestamp pkt timestamp

/-- `write` tells whether the write to the socket succeeds. -/
def send_response (r : Receiver) (type : PType) (seqnum : UInt8) (timestamp : UInt32) (write : Bool) :
    Bool × Receiver :=
  match response_pkt type seqnum r.window.windowsize timestamp with
  | (.PKT_OK, pkt) =>
    match pkt_encode crc32 pkt r.buffer PKT_MAX_LEN with
    | (.PKT_OK, buffer, len) =>
      if write then (true, { r with buffer, sent := r.sent ++ [⟨r.consumed, bytesAt buffer 0 len⟩] })
      else (false, { r with buffer })
    | (_, buffer, _) => (false, { r with buffer })
  | _ => (false, r)

/-- `decrease_window` with `eof_reached`. -/
def Receiver.decrease (r : Receiver) : Receiver :=
  { r with
    window := decrease_window r.window
    eof_reached := if r.window.windowsize > 4 then false else r.eof_reached }

/-- `data_truncated_received++; packet_ignored++;` -/
def Receiver.count_truncated (r : Receiver) : Receiver :=
  { r with stats := { r.stats with
      data_truncated_received := r.stats.data_truncated_received + 1
      packet_ignored := r.stats.packet_ignored + 1 } }

/-- `nack_sent++` -/
def Receiver.count_nack (r : Receiver) : Receiver :=
  { r with stats := { r.stats with nack_sent := r.stats.nack_sent + 1 } }

/-- `ack_sent++` -/
def Receiver.count_ack (r : Receiver) : Receiver :=
  { r with stats := { r.stats with ack_sent := r.stats.ack_sent + 1 } }

def send_troncated_nack (r : Receiver) (pkt : Pkt) (write : Bool) : Receiver :=
  match send_response crc32 r.count_truncated.decrease .NACK (pkt_get_seqnum pkt) (pkt_get_timestamp pkt) write with
  | (true, r) => r.count_nack
  | (false, r) => r

def send_ack (r : Receiver) (timestamp : UInt32) (write : Bool) : Receiver :=
  match send_response crc32 r .ACK r.window.seqnumHead timestamp write with
  | (true, r) => r.count_ack
  | (false, r) => r

/-! ## `receive_data` -/

/-- `packet_ignored++` -/
def Receiver.ignore (r : Receiver) : Receiver :=
  { r with stats := { r.stats with packet_ignored := r.stats.packet_ignored + 1 } }

/-- `is_in_window` counts what it turns away. -/
def Receiver.is_in_window (r : Receiver) (seqnum : UInt8) : Bool × Receiver :=
  if Trtp.is_in_window r.window seqnum then (true, r) else (false, r.ignore)

/-- A `DATA` packet in the window. -/
def store_data (r : Receiver) (pkt : Pkt) : Int × Receiver :=
  let seqnum := pkt_get_seqnum pkt
  let r := { r with stats := { r.stats with data_received := r.stats.data_received + 1 } }
  match linkedList_add_increasing r.window pkt with
  | some window =>
    let r := { r with window }
    let r := if pkt_get_length pkt = 0 then { r with eof_reached := true, eof_seqnum := seqnum } else r
    if r.window.seqnumHead = seqnum then
      (0, { r with window := increase_window r.window, resent_ack := false })
    else (0, { r with resent_ack := true })
  | none =>
    (-1, { r with
      stats := { r.stats with packet_duplicated := r.stats.packet_duplicated + 1 }
      resent_ack := true })

/-- The `switch` on the type. Behind the `if (1)` of `FEC` nothing is reachable. -/
def receive_valid (r : Receiver) (pkt : Pkt) (write : Bool) : Int × Receiver :=
  match pkt_get_type pkt with
  | .DATA =>
    if pkt_get_tr pkt ≠ 0 then (0, send_troncated_nack crc32 r pkt write)
    else
      match r.is_in_window (pkt_get_seqnum pkt) with
      | (true, r) => store_data r pkt
      | (false, r) => (0, { r with resent_ack := true })
  | .FEC => (-1, r.ignore)
  | .ACK | .NACK => (0, r.ignore)

/-- The receiver once `read` has filled its buffer. -/
def Receiver.read (r : Receiver) (bytes_read : Option (List UInt8)) : Receiver :=
  { r with buffer := readInto bytes_read r.buffer }

/-- `receive_data` from the tests on `retval` on. -/
def receive_decoded (r : Receiver) (retval : PktStatus) (pkt : Pkt) (write : Bool) : Int × Receiver :=
  if retval = .E_CRC then
    if pkt_get_type pkt = .DATA ∧ pkt_get_tr pkt = 1 then
      match r.is_in_window (pkt_get_seqnum pkt) with
      | (true, r) => (0, send_troncated_nack crc32 r pkt write)
      | (false, r) => (-1, r.ignore)
    else (-1, r.ignore)
  else if retval ≠ .PKT_OK then (-1, r.ignore)
  else receive_valid crc32 r pkt write

/-- `bytes_read` is the datagram, or nothing for `-1`. -/
def receive_data (r : Receiver) (bytes_read : Option (List UInt8)) (write : Bool) : Int × Receiver :=
  let r := r.read bytes_read
  let (retval, pkt) := pkt_decode crc32 r.buffer (readLen bytes_read) pkt_new
  receive_decoded crc32 r retval pkt write

/-! ## `flush_file` -/

/-- The first packet has gone to the output. -/
def flush_one (r : Receiver) (current : Pkt) (next : List Pkt) (written : List UInt8) : Receiver :=
  { r with
    window := flushed r.window next
    lastTimestamp := pkt_get_timestamp current
    consumed := r.consumed + 1
    stdout := r.stdout ++ [written] }

/-- `wr n` is what the `n`-th write of the call returns: how many bytes it wrote, or nothing for `-1`. The list is
that of the window, `packet_write` the packets written so far. -/
def flush_loop (wr : Nat → Option Nat) (list : List Pkt) (packet_write : Nat) (r : Receiver) : Int × Receiver :=
  match list with
  | [] => (packet_write, { r with resent_ack := true })
  | current :: next =>
    if r.window.seqnumHead ≠ pkt_get_seqnum current then (packet_write, r)
    else if pkt_get_length current = 0 then
      (-1, { r with
        lastTimestamp := pkt_get_timestamp current
        window := { r.window with seqnumHead := r.window.seqnumHead + 1 }
        consumed := r.consumed + 1 })
    else
      match wr packet_write with
      | none => (-1, r)
      | some n =>
        let payload := readBuffer (pkt_get_payload current) (pkt_get_length current).toNat
        flush_loop wr next (packet_write + 1) (flush_one r current next (payload.take n))

def flush_file (r : Receiver) (wr : Nat → Option Nat) : Int × Receiver :=
  if r.window.linkedList.isEmpty then (0, { r with resent_ack := true })
  else flush_loop wr r.window.linkedList 0 r

/-- `flush_file` as the main loop calls it: at the end it sends the last `ACK` and leaves the loop. -/
def flush_turn (r : Receiver) (wr : Nat → Option Nat) (write : Bool) : Receiver :=
  match flush_file r wr with
  | (retval, r) =>
    if retval = -1 then
      let r := { r with eof_wrote := true }
      send_ack crc32 r r.lastTimestamp write
    else r

end Trtp
