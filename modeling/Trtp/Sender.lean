import Trtp.Codec
import Trtp.Fec
import Trtp.Window

/-!
# The sender

`read_write_sender.c`: what `fill_window`, `send_final_pkt`, `resent_pkt` and the handling of a response do to the
state. What `pread`, `read`, `write` and the clock return is an argument.
-/

open Trtp.Lib

namespace Trtp

def TIMEOUT : Nat := 2000
def MAX_RESENT_LAST_PKT : Nat := 4

/-- A node of the list. `addr` tells it from the others. `index` is the chunk of the file that the packet was made
for. -/
structure Node where
  addr : Nat
  index : Nat
  pkt : Pkt

instance : Numbered Node where
  seqnumOf node := seqnumOf node.pkt
  isFinal node := isFinal node.pkt

/-- `fec_pkt_t`. The array has four entries: a store at 4 or more is outside it, and where it ends up is not in the
model (`Overruns`). An entry is the packet that was stored; the source has a pointer, which `update_window` may free. -/
structure FecPkt where
  pkts : Nat → Option Node
  i : UInt8

/-- The statistics that the code updates. The counters are `int`s there, and stay below 2^31. -/
structure SenderStats where
  data_sent : Nat
  fec_sent : Nat
  ack_received : Nat
  nack_received : Nat
  packet_ignored : Nat
  packet_retransmitted : Nat
  min_rtt : UInt32
  max_rtt : UInt32

/-- A datagram of the sender, with the chunk of the file that its packet was made for. A `FEC` packet has none. -/
structure Segment where
  chunk : Option Nat
  datagram : List UInt8
  deriving DecidableEq

/-- How the sender leaves its loop. -/
inductive Stop where
  | allAcked
  | noNews
  deriving DecidableEq

/-- The static variables and the window, with what went to the socket. -/
structure Sender where
  copybuf : Mem
  eof_reached : Bool
  lastPkt : Bool
  lastRst : Nat
  global_pkt : UInt64
  fec : FecPkt
  stats : SenderStats
  window : Window Node
  /-- The nodes allocated so far. -/
  allocated : Nat
  sent : List Segment
  stopped : Option Stop
  /-- A `pread` or a `write` has failed. -/
  io_error : Bool

/-- `copybuf` is not initialised. -/
def Sender.initial (copybuf : Mem) : Sender where
  copybuf
  eof_reached := false
  lastPkt := false
  lastRst := 0
  global_pkt := 0
  fec := ⟨fun _ => none, 0⟩
  stats := ⟨0, 0, 0, 0, 0, 0, UInt32.ofNat (2 ^ 32 - 1), 0⟩
  window := Window.initial
  allocated := 0
  sent := []
  stopped := none
  io_error := false

variable (crc32 : List UInt8 → UInt32)

/-- `MAX_PAYLOAD_SIZE*global_pkt` -/
def chunkOffset (global_pkt : UInt64) : UInt64 := UInt64.ofNat MAX_PAYLOAD_SIZE * global_pkt

/-- The chunk at this offset. -/
def chunkIndex (global_pkt : UInt64) : Nat := (chunkOffset global_pkt).toNat / MAX_PAYLOAD_SIZE

/-! ## `send_final_pkt` -/

/-- The packet that `send_final_pkt` fills in. What the setters return is not looked at. -/
def final_pkt (windowsize : Nat) (seqnum : UInt8) (time : UInt32) : Pkt :=
  let pkt := pkt_new
  let pkt := (pkt_set_type pkt PType.DATA.code).2
  let pkt := (pkt_set_tr pkt 0).2
  let pkt := (pkt_set_length pkt 0).2
  let pkt := (pkt_set_window pkt (UInt8.ofNat windowsize)).2
  let pkt := (pkt_set_seqnum pkt seqnum).2
  (pkt_set_timestamp pkt time).2

/-- A new node at the end of the list. -/
def Sender.add_node (s : Sender) (index : Nat) (pkt : Pkt) : Sender :=
  { s with
    window := { s.window with linkedList := linkedList_add_pkt s.window.linkedList ⟨s.allocated, index, pkt⟩ }
    allocated := s.allocated + 1 }

/-- `pkt_encode(pkt, copybuf, &len); write(sfd, copybuf, len);` -/
def Sender.write_pkt (s : Sender) (chunk : Option Nat) (pkt : Pkt) (write : Bool) : Sender :=
  let (_, copybuf, len) := pkt_encode crc32 pkt s.copybuf PKT_MAX_LEN
  if write then { s with copybuf, sent := s.sent ++ [⟨chunk, bytesAt copybuf 0 len⟩] }
  else { s with copybuf, io_error := true }

def send_final_pkt (s : Sender) (time : UInt32) (write : Bool) : Int × Sender :=
  let s := { s with window := { s.window with seqnumTail := s.window.seqnumTail + 1 } }
  let pkt := final_pkt s.window.windowsize s.window.seqnumTail time
  if (pkt_encode crc32 pkt s.copybuf PKT_MAX_LEN).1 ≠ .PKT_OK then (-1, s)
  else
    let s := s.write_pkt crc32 (some (chunkIndex s.global_pkt)) pkt write
    if write then
      let s := { s with stats := { s.stats with data_sent := s.stats.data_sent + 1 } }
      (0, { s.add_node (chunkIndex s.global_pkt) pkt with lastPkt := true })
    else (-1, s)

/-! ## `fill_window` -/

/-- What the environment does in one turn of the loop: `pread` at an offset, the clock and the two writes. -/
structure FillIO where
  pread : UInt64 → Option (List UInt8)
  time : UInt32
  write : Bool
  writeFec : Bool

/-- The packet that `fill_window` fills in. What the setters return is not looked at. -/
def data_pkt (windowsize : Nat) (seqnum : UInt8) (copybuf : Mem) (bytes_read : UInt16) (time : UInt32) : Pkt :=
  let pkt := pkt_new
  let pkt := (pkt_set_type pkt PType.DATA.code).2
  let pkt := (pkt_set_seqnum pkt seqnum).2
  let pkt := (pkt_set_window pkt (UInt8.ofNat windowsize)).2
  let pkt := (pkt_set_tr pkt 0).2
  let pkt := (pkt_set_payload pkt copybuf bytes_read).2
  (pkt_set_timestamp pkt time).2

/-- The part under `fec_enable`. False for a failed write, which leaves `fec->i` at 4: the next store is outside the
array. A freed entry, or a third packet without payload (a failed `pread`), reads here as it was made (`FecReadable`
in the runs that the source defines). -/
def fill_fec (s : Sender) (node : Node) (writeFec : Bool) : Bool × Sender :=
  let fec : FecPkt := ⟨Function.update s.fec.pkts s.fec.i.toNat (some node), s.fec.i + 1⟩
  let s := { s with fec }
  if fec.i = 4 then
    match fec.pkts 0, fec.pkts 1, fec.pkts 2, fec.pkts 3 with
    | some n0, some n1, some n2, some n3 =>
      let fec_pkt := fec_generation n0.pkt n1.pkt n2.pkt n3.pkt
      let s := s.write_pkt crc32 none fec_pkt writeFec
      if writeFec then
        (true, { s with
          stats := { s.stats with fec_sent := s.stats.fec_sent + 1 }
          fec := ⟨fec.pkts, 0⟩ })
      else (false, s)
    | _, _, _, _ => (true, s)
  else (true, s)

/-- What one turn of the loop comes to. -/
inductive FillTurn where
  | eof (s : Sender)
  | failed (s : Sender)
  | filled (s : Sender)

/-- The end of a turn. -/
def fill_count (s : Sender) (sendingSeqnum : UInt8) : Sender :=
  { s with
    window := { s.window with seqnumTail := sendingSeqnum }
    global_pkt := s.global_pkt + 1
    stats := { s.stats with data_sent := s.stats.data_sent + 1 } }

/-- `bytes_read` as the `uint16_t` that `pkt_set_payload` takes. -/
def readCount (bytes_read : Option (List UInt8)) : UInt16 :=
  match bytes_read with
  | some d => UInt16.ofNat d.length
  | none => UInt16.ofNat (2 ^ 16 - 1)

/-- A turn on what `pread` returned, which is not 0. -/
def fill_read (s : Sender) (bytes_read : Option (List UInt8)) (io : FillIO) (fec_enable : Bool) : FillTurn :=
  let sendingSeqnum := UInt8.ofNat (s.global_pkt.toNat % 256)
  let copybuf := load (bytes_read.getD []) s.copybuf
  let pkt := data_pkt s.window.windowsize sendingSeqnum copybuf (readCount bytes_read) io.time
  let s := { s with
    copybuf
    io_error := s.io_error || bytes_read.isNone
    window := { s.window with
      seqnumHead := if s.window.linkedList.isEmpty then sendingSeqnum else s.window.seqnumHead } }
  let node : Node := ⟨s.allocated, chunkIndex s.global_pkt, pkt⟩
  let s := (s.add_node (chunkIndex s.global_pkt) pkt).write_pkt crc32 (some (chunkIndex s.global_pkt)) pkt io.write
  if io.write then
    if fec_enable then
      match fill_fec crc32 s node io.writeFec with
      | (true, s) => .filled (fill_count s sendingSeqnum)
      | (false, s) => .failed s
    else .filled (fill_count s sendingSeqnum)
  else .failed s

def fill_turn (s : Sender) (io : FillIO) (fec_enable : Bool) : FillTurn :=
  match io.pread (chunkOffset s.global_pkt) with
  | some [] => .eof { s with eof_reached := true }
  | bytes_read => fill_read crc32 s bytes_read io fec_enable

/-- `io n` is the environment of the `n`-th turn, `room` bounds the turns. -/
def fill_loop (io : Nat → FillIO) (fec_enable : Bool) (room n_filled : Nat) (s : Sender) : Int × Sender :=
  match room with
  | 0 => (n_filled, s)
  | room + 1 =>
    if s.window.linkedList.length < s.window.windowsize ∧ s.eof_reached = false then
      match fill_turn crc32 s (io n_filled) fec_enable with
      | .eof s => (n_filled, s)
      | .failed s => (-1, s)
      | .filled s => fill_loop io fec_enable room (n_filled + 1) s
    else (n_filled, s)

/-- A turn that does not leave the loop adds a packet. -/
def fill_window (s : Sender) (io : Nat → FillIO) (fec_enable : Bool) : Int × Sender :=
  fill_loop crc32 io fec_enable (s.window.windowsize - s.window.linkedList.length) 0 s

/-! ## `resent_pkt` -/

/-- `io k` is the clock and the write of the `k`-th packet of the list. The list is given back with its new
timestamps. -/
def resent_loop (io : Nat → UInt32 × Bool) (list : List Node) (k nbr_resent : Nat) (s : Sender) :
    Int × List Node × Sender :=
  match list with
  | [] => (nbr_resent, [], s)
  | current :: next =>
    if ((io k).1 - pkt_get_timestamp current.pkt).toNat > TIMEOUT then
      let current := { current with pkt := (pkt_set_timestamp current.pkt (io k).1).2 }
      let s := s.write_pkt crc32 (some current.index) current.pkt (io k).2
      if (io k).2 then
        let s := { s with
          lastRst := if pkt_get_length current.pkt = 0 then s.lastRst + 1 else s.lastRst
          stats := { s.stats with packet_retransmitted := s.stats.packet_retransmitted + 1 } }
        let (retval, list, s) := resent_loop io next (k + 1) (nbr_resent + 1) s
        (retval, current :: list, s)
      else (-1, current :: next, s)
    else
      let (retval, list, s) := resent_loop io next (k + 1) nbr_resent s
      (retval, current :: list, s)

/-- On an empty list the source reads what a dangling `head` leads to. -/
def resent_pkt (s : Sender) (io : Nat → UInt32 × Bool) : Int × Sender :=
  let (retval, list, s) := resent_loop crc32 io s.window.linkedList 0 0 s
  (retval, { s with window := { s.window with linkedList := list } })

/-! ## The handling of a response -/

/-- `packet_ignored++` -/
def Sender.ignore (s : Sender) : Sender :=
  { s with stats := { s.stats with packet_ignored := s.stats.packet_ignored + 1 } }

/-- `stale` is the freed packet that `list->tail` designates when the list is empty. -/
def update_window (s : Sender) (newSize : UInt8) (stale : Pkt) : Int × Sender :=
  if newSize = 0 then (-1, s.ignore)
  else if newSize.toNat = s.window.windowsize then (0, s)
  else if newSize.toNat > s.window.windowsize then
    (1, { s with window := { s.window with windowsize := newSize.toNat } })
  else
    let window := shrink_window s.window newSize.toNat (pkt_get_seqnum stale)
    (2, { s with
      window
      global_pkt := s.global_pkt - UInt64.ofNat (s.window.linkedList.length - window.linkedList.length)
      eof_reached := false
      lastPkt := false
      lastRst := 0 })

/-- `fec->i = 0` and the round trip time of an acknowledged packet. -/
def Sender.take_rtt (s : Sender) (time : UInt32) (pkt : Pkt) : Sender :=
  let rtt := time - pkt_get_timestamp pkt
  { s with
    fec := ⟨s.fec.pkts, 0⟩
    stats := { s.stats with
      max_rtt := if rtt > s.stats.max_rtt then rtt else s.stats.max_rtt
      min_rtt := if rtt > s.stats.max_rtt then s.stats.min_rtt
        else if rtt < s.stats.min_rtt then rtt else s.stats.min_rtt } }

/-- The list is that of the window. -/
def ack_loop (ackSeqnum : UInt8) (time : UInt32) (list : List Node) (no_acked : Nat) (s : Sender) : Int × Sender :=
  match list with
  | [] => (no_acked, s)
  | current :: next =>
    if seqnum_in_window s.window ackSeqnum (seqnumOf current) then
      let s := s.take_rtt time current.pkt
      ack_loop ackSeqnum time next (no_acked + 1) { s with window := remove_acked s.window }
    else (no_acked, s)

/-- On an empty list the loop looks at the freed packet `stale`, removes nothing and returns. -/
def ack_window (s : Sender) (pkt : Pkt) (time : UInt32) (stale : Pkt) : Int × Sender :=
  let ackSeqnum := pkt_get_seqnum pkt
  if can_ack_window s.window ackSeqnum = false then (-1, s)
  else if s.window.linkedList.isEmpty then
    if seqnum_in_window s.window ackSeqnum (pkt_get_seqnum stale) then (1, s.take_rtt time stale) else (0, s)
  else ack_loop ackSeqnum time s.window.linkedList 0 s

/-- What the main loop does with a packet that is valid and not truncated. -/
def handle_packet (s : Sender) (pkt : Pkt) (time : UInt32) (stale : Pkt) : Sender :=
  let incomingSeqnum := pkt_get_seqnum pkt
  let s := (update_window s (pkt_get_window pkt) stale).2
  match pkt_get_type pkt with
  | .NACK =>
    if is_in_sender_window s.window incomingSeqnum = false then s.ignore
    else { s with stats := { s.stats with nack_received := s.stats.nack_received + 1 } }
  | .ACK =>
    let s := { s with stats := { s.stats with ack_received := s.stats.ack_received + 1 } }
    let (retval, s) := ack_window s pkt time stale
    let s := if retval = -1 then s.ignore else s
    if s.lastPkt ∧ s.window.linkedList.isEmpty then { s with stopped := some .allAcked } else s
  | .DATA | .FEC => s

/-- `bytes_read` is the datagram, or nothing for `-1`. -/
def handle_response (s : Sender) (bytes_read : Option (List UInt8)) (time : UInt32) (stale : Pkt) : Sender :=
  let s := { s with copybuf := readInto bytes_read s.copybuf }
  let (retval, pkt) := pkt_decode crc32 s.copybuf (readLen bytes_read) pkt_new
  let s := { s with lastRst := 0 }
  if retval = .PKT_OK ∧ pkt_get_tr pkt = 0 then handle_packet s pkt time stale else s.ignore

/-! ## The turns of the main loop -/

/-- The call of `fill_window`, where the main loop makes it. -/
def fill_step (s : Sender) (io : Nat → FillIO) (fec_enable : Bool) : Option Sender :=
  if s.stopped = none ∧ s.eof_reached = false ∧ s.window.linkedList.length < s.window.windowsize then
    some (fill_window crc32 s io fec_enable).2
  else none

/-- The call of `send_final_pkt`, where the main loop makes it. -/
def final_step (s : Sender) (time : UInt32) (write : Bool) : Option Sender :=
  if s.stopped = none ∧ s.lastPkt = false ∧ s.eof_reached = true ∧
      s.window.linkedList.length < s.window.windowsize then
    some (send_final_pkt crc32 { s with lastPkt := true } time write).2
  else none

/-- The call of `resent_pkt` and the test after it, on a list that is not empty. The main loop calls it on an empty
list only after a failed write of `send_final_pkt` (`Strays`). -/
def resent_step (s : Sender) (io : Nat → UInt32 × Bool) : Option Sender :=
  if s.stopped = none ∧ s.window.linkedList ≠ [] then
    let s := (resent_pkt crc32 s io).2
    some (if s.lastPkt ∧ s.lastRst > MAX_RESENT_LAST_PKT then { s with stopped := some .noNews } else s)
  else none

/-- The handling of one datagram. -/
def response_step (s : Sender) (bytes_read : Option (List UInt8)) (time : UInt32) (stale : Pkt) : Option Sender :=
  if s.stopped = none then some (handle_response crc32 s bytes_read time stale) else none

end Trtp
