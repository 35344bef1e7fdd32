import Trtp.Packet

/-!
# The wire format

`pkt_encode` and `pkt_decode` of `packet_implem.c`. `crc32` of zlib is a parameter. What it computes is `zlib_crc32`,
for the runs on fixed inputs and for the damage that it detects. Numbers in network byte order are big-endian. The
timestamp is copied as the host has it, here little-endian.
-/

open Trtp.Lib

namespace Trtp

/-! ## `crc32` of zlib -/

/-- The polynomial division by one byte, bit by bit. -/
def zlib_crc32_byte (crc : UInt32) (byte : UInt8) : UInt32 :=
  (List.range 8).foldl (fun crc _ => if crc &&& 1 = 1 then (crc >>> 1) ^^^ 0xEDB88320 else crc >>> 1)
    (crc ^^^ byte.toUInt32)

def zlib_crc32 (bytes : List UInt8) : UInt32 := bytes.foldl zlib_crc32_byte 0xFFFFFFFF ^^^ 0xFFFFFFFF

example : zlib_crc32 [0x31, 0x32, 0x33, 0x34, 0x35, 0x36, 0x37, 0x38, 0x39] = 0xCBF43926 := by decide +kernel

variable (crc32 : List UInt8 → UInt32)

/-! ## `pkt_encode` -/

/-- The length field, which only two of the types have. -/
def encode_length (pkt : Pkt) : List UInt8 :=
  match pkt.type with
  | .DATA => beBytes 2 pkt.length.toNat
  | .FEC => beBytes 2 MAX_PAYLOAD_SIZE
  | .ACK | .NACK => []

/-- The header as CRC1 covers it, with TR at 0. -/
def encode_header (pkt : Pkt) : List UInt8 :=
  ((UInt8.ofNat (pkt_get_type pkt).code <<< 6 + pkt_get_window pkt) &&& 0b11011111) ::
    (encode_length pkt ++ [pkt.seqnum] ++ (beBytes 4 pkt.timestamp.toNat).reverse)

/-- The payload and CRC2. -/
def encode_payload (pkt : Pkt) : List UInt8 :=
  if pkt.type = .DATA ∧ pkt.tr = 0 then
    let payload := readBuffer (pkt_get_payload pkt) pkt.length.toNat
    payload ++ beBytes 4 (crc32 payload).toNat
  else if pkt.type = .FEC then
    let payload := readBuffer (pkt_get_payload pkt) MAX_PAYLOAD_SIZE
    payload ++ beBytes 4 (crc32 payload).toNat
  else []

/-- Every byte that `pkt_encode` writes, in order. TR is added to the first byte after CRC1 is computed. -/
def pkt_bytes (pkt : Pkt) : List UInt8 :=
  let header := encode_header pkt
  header.modifyHead (· + pkt_get_tr pkt <<< 5) ++
    beBytes 4 (crc32 (header.take (predict_header_length pkt))).toNat ++ encode_payload crc32 pkt

/-- The size that `pkt_encode` asks for before it writes. -/
def encode_size (pkt : Pkt) : Nat :=
  let size := predict_header_length pkt
  let size :=
    if pkt.type = .DATA ∧ pkt_get_length pkt ≠ 0 then size + ((pkt_get_length pkt).toNat + 4)
    else if pkt.type = .FEC then size + (MAX_PAYLOAD_SIZE + 4)
    else size
  size + 4

/-- The status, the buffer and `*len`. -/
def pkt_encode (pkt : Pkt) (buf : Mem) (len : Nat) : PktStatus × Mem × Nat :=
  if encode_size pkt > len then (.E_NOMEM, buf, len)
  else (.PKT_OK, load (pkt_bytes crc32 pkt) buf, (pkt_bytes crc32 pkt).length)

/-! ## `pkt_decode` -/

/-- `if (error != PKT_OK) return error;` -/
def andThen (r : PktStatus × Pkt) (k : Pkt → PktStatus × Pkt) : PktStatus × Pkt :=
  if r.1 = .PKT_OK then k r.2 else r

/-- `(int)` of a `size_t`. -/
def toInt (n : UInt64) : Int := Int.bmod n.toNat (2 ^ 32)

/-- From the test on `ACK`, `NACK` and empty `DATA` to the end. -/
def decode_payload (data : Mem) (len : UInt64) (length : UInt16) (offset : Nat) (pkt : Pkt) : PktStatus × Pkt :=
  if pkt.type = .ACK ∨ pkt.type = .NACK ∨ (pkt.type = .DATA ∧ pkt.length = 0) then (.PKT_OK, pkt)
  else if MAX_PAYLOAD_SIZE + 32 < len.toNat then (.E_UNCONSISTENT, pkt)
  else
    andThen (pkt_set_payload pkt (fun i => data (offset + i)) length) fun pkt =>
    let offset := if pkt.type = .FEC then offset + MAX_PAYLOAD_SIZE else offset + length.toNat
    let crc2 := UInt32.ofNat (beVal (bytesAt data offset 4))
    andThen (pkt_set_crc2 pkt crc2) fun pkt =>
    if pkt.type = .FEC ∧ crc32 (readBuffer pkt.payload MAX_PAYLOAD_SIZE) ≠ crc2 then (.E_CRC, pkt)
    else if pkt.type = .DATA ∧ pkt.tr = 0 ∧ crc32 (readBuffer pkt.payload pkt.length.toNat) ≠ crc2 then
      (.E_CRC, pkt)
    else (.PKT_OK, pkt)

/-- From the sequence number to the test on CRC1. -/
def decode_crc1 (data : Mem) (len : UInt64) (length : UInt16) (offset : Nat) (pkt : Pkt) : PktStatus × Pkt :=
  andThen (pkt_set_seqnum pkt (data offset)) fun pkt =>
  andThen (pkt_set_timestamp pkt (UInt32.ofNat (beVal (bytesAt data (offset + 1) 4).reverse))) fun pkt =>
  let crc1 := UInt32.ofNat (beVal (bytesAt data (offset + 5) 4))
  andThen (pkt_set_crc1 pkt crc1) fun pkt =>
  let header_len := predict_header_length pkt
  if header_len > PKT_MAX_HEADERLEN then (.E_UNCONSISTENT, pkt)
  else
    let crc1_new := crc32 ((bytesAt data 0 header_len).modifyHead (· &&& 0b11011111))
    let pkt := (pkt_set_crc1 pkt crc1_new).2
    if crc1_new ≠ crc1 then (.E_CRC, pkt) else decode_payload crc32 data len length (offset + 9) pkt

/-- A failed `read` gives `-1` for `len`, which is `2^64 - 1` as a `size_t`. -/
def pkt_decode (data : Mem) (len : UInt64) (pkt : Pkt) : PktStatus × Pkt :=
  if len = 0 then (.E_UNCONSISTENT, pkt)
  else if len < 6 then (.E_NOHEADER, pkt)
  else if len < 10 then (.E_CRC, pkt)
  else
    andThen (pkt_set_type pkt (data 0 >>> 6).toNat) fun pkt =>
    andThen (pkt_set_tr pkt ((data 0 &&& 0b00100000) >>> 5)) fun pkt =>
    andThen (pkt_set_window pkt (data 0 &&& 0b00011111)) fun pkt =>
    if pkt.type = .DATA ∨ pkt.type = .FEC then
      let length := UInt16.ofNat (beVal (bytesAt data 1 2))
      andThen (pkt_set_length pkt length) fun pkt =>
      if (length.toNat : Int) + 32 < toInt len then (.E_UNCONSISTENT, pkt)
      else decode_crc1 crc32 data len length 3 pkt
    else decode_crc1 crc32 data len 0 1 pkt

/-! ## `read` -/

/-- `read(sfd, buffer, PKT_MAX_LEN)`: what it leaves in the buffer. -/
def readInto (bytes_read : Option (List UInt8)) (buffer : Mem) : Mem :=
  match bytes_read with
  | some d => load (d.take PKT_MAX_LEN) buffer
  | none => buffer

/-- Its result as a `size_t`. -/
def readLen (bytes_read : Option (List UInt8)) : UInt64 :=
  match bytes_read with
  | some d => UInt64.ofNat (d.take PKT_MAX_LEN).length
  | none => UInt64.ofNat (2 ^ 64 - 1)

end Trtp
