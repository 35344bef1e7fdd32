import Trtp.Lib.Bytes

/-!
# Packets

`struct pkt` of `packet_implem.c` with its getters and setters. A setter gives back its status and the packet,
changed or not.
-/

open Trtp.Lib

namespace Trtp

def MAX_PAYLOAD_SIZE : Nat := 512
def MAX_WINDOW_SIZE : Nat := 31
def PKT_MAX_LEN : Nat := 528

/-- `offsetof(pkt_t, payload)` of the packed struct. -/
def PKT_MAX_HEADERLEN : Nat := 12

/-- `ptypes_t`. -/
inductive PType where
  | FEC
  | DATA
  | ACK
  | NACK
  deriving DecidableEq, Repr

def PType.code : PType → Nat
  | .FEC => 0
  | .DATA => 1
  | .ACK => 2
  | .NACK => 3

def PType.ofCode : Nat → Option PType
  | 0 => some .FEC
  | 1 => some .DATA
  | 2 => some .ACK
  | 3 => some .NACK
  | _ => none

/-- `pkt_status_code`. -/
inductive PktStatus where
  | PKT_OK
  | E_TYPE
  | E_TR
  | E_LENGTH
  | E_CRC
  | E_WINDOW
  | E_SEQNUM
  | E_NOMEM
  | E_NOHEADER
  | E_UNCONSISTENT
  deriving DecidableEq, Repr

/-- `struct pkt`. The bit-fields keep their width, and `payload` is what the pointer designates, if it is
not `NULL`. -/
structure Pkt where
  type : PType
  tr : BitVec 1
  window : BitVec 5
  length : UInt16
  seqnum : UInt8
  timestamp : UInt32
  crc1 : UInt32
  payload : Option (List UInt8)
  crc2 : UInt32
  deriving DecidableEq, Repr

def pkt_new : Pkt where
  type := .FEC
  tr := 0
  window := 0
  length := 0
  seqnum := 0
  timestamp := 0
  crc1 := 0
  payload := none
  crc2 := 0

/-! ## Getters -/

def pkt_get_type (pkt : Pkt) : PType := pkt.type
def pkt_get_tr (pkt : Pkt) : UInt8 := ⟨pkt.tr.setWidth 8⟩
def pkt_get_window (pkt : Pkt) : UInt8 := ⟨pkt.window.setWidth 8⟩
def pkt_get_seqnum (pkt : Pkt) : UInt8 := pkt.seqnum
def pkt_get_length (pkt : Pkt) : UInt16 := pkt.length
def pkt_get_timestamp (pkt : Pkt) : UInt32 := pkt.timestamp

def pkt_get_payload (pkt : Pkt) : Option (List UInt8) :=
  if (pkt.type = .DATA ∧ pkt.tr = 0) ∨ pkt.type = .FEC then pkt.payload else none

/-! ## Setters -/

def pkt_set_type (pkt : Pkt) (type : Nat) : PktStatus × Pkt :=
  match PType.ofCode type with
  | none => (.E_TYPE, pkt)
  | some type => (.PKT_OK, { pkt with type })

def pkt_set_tr (pkt : Pkt) (tr : UInt8) : PktStatus × Pkt :=
  if tr ≠ 0 ∧ tr ≠ 1 then (.E_TR, pkt)
  else if tr = 1 ∧ pkt.type ≠ .DATA then (.E_TR, pkt)
  else (.PKT_OK, { pkt with tr := tr.toBitVec.setWidth 1 })

def pkt_set_window (pkt : Pkt) (window : UInt8) : PktStatus × Pkt :=
  if window.toNat > MAX_WINDOW_SIZE then (.E_WINDOW, pkt)
  else (.PKT_OK, { pkt with window := window.toBitVec.setWidth 5 })

def pkt_set_seqnum (pkt : Pkt) (seqnum : UInt8) : PktStatus × Pkt := (.PKT_OK, { pkt with seqnum })

def pkt_set_length (pkt : Pkt) (length : UInt16) : PktStatus × Pkt :=
  if (pkt.type ≠ .DATA ∧ pkt.type ≠ .FEC) ∨ length.toNat > MAX_PAYLOAD_SIZE then (.E_LENGTH, pkt)
  else (.PKT_OK, { pkt with length })

def pkt_set_timestamp (pkt : Pkt) (timestamp : UInt32) : PktStatus × Pkt := (.PKT_OK, { pkt with timestamp })

def pkt_set_crc1 (pkt : Pkt) (crc1 : UInt32) : PktStatus × Pkt := (.PKT_OK, { pkt with crc1 })

def pkt_set_crc2 (pkt : Pkt) (crc2 : UInt32) : PktStatus × Pkt :=
  if pkt.length = 0 ∨ pkt.tr = 1 then (.E_CRC, pkt) else (.PKT_OK, { pkt with crc2 })

/-- The allocations succeed. Freeing the old buffer has no effect on the value of the packet. -/
def pkt_set_payload (pkt : Pkt) (data : Mem) (length : UInt16) : PktStatus × Pkt :=
  if pkt.type = .DATA then
    match pkt_set_length pkt length with
    | (.PKT_OK, pkt) =>
      if length = 0 then (.PKT_OK, pkt)
      else (.PKT_OK, { pkt with payload := some (bytesAt data 0 length.toNat) })
    | (_, pkt) => (.E_LENGTH, pkt)
  else if pkt.type = .FEC then (.PKT_OK, { pkt with payload := some (bytesAt data 0 MAX_PAYLOAD_SIZE) })
  else (.PKT_OK, pkt)

/-- `-1` of the C code is a type outside `ptypes_t`, which the packet cannot have. -/
def predict_header_length (pkt : Pkt) : Nat :=
  match pkt_get_type pkt with
  | .DATA | .FEC => 8
  | .ACK | .NACK => 6

/-! ## What the setters do -/

@[simp] theorem PType.ofCode_code (t : PType) : PType.ofCode t.code = some t := by cases t <;> rfl

@[simp] theorem pkt_get_tr_eq_zero (pkt : Pkt) : pkt_get_tr pkt = 0 ↔ pkt.tr = 0 := by
  have hall : ∀ tr : BitVec 1, UInt8.ofBitVec (tr.setWidth 8) = 0 ↔ tr = 0 := by decide
  exact hall pkt.tr

theorem tr_cases (pkt : Pkt) : pkt.tr = 0 ∨ pkt.tr = 1 := by
  have hall : ∀ tr : BitVec 1, tr = 0 ∨ tr = 1 := by decide
  exact hall pkt.tr

@[simp] theorem pkt_get_window_toNat (pkt : Pkt) : (pkt_get_window pkt).toNat = pkt.window.toNat := by
  have := pkt.window.isLt
  simp only [pkt_get_window, UInt8.toNat_ofBitVec, BitVec.toNat_setWidth]
  omega

theorem pkt_get_window_le (pkt : Pkt) : (pkt_get_window pkt).toNat ≤ MAX_WINDOW_SIZE := by
  have := pkt.window.isLt
  rw [pkt_get_window_toNat, MAX_WINDOW_SIZE]
  omega

theorem pkt_get_payload_data {pkt : Pkt} (ht : pkt.type = .DATA) (htr : pkt.tr = 0) :
    pkt_get_payload pkt = pkt.payload := by
  simp [pkt_get_payload, ht, htr]

theorem pkt_set_type_code (pkt : Pkt) (type : PType) : (pkt_set_type pkt type.code).2 = { pkt with type } := by
  simp [pkt_set_type]

theorem pkt_set_tr_zero (pkt : Pkt) : (pkt_set_tr pkt 0).2 = { pkt with tr := 0 } := rfl

theorem pkt_set_window_snd (pkt : Pkt) (window : UInt8) :
    (pkt_set_window pkt window).2 =
      { pkt with
        window := if window.toNat > MAX_WINDOW_SIZE then pkt.window else window.toBitVec.setWidth 5 } := by
  unfold pkt_set_window
  split <;> rfl

theorem pkt_set_length_data {pkt : Pkt} {length : UInt16} (ht : pkt.type = .DATA)
    (hle : length.toNat ≤ MAX_PAYLOAD_SIZE) : pkt_set_length pkt length = (.PKT_OK, { pkt with length }) := by
  have hnot : ¬ length.toNat > MAX_PAYLOAD_SIZE := by omega
  simp [pkt_set_length, ht, hnot]

theorem pkt_set_payload_data {pkt : Pkt} {data : Mem} {length : UInt16} (ht : pkt.type = .DATA)
    (hle : length.toNat ≤ MAX_PAYLOAD_SIZE) (hne : length ≠ 0) :
    (pkt_set_payload pkt data length).2 = { pkt with length, payload := some (bytesAt data 0 length.toNat) } := by
  rw [pkt_set_payload, if_pos ht, pkt_set_length_data ht hle]
  simp only [hne, if_false]

/-- A packet of the given payload, numbered `seqnum`. -/
def dataPkt (seqnum : UInt8) (payload : List UInt8) : Pkt :=
  { pkt_new with type := .DATA, length := UInt16.ofNat payload.length, seqnum, payload := some payload }

end Trtp
