import Trtp.Packet

/-!
# Forward error correction

`fec_generation` of `fec.c`.
-/

open Trtp.Lib

namespace Trtp

/-- `(i < length) ? payload[i] : 0`. Past the end of the payload the C code reads whatever is there, here zero. -/
def fec_byte (length : UInt16) (payload : Option (List UInt8)) (i : Nat) : UInt8 :=
  if i < length.toNat then (payload.getD []).getD i 0 else 0

/-- The fourth byte comes from the third payload, as in the source. -/
def xor_payload (pkt1 pkt2 pkt3 pkt4 : Pkt) (i : Nat) : UInt8 :=
  fec_byte (pkt_get_length pkt1) (pkt_get_payload pkt1) i ^^^
    fec_byte (pkt_get_length pkt2) (pkt_get_payload pkt2) i ^^^
    fec_byte (pkt_get_length pkt3) (pkt_get_payload pkt3) i ^^^
    fec_byte (pkt_get_length pkt4) (pkt_get_payload pkt3) i

def xor_length (pkt1 pkt2 pkt3 pkt4 : Pkt) : UInt16 :=
  pkt_get_length pkt1 ^^^ pkt_get_length pkt2 ^^^ pkt_get_length pkt3 ^^^ pkt_get_length pkt4

/-- The setters may refuse: what they return is not looked at. -/
def fec_generation (pkt1 pkt2 pkt3 pkt4 : Pkt) : Pkt :=
  let fec_pkt := pkt_new
  let fec_pkt := (pkt_set_length fec_pkt (xor_length pkt1 pkt2 pkt3 pkt4)).2
  let fec_pkt := (pkt_set_payload fec_pkt (xor_payload pkt1 pkt2 pkt3 pkt4) (UInt16.ofNat MAX_PAYLOAD_SIZE)).2
  (pkt_set_seqnum fec_pkt (pkt_get_seqnum pkt1)).2

theorem fec_generation_type (pkt1 pkt2 pkt3 pkt4 : Pkt) : (fec_generation pkt1 pkt2 pkt3 pkt4).type = .FEC := by
  have hlen : ∀ length, (pkt_set_length pkt_new length).2.type = .FEC := by
    intro length
    unfold pkt_set_length
    split <;> rfl
  have hpay : ∀ (pkt : Pkt) (data : Mem) (length : UInt16), pkt.type = .FEC →
      (pkt_set_payload pkt data length).2.type = .FEC := by
    intro pkt data length ht
    simp [pkt_set_payload, ht]
  exact hpay _ _ _ (hlen _)

end Trtp
