import Trtp.Codec.Burst
import Trtp.Receiver.Exposed
import Trtp.Receiver.Response
import Trtp.Sender.Wire

/-!
# Damaged datagrams

Where `crc32` detects a few damaged bytes in a row, as that of zlib does, they cost the datagram, in both directions.
The type and TR are not protected as the other bytes are: the type decides where CRC1 is, and CRC1 does not cover TR.
-/

open Trtp.Lib

namespace Trtp

/-! ## What CRC1 and CRC2 detect -/

/-- CRC1 covers the bytes of the header as they are, where TR is 0. -/
theorem headerCrc_plain (crc32 : List UInt8 → UInt32) {data : Mem} (htr : hdrTr data = 0) :
    headerCrc crc32 data = crc32 (bytesAt data 0 (seqOffset (hdrType data) + 5)) := by
  have hall : ∀ b : BitVec 8, ((b &&& 0b00100000) >>> 5).setWidth 1 = 0#1 → b &&& 0b11011111 = b := by decide
  have hclear : data 0 &&& 0b11011111 = data 0 := UInt8.eq_of_toBitVec_eq (hall (data 0).toBitVec htr)
  rw [headerCrc, bytesAt_succ, List.modifyHead_cons, hclear]

section BurstAt

variable {crc32 : List UInt8 → UInt32} (hdetects : DetectsBursts crc32) {lo up : Nat} {m m' : Mem}
  (h : BurstAt lo up m m') (hi : Intact crc32 m)
include hdetects h hi

/-- Damage to the header or to CRC1, where the type does not move CRC1. -/
theorem BurstAt.header (htr : hdrTr m = 0) (htr' : hdrTr m' = 0)
    (hoff : seqOffset (hdrType m') = seqOffset (hdrType m))
    (hside : up ≤ seqOffset (hdrType m) + 5 ∨ seqOffset (hdrType m) + 5 ≤ lo) (hup : up ≤ seqOffset (hdrType m) + 9) :
    ¬ Intact crc32 m' := by
  intro hi'
  have hcrc := hi.crc1
  have hcrc' := hi'.crc1
  rw [headerCrc_plain _ htr] at hcrc
  rw [headerCrc_plain _ htr', hoff] at hcrc'
  rcases hside with hhead | hhead
  · have hsame : hdrCrc1 m' = hdrCrc1 m := by
      unfold hdrCrc1
      rw [hoff, h.bytesAt_same (Or.inr hhead)]
    exact h.crc32_ne hdetects (Nat.zero_le _) (by omega) (hcrc'.trans (hsame.trans hcrc.symm))
  · have hsame : bytesAt m' 0 (seqOffset (hdrType m) + 5) = bytesAt m 0 (seqOffset (hdrType m) + 5) :=
      h.bytesAt_same (Or.inl (by omega))
    have hone := (crc1_bytes crc32 m).mp hi.crc1.symm
    have hone' := (crc1_bytes crc32 m').mp hi'.crc1.symm
    rw [headerCrc_plain _ htr] at hone
    rw [headerCrc_plain _ htr', hoff, hsame] at hone'
    exact h.bytesAt_ne hhead (by omega) (hone'.trans hone.symm)

/-- Damage to the payload or to CRC2. -/
theorem BurstAt.payload (hdata : hdrType m = .DATA) (hlen : hdrLength m ≠ 0) (hlo : 12 ≤ lo)
    (hside : up ≤ 12 + (hdrLength m).toNat ∨ 12 + (hdrLength m).toNat ≤ lo) (hup : up ≤ 16 + (hdrLength m).toNat) :
    ¬ Intact crc32 m' := by
  intro hi'
  have hP : hdrPkt crc32 m = hdrPkt crc32 m' := hdrPkt_congr _ fun i hlt => (h.outside i (by omega)).symm
  have hdata' : hdrType m' = .DATA := (type_of_hdrPkt hP).symm.trans hdata
  have hfull : ¬ HeaderOnly m := not_headerOnly_of_data hdata hlen
  have hcrc := (hi.payload hfull).2.2
  have hcrc' := (hi'.payload fun hho => hfull ((headerOnly_of_hdrPkt hP).mpr hho)).2.2
  have hlength : payloadLength m = (hdrLength m).toNat := payloadLength_data hdata
  have hlength' : payloadLength m' = (hdrLength m).toNat := by rw [payloadLength_data hdata', ← length_of_hdrPkt hP]
  rcases hside with hpay | hpay
  · have hsame : hdrCrc2 m' = hdrCrc2 m := by
      unfold hdrCrc2
      rw [hlength, hlength', h.bytesAt_same (Or.inr hpay)]
    rw [hsame, ← hcrc, payloadAt, payloadAt, hlength, hlength'] at hcrc'
    exact h.crc32_ne hdetects hlo hpay hcrc'
  · have hsame : bytesAt m' 12 (hdrLength m).toNat = bytesAt m 12 (hdrLength m).toNat := h.bytesAt_same (Or.inl hpay)
    have htwo := (crc2_bytes crc32 m).mp hcrc.symm
    have htwo' := (crc2_bytes crc32 m').mp hcrc'.symm
    rw [payloadAt, hlength] at htwo
    rw [payloadAt, hlength', hsame] at htwo'
    exact h.bytesAt_ne hpay (by omega) (htwo'.trans htwo.symm)

end BurstAt

/-! ## At the receiver -/

/-- A datagram that is no valid `DATA` packet with TR at 0, and has TR at 0. -/
theorem receive_data_refused (crc32 : List UInt8 → UInt32) {r : Receiver} {bytes_read : Option (List UInt8)}
    (write : Bool) (htr : hdrTr (r.read bytes_read).buffer = 0)
    (hdata : hdrType (r.read bytes_read).buffer = .DATA → ¬ Intact crc32 (r.read bytes_read).buffer) :
    (receive_data crc32 r bytes_read write).2 = (r.read bytes_read).ignore := by
  by_cases hvalid : Intact crc32 (r.read bytes_read).buffer ∧ LenTests (r.read bytes_read).buffer (readLen bytes_read)
  · obtain ⟨htype, _⟩ := accepted_header crc32 (r.read bytes_read).buffer
    rw [receive_data_valid crc32 write hvalid.1 hvalid.2, receive_valid, pkt_get_type, htype]
    cases ht : hdrType (r.read bytes_read).buffer with
    | DATA => exact absurd hvalid.1 (hdata ht)
    | FEC => rfl
    | ACK => rfl
    | NACK => rfl
  · rw [receive_data_ignored crc32 write hvalid fun htrunc => by
      have hone := htrunc.tr
      rw [htr] at hone
      exact absurd hone (by decide)]

/-- A datagram of the sender as it is read. -/
structure Arrives (crc32 : List UInt8 → UInt32) (d : List UInt8) (buffer : Mem) : Prop where
  intact : Intact crc32 (readInto (some d) buffer)
  lenTests : LenTests (readInto (some d) buffer) (readLen (some d))
  tr : hdrTr (readInto (some d) buffer) = 0
  type : (hdrType (readInto (some d) buffer)).hasLength
  size : d.length ≤ PKT_MAX_LEN
  length : hdrType (readInto (some d) buffer) = .DATA → d.length = 16 + (hdrLength (readInto (some d) buffer)).toNat

theorem Encodes.arrives {crc32 : List UInt8 → UInt32} {segment : Segment} {pkt : Pkt} (h : Encodes crc32 segment pkt)
    (buffer : Mem) : Arrives crc32 segment.datagram buffer := by
  obtain ⟨chunk, datagram⟩ := segment
  obtain ⟨rfl, hpkt⟩ := h
  have hstarts := load_starts (pkt_bytes crc32 pkt) buffer
  cases chunk with
  | none =>
    have hf : FullFec pkt := hpkt
    have hsize : (pkt_bytes crc32 pkt).length ≤ PKT_MAX_LEN := hf.pkt_bytes_length.le
    obtain ⟨hread, hlen⟩ := readInto_whole hsize buffer
    have htype := (hdrType_bytes hstarts).trans hf.type
    rw [← hread] at hstarts htype
    refine ⟨hf.intact hstarts, hlen ▸ hf.lenTests hstarts, (hdrTr_bytes hstarts).trans hf.tr, Or.inr htype, hsize, ?_⟩
    intro hdata
    exact absurd (htype.symm.trans hdata) (by decide)
  | some index =>
    have ho : Outgoing index pkt := hpkt
    have hsize : (pkt_bytes crc32 pkt).length ≤ PKT_MAX_LEN := ho.sendable.pkt_bytes_le
    obtain ⟨hread, hlen⟩ := readInto_whole hsize buffer
    have htype := (hdrType_bytes hstarts).trans ho.type
    rw [← hread] at hstarts htype
    refine ⟨ho.sendable.intact hstarts, hlen ▸ ho.sendable.lenTests hstarts,
      (hdrTr_bytes hstarts).trans ho.sendable.tr, Or.inl htype, hsize, fun _ => ?_⟩
    rw [ho.sendable.hdrLength hstarts, ho.sendable.pkt_bytes_length, if_pos ho.type]

/-- A damaged datagram is taken for a `DATA` packet only where the damage is in what `pkt_decode` does not look at. -/
theorem Arrives.damaged {crc32 : List UInt8 → UInt32} {d d' : List UInt8} {buffer : Mem} {lo up : Nat}
    (h : Arrives crc32 d buffer) (hdetects : DetectsBursts crc32) (hburst : Burst [8, 12, d.length - 4] lo up d d')
    (htr : hdrTr (readInto (some d') buffer) = 0) (hdata : hdrType (readInto (some d') buffer) = .DATA)
    (hi : Intact crc32 (readInto (some d') buffer)) : d.length = 16 ∧ 12 ≤ lo := by
  have hat := hburst.read h.size buffer
  have h8 : 8 ≤ lo ∨ up ≤ 8 := hburst.borders 8 (by simp)
  have h12 : 12 ≤ lo ∨ up ≤ 12 := hburst.borders 12 (by simp)
  have hend : d.length - 4 ≤ lo ∨ up ≤ d.length - 4 := hburst.borders (d.length - 4) (by simp)
  have hup := hburst.within
  have hoff : seqOffset (hdrType (readInto (some d) buffer)) = 3 := if_pos h.type
  have hoff' : seqOffset (hdrType (readInto (some d') buffer)) = 3 := if_pos (Or.inl hdata)
  have hlo : 12 ≤ lo := by
    by_contra hlt
    exact hat.header hdetects h.intact h.tr htr (hoff'.trans hoff.symm) (by omega) (by omega) hi
  have hsame : hdrType (readInto (some d') buffer) = hdrType (readInto (some d) buffer) := by
    unfold hdrType
    rw [hat.outside 0 (Or.inl (by omega))]
  have htype := hsame.symm.trans hdata
  have hlen := h.length htype
  refine ⟨?_, hlo⟩
  by_contra hne
  refine hat.payload hdetects h.intact htype (fun hzero => hne ?_) hlo (by omega) (by omega) hi
  rw [hlen, hzero]
  rfl

/-- Only CRC2 of an empty packet is not looked at. -/
theorem Arrives.same {crc32 : List UInt8 → UInt32} {d d' : List UInt8} {buffer : Mem} {lo up : Nat}
    (h : Arrives crc32 d buffer) (hburst : Burst [8, 12, d.length - 4] lo up d d') (hlo : 12 ≤ lo)
    (hlen : d.length = 16) (hdata : hdrType (readInto (some d') buffer) = .DATA)
    (hi : Intact crc32 (readInto (some d') buffer)) :
    pkt_decode crc32 (readInto (some d') buffer) (readLen (some d')) pkt_new =
      pkt_decode crc32 (readInto (some d) buffer) (readLen (some d)) pkt_new := by
  have hat := hburst.read h.size buffer
  have hP : hdrPkt crc32 (readInto (some d) buffer) = hdrPkt crc32 (readInto (some d') buffer) :=
    hdrPkt_congr _ fun i hlt => (hat.outside i (Or.inl (by omega))).symm
  have hread : readLen (some d') = readLen (some d) := by
    simp only [readLen, List.length_take, hburst.length]
  have htype : hdrType (readInto (some d) buffer) = .DATA := (type_of_hdrPkt hP).trans hdata
  have hzero : hdrLength (readInto (some d) buffer) = 0 := by
    have hsum := h.length htype
    exact UInt16.toNat_inj.mp (by rw [UInt16.toNat_zero]; omega)
  have hempty : HeaderOnly (readInto (some d) buffer) := Or.inr (Or.inr ⟨htype, hzero⟩)
  rw [hread, pkt_decode_of_tests _ hi (lenTests_of_hdrPkt hP h.lenTests), pkt_decode_of_tests _ h.intact h.lenTests,
    accepted_of_hdrPkt hP fun hfull => absurd hempty hfull]

/-- The receiver ignores a damaged datagram, or takes it for the packet that it was. -/
theorem Encodes.damaged {crc32 : List UInt8 → UInt32} {segment : Segment} {pkt : Pkt} (h : Encodes crc32 segment pkt)
    (hdetects : DetectsBursts crc32) {lo up : Nat} {d' : List UInt8}
    (hburst : Burst [8, 12, segment.datagram.length - 4] lo up segment.datagram d')
    (htr : ∀ b ∈ d'.head?, b &&& 0b00100000 = 0) (r : Receiver) (write : Bool) :
    (receive_data crc32 r (some d') write).2 = (r.read (some d')).ignore ∨
      (segment.datagram.length = 16 ∧ 12 ≤ lo ∧
        pkt_decode crc32 (readInto (some d') r.buffer) (readLen (some d')) pkt_new =
          pkt_decode crc32 (readInto (some segment.datagram) r.buffer) (readLen (some segment.datagram))
            pkt_new) := by
  have harrives := h.arrives r.buffer
  have htr' : hdrTr (readInto (some d') r.buffer) = 0 := by
    cases d' with
    | nil => exact absurd (List.length_eq_zero_iff.mp hburst.length.symm).symm hburst.damage
    | cons b rest =>
      have hbit : b &&& 0b00100000 = 0 := htr b rfl
      change ((b &&& 0b00100000) >>> 5).toBitVec.setWidth 1 = 0#1
      rw [hbit]
      rfl
  by_cases htaken : hdrType (readInto (some d') r.buffer) = .DATA ∧ Intact crc32 (readInto (some d') r.buffer)
  · obtain ⟨hlen, hlo⟩ := harrives.damaged hdetects hburst htr' htaken.1 htaken.2
    exact Or.inr ⟨hlen, hlo, harrives.same hburst hlo hlen htaken.1 htaken.2⟩
  · exact Or.inl (receive_data_refused crc32 write htr' fun hdata hi => htaken ⟨hdata, hi⟩)

/-- At most four bytes in a row of what the sender sent are damaged, in the header, in CRC1, in the payload or in CRC2,
and TR is not set. The receiver ignores the datagram, or takes it for the packet that it was. -/
theorem damaged_segment {crc32 : List UInt8 → UInt32} (hdetects : DetectsBursts crc32) {copybuf : Mem} {s : Sender}
    (h : Reach (call_step crc32) (fun _ _ => True) (.initial copybuf) s) {segment : Segment}
    (hmem : segment ∈ s.sent) {lo up : Nat} {d' : List UInt8}
    (hburst : Burst [8, 12, segment.datagram.length - 4] lo up segment.datagram d')
    (htr : ∀ b ∈ d'.head?, b &&& 0b00100000 = 0) (r : Receiver) (write : Bool) :
    (receive_data crc32 r (some d') write).2 = (r.read (some d')).ignore ∨
      (segment.datagram.length = 16 ∧ 12 ≤ lo ∧
        pkt_decode crc32 (readInto (some d') r.buffer) (readLen (some d')) pkt_new =
          pkt_decode crc32 (readInto (some segment.datagram) r.buffer) (readLen (some segment.datagram))
            pkt_new) := by
  obtain ⟨pkt, hpkt⟩ := (emitting_run h).sent segment hmem
  exact hpkt.damaged hdetects hburst htr r write

/-- The only byte of a packet is damaged. -/
theorem damaged_segment_byte :
    ∃ s segment, Reach (call_step zlib_crc32) (fun _ _ => True) (.initial fun _ => 0) s ∧ segment ∈ s.sent ∧
      segment.datagram = [65, 0, 1, 0, 0, 0, 0, 0, 75, 73, 206, 191, 7, 76, 102, 122, 46] ∧
      ∀ (r : Receiver) (write : Bool), (receive_data zlib_crc32 r (some (segment.datagram.set 12 8)) write).2 =
        (r.read (some (segment.datagram.set 12 8))).ignore := by
  have hsome : (call_step zlib_crc32 (.initial fun _ => 0) (.fill ⟨fun _ => some [7], 0, true, true⟩ false)).map
      (·.sent.map Segment.datagram) = some [[65, 0, 1, 0, 0, 0, 0, 0, 75, 73, 206, 191, 7, 76, 102, 122, 46]] := by
    decide +kernel
  obtain ⟨s, hs, hsent⟩ := Option.map_eq_some_iff.mp hsome
  obtain ⟨segment, hsegment, hd⟩ := List.map_eq_singleton_iff.mp hsent
  have hreach : Reach (call_step zlib_crc32) (fun _ _ => True) (.initial fun _ => 0) s := .next .start trivial hs
  have hmem : segment ∈ s.sent := by
    rw [hsegment]
    exact List.mem_singleton_self segment
  have hburst : Burst [8, 12, segment.datagram.length - 4] 12 13 segment.datagram (segment.datagram.set 12 8) := by
    rw [hd]
    exact .one_byte _ (by decide) (by decide)
  refine ⟨s, segment, hreach, hmem, hd, fun r write => ?_⟩
  refine (damaged_segment zlib_crc32_detects hreach hmem hburst ?_ r write).resolve_right fun hempty => ?_
  · rw [hd]
    intro b hb
    rw [← Option.some.inj hb]
    rfl
  · rw [hd] at hempty
    exact absurd hempty.1 (by decide)

/-! ## At the sender -/

/-- The first bit of the type tells `ACK` and `NACK` from the types with a length field. -/
theorem not_hasLength_of_bit {data : Mem} (h : data 0 &&& 0b10000000 ≠ 0) : ¬ (hdrType data).hasLength := by
  have hall : ∀ b : BitVec 8, b &&& 0b10000000 ≠ 0 → 128 ≤ b.toNat := by decide
  have hcode := hdrType_toNat data
  have hbit := hall (data 0).toBitVec fun hzero => h (UInt8.eq_of_toBitVec_eq hzero)
  rw [UInt8.toNat_toBitVec] at hbit
  rintro (ht | ht)
  · rw [ht, PType.code] at hcode
    omega
  · rw [ht, PType.code] at hcode
    omega

/-- The sender ignores a damaged packet without a length field. -/
theorem Sendable.damaged {crc32 : List UInt8 → UInt32} (hdetects : DetectsBursts crc32) {pkt : Pkt} (hs : Sendable pkt)
    (hnot : ¬ pkt.type.hasLength) {lo up : Nat} {d' : List UInt8} (hburst : Burst [6] lo up (pkt_bytes crc32 pkt) d')
    (htype : ∀ b ∈ d'.head?, b &&& 0b10000000 ≠ 0) (s : Sender) : Trtp.incoming crc32 s (some d') = none := by
  have hlen : (pkt_bytes crc32 pkt).length = 10 := by
    rw [hs.pkt_bytes_length, if_neg fun hdata => hnot (Or.inl hdata)]
  have hat := hburst.read (by rw [hlen]; decide) s.copybuf
  obtain ⟨hi, _, hr⟩ := hs.received s.copybuf
  obtain ⟨htype₀, htr₀, _⟩ := accepted_header crc32 (readInto (some (pkt_bytes crc32 pkt)) s.copybuf)
  have htr : hdrTr (readInto (some (pkt_bytes crc32 pkt)) s.copybuf) = 0 := htr₀.symm.trans (hr.tr.trans hs.tr)
  have hshort : ¬ (hdrType (readInto (some (pkt_bytes crc32 pkt)) s.copybuf)).hasLength := by
    rw [← htype₀, hr.type]
    exact hnot
  have hshort' : ¬ (hdrType (readInto (some d') s.copybuf)).hasLength := by
    cases d' with
    | nil => exact absurd (List.length_eq_zero_iff.mp hburst.length.symm).symm hburst.damage
    | cons b rest => exact not_hasLength_of_bit (htype b rfl)
  have hoff : seqOffset (hdrType (readInto (some (pkt_bytes crc32 pkt)) s.copybuf)) = 1 := if_neg hshort
  have hoff' : seqOffset (hdrType (readInto (some d') s.copybuf)) = 1 := if_neg hshort'
  have hborder : 6 ≤ lo ∨ up ≤ 6 := hburst.borders 6 (by simp)
  have hup := hburst.within
  refine if_neg fun hok => ?_
  obtain ⟨hi', _⟩ := tests_of_pkt_decode crc32 hok.1
  rcases hdrTr_cases (readInto (some d') s.copybuf) with htr' | htr'
  · exact hat.header hdetects hi htr htr' (hoff'.trans hoff.symm) (by omega) (by omega) hi'
  · exact hshort' (Or.inl (hi'.tr htr'))

theorem response_not_hasLength (ack : Bool) : ¬ (if ack then PType.ACK else .NACK).hasLength := by
  cases ack <;> decide

/-- At most four bytes in a row of a response are damaged, in the header or in CRC1, and it is not taken for `DATA` or
`FEC`. The sender ignores it. -/
theorem damaged_response {crc32 : List UInt8 → UInt32} (hdetects : DetectsBursts crc32) {buffer : Mem} {r : Receiver}
    (h : Reach (loop_step crc32) (fun _ _ => True) (.initial buffer) r) {response : Response}
    (hmem : response ∈ r.sent) {lo up : Nat} {d' : List UInt8} (hburst : Burst [6] lo up response.datagram d')
    (htype : ∀ b ∈ d'.head?, b &&& 0b10000000 ≠ 0) (s : Sender) : incoming crc32 s (some d') = none := by
  obtain ⟨_, pkt, hpkt⟩ := (answering_run h).sound response hmem
  rw [hpkt.datagram] at hburst
  exact hpkt.sendable.damaged hdetects (hpkt.type ▸ response_not_hasLength _) hburst htype s

/-- The sequence number of the first `ACK` is damaged. -/
theorem damaged_response_byte :
    ∃ r response, Reach (loop_step zlib_crc32) (fun _ _ => True) (.initial fun _ => 0) r ∧ response ∈ r.sent ∧
      response.datagram = [129, 0, 0, 0, 0, 0, 100, 46, 102, 222] ∧
      ∀ s : Sender, incoming zlib_crc32 s (some (response.datagram.set 1 1)) = none := by
  have hsome : (loop_step zlib_crc32 (.initial fun _ => 0) (.ack true)).map (·.sent.map Response.datagram) =
      some [[129, 0, 0, 0, 0, 0, 100, 46, 102, 222]] := by decide +kernel
  obtain ⟨r, hr, hsent⟩ := Option.map_eq_some_iff.mp hsome
  obtain ⟨response, hresponse, hd⟩ := List.map_eq_singleton_iff.mp hsent
  have hreach : Reach (loop_step zlib_crc32) (fun _ _ => True) (.initial fun _ => 0) r := .next .start trivial hr
  have hmem : response ∈ r.sent := by
    rw [hresponse]
    exact List.mem_singleton_self response
  have hburst : Burst [6] 1 2 response.datagram (response.datagram.set 1 1) := by
    rw [hd]
    exact .one_byte _ (by decide) (by decide)
  refine ⟨r, response, hreach, hmem, hd, damaged_response zlib_crc32_detects hreach hmem hburst ?_⟩
  rw [hd]
  intro b hb
  rw [← Option.some.inj hb]
  decide

end Trtp
