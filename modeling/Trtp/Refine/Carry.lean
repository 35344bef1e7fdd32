import Trtp.Network
import Trtp.Codec.RoundTrip
import Trtp.Protocol.Receiver
import Trtp.Window.Rel

/-!
# Packets and what they stand for

A packet of the code carries an item of the protocol: a chunk of the file, or the final packet. A response carries a
reply.
-/

open Trtp.Lib

namespace Trtp

open Protocol (Item Reply)

variable (crc32 : List UInt8 → UInt32) (file : List UInt8)

/-! ## Packets -/

/-- What the receiver writes for it. -/
def itemBytes : Item → List UInt8
  | .chunk k => fileChunk file k
  | .final _ _ => []

/-- The packet is the `DATA` packet for the item. -/
structure Carries (pkt : Pkt) (x : Item) : Prop where
  sendable : Sendable pkt
  type : pkt.type = .DATA
  seqnum : pkt.seqnum = seqnumOf x
  payload : payloadBytes pkt = itemBytes file x
  inFile : ∀ k, x = .chunk k → k < chunkCount file

theorem Carries.length {file : List UInt8} {pkt : Pkt} {x : Item} (h : Carries file pkt x) :
    pkt.length.toNat = (itemBytes file x).length := by
  rw [← h.payload, h.sendable.payloadBytes_length h.type]

theorem Carries.final {file : List UInt8} {pkt : Pkt} {x : Item} (h : Carries file pkt x) :
    isFinal pkt = isFinal x := by
  have hlen := h.length
  have hzero : pkt.length = 0 ↔ itemBytes file x = [] := by
    rw [← List.length_eq_zero_iff, ← hlen, ← UInt16.toNat_inj]
    rfl
  cases x with
  | chunk k =>
    have hne : fileChunk file k ≠ [] := by
      rw [ne_eq, fileChunk_eq_nil_iff]
      have := h.inFile k rfl
      omega
    have hpos : pkt.length ≠ 0 := fun h0 => hne (hzero.mp h0)
    simp [isFinal, pkt_get_length, hpos]
  | final k seqnum =>
    have h0 : pkt.length = 0 := hzero.mpr rfl
    simp [isFinal, pkt_get_length, h0]

theorem carries_alike : Alike (Carries file) := ⟨fun h => h.seqnum, fun h => h.final⟩

theorem Carries.restores {file : List UInt8} {pkt pkt' : Pkt} {x : Item} (h : Carries file pkt x)
    (hr : Restores pkt' pkt) : Carries file pkt' x := by
  have htype : pkt'.type = .DATA := hr.type.trans h.type
  have htr : pkt'.tr = 0 := hr.tr.trans h.sendable.tr
  refine ⟨⟨htr, by rw [htype]; decide, fun _ => ?_, fun hne => absurd htype hne⟩, htype, hr.seqnum.trans h.seqnum,
    hr.payload.trans h.payload, h.inFile⟩
  have hpay := hr.payload
  rw [payloadBytes, pkt_get_payload_data htype htr] at hpay
  rw [hpay, hr.length, h.sendable.payloadBytes_length h.type]
  exact ⟨(h.sendable.data h.type).1, rfl⟩

theorem Carries.retime {file : List UInt8} {pkt : Pkt} {x : Item} (h : Carries file pkt x) (time : UInt32) :
    Carries file (pkt_set_timestamp pkt time).2 x :=
  ⟨⟨h.sendable.tr, h.sendable.type, h.sendable.data, h.sendable.empty⟩, h.type, h.seqnum, h.payload, h.inFile⟩

/-! ## Nodes, segments and responses -/

structure NodeCarries (node : Node) (x : Item) : Prop where
  pkt : Carries file node.pkt x
  index : node.index = x.index

theorem nodeCarries_alike : Alike (NodeCarries file) := ⟨fun h => h.pkt.seqnum, fun h => h.pkt.final⟩

/-- The segment is the datagram of a packet for the item. -/
def SegmentCarries (segment : Segment) (x : Item) : Prop :=
  segment.chunk = some x.index ∧ ∃ pkt, Carries file pkt x ∧ segment.datagram = pkt_bytes crc32 pkt

/-- The segment is a `FEC` packet. -/
def FecSegment (segment : Segment) : Prop :=
  segment.chunk = none ∧ ∃ pkt : Pkt, pkt.type = .FEC ∧ segment.datagram = pkt_bytes crc32 pkt

/-- The segments are `FEC` packets and those of the items. -/
structure SegmentsCarry (segments : List Segment) (items : List Item) : Prop where
  item : ∀ segment ∈ segments, FecSegment crc32 segment ∨ ∃ x ∈ items, SegmentCarries crc32 file segment x
  segment : ∀ x ∈ items, ∃ segment ∈ segments, SegmentCarries crc32 file segment x

/-- The response is the datagram of the reply. -/
def ResponseCarries (response : Response) (q : Reply) : Prop :=
  response.consumed = q.consumed ∧ ∃ pkt : Pkt, response.datagram = pkt_bytes crc32 pkt ∧ Sendable pkt ∧
    pkt.type = (if q.ack then .ACK else .NACK) ∧ pkt.seqnum = q.seqnum ∧ pkt.window.toNat = q.window

structure ResponsesCarry (responses : List Response) (replies : List Reply) : Prop where
  reply : ∀ response ∈ responses, ∃ q ∈ replies, ResponseCarries crc32 response q
  response : ∀ q ∈ replies, ∃ response ∈ responses, ResponseCarries crc32 response q

variable {crc32 file}

theorem SegmentsCarry.add {segments : List Segment} {items : List Item} (h : SegmentsCarry crc32 file segments items)
    {segment : Segment} {x : Item} (hx : SegmentCarries crc32 file segment x) :
    SegmentsCarry crc32 file (segments ++ [segment]) (x :: items) := by
  constructor
  · intro t ht
    rcases List.mem_append.mp ht with hmem | hmem
    · rcases h.item t hmem with hfec | ⟨y, hy, hc⟩
      · exact Or.inl hfec
      · exact Or.inr ⟨y, List.mem_cons_of_mem x hy, hc⟩
    · rw [List.mem_singleton.mp hmem]
      exact Or.inr ⟨x, List.mem_cons_self, hx⟩
  · intro y hy
    rcases List.mem_cons.mp hy with rfl | hmem
    · exact ⟨segment, by simp, hx⟩
    · obtain ⟨t, ht, hc⟩ := h.segment y hmem
      exact ⟨t, List.mem_append_left _ ht, hc⟩

theorem SegmentsCarry.again {segments : List Segment} {items : List Item}
    (h : SegmentsCarry crc32 file segments items) {segment : Segment}
    (hs : FecSegment crc32 segment ∨ ∃ x ∈ items, SegmentCarries crc32 file segment x) :
    SegmentsCarry crc32 file (segments ++ [segment]) items := by
  constructor
  · intro t ht
    rcases List.mem_append.mp ht with hmem | hmem
    · exact h.item t hmem
    · rw [List.mem_singleton.mp hmem]
      exact hs
  · intro y hy
    obtain ⟨t, ht, hc⟩ := h.segment y hy
    exact ⟨t, List.mem_append_left _ ht, hc⟩

theorem ResponsesCarry.add {responses : List Response} {replies : List Reply}
    (h : ResponsesCarry crc32 responses replies) {response : Response} {q : Reply}
    (hq : ResponseCarries crc32 response q) : ResponsesCarry crc32 (responses ++ [response]) (q :: replies) := by
  constructor
  · intro t ht
    rcases List.mem_append.mp ht with hmem | hmem
    · obtain ⟨y, hy, hc⟩ := h.reply t hmem
      exact ⟨y, List.mem_cons_of_mem q hy, hc⟩
    · rw [List.mem_singleton.mp hmem]
      exact ⟨q, List.mem_cons_self, hq⟩
  · intro y hy
    rcases List.mem_cons.mp hy with rfl | hmem
    · exact ⟨response, by simp, hq⟩
    · obtain ⟨t, ht, hc⟩ := h.response y hmem
      exact ⟨t, List.mem_append_left _ ht, hc⟩

/-! ## On the wire -/

theorem Sendable.pkt_bytes_le {pkt : Pkt} (hs : Sendable pkt) : (pkt_bytes crc32 pkt).length ≤ PKT_MAX_LEN := by
  rw [hs.pkt_bytes_length]
  split
  · rename_i ht
    have := (hs.data ht).1
    unfold MAX_PAYLOAD_SIZE at this
    rw [PKT_MAX_LEN]
    omega
  · decide

theorem readInto_whole {d : List UInt8} (h : d.length ≤ PKT_MAX_LEN) (buffer : Mem) :
    readInto (some d) buffer = load d buffer ∧ readLen (some d) = UInt64.ofNat d.length := by
  rw [readInto, readLen, List.take_of_length_le h]
  exact ⟨rfl, rfl⟩

theorem Sendable.received {pkt : Pkt} (hs : Sendable pkt) (buffer : Mem) :
    Intact crc32 (readInto (some (pkt_bytes crc32 pkt)) buffer) ∧
      LenTests (readInto (some (pkt_bytes crc32 pkt)) buffer) (readLen (some (pkt_bytes crc32 pkt))) ∧
      Restores (accepted crc32 (readInto (some (pkt_bytes crc32 pkt)) buffer)) pkt := by
  obtain ⟨hread, hlen⟩ := readInto_whole (hs.pkt_bytes_le) buffer
  have hstarts := load_starts (pkt_bytes crc32 pkt) buffer
  rw [hread, hlen]
  exact ⟨hs.intact hstarts, hs.lenTests hstarts, hs.restores hstarts⟩

theorem Sendable.incoming {pkt : Pkt} (hs : Sendable pkt) (crc32 : List UInt8 → UInt32) (s : Sender) :
    ∃ pkt', incoming crc32 s (some (pkt_bytes crc32 pkt)) = some pkt' ∧ Restores pkt' pkt := by
  obtain ⟨hi, hl, hr⟩ := hs.received s.copybuf
  refine ⟨_, ?_, hr⟩
  have htr : pkt_get_tr (accepted crc32 (readInto (some (pkt_bytes crc32 pkt)) s.copybuf)) = 0 :=
    (pkt_get_tr_eq_zero _).mpr (hr.tr.trans hs.tr)
  simp only [Trtp.incoming, pkt_decode_of_tests crc32 hi hl, htr, and_self, if_true]

theorem SegmentCarries.fields {segment : Segment} {x : Item} (h : SegmentCarries crc32 file segment x) :
    hdrType (load segment.datagram fun _ => 0) = .DATA ∧
      hdrSeqnum (load segment.datagram fun _ => 0) = seqnumOf x ∧
      (hdrLength (load segment.datagram fun _ => 0)).toNat = (itemBytes file x).length ∧
      bytesAt (load segment.datagram fun _ => 0) 12 (hdrLength (load segment.datagram fun _ => 0)).toNat =
        itemBytes file x := by
  obtain ⟨_, pkt, hc, hd⟩ := h
  have hstarts := load_starts (pkt_bytes crc32 pkt) fun _ => 0
  rw [hd]
  have htype : hdrType (load (pkt_bytes crc32 pkt) fun _ => 0) = .DATA := (hdrType_bytes hstarts).trans hc.type
  have hpay := hc.sendable.payloadAt hstarts hc.type
  rw [payloadAt, payloadLength_data htype] at hpay
  exact ⟨htype, (hdrSeqnum_bytes hstarts).trans hc.seqnum,
    by rw [hdrLength_bytes hstarts hc.type, hc.length], hpay.trans hc.payload⟩

theorem FecSegment.type {segment : Segment} (h : FecSegment crc32 segment) :
    hdrType (load segment.datagram fun _ => 0) = .FEC := by
  obtain ⟨_, pkt, hfec, hd⟩ := h
  rw [hd, hdrType_bytes (load_starts (pkt_bytes crc32 pkt) fun _ => 0), hfec]

end Trtp
