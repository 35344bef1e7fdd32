import Trtp.Refine.Conditions
import Trtp.Protocol.Contiguity

/-!
# The sender over a run

What it sends, and what its list holds, for any file and any datagrams that come in.
-/

open Trtp.Lib

namespace Trtp

open Protocol (Item Shrinks EndsInData DropsData KeepsNumbers KeepsCount)

variable {crc32 : List UInt8 → UInt32} {file : List UInt8}

/-! ## The numbers -/

/-- A `DATA` datagram has the number and the bytes of a chunk of the file, or no bytes and the number after the
last. -/
def WellNumbered (file : List UInt8) (datagram : List UInt8) : Prop :=
  let data := load datagram fun _ => 0
  hdrType data = .DATA →
    (hdrLength data ≠ 0 → ∃ k < chunkCount file,
      hdrSeqnum data = serial k ∧ bytesAt data 12 (hdrLength data).toNat = fileChunk file k) ∧
    (hdrLength data = 0 → hdrSeqnum data = serial (chunkCount file))

theorem SegmentCarries.wellNumbered {segment : Segment} {x : Item} (h : SegmentCarries crc32 file segment x)
    (hgood : Protocol.Good (chunkCount file) x) : WellNumbered file segment.datagram := by
  obtain ⟨_, hseq, hlen, hbytes⟩ := h.fields
  intro _
  cases x with
  | chunk k =>
    have hne : fileChunk file k ≠ [] := by
      have hk : k < chunkCount file := hgood
      rw [ne_eq, fileChunk_eq_nil_iff]
      omega
    refine ⟨fun _ => ⟨k, hgood, hseq, hbytes⟩, fun hzero => ?_⟩
    rw [hzero] at hlen
    exact absurd (List.length_eq_zero_iff.mp hlen.symm) hne
  | final k seqnum =>
    refine ⟨fun hne => ?_, fun _ => hseq.trans hgood.2⟩
    exact absurd (UInt16.toNat_inj.mp hlen) hne

theorem SegmentCarries.not_wellNumbered {segment : Segment} {k : Nat} {seqnum : UInt8}
    (h : SegmentCarries crc32 file segment (.final k seqnum)) (hne : seqnum ≠ serial (chunkCount file)) :
    ¬ WellNumbered file segment.datagram := by
  obtain ⟨htype, hseq, hlen, _⟩ := h.fields
  intro hw
  exact hne (hseq.symm.trans ((hw htype).2 (UInt16.toNat_inj.mp hlen)))

theorem sized_keepsNumbers {s : Sender} {t : Protocol.Sender} (h : SenderRel crc32 file s t) {a : SenderAction}
    {b : Protocol.SenderAction} (hab : a.toProtocol crc32 s = some b) :
    Sized crc32 EndsInData s a ↔ KeepsNumbers t b := by
  rw [sized_iff (fun h => h.endsInData (nodeCarries_alike file)) h hab]
  cases b <;> exact Iff.rfl

theorem chunkCount_pos (hfile : file ≠ []) : 1 ≤ chunkCount file := by
  have := List.length_pos_iff.mpr hfile
  rw [chunkCount, MAX_PAYLOAD_SIZE]
  omega

/-- All that is sent has its number, for a file that is not empty, as long as each shrink leaves a packet with data
at the end of the list. -/
theorem sender_numbering {copybuf : Mem} {s : Sender} (hfile : file ≠ [])
    (h : Reach (sender_step crc32 file) (Sized crc32 EndsInData) (.initial copybuf) s) :
    ∀ segment ∈ s.sent, WellNumbered file segment.datagram := by
  obtain ⟨t, hrel, hreach⟩ := sender_run (fun s t a b hrel ha hab => (sized_keepsNumbers hrel hab).mp ha) h
  have hnum : Protocol.Numbering (chunkCount file) t :=
    hreach.invariant (Protocol.numbering_initial (chunkCount_pos hfile)) fun _ _ _ => Protocol.step_numbering
  intro segment hmem
  rcases hrel.sent.item segment hmem with hfec | ⟨x, hx, hc⟩
  · intro htype
    rw [hfec.type] at htype
    contradiction
  · exact hc.wellNumbered (hnum.sent x hx)

/-- The window grows, the byte of the file is sent, and the final packet. -/
theorem sender_numbering_one_byte :
    ∃ s, Reach (sender_step zlib_crc32 [7]) (Sized zlib_crc32 EndsInData) (.initial fun _ => 0) s ∧ s.sent ≠ [] ∧
      ∀ segment ∈ s.sent, WellNumbered [7] segment.datagram := by
  generalize zlib_crc32 = crc32
  have hrun : (run (Protocol.Sender.step (chunkCount [7])) KeepsNumbers [.respond false 0 2 0, .fill, .final]
      .initial).any (fun t => decide (Item.final 1 1 ∈ t.sent)) = true := by decide
  obtain ⟨t, hreach, ht⟩ := reach_of_run hrun
  obtain ⟨s, hrel, hs⟩ := sender_run_of_protocol
    (fun s t a b hrel hb hab => (sized_keepsNumbers hrel hab).mpr hb) (fun _ => 0) hreach
  obtain ⟨segment, hmem, _⟩ := hrel.sent.segment _ (of_decide_eq_true ht)
  exact ⟨s, hs, List.ne_nil_of_mem hmem, sender_numbering (by decide) hs⟩

/-- The final packet of the empty file has the number 1. -/
theorem empty_file_misnumbered :
    ∃ s, Reach (sender_step zlib_crc32 []) (fun _ _ => True) (.initial fun _ => 0) s ∧
      ∃ segment ∈ s.sent, ¬ WellNumbered [] segment.datagram := by
  generalize zlib_crc32 = crc32
  have hrun : (run (Protocol.Sender.step (chunkCount [])) (fun _ _ => True) [.fill, .final] .initial).any
      (fun t => decide (Item.final 0 1 ∈ t.sent)) = true := by decide
  obtain ⟨t, hreach, ht⟩ := reach_of_run hrun
  obtain ⟨s, hrel, hs⟩ := sender_run_of_protocol (fun _ _ _ _ _ _ _ => trivial) (fun _ => 0) hreach
  obtain ⟨segment, hmem, hc⟩ := hrel.sent.segment _ (of_decide_eq_true ht)
  exact ⟨s, hs, segment, hmem, hc.not_wellNumbered (by decide)⟩

/-! ## The list -/

/-- The node has the `DATA` packet of chunk `k`. -/
structure IsChunk (file : List UInt8) (node : Node) (k : Nat) : Prop where
  type : node.pkt.type = .DATA
  seqnum : node.pkt.seqnum = serial k
  inFile : k < chunkCount file
  payload : payloadBytes node.pkt = fileChunk file k

/-- The packets of the list that have data. -/
def dataNodes (s : Sender) : List Node := s.window.linkedList.filter fun node => !isFinal node

/-- They are the last chunks that were read, and `seqnumTail` is the number of the last packet. -/
structure InOrder (file : List UInt8) (s : Sender) : Prop where
  le : (dataNodes s).length ≤ s.global_pkt.toNat
  data : List.Forall₂ (IsChunk file) (dataNodes s)
    (List.range' (s.global_pkt.toNat - (dataNodes s).length) (dataNodes s).length)
  tail : ∀ node, s.window.linkedList.getLast? = some node → pkt_get_seqnum node.pkt = s.window.seqnumTail

theorem NodeCarries.isChunk {node : Node} {k : Nat} (h : NodeCarries file node (.chunk k)) : IsChunk file node k :=
  ⟨h.pkt.type, h.pkt.seqnum, h.pkt.inFile k rfl, h.pkt.payload⟩

theorem dataNodes_chunks {s : Sender} {t : Protocol.Sender} (h : SenderRel crc32 file s t) {n m : Nat}
    {finals : List Item} (hc : Protocol.Contiguous n t m finals) :
    List.Forall₂ (NodeCarries file) (dataNodes s) (Protocol.chunks (t.global_pkt.toNat - m) m) := by
  have hfilter : (Protocol.chunks (t.global_pkt.toNat - m) m ++ finals).filter (fun x => !isFinal x) =
      Protocol.chunks (t.global_pkt.toNat - m) m := by
    rw [List.filter_append, List.filter_eq_self.mpr, List.filter_eq_nil_iff.mpr, List.append_nil]
    · intro x hx
      simp [hc.behind x hx]
    · intro x hx
      simp [Protocol.chunks_data hx]
  rw [← hfilter, ← hc.list]
  refine List.rel_filter (R := NodeCarries file) ?_ h.window.list
  intro node x hx
  simp only [(nodeCarries_alike file).final hx]

theorem inOrder_of_contiguity {s : Sender} {t : Protocol.Sender} (h : SenderRel crc32 file s t) {n : Nat}
    (hc : Protocol.Contiguity n t) : InOrder file s := by
  obtain ⟨m, finals, hc⟩ := hc
  have hdata := dataNodes_chunks h hc
  have hlen : (dataNodes s).length = m := by rw [hdata.length_eq, Protocol.chunks_length]
  have hle := hc.le
  refine ⟨by rw [hlen, h.count]; exact hle, ?_, ?_⟩
  · rw [hlen, h.count]
    rw [Protocol.chunks, List.forall₂_map_right_iff] at hdata
    exact hdata.imp fun _ _ hx => hx.isChunk
  · intro node hnode
    have hlast := (nodeCarries_alike file).getLast?_seqnum h.window.list
    rw [hnode, Option.map_some] at hlast
    obtain ⟨x, hx, hseq⟩ := Option.map_eq_some_iff.mp hlast.symm
    rw [h.window.tail, ← hc.tail x hx]
    exact hseq.symm

theorem sized_keepsCount {s : Sender} {t : Protocol.Sender} (h : SenderRel crc32 file s t) {a : SenderAction}
    {b : Protocol.SenderAction} (hab : a.toProtocol crc32 s = some b) :
    Sized crc32 DropsData s a ↔ KeepsCount t b := by
  rw [sized_iff (fun h => h.dropsData (nodeCarries_alike file)) h hab]
  cases b <;> exact Iff.rfl

/-- What the sender reads next, after a shrink that drops packets with data. -/
theorem pread_after_shrink {s s' : Sender} {t : Protocol.Sender} (h : SenderRel crc32 file s t)
    (hc : Protocol.Contiguity (chunkCount file) t) {bytes_read : Option (List UInt8)} {time : UInt32} {stale pkt : Pkt}
    (hi : incoming crc32 s bytes_read = some pkt) (hdata : DropsData s.window (pkt_get_window pkt).toNat)
    (hs : Shrinks s.window (pkt_get_window pkt).toNat)
    (hstep : sender_step crc32 file s (.response bytes_read time stale) = some s') {node : Node}
    (hnode : (s.window.linkedList.drop (pkt_get_window pkt).toNat).head? = some node) :
    filePread file (chunkOffset s'.global_pkt) = some (payloadBytes node.pkt) := by
  obtain ⟨m, finals, hc⟩ := hc
  have hresp := handle_response_rel h.toSenderCarries bytes_read time stale
  rw [hi] at hresp
  simp only [sender_step, response_step] at hstep
  split at hstep
  swap
  · contradiction
  simp only [Option.some.injEq] at hstep
  rw [hstep] at hresp
  simp only at hresp
  have hdata' := (h.window.dropsData (nodeCarries_alike file) _).mp hdata
  have hs' := (h.window.shrinks _).mp hs
  generalize hsize : (pkt_get_window pkt).toNat = size at hresp hdata' hs' hnode
  have hcount : s'.global_pkt = (t.update size (pkt_get_seqnum stale)).global_pkt := by
    rw [hresp.count]
    unfold Protocol.Sender.respond
    split
    · exact ((t.update size (pkt_get_seqnum stale)).ack_keeps _).count
    · rfl
  rw [Protocol.Sender.update_shrink hs'] at hcount
  have hdrop := List.forall₂_drop size h.window.list
  rcases hc.shrink (hdata' hs') with ⟨hzero, _⟩ | ⟨_, hlt, hdropped, _, hrest⟩
  · -- nothing was dropped
    have hnil : s.window.linkedList.drop size = [] := by
      rw [List.drop_eq_nil_iff, h.window.length]
      unfold Protocol.dropped at hzero
      omega
    rw [hnil] at hnode
    contradiction
  · obtain ⟨k, hk⟩ : ∃ k, m - size = k + 1 := ⟨m - size - 1, by omega⟩
    have hsize31 := hc.size
    have hroom := hc.room
    have hle := hc.le
    have hsmall := hc.small
    have hsub := Protocol.global_pkt_sub t.global_pkt (Protocol.dropped t.window size) (by
      unfold Protocol.dropped
      omega)
    rw [hdropped, if_pos (by omega)] at hsub
    have hidx : chunkIndex s'.global_pkt = t.global_pkt.toNat - m + size := by
      rw [hcount, hdropped, Protocol.chunkIndex_of_le (by rw [hsub]; omega), hsub]
      omega
    rw [hrest, hk, Protocol.chunks, List.range'_succ, List.map_cons] at hdrop
    cases hl : s.window.linkedList.drop size with
    | nil =>
      rw [hl] at hdrop
      cases hdrop
    | cons x xs =>
      rw [hl] at hdrop hnode
      obtain ⟨hx, _⟩ := List.forall₂_cons.mp hdrop
      rw [List.head?_cons, Option.some.injEq] at hnode
      rw [filePread_chunk, hidx, if_neg (by omega), ← hnode, hx.pkt.payload]
      rfl

/-- The list is in order, and a shrink makes the sender read the first packet that it dropped again, as long as no
shrink drops a packet of length 0. -/
theorem sender_contiguity {copybuf : Mem} {s : Sender}
    (h : Reach (sender_step crc32 file) (Sized crc32 DropsData) (.initial copybuf) s) :
    InOrder file s ∧
      ∀ bytes_read time stale s', Sized crc32 DropsData s (.response bytes_read time stale) →
        sender_step crc32 file s (.response bytes_read time stale) = some s' →
        ∀ pkt ∈ incoming crc32 s bytes_read, Shrinks s.window (pkt_get_window pkt).toNat →
          ∀ node ∈ (s.window.linkedList.drop (pkt_get_window pkt).toNat).head?,
            filePread file (chunkOffset s'.global_pkt) = some (payloadBytes node.pkt) := by
  obtain ⟨t, hrel, hreach⟩ := sender_run (fun s t a b hrel ha hab => (sized_keepsCount hrel hab).mp ha) h
  have hc : Protocol.Contiguity (chunkCount file) t :=
    hreach.invariant (Protocol.contiguity_initial _) fun _ _ _ => Protocol.step_contiguity
  refine ⟨inOrder_of_contiguity hrel hc, ?_⟩
  intro bytes_read time stale s' hok hstep pkt hi hs node hnode
  exact pread_after_shrink hrel hc hi (hok pkt hi) hs hstep hnode

theorem sender_contiguity_one_byte :
    ∃ s, Reach (sender_step zlib_crc32 [7]) (Sized zlib_crc32 DropsData) (.initial fun _ => 0) s ∧
      s.window.linkedList ≠ [] ∧ InOrder [7] s := by
  generalize zlib_crc32 = crc32
  have hrun : (run (Protocol.Sender.step (chunkCount [7])) KeepsCount [.respond false 0 2 0, .fill, .final]
      .initial).any (fun t => decide (t.window.linkedList = [.chunk 0, .final 1 1])) = true := by decide
  obtain ⟨t, hreach, ht⟩ := reach_of_run hrun
  obtain ⟨s, hrel, hs⟩ := sender_run_of_protocol
    (fun s t a b hrel hb hab => (sized_keepsCount hrel hab).mpr hb) (fun _ => 0) hreach
  refine ⟨s, hs, ?_, (sender_contiguity hs).1⟩
  rw [ne_eq, hrel.window.nil_iff, of_decide_eq_true ht]
  simp

/-- The shrink drops the final packet, and `global_pkt` goes back over a chunk that is still in the list. -/
theorem dropped_final_miscounted :
    ∃ s, Reach (sender_step zlib_crc32 [7]) (fun _ _ => True) (.initial fun _ => 0) s ∧ ¬ InOrder [7] s := by
  generalize zlib_crc32 = crc32
  have hrun : (run (Protocol.Sender.step (chunkCount [7])) (fun _ _ => True)
      [.respond false 0 2 0, .fill, .final, .respond false 0 1 0] .initial).any
      (fun t => decide (t.window.linkedList = [.chunk 0] ∧ t.global_pkt = 0)) = true := by decide
  obtain ⟨t, hreach, ht⟩ := reach_of_run hrun
  obtain ⟨hlist, hcount⟩ := of_decide_eq_true ht
  obtain ⟨s, hrel, hs⟩ := sender_run_of_protocol (fun _ _ _ _ _ _ _ => trivial) (fun _ => 0) hreach
  refine ⟨s, hs, fun hin => ?_⟩
  have hle := hin.le
  have hnodes : ∃ node, s.window.linkedList = [node] ∧ isFinal node = false := by
    have hw := hrel.window.list
    rw [hlist] at hw
    obtain ⟨node, l, hnode, hl, heq⟩ := List.forall₂_cons_right_iff.mp hw
    rw [List.forall₂_nil_right_iff.mp hl] at heq
    exact ⟨node, heq, (nodeCarries_alike _).final hnode⟩
  obtain ⟨node, heq, hdata⟩ := hnodes
  rw [dataNodes, heq, hrel.count, hcount] at hle
  simp [hdata] at hle

end Trtp
