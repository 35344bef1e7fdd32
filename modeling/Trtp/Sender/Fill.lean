import Trtp.Codec.Size
import Trtp.Protocol.Contiguity
import Trtp.Sender.Loop

/-!
# `fill_window` on errors

The packet is in the list before it is written, and counted after. A write that fails in between leaves a packet that
is not counted, and a `pread` that fails makes an empty one.
-/

open Trtp.Lib

namespace Trtp

variable (crc32 : List UInt8 → UInt32)

/-- The chunks of the packets with data, in the order of the list. -/
def dataIndices (list : List Node) : List Nat := (list.filter fun node => isFinal node = false).map Node.index

/-- The datagram of a `DATA` packet without payload. -/
def EmptyData (datagram : List UInt8) : Prop :=
  hdrType (load datagram fun _ => 0) = .DATA ∧ hdrLength (load datagram fun _ => 0) = 0

/-- What a turn may do with its chunk: nothing, or list it once and count it. It lists and sends no empty packet. -/
structure TurnContract (s s' : Sender) : Prop where
  chunk :
    (chunkIndex s.global_pkt ∉ dataIndices s'.window.linkedList ∧ s'.global_pkt = s.global_pkt) ∨
      ((dataIndices s'.window.linkedList).count (chunkIndex s.global_pkt) = 1 ∧ s'.global_pkt = s.global_pkt + 1 ∧
        s'.window.seqnumTail = UInt8.ofNat (s.global_pkt.toNat % 256))
  listed : s'.window.linkedList.filter (fun node => isFinal node) = s.window.linkedList.filter fun node => isFinal node
  sent : ∀ segment ∈ s'.sent, segment ∈ s.sent ∨ ¬ EmptyData segment.datagram

/-- `pread` gives no more bytes than it is asked for. -/
def FillIO.Bounded (io : FillIO) : Prop := ∀ off, ∀ d ∈ io.pread off, d.length ≤ MAX_PAYLOAD_SIZE

/-- `pread` succeeds, and so do the write of the packet and that of the `FEC`, where they are made. -/
def Succeeds (s : Sender) (io : FillIO) (fec_enable : Bool) : Prop :=
  ∃ d, io.pread (chunkOffset s.global_pkt) = some d ∧
    (d ≠ [] → io.write = true ∧ (fec_enable = true → s.fec.i = 3 → io.writeFec = true))

/-- No call of `fill_window` fails, and a smaller window drops no empty packet. -/
def NoErrors (s : Sender) : SenderCall → Prop
  | .fill io fec_enable => io.Bounded ∧ Succeeds s io fec_enable
  | .final _ _ => True
  | .resend _ => True
  | .response bytes_read _ _ => ∀ pkt ∈ incoming crc32 s bytes_read,
      Protocol.DropsData s.window (pkt_get_window pkt).toNat

variable {crc32}

/-! ## The last chunks -/

/-- The `m` chunks before `g`. -/
def chunksBefore (g : UInt64) : Nat → List Nat
  | 0 => []
  | m + 1 => chunkIndex (g - UInt64.ofNat (m + 1)) :: chunksBefore g m

theorem mem_chunksBefore {g : UInt64} {m c : Nat} :
    c ∈ chunksBefore g m ↔ ∃ k, 1 ≤ k ∧ k ≤ m ∧ c = chunkIndex (g - UInt64.ofNat k) := by
  induction m with
  | zero =>
    simp only [chunksBefore, List.not_mem_nil, false_iff]
    rintro ⟨k, h1, h0, -⟩
    omega
  | succ m ih =>
    rw [chunksBefore, List.mem_cons, ih]
    constructor
    · rintro (rfl | ⟨k, h1, hm, rfl⟩)
      · exact ⟨m + 1, by omega, Nat.le_refl _, rfl⟩
      · exact ⟨k, h1, by omega, rfl⟩
    · rintro ⟨k, h1, hm, rfl⟩
      rcases Nat.lt_or_eq_of_le hm with hlt | rfl
      · exact Or.inr ⟨k, h1, by omega, rfl⟩
      · exact Or.inl rfl

theorem chunkIndex_sub_inj {g : UInt64} {j k : Nat} (hj : j < 2 ^ 32) (hk : k < 2 ^ 32)
    (h : chunkIndex (g - UInt64.ofNat j) = chunkIndex (g - UInt64.ofNat k)) : j = k := by
  have hg := g.toNat_lt
  rw [Protocol.chunkIndex_eq, Protocol.chunkIndex_eq, UInt64.toNat_sub, UInt64.toNat_sub, UInt64.toNat_ofNat',
    UInt64.toNat_ofNat'] at h
  omega

theorem chunksBefore_nodup (g : UInt64) {m : Nat} (h : m < 2 ^ 32) : (chunksBefore g m).Nodup := by
  induction m with
  | zero => exact List.nodup_nil
  | succ m ih =>
    rw [chunksBefore, List.nodup_cons]
    refine ⟨fun hmem => ?_, ih (by omega)⟩
    obtain ⟨k, h1, hm, heq⟩ := mem_chunksBefore.mp hmem
    have := chunkIndex_sub_inj h (by omega) heq
    omega

theorem sub_zero_chunk (g : UInt64) : chunkIndex (g - UInt64.ofNat 0) = chunkIndex g :=
  congrArg chunkIndex (UInt64.sub_zero g)

theorem not_mem_chunksBefore (g : UInt64) {m : Nat} (h : m < 2 ^ 32) : chunkIndex g ∉ chunksBefore g m := by
  intro hmem
  obtain ⟨k, h1, hm, heq⟩ := mem_chunksBefore.mp hmem
  have hzero := chunkIndex_sub_inj (g := g) (j := 0) (by omega) (by omega) ((sub_zero_chunk g).trans heq)
  omega

@[simp] theorem chunksBefore_length (g : UInt64) (m : Nat) : (chunksBefore g m).length = m := by
  induction m with
  | zero => rfl
  | succ m ih => rw [chunksBefore, List.length_cons, ih]

theorem chunksBefore_succ (g : UInt64) (m : Nat) :
    chunksBefore (g + 1) (m + 1) = chunksBefore g m ++ [chunkIndex g] := by
  have hshift : ∀ k, g + 1 - UInt64.ofNat (k + 1) = g - UInt64.ofNat k := by
    intro k
    apply UInt64.toNat_inj.mp
    have hg := g.toNat_lt
    simp only [UInt64.toNat_sub, UInt64.toNat_add, UInt64.toNat_ofNat', UInt64.toNat_one]
    omega
  induction m with
  | zero =>
    change [chunkIndex (g + 1 - UInt64.ofNat (0 + 1))] = [chunkIndex g]
    rw [hshift, sub_zero_chunk]
  | succ m ih => rw [chunksBefore, hshift, ih, chunksBefore, List.cons_append]

theorem chunksBefore_drop (g : UInt64) (m k : Nat) : (chunksBefore g m).drop k = chunksBefore g (m - k) := by
  induction m generalizing k with
  | zero => simp [chunksBefore]
  | succ m ih =>
    cases k with
    | zero => rfl
    | succ k => rw [chunksBefore, List.drop_succ_cons, ih, Nat.succ_sub_succ]

/-- Counting back forgets the last ones. -/
theorem chunksBefore_back {g : UInt64} {m k : Nat} (h : k ≤ m) :
    chunksBefore (g - UInt64.ofNat k) (m - k) = (chunksBefore g m).take (m - k) := by
  obtain ⟨j, rfl⟩ := Nat.exists_eq_add_of_le' h
  rw [Nat.add_sub_cancel]
  induction j with
  | zero => rw [List.take_zero]; rfl
  | succ j ih =>
    have hshift : g - UInt64.ofNat k - UInt64.ofNat (j + 1) = g - UInt64.ofNat (j + 1 + k) := by
      apply UInt64.toNat_inj.mp
      have hg := g.toNat_lt
      simp only [UInt64.toNat_sub, UInt64.toNat_ofNat']
      omega
    rw [chunksBefore, hshift, ih (by omega), Nat.add_right_comm, chunksBefore, List.take_succ_cons]

/-! ## The data of the list -/

theorem dataIndices_append (list : List Node) (node : Node) :
    dataIndices (list ++ [node]) = dataIndices list ++ if isFinal node then [] else [node.index] := by
  unfold dataIndices
  rw [List.filter_append, List.map_append]
  cases h : isFinal node with
  | true => simp [h]
  | false => simp [h]

theorem Retimed.dataIndices {list list' : List Node} (h : List.Forall₂ Retimed list list') :
    Trtp.dataIndices list' = Trtp.dataIndices list := by
  induction h with
  | nil => rfl
  | @cons node node' list list' hnode _ ih =>
    have hfinal := hnode.final
    obtain ⟨timestamp, rfl⟩ := hnode
    unfold Trtp.dataIndices at ih ⊢
    rw [List.filter_cons, List.filter_cons, hfinal]
    split
    · rw [List.map_cons, List.map_cons, ih]
    · exact ih

theorem dataIndices_suffix {list list' : List Node} (h : list' <:+ list) : dataIndices list' <:+ dataIndices list :=
  (h.filter _).map _

/-- Dropping packets with data at the end drops as many chunks. -/
theorem dataIndices_take {list : List Node} {k : Nat} (h : ∀ node ∈ list.drop k, isFinal node = false) :
    (list.length - k) ≤ (dataIndices list).length ∧
      dataIndices (list.take k) = (dataIndices list).take ((dataIndices list).length - (list.length - k)) := by
  have hdrop : dataIndices (list.drop k) = (list.drop k).map Node.index := by
    unfold dataIndices
    rw [List.filter_eq_self.mpr (by simpa using h)]
  have hsplit : dataIndices list = dataIndices (list.take k) ++ (list.drop k).map Node.index := by
    rw [← hdrop]
    unfold dataIndices
    rw [← List.map_append, ← List.filter_append, List.take_append_drop]
  have hlen : (dataIndices list).length = (dataIndices (list.take k)).length + (list.length - k) := by
    rw [hsplit, List.length_append, List.length_map, List.length_drop]
  refine ⟨by omega, ?_⟩
  rw [hlen, Nat.add_sub_cancel, hsplit, List.take_left]

/-! ## The invariant -/

/-- The packets with data are those of the last chunks counted, and there are no more of them than the window holds.
The first `i` entries of `fec->pkts` are set. -/
structure Filling (s : Sender) : Prop where
  size : s.window.windowsize ≤ MAX_WINDOW_SIZE
  length : s.window.linkedList.length ≤ s.window.windowsize
  chunks : ∃ m, dataIndices s.window.linkedList = chunksBefore s.global_pkt m
  fec_le : s.fec.i.toNat ≤ 3
  fec_some : ∀ k < s.fec.i.toNat, (s.fec.pkts k).isSome

theorem Filling.bound {s : Sender} (h : Filling s) {m : Nat}
    (hm : dataIndices s.window.linkedList = chunksBefore s.global_pkt m) : m ≤ MAX_WINDOW_SIZE := by
  have hlen := congrArg List.length hm
  rw [chunksBefore_length, dataIndices, List.length_map] at hlen
  have hle := List.length_filter_le (fun node : Node => decide (isFinal node = false)) s.window.linkedList
  have hsize := h.size
  have hlength := h.length
  omega

theorem Filling.nodup {s : Sender} (h : Filling s) : (dataIndices s.window.linkedList).Nodup := by
  obtain ⟨m, hm⟩ := h.chunks
  have hle := h.bound hm
  rw [hm]
  unfold MAX_WINDOW_SIZE at hle
  exact chunksBefore_nodup _ (by omega)

theorem Filling.not_listed {s : Sender} (h : Filling s) :
    chunkIndex s.global_pkt ∉ dataIndices s.window.linkedList := by
  obtain ⟨m, hm⟩ := h.chunks
  have hle := h.bound hm
  rw [hm]
  unfold MAX_WINDOW_SIZE at hle
  exact not_mem_chunksBefore _ (by omega)

theorem filling_initial (copybuf : Mem) : Filling (.initial copybuf) where
  size := (by decide : 1 ≤ 31)
  length := Nat.zero_le _
  chunks := ⟨0, rfl⟩
  fec_le := Nat.zero_le _
  fec_some _ h := absurd h (Nat.not_lt_zero _)

/-! ## A turn -/

/-- A turn whose calls succeed comes to its end. -/
theorem Filling.counted {s : Sender} (h : Filling s) {io : FillIO} {fec_enable : Bool} (hok : Succeeds s io fec_enable)
    (hread : io.pread (chunkOffset s.global_pkt) ≠ some []) : (turn_fec s io fec_enable).1 = true := by
  obtain ⟨d, hd, hdone⟩ := hok
  obtain ⟨hwrite, hfec⟩ := hdone (fun hnil => hread (by rw [hd, hnil]))
  unfold turn_fec
  rw [if_pos hwrite]
  split
  swap
  · rfl
  rename_i henable
  by_cases h3 : s.fec.i = 3
  · rw [fec_push_four h3 h.fec_some]
    exact hfec henable h3
  · rw [fec_push_less h3]

/-- Otherwise the turn does not. -/
theorem Filling.succeeds {s : Sender} (h : Filling s) {io : FillIO} {fec_enable : Bool} {d : List UInt8}
    (hd : io.pread (chunkOffset s.global_pkt) = some d)
    (hcount : d ≠ [] → (turn_fec s io fec_enable).1 = true) : Succeeds s io fec_enable := by
  refine ⟨d, hd, fun hne => ?_⟩
  have hend := hcount hne
  unfold turn_fec at hend
  split at hend
  swap
  · contradiction
  rename_i hwrite
  refine ⟨hwrite, fun henable h3 => ?_⟩
  rwa [if_pos henable, fec_push_four h3 h.fec_some] at hend

theorem Filling.push {s : Sender} (h : Filling s) (node : Node) {writeFec : Bool}
    (hok : s.fec.i = 3 → writeFec = true) :
    (fec_push s.fec node writeFec).2.i.toNat ≤ 3 ∧
      ∀ k < (fec_push s.fec node writeFec).2.i.toNat, ((fec_push s.fec node writeFec).2.pkts k).isSome := by
  by_cases h3 : s.fec.i = 3
  · rw [fec_push_four h3 h.fec_some, hok h3]
    exact ⟨Nat.zero_le _, fun k hk => absurd hk (Nat.not_lt_zero k)⟩
  · have hle := h.fec_le
    have hne : s.fec.i.toNat ≠ 3 := fun heq => h3 (UInt8.toNat_inj.mp heq)
    rw [fec_push_less h3]
    simp only [fec_succ_toNat hle]
    refine ⟨by omega, fun k hk => ?_⟩
    by_cases hlast : k = s.fec.i.toNat
    · rw [hlast, Function.update_self]
      rfl
    · rw [Function.update_of_ne hlast]
      exact h.fec_some k (by omega)

theorem Filling.fec {s : Sender} (h : Filling s) {io : FillIO} {fec_enable : Bool}
    (hok : Succeeds s io fec_enable) (hread : io.pread (chunkOffset s.global_pkt) ≠ some []) :
    (turn_fec s io fec_enable).2.i.toNat ≤ 3 ∧
      ∀ k < (turn_fec s io fec_enable).2.i.toNat, ((turn_fec s io fec_enable).2.pkts k).isSome := by
  obtain ⟨d, hd, hdone⟩ := hok
  obtain ⟨hwrite, hfec⟩ := hdone (fun hnil => hread (by rw [hd, hnil]))
  unfold turn_fec
  rw [if_pos hwrite]
  split
  · rename_i henable
    exact h.push _ (hfec henable)
  · exact ⟨h.fec_le, h.fec_some⟩

theorem turn_step_filling {s s' : Sender} {io : FillIO} {fec_enable : Bool} (h : Filling s) (hb : io.Bounded)
    (hok : Succeeds s io fec_enable) (hs : turn_step crc32 s io fec_enable = some s') : Filling s' := by
  obtain ⟨-, -, hroom, ⟨-, rfl⟩ | ⟨hread, copybuf, stats, sent, io_error, rfl⟩⟩ := turn_step_cases hs
  · exact ⟨h.size, h.length, h.chunks, h.fec_le, h.fec_some⟩
  obtain ⟨hle, hsome⟩ := h.fec hok hread
  have hcount := h.counted hok hread
  obtain ⟨d, hd, -⟩ := hok
  have hdata := turn_node_isFinal hd (fun hnil => hread (by rw [hd, hnil])) (hb _ d hd)
  obtain ⟨m, hm⟩ := h.chunks
  refine ⟨h.size, ?_, ⟨m + 1, ?_⟩, hle, hsome⟩
  · rw [List.length_append, List.length_singleton]
    exact hroom
  · rw [dataIndices_append, hdata, hm, if_pos hcount, chunksBefore_succ]
    rfl

/-! ## The other calls -/

theorem final_step_filling {s s' : Sender} {time : UInt32} {write : Bool} (h : Filling s)
    (hs : final_step crc32 s time write = some s') : Filling s' := by
  obtain ⟨-, -, -, hroom, copybuf, stats, sent, io_error, allocated, rfl, -⟩ := final_step_eq hs
  have hlist : dataIndices (if write then s.window.linkedList ++ [final_node s time] else s.window.linkedList) =
      dataIndices s.window.linkedList := by
    split
    · rw [dataIndices_append, final_node_isFinal, if_pos rfl, List.append_nil]
    · rfl
  refine ⟨h.size, ?_, ?_, h.fec_le, h.fec_some⟩
  · simp only
    split
    · rw [List.length_append, List.length_singleton]
      exact hroom
    · exact h.length
  · simp only [hlist]
    exact h.chunks

theorem resent_step_filling {s s' : Sender} {io : Nat → UInt32 × Bool} (h : Filling s)
    (hs : resent_step crc32 s io = some s') : Filling s' := by
  obtain ⟨-, -, copybuf, stats, sent, io_error, list, hlist, rfl⟩ := resent_step_eq hs
  refine ⟨h.size, ?_, ?_, h.fec_le, h.fec_some⟩
  · simp only [← hlist.length_eq]
    exact h.length
  · simp only [Retimed.dataIndices hlist]
    exact h.chunks

theorem update_window_filling {s : Sender} (h : Filling s) {newSize : UInt8} (h31 : newSize.toNat ≤ MAX_WINDOW_SIZE)
    (hdrop : Protocol.DropsData s.window newSize.toNat) (stale : Pkt) :
    Filling (update_window s newSize stale).2 := by
  obtain ⟨m, hm⟩ := h.chunks
  rcases update_window_cases s newSize stale with ⟨hgrow, stats, heq⟩ | ⟨hshrink, heq⟩
  · rw [heq]
    by_cases h0 : newSize = 0
    · simp only [h0, if_true]
      exact ⟨h.size, h.length, h.chunks, h.fec_le, h.fec_some⟩
    · simp only [h0, if_false]
      have hle := windowsize_le_of_not_shrinks hgrow h0
      exact ⟨h31, h.length.trans hle, h.chunks, h.fec_le, h.fec_some⟩
  · rw [heq]
    obtain ⟨hle, htake⟩ := dataIndices_take (hdrop hshrink)
    refine ⟨h31, ?_, ⟨m - Protocol.dropped s.window newSize.toNat, ?_⟩, h.fec_le, h.fec_some⟩
    · rw [Protocol.shrink_window_linkedList, List.length_take]
      exact Nat.min_le_left _ _
    · rw [hm, chunksBefore_length] at hle htake
      rw [Protocol.shrink_window_linkedList, htake]
      exact (chunksBefore_back hle).symm

theorem response_step_filling {s s' : Sender} {bytes_read : Option (List UInt8)} {time : UInt32} {stale : Pkt}
    (h : Filling s) (hdrop : ∀ pkt ∈ incoming crc32 s bytes_read,
      Protocol.DropsData s.window (pkt_get_window pkt).toNat)
    (hs : response_step crc32 s bytes_read time stale = some s') : Filling s' := by
  obtain ⟨-, ⟨-, copybuf, stats, rfl⟩ | ⟨pkt, u, fec, stats, hi, hu, hpkts, hfec, -, rfl⟩⟩ := response_step_cases hs
  · exact ⟨h.size, h.length, h.chunks, h.fec_le, h.fec_some⟩
  have hread : Filling { s with copybuf := readInto bytes_read s.copybuf, lastRst := 0 } :=
    ⟨h.size, h.length, h.chunks, h.fec_le, h.fec_some⟩
  have hfilling : Filling u := by
    rw [← hu]
    exact update_window_filling hread (pkt_get_window_le pkt) (hdrop pkt hi) stale
  have hsuffix := handled_window_suffix u.window pkt
  have hkeeps := handled_window_keeps u.window pkt
  obtain ⟨m, hm⟩ := hfilling.chunks
  refine ⟨?_, ?_, ?_, ?_, ?_⟩
  · simp only [hkeeps.2]
    exact hfilling.size
  · simp only [hkeeps.2]
    exact hsuffix.length_le.trans hfilling.length
  · obtain ⟨k, hk⟩ : ∃ k, dataIndices (handled_window u.window pkt).linkedList =
        (dataIndices u.window.linkedList).drop k := ⟨_, List.suffix_iff_eq_drop.mp (dataIndices_suffix hsuffix)⟩
    exact ⟨m - k, by simp only [hk, hm, chunksBefore_drop]⟩
  · rcases hfec with hsame | hzero
    · simp only [hsame]
      exact hfilling.fec_le
    · simp only [hzero]
      exact Nat.zero_le _
  · simp only [hpkts]
    intro k hk
    rcases hfec with hsame | hzero
    · rw [hsame] at hk
      exact hfilling.fec_some k hk
    · rw [hzero] at hk
      exact absurd hk (Nat.not_lt_zero k)

theorem call_step_filling {s s' : Sender} {a : SenderCall} (h : Filling s) (hok : NoErrors crc32 s a)
    (hs : call_step crc32 s a = some s') : Filling s' := by
  cases a with
  | fill io fec_enable => exact turn_step_filling h hok.1 hok.2 hs
  | final time write => exact final_step_filling h hs
  | resend io => exact resent_step_filling h hs
  | response bytes_read time stale => exact response_step_filling h hok hs

/-! ## What a turn sends -/

theorem emptyData_bytes {pkt : Pkt} :
    EmptyData (pkt_bytes crc32 pkt) ↔ pkt.type = .DATA ∧ pkt.length = 0 := by
  have hstarts := load_starts (pkt_bytes crc32 pkt) fun _ => 0
  unfold EmptyData
  rw [hdrType_bytes hstarts]
  exact and_congr_right fun ht => by rw [hdrLength_bytes hstarts ht]

theorem write_pkt_mem {s : Sender} {chunk : Option Nat} {pkt : Pkt} {write : Bool} {segment : Segment}
    (hsize : encode_size pkt ≤ PKT_MAX_LEN) (h : segment ∈ (s.write_pkt crc32 chunk pkt write).sent) :
    segment ∈ s.sent ∨ segment.datagram = pkt_bytes crc32 pkt := by
  cases write with
  | false => exact Or.inl h
  | true =>
    rw [write_pkt_eq crc32 s chunk hsize] at h
    rcases List.mem_append.mp h with hmem | hmem
    · exact Or.inl hmem
    · rw [List.mem_singleton.mp hmem]
      exact Or.inr rfl

theorem fill_fec_mem {s : Sender} {node : Node} {writeFec : Bool} {segment : Segment}
    (h : segment ∈ (fill_fec crc32 s node writeFec).2.sent) :
    segment ∈ s.sent ∨ ∃ pkt : Pkt, pkt.type = .FEC ∧ segment.datagram = pkt_bytes crc32 pkt := by
  unfold fill_fec at h
  simp only at h
  split at h
  swap
  · exact Or.inl h
  split at h
  swap
  · exact Or.inl h
  rename_i n0 n1 n2 n3 _ _ _ _
  have htype := fec_generation_type n0.pkt n1.pkt n2.pkt n3.pkt
  have hmem : segment ∈ (Sender.write_pkt crc32
      { s with fec := ⟨Function.update s.fec.pkts s.fec.i.toNat (some node), s.fec.i + 1⟩ } none
      (fec_generation n0.pkt n1.pkt n2.pkt n3.pkt) writeFec).sent := by
    split at h
    · exact h
    · exact h
  exact (write_pkt_mem (encode_size_fec htype) hmem).imp_right fun heq => ⟨_, htype, heq⟩

/-- The packet that a turn makes of what `pread` returned. -/
def readPkt (s : Sender) (bytes_read : Option (List UInt8)) (io : FillIO) : Pkt :=
  data_pkt s.window.windowsize (UInt8.ofNat (s.global_pkt.toNat % 256)) (load (bytes_read.getD []) s.copybuf)
    (readCount bytes_read) io.time

theorem readPkt_size (s : Sender) (bytes_read : Option (List UInt8)) (io : FillIO) :
    encode_size (readPkt s bytes_read io) ≤ PKT_MAX_LEN := by
  apply encode_size_le
  unfold readPkt
  rw [(data_pkt_eq _ _ _ _ _).2]
  split
  · assumption
  · exact Nat.zero_le _

/-- A turn sends the packet that it lists, and a `FEC`. -/
theorem fill_read_mem {s : Sender} {bytes_read : Option (List UInt8)} {io : FillIO} {fec_enable : Bool}
    {segment : Segment} (h : segment ∈ (fill_read crc32 s bytes_read io fec_enable).state.sent) :
    segment ∈ s.sent ∨ segment.datagram = pkt_bytes crc32 (readPkt s bytes_read io) ∨
      ∃ pkt : Pkt, pkt.type = .FEC ∧ segment.datagram = pkt_bytes crc32 pkt := by
  have hsize := readPkt_size s bytes_read io
  unfold readPkt at hsize ⊢
  unfold fill_read at h
  simp only at h
  generalize data_pkt s.window.windowsize (UInt8.ofNat (s.global_pkt.toNat % 256))
    (load (bytes_read.getD []) s.copybuf) (readCount bytes_read) io.time = pkt at h hsize ⊢
  split at h
  swap
  · simp only [FillTurn.state] at h
    exact (write_pkt_mem hsize h).imp_right Or.inl
  split at h
  swap
  · simp only [FillTurn.state, fill_count] at h
    exact (write_pkt_mem hsize h).imp_right Or.inl
  split at h
  all_goals
    rename_i u hfec
    have hsent := congrArg (fun r => r.2.sent) hfec
    simp only [FillTurn.state, fill_count] at h hsent
    rw [← hsent] at h
    rcases fill_fec_mem h with hdata | hpkt
    · exact (write_pkt_mem hsize hdata).imp_right Or.inl
    · exact Or.inr (Or.inr hpkt)

/-! ## When the contract is kept -/

theorem turn_node_failed {s : Sender} {io : FillIO} (h : io.pread (chunkOffset s.global_pkt) = none) :
    isFinal (turn_node s io) = true := by
  unfold turn_node
  rw [h]
  apply decide_eq_true
  exact (data_pkt_eq _ _ _ _ _).2

theorem readPkt_nonempty {s : Sender} {io : FillIO} (h : isFinal (turn_node s io) = false) :
    ¬ EmptyData (pkt_bytes crc32 (readPkt s (io.pread (chunkOffset s.global_pkt)) io)) := by
  rw [emptyData_bytes]
  rintro ⟨-, hzero⟩
  exact of_decide_eq_false h hzero

/-- What a turn that reads has done. -/
structure TurnRead (s s' : Sender) (io : FillIO) (fec_enable : Bool) : Prop where
  list : s'.window.linkedList = s.window.linkedList ++ [turn_node s io]
  global_pkt : s'.global_pkt = if (turn_fec s io fec_enable).1 then s.global_pkt + 1 else s.global_pkt
  seqnumTail : s'.window.seqnumTail =
    if (turn_fec s io fec_enable).1 then UInt8.ofNat (s.global_pkt.toNat % 256) else s.window.seqnumTail

theorem turn_step_read {s s' : Sender} {io : FillIO} {fec_enable : Bool}
    (hread : io.pread (chunkOffset s.global_pkt) ≠ some []) (hs : turn_step crc32 s io fec_enable = some s') :
    TurnRead s s' io fec_enable ∧
      s' = (fill_read crc32 s (io.pread (chunkOffset s.global_pkt)) io fec_enable).state := by
  constructor
  · obtain ⟨-, -, -, ⟨hend, -⟩ | ⟨-, copybuf, stats, sent, io_error, rfl⟩⟩ := turn_step_cases hs
    · contradiction
    · exact ⟨rfl, rfl, rfl⟩
  · unfold turn_step at hs
    split at hs
    · rw [← Option.some.inj hs]
      unfold fill_turn
      split
      · contradiction
      · rfl
    · contradiction

/-- The count of -1 is refused, and the packet keeps its length of 0. -/
theorem TurnRead.not_contract {s s' : Sender} {io : FillIO} {fec_enable : Bool} (h : TurnRead s s' io fec_enable)
    (hd : io.pread (chunkOffset s.global_pkt) = none) : ¬ TurnContract s s' := by
  intro hc
  have hlisted := congrArg List.length hc.listed
  rw [h.list, List.filter_append, List.length_append, List.filter_singleton, turn_node_failed hd] at hlisted
  simp at hlisted

theorem TurnRead.indices {s s' : Sender} {io : FillIO} {fec_enable : Bool} (h : TurnRead s s' io fec_enable)
    (hdata : isFinal (turn_node s io) = false) :
    dataIndices s'.window.linkedList = dataIndices s.window.linkedList ++ [chunkIndex s.global_pkt] := by
  rw [h.list, dataIndices_append, hdata]
  rfl

/-- A packet that is not counted is in the list all the same. -/
theorem TurnRead.counted {s s' : Sender} {io : FillIO} {fec_enable : Bool} (h : TurnRead s s' io fec_enable)
    (hdata : isFinal (turn_node s io) = false) (hc : TurnContract s s') : (turn_fec s io fec_enable).1 = true := by
  rcases hc.chunk with ⟨hout, -⟩ | ⟨-, hnext, -⟩
  · rw [h.indices hdata] at hout
    exact absurd (List.mem_append_right _ (List.mem_singleton_self _)) hout
  · by_contra hfail
    rw [h.global_pkt, if_neg hfail] at hnext
    simp at hnext

theorem TurnRead.contract {s s' : Sender} {io : FillIO} {fec_enable : Bool} (h : TurnRead s s' io fec_enable)
    (hdata : isFinal (turn_node s io) = false) (hout : chunkIndex s.global_pkt ∉ dataIndices s.window.linkedList)
    (hcount : (turn_fec s io fec_enable).1 = true)
    (hs : s' = (fill_read crc32 s (io.pread (chunkOffset s.global_pkt)) io fec_enable).state) :
    TurnContract s s' := by
  refine ⟨Or.inr ⟨?_, ?_, ?_⟩, ?_, ?_⟩
  · rw [h.indices hdata, List.count_append, List.count_eq_zero.mpr hout, List.count_singleton_self]
  · rw [h.global_pkt, if_pos hcount]
  · rw [h.seqnumTail, if_pos hcount]
  · rw [h.list, List.filter_append, List.filter_singleton, hdata]
    simp
  · intro segment hmem
    rw [hs] at hmem
    rcases fill_read_mem hmem with hold | heq | ⟨pkt, htype, heq⟩
    · exact Or.inl hold
    · right
      rw [heq]
      exact readPkt_nonempty hdata
    · right
      rw [heq, emptyData_bytes, htype]
      rintro ⟨hfec, -⟩
      contradiction

theorem turn_contract_iff {s s' : Sender} {io : FillIO} {fec_enable : Bool} (h : Filling s) (hb : io.Bounded)
    (hs : turn_step crc32 s io fec_enable = some s') : TurnContract s s' ↔ Succeeds s io fec_enable := by
  by_cases hread : io.pread (chunkOffset s.global_pkt) = some []
  · obtain ⟨-, -, -, ⟨-, rfl⟩ | ⟨hne, -⟩⟩ := turn_step_cases hs
    · exact iff_of_true ⟨Or.inl ⟨h.not_listed, rfl⟩, rfl, fun segment hmem => Or.inl hmem⟩
        ⟨[], hread, fun hne => absurd rfl hne⟩
    · contradiction
  obtain ⟨hturn, hstate⟩ := turn_step_read hread hs
  cases hd : io.pread (chunkOffset s.global_pkt) with
  | none =>
    refine iff_of_false (hturn.not_contract hd) ?_
    rintro ⟨d, hsome, -⟩
    rw [hd] at hsome
    contradiction
  | some d =>
    have hdata := turn_node_isFinal hd (fun hnil => hread (by rw [hd, hnil])) (hb _ d hd)
    constructor
    · intro hc
      exact h.succeeds hd fun _ => hturn.counted hdata hc
    · intro hok
      exact hturn.contract hdata h.not_listed (h.counted hok hread) hstate

/-- While the calls succeed, no two packets have one chunk, and a turn keeps its contract if and only if its calls
succeed. -/
theorem fill_window_errors {copybuf : Mem} {s : Sender}
    (h : Reach (call_step crc32) (NoErrors crc32) (.initial copybuf) s) :
    (dataIndices s.window.linkedList).Nodup ∧
      ∀ io fec_enable s', io.Bounded → call_step crc32 s (.fill io fec_enable) = some s' →
        (TurnContract s s' ↔ Succeeds s io fec_enable) := by
  have hfilling : Filling s := h.invariant (filling_initial copybuf) fun u a u' => call_step_filling
  exact ⟨hfilling.nodup, fun io fec_enable s' hb hs => turn_contract_iff hfilling hb hs⟩

/-- One byte is read and written. -/
theorem fill_window_errors_read :
    (dataIndices (fill_turn zlib_crc32 (.initial fun _ => 0) ⟨fun _ => some [7], 0, true, true⟩
      true).state.window.linkedList).Nodup ∧
      TurnContract (.initial fun _ => 0)
        (fill_turn zlib_crc32 (.initial fun _ => 0) ⟨fun _ => some [7], 0, true, true⟩ true).state := by
  generalize zlib_crc32 = crc32
  have hb : FillIO.Bounded ⟨fun _ => some [7], 0, true, true⟩ := by
    intro off d hd
    rw [← Option.some.inj hd]
    decide
  have hok : Succeeds (.initial fun _ => 0) ⟨fun _ => some [7], 0, true, true⟩ true :=
    ⟨[7], rfl, fun _ => ⟨rfl, fun _ _ => rfl⟩⟩
  have hnext : Reach (call_step crc32) (NoErrors crc32) (.initial fun _ => 0)
      (fill_turn crc32 (.initial fun _ => 0) ⟨fun _ => some [7], 0, true, true⟩ true).state :=
    .next (a := .fill ⟨fun _ => some [7], 0, true, true⟩ true) .start ⟨hb, hok⟩ rfl
  exact ⟨(fill_window_errors hnext).1, ((fill_window_errors .start).2 _ true _ hb rfl).mpr hok⟩

/-- `write` fails. The packet is in the list and the next call will read its chunk again. -/
theorem not_fill_failed_write :
    (fill_window zlib_crc32 (.initial fun _ => 0) (fun _ => ⟨fun _ => some [7], 0, false, true⟩) false).1 = -1 ∧
      ¬ TurnContract (.initial fun _ => 0)
        (fill_window zlib_crc32 (.initial fun _ => 0) (fun _ => ⟨fun _ => some [7], 0, false, true⟩) false).2 := by
  generalize zlib_crc32 = crc32
  refine ⟨rfl, fun hc => ?_⟩
  have hb : FillIO.Bounded ⟨fun _ => some [7], 0, false, true⟩ := by
    intro off d hd
    rw [← Option.some.inj hd]
    decide
  have hs : turn_step crc32 (.initial fun _ => 0) ⟨fun _ => some [7], 0, false, true⟩ false =
      some (fill_window crc32 (.initial fun _ => 0) (fun _ => ⟨fun _ => some [7], 0, false, true⟩) false).2 := rfl
  obtain ⟨d, hd, hok⟩ := (turn_contract_iff (filling_initial fun _ => 0) hb hs).mp hc
  have hne : d ≠ [] := by
    rw [← Option.some.inj hd]
    simp
  exact Bool.false_ne_true (hok hne).1

end Trtp
