import Trtp.Sender.Loop

/-!
# The packets of the next `FEC`

`fec->pkts` keeps pointers to packets of the list, which the other calls shorten.
-/

open Trtp.Lib

namespace Trtp

variable (crc32 : List UInt8 → UInt32)

/-- The entries of `fec->pkts` that count. -/
def Accumulates (fec : FecPkt) (nodes : List Node) : Prop := (List.range fec.i.toNat).map fec.pkts = nodes.map some

/-- The packet is in the list, where `resent_pkt` may have given it another timestamp. -/
def Live (window : Window Node) (node : Node) : Prop := ∃ live ∈ window.linkedList, Retimed node live

/-- At most three live packets with consecutive numbers up to `seqnumTail`. -/
structure FecRight (s : Sender) : Prop where
  le : s.fec.i.toNat ≤ 3
  entries : ∃ nodes, Accumulates s.fec nodes ∧ (nodes.map Node.addr).Nodup ∧
    (∀ node ∈ nodes, Live s.window node) ∧ nodes.map seqnumOf = endingAt s.window.seqnumTail s.fec.i.toNat

/-- The four packets that a turn gives to `fec_generation` are in the list then, and their numbers are consecutive. -/
def GeneratesRight (s : Sender) : Prop :=
  ∀ io s', turn_step crc32 s io true = some s' → io.pread (chunkOffset s.global_pkt) ≠ some [] → io.write = true →
    s.fec.i = 3 → ∃ nodes : List Node,
      (List.range 4).map (Function.update s.fec.pkts s.fec.i.toNat (some (turn_node s io))) = nodes.map some ∧
        (nodes.map Node.addr).Nodup ∧ (∀ node ∈ nodes, Live s'.window node) ∧
        ∃ first, nodes.map seqnumOf = [first, first + 1, first + 2, first + 3]

/-- The size leaves the last entry of `fec->pkts` at the end of the list, and the number after it comes next. -/
def KeepsFec (s : Sender) (size : Nat) : Prop :=
  ∃ node ∈ s.fec.pkts (s.fec.i.toNat - 1), ∃ live ∈ (s.window.linkedList.take size).getLast?,
    live.addr = node.addr ∧
      UInt8.ofNat ((s.global_pkt - UInt64.ofNat (Protocol.dropped s.window size)).toNat % 256) = seqnumOf live + 1

/-- The packet is an `ACK` that removes the first packet of the list. -/
def Removes (window : Window Node) (pkt : Pkt) : Prop :=
  pkt_get_type pkt = .ACK ∧ can_ack_window window (pkt_get_seqnum pkt) = true ∧
    ∃ node ∈ window.linkedList.head?, seqnumOf node ≠ pkt_get_seqnum pkt

/-- The `FEC` is written, and a smaller window keeps what was accumulated or comes with an `ACK` that forgets it. -/
def FecSafe (s : Sender) : SenderCall → Prop
  | .fill io fec_enable => fec_enable = true ∧
      (io.pread (chunkOffset s.global_pkt) ≠ some [] → io.write = true → s.fec.i = 3 → io.writeFec = true)
  | .final _ _ => True
  | .resend _ => True
  | .response bytes_read _ stale => ∀ pkt ∈ incoming crc32 s bytes_read,
      Protocol.Shrinks s.window (pkt_get_window pkt).toNat →
        s.fec.i = 0 ∨ KeepsFec s (pkt_get_window pkt).toNat ∨
          Removes (shrink_window s.window (pkt_get_window pkt).toNat (pkt_get_seqnum stale)) pkt

instance (s : Sender) (size : Nat) : Decidable (KeepsFec s size) :=
  inferInstanceAs (Decidable (∃ node ∈ s.fec.pkts _, ∃ live ∈ (s.window.linkedList.take size).getLast?, _ ∧ _))

instance (window : Window Node) (pkt : Pkt) : Decidable (Removes window pkt) :=
  inferInstanceAs (Decidable (_ ∧ _ ∧ ∃ node ∈ window.linkedList.head?, _))

instance (s : Sender) (a : SenderCall) : Decidable (FecSafe crc32 s a) :=
  match a with
  | .fill _ _ => inferInstanceAs (Decidable (_ ∧ (_ → _ → _ → _)))
  | .final _ _ | .resend _ => .isTrue trivial
  | .response bytes_read _ _ => inferInstanceAs (Decidable (∀ pkt ∈ incoming crc32 s bytes_read, _ → _))

variable {crc32}

/-! ## The invariant -/

/-- The node without its timestamp. -/
def timeless (node : Node) : Node := { node with pkt := { node.pkt with timestamp := 0 } }

theorem Retimed.timeless {list list' : List Node} (h : List.Forall₂ Retimed list list') :
    list'.map timeless = list.map timeless := by
  induction h with
  | nil => rfl
  | cons hnode _ ih =>
    obtain ⟨timestamp, rfl⟩ := hnode
    rw [List.map_cons, List.map_cons, ih]
    rfl

theorem retimed_of_timeless {node node' : Node} (h : timeless node = timeless node') : Retimed node node' := by
  obtain ⟨addr, index, pkt⟩ := node
  obtain ⟨addr', index', pkt'⟩ := node'
  obtain ⟨type, tr, window, length, seqnum, timestamp, crc1, payload, crc2⟩ := pkt
  obtain ⟨type', tr', window', length', seqnum', timestamp', crc1', payload', crc2'⟩ := pkt'
  simp only [Trtp.timeless, Node.mk.injEq, Pkt.mk.injEq, true_and] at h
  obtain ⟨rfl, rfl, rfl, rfl, rfl, rfl, rfl, rfl, rfl, rfl⟩ := h
  exact ⟨timestamp', rfl⟩

theorem timeless_addr (list : List Node) : (list.map timeless).map Node.addr = list.map Node.addr := by
  rw [List.map_map]
  rfl

/-- The number of the next packet. -/
def next_seqnum (s : Sender) : UInt8 := UInt8.ofNat (s.global_pkt.toNat % 256)

theorem turn_node_seqnum (s : Sender) (io : FillIO) : seqnumOf (turn_node s io) = next_seqnum s := by
  have hpayload : ∀ (pkt : Pkt) (data : Mem) (length : UInt16),
      (pkt_set_payload pkt data length).2.seqnum = pkt.seqnum := by
    intro pkt data length
    unfold pkt_set_payload pkt_set_length
    split_ifs <;> simp
  simp only [turn_node, data_pkt, seqnumOf, pkt_set_type_code, pkt_set_seqnum, pkt_set_window_snd, pkt_set_tr_zero,
    pkt_set_timestamp, pkt_get_seqnum, hpayload]
  rfl

theorem next_seqnum_succ {s s' : Sender} (h : s'.global_pkt = s.global_pkt + 1) :
    next_seqnum s' = next_seqnum s + 1 := by
  apply UInt8.toNat_inj.mp
  rw [next_seqnum, next_seqnum, h, UInt8.toNat_add, UInt8.toNat_ofNat', UInt8.toNat_ofNat', UInt64.toNat_add,
    UInt8.toNat_one, UInt64.toNat_one]
  omega

structure FecFilled (s : Sender) : Prop where
  nodup : (s.window.linkedList.map Node.addr).Nodup
  fresh : ∀ node ∈ s.window.linkedList, node.addr < s.allocated
  le : s.fec.i.toNat ≤ 3
  entries : ∃ nodes, Accumulates s.fec nodes ∧
    List.Sublist (nodes.map timeless) (s.window.linkedList.map timeless) ∧
    nodes.map seqnumOf = endingAt (next_seqnum s - 1) s.fec.i.toNat
  tail : s.eof_reached = false → s.fec.i ≠ 0 → s.window.seqnumTail = next_seqnum s - 1

theorem fecFilled_initial (copybuf : Mem) : FecFilled (.initial copybuf) where
  nodup := List.nodup_nil
  fresh := by simp [Sender.initial, Window.initial]
  le := (by decide : (0 : UInt8).toNat ≤ 3)
  entries := ⟨[], rfl, List.Sublist.refl _, rfl⟩
  tail := fun _ hi => absurd rfl hi

theorem FecFilled.of_zero {s : Sender} (hnodup : (s.window.linkedList.map Node.addr).Nodup)
    (hfresh : ∀ node ∈ s.window.linkedList, node.addr < s.allocated) (hi : s.fec.i = 0) : FecFilled s where
  nodup := hnodup
  fresh := hfresh
  le := by simp [hi]
  entries := ⟨[], by simp [Accumulates, hi], List.nil_sublist _, by simp [hi, endingAt]⟩
  tail := fun _ hne => absurd hi hne

theorem Accumulates.length {fec : FecPkt} {nodes : List Node} (h : Accumulates fec nodes) :
    nodes.length = fec.i.toNat := by
  have hlen := congrArg List.length h
  simpa using hlen.symm

theorem live_of_sublist (window : Window Node) (hnodup : (window.linkedList.map Node.addr).Nodup) {nodes : List Node}
    (hsub : List.Sublist (nodes.map timeless) (window.linkedList.map timeless)) :
    (nodes.map Node.addr).Nodup ∧ ∀ node ∈ nodes, Live window node := by
  constructor
  · rw [← timeless_addr nodes]
    refine (hsub.map Node.addr).nodup ?_
    rw [timeless_addr]
    exact hnodup
  · intro node hnode
    obtain ⟨live, hlive, heq⟩ := List.mem_map.mp (hsub.subset (List.mem_map_of_mem hnode))
    exact ⟨live, hlive, retimed_of_timeless heq.symm⟩

theorem FecFilled.right {s : Sender} (h : FecFilled s) (heof : s.eof_reached = false) : FecRight s := by
  obtain ⟨nodes, hacc, hsub, hnum⟩ := h.entries
  obtain ⟨hnodup, hlive⟩ := live_of_sublist _ h.nodup hsub
  refine ⟨h.le, nodes, hacc, hnodup, hlive, ?_⟩
  by_cases hi : s.fec.i = 0
  · have hlen := hacc.length
    rw [hi] at hlen ⊢
    rw [List.length_eq_zero_iff.mp hlen]
    rfl
  · rw [hnum, h.tail heof hi]

/-! ## The calls -/

theorem sublist_push {nodes list : List Node} (h : List.Sublist (nodes.map timeless) (list.map timeless))
    (node : Node) :
    List.Sublist (nodes.map timeless) ((list ++ [node]).map timeless) ∧
      List.Sublist ((nodes ++ [node]).map timeless) ((list ++ [node]).map timeless) := by
  rw [List.map_append, List.map_append]
  exact ⟨h.trans (List.sublist_append_left _ _), h.append (List.Sublist.refl _)⟩

theorem FecFilled.push {s : Sender} (h : FecFilled s) (node : Node) (haddr : node.addr = s.allocated) :
    ((s.window.linkedList ++ [node]).map Node.addr).Nodup ∧
      ∀ n ∈ s.window.linkedList ++ [node], n.addr < s.allocated + 1 := by
  constructor
  · rw [List.map_append, List.nodup_append]
    refine ⟨h.nodup, List.nodup_singleton _, ?_⟩
    intro a ha b hb heq
    obtain ⟨n, hn, rfl⟩ := List.mem_map.mp ha
    have hlt := h.fresh n hn
    rw [List.map_singleton, List.mem_singleton] at hb
    omega
  · intro n hn
    rcases List.mem_append.mp hn with hold | hnew
    · exact Nat.lt_succ_of_lt (h.fresh n hold)
    · rw [List.mem_singleton.mp hnew, haddr]
      exact Nat.lt_succ_self _

theorem Accumulates.push {fec : FecPkt} {nodes : List Node} (h : Accumulates fec nodes) (node : Node) :
    (List.range (fec.i.toNat + 1)).map (Function.update fec.pkts fec.i.toNat (some node)) =
      (nodes ++ [node]).map some := by
  rw [List.range_succ, List.map_append, List.map_append, List.map_singleton, List.map_singleton,
    Function.update_self, ← h]
  congr 1
  refine List.map_congr_left fun j hj => ?_
  exact Function.update_of_ne (Nat.ne_of_lt (List.mem_range.mp hj)) _ _

theorem Accumulates.isSome {fec : FecPkt} {nodes : List Node} (h : Accumulates fec nodes) :
    ∀ k < fec.i.toNat, (fec.pkts k).isSome := by
  intro k hk
  have hmem : fec.pkts k ∈ nodes.map some := by
    rw [← h]
    exact List.mem_map_of_mem (List.mem_range.mpr hk)
  obtain ⟨n, -, heq⟩ := List.mem_map.mp hmem
  rw [← heq]
  rfl

/-- The four packets of the `FEC`, in a turn that comes to it. -/
theorem FecFilled.generates {s : Sender} (h : FecFilled s) : GeneratesRight crc32 s := by
  intro io s' hs hpread hwrite hthree
  obtain ⟨_, heof, _, ⟨hend, _⟩ | ⟨_, copybuf, stats, sent, io_error, rfl⟩⟩ := turn_step_cases hs
  · exact absurd hend hpread
  obtain ⟨nodes, hacc, hsub, hnum⟩ := h.entries
  have hpush := hacc.push (turn_node s io)
  obtain ⟨_, hsub'⟩ := sublist_push hsub (turn_node s io)
  obtain ⟨hnodup, hlive⟩ := live_of_sublist
    { s.window with linkedList := s.window.linkedList ++ [turn_node s io] } (h.push _ rfl).1 hsub'
  have hi : s.fec.i.toNat + 1 = 4 := by rw [hthree]; rfl
  rw [hi] at hpush
  refine ⟨_, hpush, hnodup, hlive, next_seqnum s - 3, ?_⟩
  rw [List.map_append, List.map_singleton, hnum, turn_node_seqnum, ← endingAt_succ, hi, ← endingAt_four,
    UInt8.sub_add_cancel]

theorem FecFilled.fill {s s' : Sender} (h : FecFilled s) {io : FillIO} {fec_enable : Bool}
    (hok : FecSafe crc32 s (.fill io fec_enable)) (hs : turn_step crc32 s io fec_enable = some s') : FecFilled s' := by
  obtain ⟨rfl, hwrite⟩ := hok
  obtain ⟨_, heof, _, ⟨_, rfl⟩ | ⟨hpread, copybuf, stats, sent, io_error, rfl⟩⟩ := turn_step_cases hs
  · exact ⟨h.nodup, h.fresh, h.le, h.entries, fun hfalse => absurd hfalse (by decide : ¬ true = false)⟩
  obtain ⟨nodes, hacc, hsub, hnum⟩ := h.entries
  obtain ⟨hnodup, hfresh⟩ := h.push (turn_node s io) rfl
  obtain ⟨hkeep, hadd⟩ := sublist_push hsub (turn_node s io)
  cases hw : io.write with
  | false =>
    -- the packet is in the list, but it is not accumulated and the numbers stay
    have hfec : turn_fec s io true = (false, s.fec) := by rw [turn_fec, hw, if_neg (by decide)]
    simp only [hfec, Bool.false_eq_true, if_false]
    exact ⟨hnodup, hfresh, h.le, ⟨nodes, hacc, hkeep, hnum⟩, h.tail⟩
  | true =>
    have hi := fec_succ_toNat h.le
    have hpush := hacc.push (turn_node s io)
    have hturn : turn_fec s io true = fec_push s.fec (turn_node s io) io.writeFec := by
      rw [turn_fec, hw, if_pos rfl, if_pos rfl]
    by_cases hthree : s.fec.i = 3
    · refine FecFilled.of_zero hnodup hfresh ?_
      simp only [hturn, fec_push_four hthree hacc.isSome, hwrite hpread hw hthree, if_true]
    · simp only [hturn, fec_push_less hthree, if_true]
      have hle := h.le
      have hne : s.fec.i.toNat ≠ 3 := fun heq => hthree (UInt8.toNat_inj.mp heq)
      refine ⟨hnodup, hfresh, by simp only [hi]; omega, ⟨nodes ++ [turn_node s io], ?_, hadd, ?_⟩, fun _ _ => ?_⟩
      · simp only [Accumulates, hi]
        exact hpush
      · rw [next_seqnum_succ (s := s) rfl, UInt8.add_sub_cancel]
        simp only [hi]
        rw [endingAt_succ, ← hnum, ← turn_node_seqnum s io, List.map_append, List.map_singleton]
      · rw [next_seqnum_succ (s := s) rfl, UInt8.add_sub_cancel]
        rfl

theorem FecFilled.final {s s' : Sender} (h : FecFilled s) {time : UInt32} {write : Bool}
    (hs : final_step crc32 s time write = some s') : FecFilled s' := by
  obtain ⟨_, _, heof, _, copybuf, stats, sent, io_error, allocated, rfl, rfl⟩ := final_step_eq hs
  have htail : s.eof_reached = false → s.fec.i ≠ 0 → s.window.seqnumTail + 1 = next_seqnum s - 1 :=
    fun hfalse => absurd (heof.symm.trans hfalse) (by decide)
  cases write with
  | false => exact ⟨h.nodup, h.fresh, h.le, h.entries, htail⟩
  | true =>
    obtain ⟨nodes, hacc, hsub, hnum⟩ := h.entries
    obtain ⟨hnodup, hfresh⟩ := h.push (final_node s time) rfl
    exact ⟨hnodup, hfresh, h.le, ⟨nodes, hacc, (sublist_push hsub _).1, hnum⟩, htail⟩

theorem FecFilled.resend {s s' : Sender} (h : FecFilled s) {io : Nat → UInt32 × Bool}
    (hs : resent_step crc32 s io = some s') : FecFilled s' := by
  obtain ⟨_, _, copybuf, stats, sent, io_error, list, hlist, rfl⟩ := resent_step_eq hs
  have htimeless := Retimed.timeless hlist
  have haddr : list.map Node.addr = s.window.linkedList.map Node.addr := by
    rw [← timeless_addr, htimeless, timeless_addr]
  obtain ⟨nodes, hacc, hsub, hnum⟩ := h.entries
  refine ⟨by simp only [haddr]; exact h.nodup, ?_, h.le, ⟨nodes, hacc, by simp only [htimeless]; exact hsub, hnum⟩,
    h.tail⟩
  intro node hnode
  have hmem : node.addr ∈ s.window.linkedList.map Node.addr := by
    rw [← haddr]
    exact List.mem_map_of_mem hnode
  obtain ⟨old, hold, heq⟩ := List.mem_map.mp hmem
  rw [← heq]
  exact h.fresh old hold

/-- Of what ends with `last`, nothing is beyond the part of the list that ends with it. -/
theorem sublist_take {nodes front rest : List Node} {last : Node}
    (hnodup : ((front ++ [last] ++ rest).map Node.addr).Nodup)
    (h : List.Sublist ((nodes ++ [last]).map timeless) ((front ++ [last] ++ rest).map timeless)) :
    List.Sublist ((nodes ++ [last]).map timeless) ((front ++ [last]).map timeless) := by
  rw [@List.map_append _ _ timeless (front ++ [last]) rest, List.sublist_append_iff] at h
  obtain ⟨l₁, l₂, heq, h₁, h₂⟩ := h
  rcases List.eq_nil_or_concat' l₂ with rfl | ⟨l₂', x, rfl⟩
  · rw [heq, List.append_nil]
    exact h₁
  · -- `last` would be in the list twice
    rw [List.map_append, List.map_singleton, ← List.append_assoc] at heq
    obtain ⟨_, hx⟩ := List.append_inj' heq rfl
    obtain ⟨live, hlive, htimeless⟩ :=
      List.mem_map.mp (h₂.subset (List.mem_append_right l₂' (List.mem_singleton_self x)))
    rw [List.map_append, List.nodup_append] at hnodup
    refine absurd rfl (hnodup.2.2 last.addr ?_ last.addr ?_)
    · rw [List.map_append]
      exact List.mem_append_right _ (List.mem_singleton_self _)
    · refine List.mem_map.mpr ⟨live, hlive, ?_⟩
      have hsame : (timeless live).addr = (timeless last).addr := by
        rw [htimeless]
        exact congrArg Node.addr (List.singleton_inj.mp hx).symm
      exact hsame

theorem timeless_seqnum {node node' : Node} (h : timeless node = timeless node') : seqnumOf node = seqnumOf node' :=
  (retimed_of_timeless h).seqnum.symm

theorem Accumulates.last {fec : FecPkt} {nodes : List Node} (h : Accumulates fec nodes) {k : Nat}
    (hk : fec.i.toNat = k + 1) {node : Node} (hnode : fec.pkts k = some node) : ∃ init, nodes = init ++ [node] := by
  rcases List.eq_nil_or_concat' nodes with rfl | ⟨init, last, rfl⟩
  · have hlen := h.length
    rw [hk] at hlen
    contradiction
  · refine ⟨init, ?_⟩
    unfold Accumulates at h
    rw [hk, List.range_succ, List.map_append, List.map_append] at h
    have hlast := List.append_inj_right' h rfl
    rw [List.map_singleton, List.map_singleton, List.singleton_inj, hnode, Option.some.injEq] at hlast
    rw [hlast]

/-- The addresses tell the packets of the list apart. -/
theorem timeless_of_addr {window : Window Node} (hnodup : (window.linkedList.map Node.addr).Nodup) {nodes : List Node}
    (hsub : List.Sublist (nodes.map timeless) (window.linkedList.map timeless)) {node live : Node}
    (hnode : node ∈ nodes) (hlive : live ∈ window.linkedList) (haddr : live.addr = node.addr) :
    timeless live = timeless node := by
  obtain ⟨old, hold, heq⟩ := List.mem_map.mp (hsub.subset (List.mem_map_of_mem hnode))
  have hsame : (timeless old).addr = (timeless node).addr := congrArg Node.addr heq
  rw [← List.inj_on_of_nodup_map hnodup hold hlive (hsame.trans haddr.symm), heq]

theorem FecFilled.shrink {s u : Sender} (h : FecFilled s) {size : Nat} {stale : UInt8} (hi : s.fec.i ≠ 0)
    (hkeep : KeepsFec s size) (hwindow : u.window = shrink_window s.window size stale) (hfec : u.fec = s.fec)
    (hcount : u.global_pkt = s.global_pkt - UInt64.ofNat (Protocol.dropped s.window size))
    (halloc : u.allocated = s.allocated) : FecFilled u := by
  obtain ⟨node, hnode, live, hlive, haddr, hnext⟩ := hkeep
  obtain ⟨nodes, hacc, hsub, hnum⟩ := h.entries
  obtain ⟨k, hk⟩ : ∃ k, s.fec.i.toNat = k + 1 :=
    Nat.exists_eq_succ_of_ne_zero fun hzero => hi (UInt8.toNat_inj.mp hzero)
  rw [hk, Nat.add_sub_cancel] at hnode
  -- the last entry is the last packet that stays
  obtain ⟨init, rfl⟩ := hacc.last hk hnode
  obtain ⟨front, hfront⟩ := List.getLast?_eq_some_iff.mp hlive
  have hlist := List.take_append_drop size s.window.linkedList
  rw [hfront] at hlist
  have hin : live ∈ s.window.linkedList := by
    rw [← hlist]
    simp
  have htimeless : timeless live = timeless node :=
    timeless_of_addr h.nodup hsub List.mem_concat_self hin haddr
  rw [hk, endingAt_succ, List.map_append, List.map_singleton] at hnum
  have hseq : seqnumOf live = next_seqnum s - 1 := by
    have hlast := List.append_inj_right' hnum rfl
    rw [List.singleton_inj] at hlast
    rw [← hlast]
    exact timeless_seqnum htimeless
  have hsucc : next_seqnum u = next_seqnum s := by
    rw [next_seqnum, hcount, hnext, hseq, UInt8.sub_add_cancel]
  have hinit : (init ++ [live]).map timeless = (init ++ [node]).map timeless := by
    rw [List.map_append, List.map_append, List.map_singleton, List.map_singleton, htimeless]
  have hsub' : List.Sublist ((init ++ [node]).map timeless) ((front ++ [live]).map timeless) := by
    rw [← hinit] at hsub ⊢
    rw [← hlist] at hsub
    exact sublist_take (by rw [hlist]; exact h.nodup) hsub
  have htake : u.window.linkedList = s.window.linkedList.take size := by
    rw [hwindow, Protocol.shrink_window_linkedList]
  refine ⟨?_, ?_, by rw [hfec]; exact h.le, ⟨init ++ [node], by rw [hfec]; exact hacc, ?_, ?_⟩, fun _ _ => ?_⟩
  · rw [htake]
    exact ((List.take_sublist size _).map Node.addr).nodup h.nodup
  · rw [htake, halloc]
    exact fun n hn => h.fresh n (List.mem_of_mem_take hn)
  · rw [htake, hfront]
    exact hsub'
  · rw [hfec, hsucc, hk, endingAt_succ, List.map_append, List.map_singleton, hnum]
  · rw [hwindow, hsucc, ← hseq]
    simp only [shrink_window, remove_end_while_eq, Option.mem_def.mp hlive, Option.map_some, Option.getD_some]

/-- An `ACK` that removes a packet forgets what was accumulated. -/
theorem FecFilled.handled {u : Sender} {pkt : Pkt} {fec : FecPkt} (hnodup : (u.window.linkedList.map Node.addr).Nodup)
    (hfresh : ∀ node ∈ u.window.linkedList, node.addr < u.allocated) (hpkts : fec.pkts = u.fec.pkts)
    (hi : fec.i = u.fec.i ∨ fec.i = 0) (hremoved : fec.i = 0 ∨ handled_window u.window pkt = u.window)
    (h : fec.i ≠ 0 → FecFilled u) (stats : SenderStats) (stopped : Option Stop) :
    FecFilled { u with fec, stats, window := handled_window u.window pkt, stopped } := by
  have hsuffix := handled_window_suffix u.window pkt
  by_cases hzero : fec.i = 0
  · refine FecFilled.of_zero ((hsuffix.sublist.map Node.addr).nodup hnodup) ?_ hzero
    exact fun node hnode => hfresh node (hsuffix.subset hnode)
  · have hfec : fec = u.fec := by
      obtain ⟨pkts, i⟩ := fec
      have hsame := hi.resolve_right hzero
      simp only at hpkts hsame
      rw [hpkts, hsame]
    obtain ⟨hn, hf, hle, hentries, htail⟩ := h hzero
    rw [hremoved.resolve_left hzero, hfec]
    exact ⟨hn, hf, hle, hentries, htail⟩

theorem FecFilled.response {s s' : Sender} (h : FecFilled s) {bytes_read : Option (List UInt8)} {time : UInt32}
    {stale : Pkt} (hok : FecSafe crc32 s (.response bytes_read time stale))
    (hs : response_step crc32 s bytes_read time stale = some s') : FecFilled s' := by
  obtain ⟨_, ⟨_, copybuf, stats, rfl⟩ | ⟨pkt, u, fec, stats, hincoming, hu, hpkts, hi, hremoved, rfl⟩⟩ :=
    response_step_cases hs
  · exact ⟨h.nodup, h.fresh, h.le, h.entries, h.tail⟩
  rcases updated_cases hu with ⟨_, _, heq⟩ | ⟨hshrink, heq⟩
  · have hfilled : FecFilled u := by
      rw [heq]
      exact ⟨h.nodup, h.fresh, h.le, h.entries, h.tail⟩
    exact FecFilled.handled hfilled.nodup hfilled.fresh hpkts hi hremoved (fun _ => hfilled) _ _
  · have hlist : u.window.linkedList = s.window.linkedList.take (pkt_get_window pkt).toNat := by
      rw [heq]
      exact Protocol.shrink_window_linkedList ..
    have hfec : u.fec = s.fec := by rw [heq]
    have halloc : u.allocated = s.allocated := by rw [heq]
    refine FecFilled.handled ?_ ?_ hpkts hi hremoved (fun hne => ?_) _ _
    · rw [hlist]
      exact ((List.take_sublist _ _).map Node.addr).nodup h.nodup
    · rw [hlist, halloc]
      exact fun node hnode => h.fresh node (List.mem_of_mem_take hnode)
    · have hfi : fec.i = s.fec.i := by
        rw [← hfec]
        exact hi.resolve_right hne
      rcases hok pkt hincoming hshrink with hzero | hkeep | ⟨hack, hcan, node, hnode, hseq⟩
      · exact absurd (hfi.trans hzero) hne
      · exact h.shrink (fun hzero => hne (hfi.trans hzero)) hkeep (by rw [heq]) hfec (by rw [heq]) halloc
      · -- the packet is removed
        have hwindow : u.window = shrink_window s.window (pkt_get_window pkt).toNat (pkt_get_seqnum stale) := by
          rw [heq]
        have hsame := hremoved.resolve_left hne
        rw [handled_window, if_pos hack, acked_window_eq_iff, hwindow, hcan] at hsame
        exact absurd (hsame.resolve_left (by decide) node hnode) hseq

theorem call_step_fec {s s' : Sender} (h : FecFilled s) {a : SenderCall} (hok : FecSafe crc32 s a)
    (hs : call_step crc32 s a = some s') : FecFilled s' := by
  cases a with
  | fill io fec_enable => exact h.fill hok hs
  | final time write => exact h.final hs
  | resend io => exact h.resend hs
  | response bytes_read time stale => exact h.response hok hs

/-! ## The runs -/

/-- Whenever `fill_window` can go on, `fec->pkts` is right, and so is the next `FEC`. -/
theorem fec_accumulator {copybuf : Mem} {s : Sender}
    (h : Reach (call_step crc32) (FecSafe crc32) (.initial copybuf) s) :
    (s.eof_reached = false → FecRight s) ∧ GeneratesRight crc32 s := by
  have hfilled : FecFilled s :=
    h.invariant (fecFilled_initial copybuf) fun _ _ _ hf hok hs => call_step_fec hf hok hs
  exact ⟨hfilled.right, hfilled.generates⟩

/-- Four packets and their `FEC`, a fifth packet, and a smaller window that keeps it. -/
def fecRun : List SenderCall :=
  .response (some (pkt_bytes zlib_crc32 (responsePkt false 0 6))) 0 pkt_new ::
    List.replicate 5 (.fill ⟨fun _ => some [7], 0, true, true⟩ true) ++
      [.response (some (pkt_bytes zlib_crc32 (responsePkt false 0 5))) 0 pkt_new]

theorem fec_accumulator_shrink :
    ∃ s, Reach (call_step zlib_crc32) (FecSafe zlib_crc32) (.initial fun _ => 0) s ∧ s.stats.fec_sent = 1 ∧
      s.window.windowsize = 5 ∧ s.window.linkedList.length = 5 ∧ s.fec.i = 1 ∧ FecRight s := by
  have hdone : (run (call_step zlib_crc32) (FecSafe zlib_crc32) fecRun (.initial fun _ => 0)).any
      (fun s => s.stats.fec_sent = 1 ∧ s.window.windowsize = 5 ∧ s.window.linkedList.length = 5 ∧ s.fec.i = 1 ∧
        s.eof_reached = false) = true := by
    decide +kernel
  obtain ⟨s, hrun, hs⟩ := (Option.any_eq_true _ _).mp hdone
  obtain ⟨hsent, hsize, hlist, hi, heof⟩ := of_decide_eq_true hs
  have hreach := run_reach hrun
  exact ⟨s, hreach, hsent, hsize, hlist, hi, (fec_accumulator hreach).1 heof⟩

/-- A turn that adds an entry, where the write of a `FEC` would fail. -/
theorem turn_accumulates {s : Sender} (h : FecFilled s) (hgo : s.stopped = none) (heof : s.eof_reached = false)
    (hroom : s.window.linkedList.length < s.window.windowsize) (hi : s.fec.i.toNat < 3) :
    ∃ s', turn_step crc32 s ⟨fun _ => some [7], 0, true, false⟩ true = some s' ∧ FecFilled s' ∧ s'.stopped = none ∧
      s'.eof_reached = false ∧ s'.window.linkedList.length = s.window.linkedList.length + 1 ∧
      s'.window.windowsize = s.window.windowsize ∧ s'.fec.i = s.fec.i + 1 := by
  obtain ⟨s', hs⟩ : ∃ s', turn_step crc32 s ⟨fun _ => some [7], 0, true, false⟩ true = some s' :=
    ⟨_, if_pos ⟨hgo, heof, hroom⟩⟩
  have hne : s.fec.i + 1 ≠ 4 := by
    intro hfour
    have hsucc := fec_succ_toNat (i := s.fec.i) (by omega)
    rw [hfour] at hsucc
    have h4 : (4 : UInt8).toNat = 4 := rfl
    omega
  have hok : FecSafe crc32 s (.fill ⟨fun _ => some [7], 0, true, false⟩ true) := by
    refine ⟨rfl, fun _ _ hthree => ?_⟩
    rw [hthree] at hi
    contradiction
  refine ⟨s', hs, h.fill hok hs, ?_⟩
  obtain ⟨_, _, _, ⟨hend, _⟩ | ⟨_, buf, stats, sent, io_error, rfl⟩⟩ := turn_step_cases hs
  · exact absurd (Option.some.inj hend) (List.cons_ne_nil _ _)
  refine ⟨hgo, heof, by simp, rfl, ?_⟩
  simp only [turn_fec, if_true, fec_push, if_neg hne]

theorem turns_accumulate (crc32 : List UInt8 → UInt32) {s : Sender} (h : FecFilled s) (hgo : s.stopped = none)
    (heof : s.eof_reached = false) (hi : s.fec.i = 0) (k : Nat) (hk : k ≤ 3)
    (hroom : s.window.linkedList.length + k ≤ s.window.windowsize) :
    ∃ s', Reach (call_step crc32) (fun s a => ¬ Strays s a) s s' ∧ FecFilled s' ∧ s'.stopped = none ∧
      s'.eof_reached = false ∧ s'.window.linkedList.length = s.window.linkedList.length + k ∧
      s'.window.windowsize = s.window.windowsize ∧ s'.fec.i.toNat = k := by
  induction k with
  | zero => exact ⟨s, .start, h, hgo, heof, rfl, rfl, by rw [hi]; rfl⟩
  | succ k ih =>
    obtain ⟨s₁, hreach, hf₁, hgo₁, heof₁, hlen₁, hsize₁, hi₁⟩ := ih (by omega) (by omega)
    obtain ⟨s₂, hs₂, hf₂, hgo₂, heof₂, hlen₂, hsize₂, hi₂⟩ := turn_accumulates hf₁ hgo₁ heof₁ (by omega) (by omega)
    have hin : ¬ Strays s₁ (.fill ⟨fun _ => some [7], 0, true, false⟩ true) :=
      fun hover => absurd (hover.2.2.2.trans hf₁.le) (by decide)
    refine ⟨s₂, hreach.next (a := .fill _ true) hin hs₂, hf₂, hgo₂, heof₂, ?_, hsize₂.trans hsize₁, ?_⟩
    · rw [hlen₂, hlen₁, Nat.add_assoc]
    · rw [hi₂, fec_succ_toNat hf₁.le, hi₁]

/-- With room for five packets, the write of the first `FEC` fails. Up to there no call strays. -/
theorem failed_fec_full (crc32 : List UInt8 → UInt32) {n : Nat} (hfive : 5 ≤ n) (hn : n ≤ MAX_WINDOW_SIZE) :
    ∃ s, Reach (call_step crc32) (fun s a => ¬ Strays s a) (.initial fun _ => 0) s ∧ s.stopped = none ∧
      s.eof_reached = false ∧ s.window.linkedList.length = 4 ∧ s.window.windowsize = n ∧ s.fec.i = 4 := by
  obtain ⟨_, s, hs, buf, stats, heq⟩ := nack_grows crc32 (s := .initial fun _ => 0) rfl n (by omega) hn
    (by omega : 1 ≤ n) 0
  have hsize : s.window.windowsize = n := by rw [heq]
  have hnil : s.window.linkedList = [] := by
    rw [heq]
    rfl
  have hi : s.fec.i = 0 := by
    rw [heq]
    rfl
  have hlist : s.window.linkedList.length = 0 := by rw [hnil, List.length_nil]
  have hfilled : FecFilled s :=
    .of_zero (by rw [hnil]; exact List.nodup_nil) (by rw [hnil]; exact fun _ h => absurd h List.not_mem_nil) hi
  obtain ⟨s₃, hreach, hf₃, hgo₃, heof₃, hlen₃, hsize₃, hi₃⟩ := turns_accumulate crc32 hfilled
    (by rw [heq]; rfl) (by rw [heq]; rfl) hi 3 (by decide) (by omega)
  have hthree : s₃.fec.i = 3 := UInt8.toNat_inj.mp hi₃
  obtain ⟨s₄, hs₄⟩ : ∃ s₄, turn_step crc32 s₃ ⟨fun _ => some [7], 0, true, false⟩ true = some s₄ :=
    ⟨_, if_pos ⟨hgo₃, heof₃, by omega⟩⟩
  have hin : ¬ Strays s₃ (.fill ⟨fun _ => some [7], 0, true, false⟩ true) :=
    fun hover => absurd (hover.2.2.2.trans hf₃.le) (by decide)
  have hfour : Reach (call_step crc32) (fun s a => ¬ Strays s a) (.initial fun _ => 0) s₄ :=
    ((Reach.step_one (a := .response _ 0 pkt_new) id hs).trans hreach).next (a := .fill _ true) hin hs₄
  obtain ⟨_, _, _, ⟨hend, _⟩ | ⟨_, buf₄, stats₄, sent₄, io₄, heq₄⟩⟩ := turn_step_cases hs₄
  · exact absurd (Option.some.inj hend) (List.cons_ne_nil _ _)
  obtain ⟨nodes, hacc, _, _⟩ := hf₃.entries
  refine ⟨s₄, hfour, by rw [heq₄]; exact hgo₃, by rw [heq₄]; exact heof₃, ?_, ?_, ?_⟩
  · rw [heq₄]
    simp only [List.length_append, List.length_singleton]
    omega
  · rw [heq₄]
    exact hsize₃.trans hsize
  · rw [heq₄]
    simp only [turn_fec, if_true, fec_push_four hthree hacc.isSome, hthree, Bool.false_eq_true, if_false]
    rfl

/-- The next packet would be stored outside the array. -/
theorem failed_fec_accumulates :
    ∃ s, Reach (call_step zlib_crc32) (fun _ _ => True) (.initial fun _ => 0) s ∧ s.stopped = none ∧
      s.eof_reached = false ∧ s.window.linkedList.length < s.window.windowsize ∧ s.fec.i = 4 ∧ ¬ FecRight s := by
  obtain ⟨s, hreach, hgo, heof, hlen, hsize, hfour⟩ := failed_fec_full zlib_crc32 (n := 5) (by decide) (by decide)
  refine ⟨s, hreach.mono fun _ _ _ => trivial, hgo, heof, by omega, hfour, fun hright => ?_⟩
  have hle := hright.le
  rw [hfour] at hle
  contradiction

end Trtp
