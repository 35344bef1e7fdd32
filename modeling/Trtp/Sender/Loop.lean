import Trtp.Refine.Conditions

/-!
# The calls of the sender's loop

The turns of `fill_window` and the other calls, in any order that their own tests allow. `pread`, `read`, `write` and
the clock may give anything.
-/

open Trtp.Lib

namespace Trtp

inductive SenderCall where
  | fill (io : FillIO) (fec_enable : Bool)
  | final (time : UInt32) (write : Bool)
  | resend (io : Nat → UInt32 × Bool)
  | response (bytes_read : Option (List UInt8)) (time : UInt32) (stale : Pkt)

def FillTurn.state : FillTurn → Sender
  | .eof s | .failed s | .filled s => s

variable (crc32 : List UInt8 → UInt32)

/-- One turn of the loop of `fill_window`. -/
def turn_step (s : Sender) (io : FillIO) (fec_enable : Bool) : Option Sender :=
  if s.stopped = none ∧ s.eof_reached = false ∧ s.window.linkedList.length < s.window.windowsize then
    some (fill_turn crc32 s io fec_enable).state
  else none

def call_step (s : Sender) : SenderCall → Option Sender
  | .fill io fec_enable => turn_step crc32 s io fec_enable
  | .final time write => final_step crc32 s time write
  | .resend io => resent_step crc32 s io
  | .response bytes_read time stale => response_step crc32 s bytes_read time stale

/-- The turn stores at `fec->pkts[fec->i]`, and there is no such entry. -/
def Overruns (s : Sender) (io : FillIO) (fec_enable : Bool) : Prop :=
  fec_enable = true ∧ io.pread (chunkOffset s.global_pkt) ≠ some [] ∧ io.write = true ∧ 4 ≤ s.fec.i.toNat

instance (s : Sender) (io : FillIO) (fec_enable : Bool) : Decidable (Overruns s io fec_enable) :=
  inferInstanceAs (Decidable (_ ∧ _ ∧ _ ∧ _))

/-- What the source does is not defined: a store outside `fec->pkts`, or `resent_pkt` on an empty list, which comes
next when the write of the final packet fails there. `call_step` goes on as if nothing had happened. -/
def Strays (s : Sender) : SenderCall → Prop
  | .fill io fec_enable => Overruns s io fec_enable
  | .final _ write => write = false ∧ s.window.linkedList = []
  | .resend _ | .response .. => False

instance (s : Sender) (a : SenderCall) : Decidable (Strays s a) :=
  match a with
  | .fill io fec_enable => inferInstanceAs (Decidable (Overruns s io fec_enable))
  | .final _ write => decidable_of_iff (write = false ∧ s.window.linkedList.isEmpty = true)
      (and_congr_right fun _ => List.isEmpty_iff)
  | .resend _ | .response .. => .isFalse id

variable {crc32}

/-! ## A turn of `fill_window` -/

/-- The node of the packet that a turn makes. -/
def turn_node (s : Sender) (io : FillIO) : Node :=
  let bytes_read := io.pread (chunkOffset s.global_pkt)
  { addr := s.allocated
    index := chunkIndex s.global_pkt
    pkt := data_pkt s.window.windowsize (UInt8.ofNat (s.global_pkt.toNat % 256)) (load (bytes_read.getD []) s.copybuf)
      (readCount bytes_read) io.time }

/-- What the part under `fec_enable` makes of `fec`. False for a failed write. -/
def fec_push (fec : FecPkt) (node : Node) (writeFec : Bool) : Bool × FecPkt :=
  let fec : FecPkt := ⟨Function.update fec.pkts fec.i.toNat (some node), fec.i + 1⟩
  if fec.i = 4 then
    match fec.pkts 0, fec.pkts 1, fec.pkts 2, fec.pkts 3 with
    | some _, some _, some _, some _ => (writeFec, ⟨fec.pkts, if writeFec then 0 else fec.i⟩)
    | _, _, _, _ => (true, fec)
  else (true, fec)

/-- Whether a turn comes to its end, and `fec` then. -/
def turn_fec (s : Sender) (io : FillIO) (fec_enable : Bool) : Bool × FecPkt :=
  if io.write then
    if fec_enable then fec_push s.fec (turn_node s io) io.writeFec else (true, s.fec)
  else (false, s.fec)

theorem fec_succ_toNat {i : UInt8} (h : i.toNat ≤ 3) : (i + 1).toNat = i.toNat + 1 := by
  rw [UInt8.toNat_add, UInt8.toNat_one]
  omega

/-- The fourth packet: only a failed write leaves `fec->i` at 4. -/
theorem fec_push_four {fec : FecPkt} (hthree : fec.i = 3) (hsome : ∀ k < fec.i.toNat, (fec.pkts k).isSome)
    (node : Node) (writeFec : Bool) :
    fec_push fec node writeFec =
      (writeFec, ⟨Function.update fec.pkts fec.i.toNat (some node), if writeFec then 0 else fec.i + 1⟩) := by
  rw [hthree] at hsome
  obtain ⟨n0, h0⟩ := Option.isSome_iff_exists.mp (hsome 0 (by decide))
  obtain ⟨n1, h1⟩ := Option.isSome_iff_exists.mp (hsome 1 (by decide))
  obtain ⟨n2, h2⟩ := Option.isSome_iff_exists.mp (hsome 2 (by decide))
  simp [fec_push, hthree, Function.update, h0, h1, h2]

theorem fec_push_less {fec : FecPkt} (hne : fec.i ≠ 3) (node : Node) (writeFec : Bool) :
    fec_push fec node writeFec = (true, ⟨Function.update fec.pkts fec.i.toNat (some node), fec.i + 1⟩) := by
  have hfour : fec.i + 1 ≠ 4 := by
    intro h4
    apply hne
    have heq : fec.i + 1 - 1 = 4 - 1 := by rw [h4]
    rwa [UInt8.add_sub_cancel] at heq
  rw [fec_push, if_neg hfour]

/-- `pkt_set_payload` refuses a count over 512, and the length stays 0. -/
theorem data_pkt_eq (windowsize : Nat) (seqnum : UInt8) (copybuf : Mem) (bytes_read : UInt16) (time : UInt32) :
    (data_pkt windowsize seqnum copybuf bytes_read time).type = .DATA ∧
      (data_pkt windowsize seqnum copybuf bytes_read time).length =
        if bytes_read.toNat ≤ MAX_PAYLOAD_SIZE then bytes_read else 0 := by
  have hset : ∀ pkt : Pkt, pkt.type = .DATA → pkt.length = 0 →
      (pkt_set_payload pkt copybuf bytes_read).2.type = .DATA ∧
        (pkt_set_payload pkt copybuf bytes_read).2.length =
          if bytes_read.toNat ≤ MAX_PAYLOAD_SIZE then bytes_read else 0 := by
    intro pkt ht hzero
    by_cases hle : bytes_read.toNat ≤ MAX_PAYLOAD_SIZE
    · rw [pkt_set_payload, if_pos ht, pkt_set_length_data ht hle, if_pos hle]
      simp only
      split
      · exact ⟨ht, rfl⟩
      · exact ⟨ht, rfl⟩
    · rw [pkt_set_payload, if_pos ht, pkt_set_length_eq (Or.inl ht), if_pos (Nat.lt_of_not_le hle), if_neg hle]
      exact ⟨ht, hzero⟩
  simp only [data_pkt, pkt_set_type_code, pkt_set_seqnum, pkt_set_window_snd, pkt_set_tr_zero, pkt_set_timestamp]
  exact hset _ rfl rfl

theorem turn_node_isFinal {s : Sender} {io : FillIO} {d : List UInt8}
    (hd : io.pread (chunkOffset s.global_pkt) = some d) (hne : d ≠ []) (hle : d.length ≤ MAX_PAYLOAD_SIZE) :
    isFinal (turn_node s io) = false := by
  have hpos := List.length_pos_iff.mpr hne
  have hlen : (UInt16.ofNat d.length).toNat = d.length := by
    unfold MAX_PAYLOAD_SIZE at hle
    rw [UInt16.toNat_ofNat']
    omega
  apply decide_eq_false
  simp only [turn_node, hd, pkt_get_length, readCount, Option.getD_some]
  rw [(data_pkt_eq _ _ _ _ _).2, if_pos (hlen.trans_le hle)]
  intro hzero
  rw [hzero, UInt16.toNat_zero] at hlen
  omega

theorem write_pkt_cases (crc32 : List UInt8 → UInt32) (s : Sender) (chunk : Option Nat) (pkt : Pkt) (write : Bool) :
    ∃ copybuf sent io_error, s.write_pkt crc32 chunk pkt write = { s with copybuf, sent, io_error } := by
  cases write with
  | true => exact ⟨_, _, _, rfl⟩
  | false => exact ⟨_, _, _, rfl⟩

theorem fill_fec_eq (s : Sender) (node : Node) (writeFec : Bool) :
    ∃ copybuf stats sent io_error, fill_fec crc32 s node writeFec =
      ((fec_push s.fec node writeFec).1,
        { s with copybuf, stats, sent, io_error, fec := (fec_push s.fec node writeFec).2 }) := by
  unfold fill_fec fec_push
  generalize (⟨Function.update s.fec.pkts s.fec.i.toNat (some node), s.fec.i + 1⟩ : FecPkt) = fec
  obtain ⟨pkts, i⟩ := fec
  by_cases h4 : i = 4
  swap
  · simp only [h4, if_false]
    exact ⟨_, _, _, _, rfl⟩
  subst h4
  simp only [if_true]
  rcases pkts 0 with _ | n0
  · exact ⟨_, _, _, _, rfl⟩
  rcases pkts 1 with _ | n1
  · exact ⟨_, _, _, _, rfl⟩
  rcases pkts 2 with _ | n2
  · exact ⟨_, _, _, _, rfl⟩
  rcases pkts 3 with _ | n3
  · exact ⟨_, _, _, _, rfl⟩
  obtain ⟨copybuf, sent, io_error, hs⟩ := write_pkt_cases crc32 { s with fec := ⟨pkts, 4⟩ } none
    (fec_generation n0.pkt n1.pkt n2.pkt n3.pkt) writeFec
  simp only [hs]
  cases writeFec with
  | true => exact ⟨_, _, _, _, rfl⟩
  | false => exact ⟨_, _, _, _, rfl⟩

theorem fill_turn_eof {s : Sender} {io : FillIO} (h : io.pread (chunkOffset s.global_pkt) = some [])
    (fec_enable : Bool) : fill_turn crc32 s io fec_enable = .eof { s with eof_reached := true } := by
  unfold fill_turn
  rw [h]

/-- The packet is in the list whether or not its writes succeed; the numbers move only if they do. -/
theorem fill_turn_eq {s : Sender} {io : FillIO} (h : io.pread (chunkOffset s.global_pkt) ≠ some [])
    (fec_enable : Bool) :
    ∃ copybuf stats sent io_error, (fill_turn crc32 s io fec_enable).state =
      { s with
        copybuf, stats, sent, io_error
        fec := (turn_fec s io fec_enable).2
        allocated := s.allocated + 1
        global_pkt := if (turn_fec s io fec_enable).1 then s.global_pkt + 1 else s.global_pkt
        window :=
          { seqnumHead :=
              if s.window.linkedList.isEmpty then UInt8.ofNat (s.global_pkt.toNat % 256) else s.window.seqnumHead
            seqnumTail :=
              if (turn_fec s io fec_enable).1 then UInt8.ofNat (s.global_pkt.toNat % 256) else s.window.seqnumTail
            windowsize := s.window.windowsize
            linkedList := s.window.linkedList ++ [turn_node s io] } } := by
  have hturn : fill_turn crc32 s io fec_enable =
      fill_read crc32 s (io.pread (chunkOffset s.global_pkt)) io fec_enable := by
    unfold fill_turn
    split
    · contradiction
    · rfl
  rw [hturn]
  unfold fill_read turn_fec turn_node
  simp only
  generalize io.pread (chunkOffset s.global_pkt) = bytes_read
  generalize data_pkt s.window.windowsize (UInt8.ofNat (s.global_pkt.toNat % 256))
    (load (bytes_read.getD []) s.copybuf) (readCount bytes_read) io.time = pkt
  generalize hu : Sender.add_node
    { s with
      copybuf := load (bytes_read.getD []) s.copybuf
      io_error := s.io_error || bytes_read.isNone
      window := { s.window with
        seqnumHead :=
          if s.window.linkedList.isEmpty then UInt8.ofNat (s.global_pkt.toNat % 256) else s.window.seqnumHead } }
    (chunkIndex s.global_pkt) pkt = u
  have hsame : u.fec = s.fec := by
    rw [← hu]
    rfl
  obtain ⟨copybuf, sent, io_error, hs⟩ := write_pkt_cases crc32 u (some (chunkIndex s.global_pkt)) pkt io.write
  simp only [hs]
  cases hw : io.write with
  | false =>
    subst hu
    exact ⟨_, _, _, _, rfl⟩
  | true =>
    cases fec_enable with
    | false =>
      subst hu
      exact ⟨_, _, _, _, rfl⟩
    | true =>
      simp only [if_true]
      obtain ⟨copybuf', stats, sent', io_error', hfec⟩ := fill_fec_eq { u with copybuf, sent, io_error }
        ⟨s.allocated, chunkIndex s.global_pkt, pkt⟩ io.writeFec
      rw [hfec]
      simp only [hsame]
      subst hu
      cases (fec_push s.fec ⟨s.allocated, chunkIndex s.global_pkt, pkt⟩ io.writeFec).1 with
      | true => exact ⟨_, _, _, _, rfl⟩
      | false => exact ⟨_, _, _, _, rfl⟩

theorem turn_step_cases {s s' : Sender} {io : FillIO} {fec_enable : Bool}
    (h : turn_step crc32 s io fec_enable = some s') :
    s.stopped = none ∧ s.eof_reached = false ∧ s.window.linkedList.length < s.window.windowsize ∧
      ((io.pread (chunkOffset s.global_pkt) = some [] ∧ s' = { s with eof_reached := true }) ∨
        (io.pread (chunkOffset s.global_pkt) ≠ some [] ∧ ∃ copybuf stats sent io_error, s' =
          { s with
            copybuf, stats, sent, io_error
            fec := (turn_fec s io fec_enable).2
            allocated := s.allocated + 1
            global_pkt := if (turn_fec s io fec_enable).1 then s.global_pkt + 1 else s.global_pkt
            window :=
              { seqnumHead :=
                  if s.window.linkedList.isEmpty then UInt8.ofNat (s.global_pkt.toNat % 256) else s.window.seqnumHead
                seqnumTail :=
                  if (turn_fec s io fec_enable).1 then UInt8.ofNat (s.global_pkt.toNat % 256)
                  else s.window.seqnumTail
                windowsize := s.window.windowsize
                linkedList := s.window.linkedList ++ [turn_node s io] } })) := by
  unfold turn_step at h
  split at h
  swap
  · contradiction
  rename_i hguard
  refine ⟨hguard.1, hguard.2.1, hguard.2.2, ?_⟩
  rw [Option.some.injEq] at h
  by_cases hend : io.pread (chunkOffset s.global_pkt) = some []
  · rw [fill_turn_eof hend] at h
    exact Or.inl ⟨hend, h.symm⟩
  · obtain ⟨copybuf, stats, sent, io_error, hs⟩ := fill_turn_eq hend fec_enable
    exact Or.inr ⟨hend, copybuf, stats, sent, io_error, h.symm.trans hs⟩

/-! ## `send_final_pkt` -/

/-- The node of the final packet. -/
def final_node (s : Sender) (time : UInt32) : Node :=
  ⟨s.allocated, chunkIndex s.global_pkt, final_pkt s.window.windowsize (s.window.seqnumTail + 1) time⟩

theorem final_node_isFinal (s : Sender) (time : UInt32) : isFinal (final_node s time) = true :=
  (final_pkt_carries [] s.window.windowsize (chunkIndex s.global_pkt) (s.window.seqnumTail + 1) time).final

/-- The flag is set and the number counts whether or not the write succeeds. -/
theorem final_step_eq {s s' : Sender} {time : UInt32} {write : Bool} (h : final_step crc32 s time write = some s') :
    s.stopped = none ∧ s.lastPkt = false ∧ s.eof_reached = true ∧
      s.window.linkedList.length < s.window.windowsize ∧
      ∃ copybuf stats sent io_error allocated, s' =
        { s with
          copybuf, stats, sent, io_error, allocated
          lastPkt := true
          window := { s.window with
            seqnumTail := s.window.seqnumTail + 1
            linkedList :=
              if write then s.window.linkedList ++ [final_node s time] else s.window.linkedList } } ∧
        allocated = (if write then s.allocated + 1 else s.allocated) := by
  unfold final_step at h
  split at h
  swap
  · contradiction
  rename_i hguard
  refine ⟨hguard.1, hguard.2.1, hguard.2.2.1, hguard.2.2.2, ?_⟩
  have hc := final_pkt_carries [] s.window.windowsize (chunkIndex s.global_pkt) (s.window.seqnumTail + 1) time
  have hok : (pkt_encode crc32 (final_pkt s.window.windowsize (s.window.seqnumTail + 1) time) s.copybuf
      PKT_MAX_LEN).1 = .PKT_OK := by rw [hc.sendable.encode]
  simp only [send_final_pkt, hok, ne_eq, not_true_eq_false, if_false, Option.some.injEq] at h
  obtain ⟨copybuf, sent, io_error, hs⟩ := write_pkt_cases crc32
    { s with
      lastPkt := true
      window := { s.window with seqnumTail := s.window.seqnumTail + 1 } } (some (chunkIndex s.global_pkt))
    (final_pkt s.window.windowsize (s.window.seqnumTail + 1) time) write
  simp only [hs] at h
  cases write with
  | true => exact ⟨_, _, _, _, _, h.symm, rfl⟩
  | false => exact ⟨_, _, _, _, _, h.symm, rfl⟩

/-! ## `resent_pkt` -/

/-- The same node, with another timestamp. -/
def Retimed (node node' : Node) : Prop := ∃ timestamp, node' = { node with pkt := { node.pkt with timestamp } }

theorem Retimed.refl (node : Node) : Retimed node node := ⟨node.pkt.timestamp, rfl⟩

theorem Retimed.addr {node node' : Node} (h : Retimed node node') : node'.addr = node.addr := by
  obtain ⟨timestamp, rfl⟩ := h
  rfl

theorem Retimed.seqnum {node node' : Node} (h : Retimed node node') : seqnumOf node' = seqnumOf node := by
  obtain ⟨timestamp, rfl⟩ := h
  rfl

theorem Retimed.final {node node' : Node} (h : Retimed node node') : isFinal node' = isFinal node := by
  obtain ⟨timestamp, rfl⟩ := h
  rfl

/-- The addresses of the list, with whether the length is 0. -/
def tags (list : List Node) : List (Nat × Bool) := list.map fun node => (node.addr, isFinal node)

theorem Retimed.tags {list list' : List Node} (h : List.Forall₂ Retimed list list') : tags list' = tags list := by
  induction h with
  | nil => rfl
  | cons hnode _ ih =>
    unfold Trtp.tags at ih ⊢
    rw [List.map_cons, List.map_cons, ih, hnode.addr, hnode.final]

theorem tags_append (list list' : List Node) : tags (list ++ list') = tags list ++ tags list' := List.map_append

/-- `(time - pkt_get_timestamp(pkt)) > TIMEOUT` -/
def Expired (node : Node) (time : UInt32) : Prop := (time - pkt_get_timestamp node.pkt).toNat > TIMEOUT

instance (node : Node) (time : UInt32) : Decidable (Expired node time) := inferInstanceAs (Decidable (_ > _))

/-- Just after its timeout, whatever the clock showed when it was sent. -/
theorem expired_after (node : Node) : Expired node (pkt_get_timestamp node.pkt + UInt32.ofNat (TIMEOUT + 1)) := by
  rw [Expired, UInt32.add_comm, UInt32.add_sub_cancel]
  decide

/-- The packets that `resent_pkt` writes, with their new timestamps. -/
def resent_nodes (io : Nat → UInt32 × Bool) : List Node → Nat → List Node
  | [], _ => []
  | current :: next, k =>
    if Expired current (io k).1 then
      if (io k).2 then
        { current with pkt := (pkt_set_timestamp current.pkt (io k).1).2 } :: resent_nodes io next (k + 1)
      else []
    else resent_nodes io next (k + 1)

theorem resent_nodes_length (io : Nat → UInt32 × Bool) (list : List Node) (k : Nat) :
    (resent_nodes io list k).length ≤ list.length := by
  induction list generalizing k with
  | nil => exact Nat.le_refl 0
  | cons current next ih =>
    have hnext := ih (k + 1)
    rw [resent_nodes, List.length_cons]
    split
    · split
      · rw [List.length_cons]
        omega
      · exact Nat.zero_le _
    · omega

theorem resent_loop_eq (crc32 : List UInt8 → UInt32) (io : Nat → UInt32 × Bool) (list : List Node)
    (k nbr_resent : Nat) (s : Sender) :
    List.Forall₂ Retimed list (resent_loop crc32 io list k nbr_resent s).2.1 ∧
      ∃ copybuf stats sent io_error, (resent_loop crc32 io list k nbr_resent s).2.2 =
        { s with
          copybuf, stats, sent, io_error
          lastRst := s.lastRst + ((resent_nodes io list k).filter isFinal).length } := by
  induction list generalizing k nbr_resent s with
  | nil => exact ⟨.nil, _, _, _, _, rfl⟩
  | cons current next ih =>
    unfold resent_loop resent_nodes
    by_cases hold : Expired current (io k).1
    swap
    · rw [if_neg hold, if_neg (id hold : ¬ ((io k).1 - pkt_get_timestamp current.pkt).toNat > TIMEOUT)]
      obtain ⟨hlist, hs⟩ := ih (k + 1) nbr_resent s
      exact ⟨.cons (.refl current) hlist, hs⟩
    rw [if_pos hold, if_pos (id hold : ((io k).1 - pkt_get_timestamp current.pkt).toNat > TIMEOUT)]
    have hnode : Retimed current { current with pkt := (pkt_set_timestamp current.pkt (io k).1).2 } := ⟨_, rfl⟩
    obtain ⟨copybuf, sent, io_error, hw⟩ := write_pkt_cases crc32 s (some current.index)
      (pkt_set_timestamp current.pkt (io k).1).2 (io k).2
    simp only [hw]
    cases hok : (io k).2 with
    | false =>
      simp only [Bool.false_eq_true, if_false]
      exact ⟨.cons hnode (List.forall₂_same.mpr fun node _ => .refl node), _, _, _, _, rfl⟩
    | true =>
      simp only [if_true]
      obtain ⟨hlist, copybuf', stats, sent', io_error', hs⟩ := ih (k + 1) (nbr_resent + 1)
        { s with
          copybuf, sent, io_error
          lastRst :=
            if pkt_get_length (pkt_set_timestamp current.pkt (io k).1).2 = 0 then s.lastRst + 1 else s.lastRst
          stats := { s.stats with packet_retransmitted := s.stats.packet_retransmitted + 1 } }
      refine ⟨.cons hnode hlist, copybuf', stats, sent', io_error', ?_⟩
      rw [hs, List.filter_cons]
      have hfinal : isFinal ({ current with pkt := (pkt_set_timestamp current.pkt (io k).1).2 } : Node) =
          decide (pkt_get_length (pkt_set_timestamp current.pkt (io k).1).2 = 0) := rfl
      rw [hfinal]
      by_cases hzero : pkt_get_length (pkt_set_timestamp current.pkt (io k).1).2 = 0
      · simp only [hzero, decide_true, if_true, List.length_cons]
        rw [Nat.add_right_comm, Nat.add_assoc]
      · simp only [hzero, decide_false, if_false, Bool.false_eq_true]

theorem resent_step_eq {s s' : Sender} {io : Nat → UInt32 × Bool} (h : resent_step crc32 s io = some s') :
    s.stopped = none ∧ s.window.linkedList ≠ [] ∧ ∃ copybuf stats sent io_error list,
      List.Forall₂ Retimed s.window.linkedList list ∧ s' =
        { s with
          copybuf, stats, sent, io_error
          window := { s.window with linkedList := list }
          lastRst := s.lastRst + ((resent_nodes io s.window.linkedList 0).filter isFinal).length
          stopped :=
            if s.lastPkt ∧ s.lastRst + ((resent_nodes io s.window.linkedList 0).filter isFinal).length >
                MAX_RESENT_LAST_PKT then some .noNews
            else none } := by
  unfold resent_step at h
  split at h
  swap
  · contradiction
  rename_i hguard
  refine ⟨hguard.1, hguard.2, ?_⟩
  obtain ⟨hlist, copybuf, stats, sent, io_error, hs⟩ :=
    resent_loop_eq crc32 io s.window.linkedList 0 0 s
  refine ⟨copybuf, stats, sent, io_error, _, hlist, ?_⟩
  simp only [resent_pkt, hs, Option.some.injEq] at h
  rw [← h]
  split
  · rfl
  · rw [← hguard.1]

/-! ## The handling of a datagram -/

theorem update_window_cases (s : Sender) (newSize : UInt8) (stale : Pkt) :
    (¬ Protocol.Shrinks s.window newSize.toNat ∧ ∃ stats, (update_window s newSize stale).2 =
      { s with
        stats
        window := { s.window with
          windowsize := if newSize = 0 then s.window.windowsize else newSize.toNat } }) ∨
    (Protocol.Shrinks s.window newSize.toNat ∧ (update_window s newSize stale).2 =
      { s with
        window := shrink_window s.window newSize.toNat (pkt_get_seqnum stale)
        global_pkt := s.global_pkt - UInt64.ofNat (Protocol.dropped s.window newSize.toNat)
        eof_reached := false
        lastPkt := false
        lastRst := 0 }) := by
  by_cases h0 : newSize = 0
  · left
    rw [h0, update_window_zero]
    exact ⟨by simp [Protocol.Shrinks], _, rfl⟩
  have hne : newSize.toNat ≠ 0 := fun hzero => h0 (UInt8.toNat_inj.mp hzero)
  by_cases hle : s.window.windowsize ≤ newSize.toNat
  · left
    rw [update_window_grow h0 hle, if_neg h0]
    exact ⟨fun hs => absurd hs.2 (by omega), _, rfl⟩
  · right
    exact ⟨⟨hne, by omega⟩, update_window_shrink h0 (by omega) stale⟩

theorem windowsize_le_of_not_shrinks {window : Window Node} {newSize : UInt8}
    (h : ¬ Protocol.Shrinks window newSize.toNat) (h0 : newSize ≠ 0) : window.windowsize ≤ newSize.toNat := by
  by_contra hlt
  exact h ⟨fun hzero => h0 (UInt8.toNat_inj.mp hzero), Nat.lt_of_not_le hlt⟩

/-- `update_window_cases` where `handle_response` calls it. -/
theorem updated_cases {s u : Sender} {bytes_read : Option (List UInt8)} {newSize : UInt8} {stale : Pkt}
    (hu : (update_window { s with copybuf := readInto bytes_read s.copybuf, lastRst := 0 } newSize stale).2 = u) :
    (¬ Protocol.Shrinks s.window newSize.toNat ∧ ∃ stats, u =
      { s with
        copybuf := readInto bytes_read s.copybuf
        lastRst := 0
        stats
        window := { s.window with
          windowsize := if newSize = 0 then s.window.windowsize else newSize.toNat } }) ∨
    (Protocol.Shrinks s.window newSize.toNat ∧ u =
      { s with
        copybuf := readInto bytes_read s.copybuf
        window := shrink_window s.window newSize.toNat (pkt_get_seqnum stale)
        global_pkt := s.global_pkt - UInt64.ofNat (Protocol.dropped s.window newSize.toNat)
        eof_reached := false
        lastPkt := false
        lastRst := 0 }) := by
  rw [← hu]
  exact update_window_cases { s with copybuf := readInto bytes_read s.copybuf, lastRst := 0 } newSize stale

/-- Nothing but the counters changes, or a packet is handled once `update_window` has given `u`. -/
theorem response_step_cases {s s' : Sender} {bytes_read : Option (List UInt8)} {time : UInt32} {stale : Pkt}
    (h : response_step crc32 s bytes_read time stale = some s') :
    s.stopped = none ∧
      ((incoming crc32 s bytes_read = none ∧ ∃ copybuf stats, s' = { s with copybuf, stats, lastRst := 0 }) ∨
        ∃ pkt u fec stats, incoming crc32 s bytes_read = some pkt ∧
          (update_window { s with copybuf := readInto bytes_read s.copybuf, lastRst := 0 } (pkt_get_window pkt)
            stale).2 = u ∧
          fec.pkts = u.fec.pkts ∧ (fec.i = u.fec.i ∨ fec.i = 0) ∧
          (fec.i = 0 ∨ handled_window u.window pkt = u.window) ∧
          s' =
            { u with
              fec
              stats
              window := handled_window u.window pkt
              stopped :=
                if pkt_get_type pkt = .ACK ∧ u.lastPkt ∧ (handled_window u.window pkt).linkedList.isEmpty then
                  some .allAcked
                else u.stopped }) := by
  unfold response_step at h
  split at h
  swap
  · contradiction
  rename_i hgo
  refine ⟨hgo, ?_⟩
  rw [Option.some.injEq] at h
  cases hi : incoming crc32 s bytes_read with
  | none =>
    rw [handle_response_none hi] at h
    exact Or.inl ⟨rfl, _, _, h.symm⟩
  | some pkt =>
    obtain ⟨fec, stats, hpkts, hfec, hremoved, _, heq⟩ :=
      handle_packet_eq { s with copybuf := readInto bytes_read s.copybuf, lastRst := 0 } pkt time stale rfl
    rw [handle_response_some hi, heq] at h
    exact Or.inr ⟨pkt, _, fec, stats, rfl, rfl, hpkts, hfec, hremoved, h.symm⟩

theorem handled_window_suffix (window : Window Node) (pkt : Pkt) :
    (handled_window window pkt).linkedList <:+ window.linkedList := by
  unfold handled_window
  split
  · exact acked_window_suffix _ _
  · exact List.suffix_rfl

/-- A `NACK` that makes the window larger does no more. -/
theorem nack_grows (crc32 : List UInt8 → UInt32) {s : Sender} (hgo : s.stopped = none) (size : Nat) (h0 : size ≠ 0)
    (h31 : size ≤ 31) (hle : s.window.windowsize ≤ size) (seqnum : UInt8) :
    (∃ pkt, incoming crc32 s (some (pkt_bytes crc32 (responsePkt false seqnum size))) = some pkt ∧
        (pkt_get_window pkt).toNat = size) ∧
      ∃ s', response_step crc32 s (some (pkt_bytes crc32 (responsePkt false seqnum size))) 0 pkt_new = some s' ∧
        ∃ copybuf stats, s' =
          { s with copybuf, stats, lastRst := 0, window := { s.window with windowsize := size } } := by
  obtain ⟨pkt, hi, hr⟩ := (responsePkt_sendable false seqnum size).incoming crc32 s
  have hnack : pkt_get_type pkt = .NACK := hr.type
  have hwin : (pkt_get_window pkt).toNat = size := by
    rw [pkt_get_window_toNat, hr.window, responsePkt, BitVec.toNat_ofNat]
    omega
  refine ⟨⟨pkt, hi, hwin⟩, ?_⟩
  have hne : pkt_get_window pkt ≠ 0 := by
    intro hzero
    rw [hzero, UInt8.toNat_zero] at hwin
    exact h0 hwin.symm
  rw [response_step, if_pos hgo, handle_response_some hi, handle_packet, hnack,
    update_window_grow hne (by rw [hwin]; exact hle), hwin]
  cases hin : is_in_sender_window { s.window with windowsize := size } (pkt_get_seqnum pkt) with
  | false =>
    simp only [if_true]
    exact ⟨_, rfl, _, _, rfl⟩
  | true =>
    simp only [Bool.true_eq_false, if_false]
    exact ⟨_, rfl, _, _, rfl⟩

/-! ## `fill_window` is a run of its turns -/

theorem fill_turn_stopped (crc32 : List UInt8 → UInt32) (s : Sender) (io : FillIO) (fec_enable : Bool) :
    (fill_turn crc32 s io fec_enable).state.stopped = s.stopped := by
  by_cases hend : io.pread (chunkOffset s.global_pkt) = some []
  · rw [fill_turn_eof hend]
    rfl
  · obtain ⟨copybuf, stats, sent, io_error, hs⟩ := fill_turn_eq hend fec_enable
    rw [hs]

theorem fill_loop_run (io : Nat → FillIO) (fec_enable : Bool) (room n_filled : Nat) {s : Sender}
    (hgo : s.stopped = none) :
    Reach (call_step crc32) (fun _ a => ∃ io, a = .fill io fec_enable) s
      (fill_loop crc32 io fec_enable room n_filled s).2 := by
  induction room generalizing s n_filled with
  | zero => exact .start
  | succ room ih =>
    unfold fill_loop
    split
    swap
    · exact .start
    rename_i hroom
    have hturn : call_step crc32 s (.fill (io n_filled) fec_enable) =
        some (fill_turn crc32 s (io n_filled) fec_enable).state := if_pos ⟨hgo, hroom.2, hroom.1⟩
    have hstopped := fill_turn_stopped crc32 s (io n_filled) fec_enable
    cases ht : fill_turn crc32 s (io n_filled) fec_enable with
    | eof s' | failed s' =>
      rw [ht] at hturn
      exact .next .start ⟨_, rfl⟩ hturn
    | filled s' =>
      rw [ht] at hturn hstopped
      exact (Reach.next .start ⟨_, rfl⟩ hturn).trans (ih (n_filled + 1) (hstopped.trans hgo))

/-- What `fill_window` leaves as it is. -/
structure Filled (s s' : Sender) : Prop where
  lastPkt : s'.lastPkt = s.lastPkt
  lastRst : s'.lastRst = s.lastRst
  stopped : s'.stopped = s.stopped
  list : s.window.linkedList <+: s'.window.linkedList

theorem fill_step_filled {s s' : Sender} {io : Nat → FillIO} {fec_enable : Bool}
    (h : fill_step crc32 s io fec_enable = some s') : s.stopped = none ∧ s.eof_reached = false ∧ Filled s s' := by
  unfold fill_step at h
  split at h
  swap
  · contradiction
  rename_i hguard
  refine ⟨hguard.1, hguard.2.1, ?_⟩
  obtain rfl := Option.some.inj h
  refine (fill_loop_run io fec_enable _ 0 hguard.1).invariant ⟨rfl, rfl, rfl, List.prefix_rfl⟩ ?_
  rintro u a u' hu ⟨io', rfl⟩ hstep
  obtain ⟨_, _, _, ⟨_, rfl⟩ | ⟨_, copybuf, stats, sent, io_error, rfl⟩⟩ := turn_step_cases hstep
  · exact ⟨hu.lastPkt, hu.lastRst, hu.stopped, hu.list⟩
  · exact ⟨hu.lastPkt, hu.lastRst, hu.stopped, hu.list.trans (List.prefix_append _ _)⟩

end Trtp
