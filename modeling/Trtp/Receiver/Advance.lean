import Trtp.Receiver.Nack

/-!
# When an advance is acknowledged

`read_write_receiver` with its two loops: what `poll` returns decides which part comes next. At the top of the outer
loop an `ACK` should be due whenever `seqnumHead` is not that of the last `ACK`.
-/

open Trtp.Lib

namespace Trtp

variable (crc32 : List UInt8 → UInt32)

/-! ## The two loops -/

/-- The top of the outer loop, the top of the inner loop, or the second `poll`. -/
inductive Phase where
  | outer
  | inner
  | flush
  deriving DecidableEq

structure MainLoop where
  phase : Phase
  rcv : Receiver

inductive MainAction where
  | readable (bytes_read : Option (List UInt8)) (write : Bool)
  | flush (wr : Nat → Option Nat) (write : Bool) (pollin : Bool)
  | writable (write : Bool)

/-- `!eof_reached || (window->seqnumHead != eof_seqnum)` -/
def Receiver.awaits (r : Receiver) : Bool := !r.eof_reached || decide (r.window.seqnumHead ≠ r.eof_seqnum)

def main_step (s : MainLoop) : MainAction → Option MainLoop
  | .readable bytes_read write =>
    if s.rcv.eof_wrote = false ∧ s.phase ≠ .flush then
      some ⟨.flush, if s.rcv.awaits then (receive_data crc32 s.rcv bytes_read write).2 else s.rcv⟩
    else none
  | .flush wr write pollin =>
    if s.rcv.eof_wrote = false ∧ s.phase = .flush then
      some ⟨if pollin then .inner else .outer, flush_turn crc32 s.rcv wr write⟩
    else none
  | .writable write =>
    if s.rcv.eof_wrote = false ∧ s.phase = .outer then some ⟨.outer, ack_turn crc32 s.rcv write⟩ else none

def MainLoop.initial (buffer : Mem) : MainLoop := ⟨.outer, .initial buffer⟩

/-! ## The last `ACK` -/

def isAck (response : Response) : Bool := hdrType (load response.datagram fun _ => 0) = .ACK

/-- The number of the last `ACK` that was sent, 0 if none was. -/
def lastAck (sent : List Response) : UInt8 :=
  ((sent.filter isAck).getLast?.map fun response => hdrSeqnum (load response.datagram fun _ => 0)).getD 0

/-- An `ACK` is due unless the last one has the number `seqnumHead`. -/
def Acknowledged (r : Receiver) : Prop := r.window.seqnumHead ≠ lastAck r.sent → r.resent_ack = true

variable {crc32}

theorem lastAck_append_ack (sent : List Response) (consumed : Nat) {pkt : Pkt} (h : pkt.type = .ACK) :
    lastAck (sent ++ [⟨consumed, pkt_bytes crc32 pkt⟩]) = pkt.seqnum := by
  have hstart := load_starts (pkt_bytes crc32 pkt) fun _ => 0
  have hack : isAck ⟨consumed, pkt_bytes crc32 pkt⟩ = true := by
    rw [isAck, hdrType_bytes hstart, h]
    rfl
  have hseq := hdrSeqnum_bytes hstart
  simp [lastAck, List.filter_append, hack, hseq]

theorem lastAck_append_nack (sent : List Response) (consumed : Nat) {pkt : Pkt} (h : pkt.type = .NACK) :
    lastAck (sent ++ [⟨consumed, pkt_bytes crc32 pkt⟩]) = lastAck sent := by
  have hstart := load_starts (pkt_bytes crc32 pkt) fun _ => 0
  have hack : isAck ⟨consumed, pkt_bytes crc32 pkt⟩ = false := by
    rw [isAck, hdrType_bytes hstart, h]
    rfl
  simp [lastAck, List.filter_append, hack]

theorem send_troncated_nack_lastAck {r : Receiver} (hsize : SizeOk r.window) (pkt : Pkt) (write : Bool) :
    lastAck (send_troncated_nack crc32 r pkt write).sent = lastAck r.sent := by
  obtain ⟨nack, htype, _, _, hsent⟩ := send_troncated_nack_sent hsize pkt write
  rw [hsent]
  cases write with
  | false => rfl
  | true => exact lastAck_append_nack _ _ htype

theorem send_troncated_nack_resent (r : Receiver) (pkt : Pkt) (write : Bool) :
    (send_troncated_nack crc32 r pkt write).resent_ack = r.resent_ack := by
  obtain ⟨_, _, _, heq⟩ := send_troncated_nack_eq crc32 r pkt write
  rw [heq]
  rfl

theorem send_ack_lastAck (crc32 : List UInt8 → UInt32) {r : Receiver} (hsize : SizeOk r.window) (timestamp : UInt32) :
    lastAck (send_ack crc32 r timestamp true).sent = r.window.seqnumHead := by
  obtain ⟨ack, _, htype, hseq, _, _, buffer, hs⟩ :=
    send_response_sent hsize.2 true r.window.seqnumHead timestamp true
  simp only [if_true] at hs htype
  unfold send_ack
  rw [hs]
  exact (lastAck_append_ack _ _ htype).trans hseq

/-! ## `receive_data` -/

/-- The packet that `flush_file` waits for is the first of the list. -/
def HeadFirst (window : Window Pkt) : Prop := ∃ p ∈ window.linkedList.head?, pkt_get_seqnum p = window.seqnumHead

/-- Insertion puts the number `seqnumHead` in front. -/
def FrontSafe (window : Window Pkt) : Prop :=
  ∀ p ∈ window.linkedList.head?, pkt_get_seqnum p = window.seqnumHead ∨
    is_seqnum_greater (pkt_get_seqnum p) window.seqnumHead window = true

/-- Only a packet numbered `seqnumHead` that is new clears the flag. -/
theorem store_data_resent (r : Receiver) (pkt : Pkt) :
    (store_data r pkt).2.resent_ack =
      !(linkedList_add_increasing r.window pkt).any fun window => window.seqnumHead = pkt_get_seqnum pkt := by
  unfold store_data
  simp only
  cases linkedList_add_increasing r.window pkt with
  | none => rfl
  | some window =>
    by_cases hseq : window.seqnumHead = pkt_get_seqnum pkt
    · by_cases hlen : pkt_get_length pkt = 0 <;> simp [hseq, hlen]
    · by_cases hlen : pkt_get_length pkt = 0 <;> simp [hseq, hlen]

theorem add_loop_front {window : Window Pkt} {pkt : Pkt} (hpkt : seqnumOf pkt = window.seqnumHead)
    (hsafe : FrontSafe window) {list : List Pkt} {atEnd : Bool}
    (h : add_loop window pkt window.linkedList = some (list, atEnd)) : list.head? = some pkt := by
  cases hl : window.linkedList with
  | nil =>
    rw [hl] at h
    simp only [add_loop, Option.some.injEq, Prod.mk.injEq] at h
    rw [← h.1]
    rfl
  | cons p next =>
    rw [hl, add_loop] at h
    split at h
    · contradiction
    rename_i hne
    rcases hsafe p (by rw [hl]; rfl) with heq | hgt
    · exact absurd (hpkt.trans heq.symm) hne
    · have hgt' : is_seqnum_greater (seqnumOf p) (seqnumOf pkt) window = true := by
        rw [hpkt]
        exact hgt
      rw [if_pos hgt'] at h
      simp only [Option.some.injEq, Prod.mk.injEq] at h
      rw [← h.1]
      rfl

theorem store_data_headFirst {r : Receiver} {pkt : Pkt}
    (hfront : pkt_get_seqnum pkt = r.window.seqnumHead → FrontSafe r.window) :
    (store_data r pkt).2.resent_ack = true ∨ HeadFirst (store_data r pkt).2.window := by
  rw [store_data_window, store_data_resent, store]
  cases hadd : linkedList_add_increasing r.window pkt with
  | none => exact Or.inl rfl
  | some window =>
    obtain ⟨hhead, _, atEnd, hloop⟩ := linkedList_add_increasing_spec hadd
    by_cases hseq : window.seqnumHead = pkt_get_seqnum pkt
    · right
      have hpkt : pkt_get_seqnum pkt = r.window.seqnumHead := hseq.symm.trans hhead
      have hfirst := add_loop_front hpkt (hfront hpkt) hloop
      have hnum : window.seqnumHead = seqnumOf pkt := hseq
      simp only [if_pos hnum]
      refine ⟨pkt, ?_, ?_⟩
      · rw [increase_window_linkedList, hfirst]
        rfl
      · rw [increase_window_seqnumHead, hseq]
    · left
      simp [hseq]

/-- Either an `ACK` is due as before, or the packet that `flush_file` waits for is there. -/
theorem receive_data_acknowledged {r : Receiver} (hsize : SizeOk r.window) {bytes_read : Option (List UInt8)}
    (write : Bool) (h : Acknowledged r) (hfront : Stores crc32 r bytes_read →
      hdrSeqnum (readInto bytes_read r.buffer) = r.window.seqnumHead → FrontSafe r.window) :
    Acknowledged (receive_data crc32 r bytes_read write).2 ∨
      HeadFirst (receive_data crc32 r bytes_read write).2.window := by
  by_cases hst : Stores crc32 r bytes_read
  · have hseq : pkt_get_seqnum (accepted crc32 (readInto bytes_read r.buffer)) =
        hdrSeqnum (readInto bytes_read r.buffer) := (accepted_header crc32 _).2.2.2.2.1
    rw [receive_data_stores crc32 write hst]
    refine (store_data_headFirst (r := r.read bytes_read) fun heq => ?_).imp (fun ht _ => ht) id
    exact hfront hst (hseq.symm.trans heq)
  left
  intro hne
  by_cases hn : Nacks crc32 r bytes_read
  · obtain ⟨pkt, _, _, heq⟩ := receive_data_nacks write hn
    rw [heq] at hne ⊢
    rw [send_troncated_nack_window, decrease_window_seqnumHead, send_troncated_nack_lastAck (by exact hsize)] at hne
    rw [send_troncated_nack_resent]
    exact h hne
  · obtain ⟨hsent, ⟨hst', _⟩ | ⟨hwin, hresent⟩⟩ := receive_data_keeps write hn
    · exact absurd hst' hst
    · rw [hwin, hsent] at hne
      rcases hresent with ht | hsame
      · exact ht
      · rw [hsame]
        exact h hne

/-! ## `flush_file` -/

/-- From `seqnumHead` on the list has no gap, up to its end or to a final packet. -/
def Gapless (head : UInt8) : List Pkt → Prop
  | [] => True
  | current :: next =>
    pkt_get_seqnum current = head ∧ (pkt_get_length current = 0 ∨ Gapless (head + 1) next)

theorem flush_loop_keeps (wr : Nat → Option Nat) (list : List Pkt) (packet_write : Nat) (r : Receiver) :
    (flush_loop wr list packet_write r).2.sent = r.sent ∧
      (r.resent_ack = true → (flush_loop wr list packet_write r).2.resent_ack = true) := by
  induction list generalizing packet_write r with
  | nil => exact ⟨rfl, fun _ => rfl⟩
  | cons current next ih =>
    unfold flush_loop
    split
    · exact ⟨rfl, id⟩
    split
    · exact ⟨rfl, id⟩
    split
    · exact ⟨rfl, id⟩
    · exact ih _ _

/-- What is written without a gap leaves the list empty, unless it comes to the end. -/
theorem flush_loop_gapless (wr : Nat → Option Nat) {list : List Pkt} (packet_write : Nat) {r : Receiver}
    (h : Gapless r.window.seqnumHead list) (hgo : (flush_loop wr list packet_write r).1 ≠ -1) :
    (flush_loop wr list packet_write r).2.resent_ack = true := by
  induction list generalizing packet_write r with
  | nil => rfl
  | cons current next ih =>
    obtain ⟨hseq, hnext⟩ := h
    unfold flush_loop at hgo ⊢
    rw [if_neg (by rw [ne_eq, not_not]; exact hseq.symm)] at hgo ⊢
    split at hgo
    · exact absurd rfl hgo
    rename_i hdata
    rw [if_neg hdata]
    split at hgo
    · exact absurd rfl hgo
    · exact ih _ (hnext.resolve_left hdata) hgo

theorem flush_turn_acknowledged {r : Receiver} (h : Acknowledged r ∨ HeadFirst r.window)
    (hgap : r.resent_ack = false → HeadFirst r.window → Gapless r.window.seqnumHead r.window.linkedList)
    (wr : Nat → Option Nat) (write : Bool) (hgo : (flush_turn crc32 r wr write).eof_wrote = false) :
    Acknowledged (flush_turn crc32 r wr write) := by
  have hfile : flush_file r wr = flush_loop wr r.window.linkedList 0 r := flush_file_eq r wr
  by_cases hend : (flush_file r wr).1 = -1
  · obtain ⟨_, _, _, heq⟩ := send_ack_eq crc32 { (flush_file r wr).2 with eof_wrote := true }
      (flush_file r wr).2.lastTimestamp write
    unfold flush_turn at hgo
    simp only [hend, if_true, heq] at hgo
    contradiction
  have hturn : flush_turn crc32 r wr write = (flush_file r wr).2 := by
    unfold flush_turn
    simp only [hend, if_false]
  rw [hturn, hfile]
  rw [hfile] at hend
  obtain ⟨hsent, hkeep⟩ := flush_loop_keeps wr r.window.linkedList 0 r
  by_cases hdue : r.resent_ack = true
  · exact fun _ => hkeep hdue
  by_cases hfirst : HeadFirst r.window
  · exact fun _ => flush_loop_gapless wr 0 (hgap (by simpa using hdue) hfirst) hend
  -- nothing is written
  cases hl : r.window.linkedList with
  | nil => exact fun _ => rfl
  | cons current next =>
    have hne : r.window.seqnumHead ≠ pkt_get_seqnum current :=
      fun heq => hfirst ⟨current, by rw [hl]; rfl, heq.symm⟩
    rw [flush_loop, if_pos hne]
    exact h.resolve_right hfirst

/-! ## Runs -/

variable (crc32) in
/-- A new packet numbered `seqnumHead` goes in front, `flush_file` does not stop at a gap unless an `ACK` is due
already, and the write of an `ACK` succeeds. -/
def AdvanceSafe (s : MainLoop) : MainAction → Prop
  | .readable bytes_read _ => s.rcv.awaits = true → Stores crc32 s.rcv bytes_read →
    hdrSeqnum (readInto bytes_read s.rcv.buffer) = s.rcv.window.seqnumHead → FrontSafe s.rcv.window
  | .flush _ _ _ => s.rcv.resent_ack = false → HeadFirst s.rcv.window →
    Gapless s.rcv.window.seqnumHead s.rcv.window.linkedList
  | .writable write => s.rcv.resent_ack = true → write = true

/-- What holds at the parts of the loops. -/
structure AdvanceInv (s : MainLoop) : Prop where
  size : SizeOk s.rcv.window
  top : s.phase ≠ .flush → s.rcv.eof_wrote = false → Acknowledged s.rcv
  flush : s.phase = .flush → Acknowledged s.rcv ∨ HeadFirst s.rcv.window

theorem main_step_sizeOk {s s' : MainLoop} {a : MainAction} (h : SizeOk s.rcv.window)
    (hs : main_step crc32 s a = some s') : SizeOk s'.rcv.window := by
  cases a with
  | readable bytes_read write =>
    simp only [main_step, Option.ite_none_right_eq_some, Option.some.injEq] at hs
    obtain ⟨⟨hgo, _⟩, rfl⟩ := hs
    simp only
    split
    · exact loop_step_sizeOk (a := .receive bytes_read write) h (by rw [loop_step, hgo]; rfl)
    · exact h
  | flush wr write pollin =>
    simp only [main_step, Option.ite_none_right_eq_some, Option.some.injEq] at hs
    obtain ⟨⟨hgo, _⟩, rfl⟩ := hs
    exact loop_step_sizeOk (a := .flush wr write) h (by rw [loop_step, hgo]; rfl)
  | writable write =>
    simp only [main_step, Option.ite_none_right_eq_some, Option.some.injEq] at hs
    obtain ⟨⟨hgo, _⟩, rfl⟩ := hs
    exact loop_step_sizeOk (a := .ack write) h (by rw [loop_step, hgo]; rfl)

theorem ack_turn_acknowledged {r : Receiver} (hsize : SizeOk r.window) (h : Acknowledged r) {write : Bool}
    (hwrite : r.resent_ack = true → write = true) : Acknowledged (ack_turn crc32 r write) := by
  unfold ack_turn
  split
  · rename_i hdue
    intro hne
    have hlast := send_ack_lastAck crc32 hsize r.lastTimestamp
    rw [hwrite hdue] at hne
    exact absurd ((congrArg Window.seqnumHead (send_ack_window crc32 r r.lastTimestamp true)).trans hlast.symm) hne
  · exact h

theorem main_step_advance {s s' : MainLoop} {a : MainAction} (h : AdvanceInv s) (hok : AdvanceSafe crc32 s a)
    (hs : main_step crc32 s a = some s') : AdvanceInv s' := by
  refine ⟨main_step_sizeOk h.size hs, ?_, ?_⟩
  · intro hphase hgo
    cases a with
    | readable bytes_read write =>
      simp only [main_step, Option.ite_none_right_eq_some, Option.some.injEq] at hs
      rw [← hs.2] at hphase
      exact absurd rfl hphase
    | flush wr write pollin =>
      simp only [main_step, Option.ite_none_right_eq_some, Option.some.injEq] at hs
      obtain ⟨⟨_, hflush⟩, rfl⟩ := hs
      exact flush_turn_acknowledged (h.flush hflush) hok wr write hgo
    | writable write =>
      simp only [main_step, Option.ite_none_right_eq_some, Option.some.injEq] at hs
      obtain ⟨⟨hgo', houter⟩, rfl⟩ := hs
      exact ack_turn_acknowledged h.size (h.top (by rw [houter]; decide) hgo') hok
  · intro hphase
    cases a with
    | readable bytes_read write =>
      simp only [main_step, Option.ite_none_right_eq_some, Option.some.injEq] at hs
      obtain ⟨⟨hgo, hnot⟩, rfl⟩ := hs
      have hack := h.top hnot hgo
      by_cases hawaits : s.rcv.awaits = true
      · simp only [hawaits, if_true]
        exact receive_data_acknowledged h.size write hack (hok hawaits)
      · simp only [hawaits]
        exact Or.inl hack
    | flush wr write pollin =>
      simp only [main_step, Option.ite_none_right_eq_some, Option.some.injEq] at hs
      rw [← hs.2] at hphase
      cases pollin <;> contradiction
    | writable write =>
      simp only [main_step, Option.ite_none_right_eq_some, Option.some.injEq] at hs
      rw [← hs.2] at hphase
      contradiction

/-- At the top of the outer loop an `ACK` is due whenever `seqnumHead` is not that of the last one, and the next
writable turn sends it. -/
theorem receiver_acknowledges {buffer : Mem} {s : MainLoop}
    (h : Reach (main_step crc32) (AdvanceSafe crc32) (.initial buffer) s) (htop : s.phase = .outer)
    (hgo : s.rcv.eof_wrote = false) (hne : s.rcv.window.seqnumHead ≠ lastAck s.rcv.sent) :
    s.rcv.resent_ack = true ∧
      ∃ s', main_step crc32 s (.writable true) = some s' ∧ lastAck s'.rcv.sent = s.rcv.window.seqnumHead := by
  have hinv : AdvanceInv s := by
    refine h.invariant (P := AdvanceInv) ⟨initial_sizeOk, fun _ _ _ => rfl, ?_⟩ fun _ _ _ => main_step_advance
    intro hphase
    contradiction
  have hdue := hinv.top (by rw [htop]; decide) hgo hne
  refine ⟨hdue, _, if_pos ⟨hgo, htop⟩, ?_⟩
  simp only [ack_turn, hdue, if_true]
  exact send_ack_lastAck crc32 hinv.size s.rcv.lastTimestamp

/-! ## One byte at a time -/

/-- A `DATA` packet of one byte. -/
def bytePkt (seqnum : UInt8) : Pkt := { pkt_new with type := .DATA, length := 1, seqnum, payload := some [7] }

theorem bytePkt_sendable (seqnum : UInt8) : Sendable (bytePkt seqnum) :=
  ⟨rfl, by simp [bytePkt], fun _ => ⟨(by decide : 1 ≤ 512), rfl⟩, fun h => absurd rfl h⟩

theorem store_data_eof (r : Receiver) {pkt : Pkt} (h : pkt_get_length pkt ≠ 0) :
    (store_data r pkt).2.eof_wrote = r.eof_wrote ∧ (store_data r pkt).2.eof_reached = r.eof_reached := by
  unfold store_data
  simp only [h, if_false]
  cases linkedList_add_increasing r.window pkt with
  | none => exact ⟨rfl, rfl⟩
  | some window =>
    simp only
    split <;> exact ⟨rfl, rfl⟩

/-- What is known of a receiver on its way. -/
structure On (r : Receiver) (window : Window Pkt) (resent_ack : Bool) (last : UInt8) : Prop where
  window : r.window = window
  resent_ack : r.resent_ack = resent_ack
  last : lastAck r.sent = last
  going : r.eof_wrote = false
  awaits : r.eof_reached = false

theorem on_initial (buffer : Mem) : On (.initial buffer) Window.initial true 0 := ⟨rfl, rfl, rfl, rfl, rfl⟩

theorem On.receive {r : Receiver} {window : Window Pkt} {resent_ack : Bool} {last : UInt8}
    (h : On r window resent_ack last) (seqnum : UInt8) (hin : is_in_window window seqnum = true) :
    ∃ pkt, pkt_get_seqnum pkt = seqnum ∧ pkt_get_length pkt = 1 ∧
      Stores crc32 r (some (pkt_bytes crc32 (bytePkt seqnum))) ∧
      hdrSeqnum (readInto (some (pkt_bytes crc32 (bytePkt seqnum))) r.buffer) = seqnum ∧
      On (receive_data crc32 r (some (pkt_bytes crc32 (bytePkt seqnum))) true).2 (store window pkt)
        (!(linkedList_add_increasing window pkt).any fun window => window.seqnumHead = seqnum) last := by
  obtain ⟨hi, hl, hr⟩ := (bytePkt_sendable seqnum).received r.buffer
  obtain ⟨htype, htr, _, _, hseq, _⟩ :=
    accepted_header crc32 (readInto (some (pkt_bytes crc32 (bytePkt seqnum))) r.buffer)
  have hnum : hdrSeqnum (readInto (some (pkt_bytes crc32 (bytePkt seqnum))) r.buffer) = seqnum :=
    hseq.symm.trans hr.seqnum
  have hst : Stores crc32 r (some (pkt_bytes crc32 (bytePkt seqnum))) :=
    ⟨hi, hl, htype.symm.trans hr.type, htr.symm.trans hr.tr, by rw [h.window, hnum]; exact hin⟩
  generalize hpkt : accepted crc32 (readInto (some (pkt_bytes crc32 (bytePkt seqnum))) r.buffer) = pkt at hr
  have hlen : pkt_get_length pkt = 1 := hr.length
  refine ⟨pkt, hr.seqnum, hlen, hst, hnum, ?_⟩
  obtain ⟨hwrote, hreached⟩ := store_data_eof (r.read (some (pkt_bytes crc32 (bytePkt seqnum))))
    (by rw [hlen]; decide)
  rw [receive_data_stores crc32 true hst, hpkt]
  refine ⟨?_, ?_, ?_, hwrote.trans h.going, hreached.trans h.awaits⟩
  · rw [store_data_window, ← h.window]
    rfl
  · rw [store_data_resent, ← h.window, show pkt_get_seqnum pkt = seqnum from hr.seqnum]
    rfl
  · rw [store_data_sent, ← h.last]
    rfl

theorem On.ack (crc32 : List UInt8 → UInt32) {r : Receiver} {window : Window Pkt} {last : UInt8}
    (h : On r window true last) (hsize : SizeOk window) :
    On (ack_turn crc32 r true) window false window.seqnumHead := by
  have hlast := send_ack_lastAck crc32 (r := r) (by rw [h.window]; exact hsize) r.lastTimestamp
  obtain ⟨_, _, _, heq⟩ := send_ack_eq crc32 r r.lastTimestamp true
  rw [heq] at hlast
  simp only [ack_turn, h.resent_ack, if_true, heq]
  exact ⟨h.window, rfl, hlast.trans (congrArg Window.seqnumHead h.window), h.going, h.awaits⟩

theorem On.flush_first (crc32 : List UInt8 → UInt32) {r : Receiver} {window : Window Pkt} {resent_ack : Bool}
    {last : UInt8} {current : Pkt} {next : List Pkt} (h : On r window resent_ack last)
    (hlist : window.linkedList = current :: next)
    (hseq : window.seqnumHead = pkt_get_seqnum current) (hlen : pkt_get_length current = 1)
    (hnext : ∀ p ∈ next.head?, window.seqnumHead + 1 ≠ pkt_get_seqnum p) :
    On (flush_turn crc32 r (fun _ => some 1) true) (flushed window next) (resent_ack || next.isEmpty) last := by
  have hdata : pkt_get_length current ≠ 0 := by
    rw [hlen]
    decide
  have hfile : flush_file r (fun _ => some 1) = flush_loop (fun _ => some 1) next 1
      (flush_one r current next ((readBuffer (pkt_get_payload current) 1).take 1)) := by
    rw [flush_file_eq, h.window, hlist, flush_loop, h.window, if_neg (by rw [hseq]; simp), if_neg hdata, hlen]
    rfl
  unfold flush_turn
  rw [hfile]
  cases next with
  | nil =>
    simp only [flush_loop, List.isEmpty_nil, Bool.or_true]
    exact ⟨by rw [← h.window]; rfl, rfl, h.last, h.going, h.awaits⟩
  | cons p rest =>
    have hstop : (flush_one r current (p :: rest) ((readBuffer (pkt_get_payload current) 1).take 1)).window.seqnumHead ≠
        pkt_get_seqnum p := by
      have := hnext p rfl
      rw [← h.window] at this
      exact this
    rw [flush_loop, if_pos hstop]
    simp only [List.isEmpty_cons, Bool.or_false]
    exact ⟨by rw [← h.window]; rfl, h.resent_ack, h.last, h.going, h.awaits⟩

theorem On.flush_none (crc32 : List UInt8 → UInt32) {r : Receiver} {window : Window Pkt} {resent_ack : Bool}
    {last : UInt8} {current : Pkt} {next : List Pkt} (h : On r window resent_ack last)
    (hlist : window.linkedList = current :: next)
    (hseq : window.seqnumHead ≠ pkt_get_seqnum current) :
    On (flush_turn crc32 r (fun _ => some 1) true) window resent_ack last := by
  have hfile : flush_file r (fun _ => some 1) = (0, r) := by
    rw [flush_file_eq, h.window, hlist, flush_loop, h.window, if_pos hseq]
    rfl
  unfold flush_turn
  rw [hfile]
  exact h

theorem On.readable {r : Receiver} {window : Window Pkt} {resent_ack : Bool} {last : UInt8} {phase : Phase}
    (h : On r window resent_ack last) (hphase : phase ≠ .flush) (bytes_read : Option (List UInt8)) (write : Bool) :
    main_step crc32 ⟨phase, r⟩ (.readable bytes_read write) =
      some ⟨.flush, (receive_data crc32 r bytes_read write).2⟩ := by
  have hawaits : r.awaits = true := by simp [Receiver.awaits, h.awaits]
  simp [main_step, h.going, hphase, hawaits]

theorem On.flush {r : Receiver} {window : Window Pkt} {resent_ack : Bool} {last : UInt8}
    (h : On r window resent_ack last) (wr : Nat → Option Nat) (write : Bool) :
    main_step crc32 ⟨.flush, r⟩ (.flush wr write false) = some ⟨.outer, flush_turn crc32 r wr write⟩ := by
  simp [main_step, h.going]

theorem On.writable {r : Receiver} {window : Window Pkt} {resent_ack : Bool} {last : UInt8}
    (h : On r window resent_ack last) (write : Bool) :
    main_step crc32 ⟨.outer, r⟩ (.writable write) = some ⟨.outer, ack_turn crc32 r write⟩ := by
  simp [main_step, h.going]

/-- Packet 0 is written, and an `ACK` is due. -/
theorem receiver_acknowledges_one_byte :
    ∃ s, Reach (main_step zlib_crc32) (AdvanceSafe zlib_crc32) (.initial fun _ => 0) s ∧ s.phase = .outer ∧
      s.rcv.window.seqnumHead = 1 ∧ lastAck s.rcv.sent = 0 ∧ s.rcv.resent_ack = true := by
  generalize zlib_crc32 = crc32
  have h0 := on_initial fun _ => 0
  obtain ⟨pkt, hseq, hlen, hst, hnum, h1⟩ := h0.receive 0 (by decide)
  have hwin : store Window.initial pkt = ⟨0, 0, 2, [pkt]⟩ := by
    have hseq' : seqnumOf pkt = 0 := hseq
    simp [store, linkedList_add_increasing, add_loop, Window.initial, hseq', increase_window]
  rw [hwin] at h1
  have h2 := h1.flush_first crc32 rfl hseq.symm hlen (by simp)
  have hsafe : AdvanceSafe crc32 (.initial fun _ => 0) (.readable (some (pkt_bytes crc32 (bytePkt 0))) true) :=
    fun _ _ _ => by simp [FrontSafe, MainLoop.initial, Receiver.initial, Window.initial]
  have hsafe' : AdvanceSafe crc32 ⟨.flush, _⟩ (.flush (fun _ => some 1) true false) := fun _ _ => by
    rw [h1.window]
    exact ⟨hseq, Or.inr trivial⟩
  have hreach := (Reach.start.next hsafe (h0.readable (by decide) _ true)).next hsafe' (h1.flush (fun _ => some 1) true)
  have hhead : (flushed ⟨0, 0, 2, [pkt]⟩ []).seqnumHead = (1 : UInt8) := rfl
  refine ⟨_, hreach, rfl, by rw [h2.window, hhead], h2.last, ?_⟩
  refine (receiver_acknowledges hreach rfl h2.going ?_).1
  rw [h2.window, h2.last, hhead]
  decide

/-- Packet 2 is stored, an `ACK` is sent, and packet 0 is written: no other `ACK` is due. -/
theorem gap_not_acknowledged :
    ∃ s, Reach (main_step zlib_crc32) (fun _ _ => True) (.initial fun _ => 0) s ∧ s.phase = .outer ∧
      s.rcv.eof_wrote = false ∧ s.rcv.window.seqnumHead ≠ lastAck s.rcv.sent ∧ s.rcv.resent_ack = false := by
  generalize zlib_crc32 = crc32
  have h0 := on_initial fun _ => 0
  obtain ⟨p2, hseq2, _, _, _, h1⟩ := h0.receive 2 (by decide)
  have hwin1 : store Window.initial p2 = ⟨0, 2, 1, [p2]⟩ := by
    have hseq : seqnumOf p2 = 2 := hseq2
    simp [store, linkedList_add_increasing, add_loop, Window.initial, hseq]
  have hdue : (linkedList_add_increasing Window.initial p2).any (fun window => window.seqnumHead = 2) = false := by
    simp [linkedList_add_increasing, add_loop, Window.initial]
  rw [hwin1, hdue] at h1
  have h2 := h1.flush_none crc32 rfl (by rw [hseq2]; exact (by decide : (0 : UInt8) ≠ 2))
  have h3 := h2.ack crc32 ⟨Nat.le_refl 1, (by decide : 1 ≤ 31)⟩
  obtain ⟨p0, hseq0, hlen0, _, _, h4⟩ := h3.receive 0
    (by decide : is_in_window (⟨0, 2, 1, []⟩ : Window Pkt) 0 = true)
  have hadd : linkedList_add_increasing ⟨0, 2, 1, [p2]⟩ p0 = some ⟨0, 2, 1, [p0, p2]⟩ := by
    have hseq : seqnumOf p0 = 0 := hseq0
    have hseq' : seqnumOf p2 = 2 := hseq2
    simp [linkedList_add_increasing, add_loop, hseq, hseq', is_seqnum_greater, Window.border]
  have hwin2 : store ⟨0, 2, 1, [p2]⟩ p0 = ⟨0, 2, 2, [p0, p2]⟩ := by
    have hseq : seqnumOf p0 = 0 := hseq0
    simp [store, hadd, hseq, increase_window]
  rw [hwin2, hadd] at h4
  have h5 := h4.flush_first crc32 rfl hseq0.symm hlen0 (by simp [hseq2])
  have hreach : Reach (main_step crc32) (fun _ _ => True) (.initial fun _ => 0) _ :=
    ((((Reach.start.next trivial (h0.readable (by decide) _ true)).next trivial
      (h1.flush (fun _ => some 1) true)).next trivial (h2.writable true)).next trivial
      (h3.readable (by decide) _ true)).next trivial (h4.flush (fun _ => some 1) true)
  refine ⟨_, hreach, rfl, h5.going, ?_, h5.resent_ack⟩
  rw [h5.window, h5.last]
  exact (by decide : (1 : UInt8) ≠ 0)

end Trtp
