import Trtp.LinkedList.Refine
import Trtp.Sender.Loop

/-!
# The sender on its list

What the functions of the sender do to the list, node by node. Each does to the memory what it does to the sequence
of packets, if the list is not empty where `head` or `tail` is read.
-/

open Trtp.Lib

namespace Trtp.Heap

/-! ## The window -/

/-- `window_pkt_t`, with the memory that its list is in. -/
structure HeapWindow where
  seqnumHead : UInt8
  seqnumTail : UInt8
  windowsize : Nat
  linkedList : LinkedList
  mem : Memory Node

def HeapWindow.initial : HeapWindow := ⟨0, 0, 1, linkedList_create, ⟨fun _ => none, []⟩⟩

/-- What the tests that do not read the list take. -/
def HeapWindow.numbers (w : HeapWindow) : Window Node := ⟨w.seqnumHead, w.seqnumTail, w.windowsize, []⟩

/-- `pkt_get_seqnum(p->pkt)` -/
def HeapWindow.seqnum_at (w : HeapWindow) (p : Ptr) : Option UInt8 :=
  (w.mem.nodes.access p).map fun node => seqnumOf node.value

def HeapWindow.add_pkt (w : HeapWindow) (n : Nat) (pkt : Node) : Option HeapWindow :=
  (linkedList_add_pkt w.mem w.linkedList n pkt).map fun (_, mem, linkedList) => { w with mem, linkedList }

def HeapWindow.remove (w : HeapWindow) : Option (Int × HeapWindow) :=
  (linkedList_remove w.mem w.linkedList).map fun (retval, mem, linkedList) => (retval, { w with mem, linkedList })

def HeapWindow.remove_end (w : HeapWindow) : Option (Int × HeapWindow) :=
  (linkedList_remove_end w.mem w.linkedList).map fun (retval, mem, linkedList) => (retval, { w with mem, linkedList })

/-- `pkt_set_timestamp(node->pkt, time)` -/
def set_timestamp (m : Memory Node) (node : Ptr) (time : UInt32) : Option (Memory Node) := do
  let a ← node
  let cell ← m.nodes a
  let pkt := { cell.value with pkt := (pkt_set_timestamp cell.value.pkt time).2 }
  some { m with nodes := Function.update m.nodes a (some { cell with value := pkt }) }

/-! ## The functions -/

/-- A turn of `fill_window` that has read something. `done` tells that it comes to its end. -/
def fill_window (w : HeapWindow) (n : Nat) (pkt : Node) (sendingSeqnum : UInt8) (done : Bool) : Option HeapWindow := do
  let w := if w.linkedList.size = 0 then { w with seqnumHead := sendingSeqnum } else w
  let w ← w.add_pkt n pkt
  some (if done then { w with seqnumTail := sendingSeqnum } else w)

def send_final_pkt (w : HeapWindow) (n : Nat) (pkt : Node) (write : Bool) : Option HeapWindow :=
  let w := { w with seqnumTail := w.seqnumTail + 1 }
  if write then w.add_pkt n pkt else some w

/-- The loop, at most `fuel` times. -/
def resent_loop (io : Nat → UInt32 × Bool) (tail : Ptr) : Nat → Nat → Ptr → Memory Node → Option (Memory Node)
  | 0, _, _, _ => none
  | fuel + 1, k, current, m => do
    let cell ← m.nodes.access current
    if Expired cell.value (io k).1 then
      let m ← set_timestamp m current (io k).1
      if (io k).2 = false then some m
      else if current = tail then some m
      else resent_loop io tail fuel (k + 1) cell.next m
    else if current = tail then some m
    else resent_loop io tail fuel (k + 1) cell.next m

def resent_pkt (w : HeapWindow) (io : Nat → UInt32 × Bool) : Option HeapWindow :=
  (resent_loop io w.linkedList.tail (w.linkedList.size.toNat + 1) 0 w.linkedList.head w.mem).map fun mem =>
    { w with mem }

def seqnum_in_window (w : HeapWindow) (ackSeqnum pktSeqnum : UInt8) : Option Bool := do
  let head ← if w.linkedList.size = 0 then some w.seqnumHead else w.seqnum_at w.linkedList.head
  some (decide (lift head pktSeqnum < lift head ackSeqnum))

/-- The loop, at most `fuel` times. -/
def ack_loop (ackSeqnum : UInt8) : Nat → Ptr → HeapWindow → Option HeapWindow
  | 0, _, _ => none
  | fuel + 1, current, w => do
    let pktSeqnum ← w.seqnum_at current
    let acked ← seqnum_in_window w ackSeqnum pktSeqnum
    if acked then
      let (_, w) ← w.remove
      let current := w.linkedList.head
      if w.linkedList.size = 0 then some w
      else
        let seqnumHead ← w.seqnum_at w.linkedList.head
        ack_loop ackSeqnum fuel current { w with seqnumHead }
    else some w

def ack_window (w : HeapWindow) (ackSeqnum : UInt8) : Option HeapWindow :=
  if can_ack_window w.numbers ackSeqnum = false then some w
  else ack_loop ackSeqnum (w.linkedList.size.toNat + 1) w.linkedList.head w

/-- The loop, at most `fuel` times. False when a removal fails. -/
def remove_end_loop : Nat → HeapWindow → Option (Bool × HeapWindow)
  | 0, _ => none
  | fuel + 1, w =>
    if w.linkedList.size.toNat > w.windowsize then do
      let (retval, w) ← w.remove_end
      if retval ≠ 0 then some (false, w) else remove_end_loop fuel w
    else some (true, w)

def update_window (w : HeapWindow) (newSize : UInt8) : Option HeapWindow :=
  if newSize = 0 then some w
  else if newSize.toNat = w.windowsize then some w
  else if newSize.toNat > w.windowsize then some { w with windowsize := newSize.toNat }
  else do
    let (removed, w) ← remove_end_loop (w.linkedList.size.toNat + 1) { w with windowsize := newSize.toNat }
    if removed then
      let seqnumTail ← w.seqnum_at w.linkedList.tail
      some { w with seqnumTail }
    else some w

/-- What the main loop does with a packet that is valid and not truncated. -/
def handle_packet (w : HeapWindow) (pkt : Pkt) : Option HeapWindow := do
  let w ← update_window w (pkt_get_window pkt)
  if pkt_get_type pkt = .ACK then ack_window w (pkt_get_seqnum pkt) else some w

/-! ## What the window stands for -/

/-- Nothing but the nodes of the list is allocated. -/
structure Represents (w : HeapWindow) (window : Window Node) : Prop where
  seqnumHead : w.seqnumHead = window.seqnumHead
  seqnumTail : w.seqnumTail = window.seqnumTail
  windowsize : w.windowsize = window.windowsize
  list : ∃ xs, Held (fun _ => none) w.mem w.linkedList xs ∧ xs.map Prod.snd = window.linkedList

theorem represents_initial : Represents .initial .initial :=
  ⟨rfl, rfl, rfl, [], linkedList_create_held _ _, rfl⟩

variable {w : HeapWindow} {window : Window Node}

theorem Represents.size (h : Represents w window) : w.linkedList.size.toNat = window.linkedList.length := by
  obtain ⟨xs, hheld, hlist⟩ := h.list
  rw [hheld.listed.size, ← hlist, List.length_map]

theorem Represents.size_zero (h : Represents w window) : w.linkedList.size = 0 ↔ window.linkedList = [] := by
  rw [← UInt8.toNat_inj, h.size, UInt8.toNat_zero, List.length_eq_zero_iff]

/-- In an empty list there is nothing to read, whatever `head` and `tail` are. -/
theorem Represents.seqnum_nil (h : Represents w window) (hnil : window.linkedList = []) (p : Ptr) :
    w.seqnum_at p = none := by
  obtain ⟨xs, hheld, hlist⟩ := h.list
  rw [hnil, List.map_eq_nil_iff] at hlist
  subst hlist
  unfold HeapWindow.seqnum_at
  cases p with
  | none => rfl
  | some a => rw [Cells.access_some, hheld.owned.same a List.not_mem_nil, Option.map_none]

theorem Represents.seqnum_head (h : Represents w window) {current : Node} {next : List Node}
    (hl : window.linkedList = current :: next) : w.seqnum_at w.linkedList.head = some (seqnumOf current) := by
  obtain ⟨xs, hheld, hlist⟩ := h.list
  rw [hl] at hlist
  obtain ⟨⟨a, x⟩, rest, rfl, rfl, _⟩ := List.map_eq_cons_iff.mp hlist
  obtain ⟨q, hhead, link, hcell, _⟩ := hheld.listed.seg
  rw [HeapWindow.seqnum_at, hhead, Cells.access_some, hcell, Option.map_some]

theorem Represents.seqnum_tail (h : Represents w window) {last : Node} (hl : last ∈ window.linkedList.getLast?) :
    w.seqnum_at w.linkedList.tail = some (seqnumOf last) := by
  obtain ⟨xs, hheld, hlist⟩ := h.list
  rw [← hlist, List.getLast?_map, Option.mem_map] at hl
  obtain ⟨⟨a, x⟩, hlast, rfl⟩ := hl
  obtain ⟨q, hseg⟩ := hheld.listed.seg
  obtain ⟨link, hcell⟩ := hseg.mem (List.mem_of_getLast? hlast)
  rw [HeapWindow.seqnum_at, hheld.listed.tail _ hlast, Cells.access_some, hcell, Option.map_some]

theorem Represents.add_pkt (h : Represents w window) (hlen : window.linkedList.length < 255) {n : Nat}
    (hn : w.mem.nodes n = none) (pkt : Node) :
    ∃ w', w.add_pkt n pkt = some w' ∧ Represents w' { window with linkedList := window.linkedList ++ [pkt] } := by
  obtain ⟨xs, hheld, hlist⟩ := h.list
  have hfresh : n ∉ addrs xs := by
    intro hin
    obtain ⟨⟨a, x⟩, hmem, rfl⟩ := List.mem_map.mp hin
    obtain ⟨q, hseg⟩ := hheld.listed.seg
    obtain ⟨link, hcell⟩ := hseg.mem hmem
    rw [hn] at hcell
    contradiction
  rw [← hlist, List.length_map] at hlen
  obtain ⟨m', l', hadd, hheld', _⟩ := linkedList_add_pkt_held hheld hlen rfl hfresh pkt
  refine ⟨{ w with mem := m', linkedList := l' }, by rw [HeapWindow.add_pkt, hadd]; rfl, h.seqnumHead, h.seqnumTail,
    h.windowsize, _, hheld', ?_⟩
  rw [List.map_append, hlist]
  rfl

theorem Represents.remove (h : Represents w window) {current : Node} {next : List Node}
    (hl : window.linkedList = current :: next) :
    ∃ w', w.remove = some (0, w') ∧ Represents w' { window with linkedList := next } := by
  obtain ⟨xs, hheld, hlist⟩ := h.list
  rw [hl] at hlist
  obtain ⟨⟨a, x⟩, rest, rfl, rfl, hrest⟩ := List.map_eq_cons_iff.mp hlist
  obtain ⟨m', l', hrem, hheld', _⟩ := linkedList_remove_held hheld
  exact ⟨{ w with mem := m', linkedList := l' }, by rw [HeapWindow.remove, hrem]; rfl, h.seqnumHead, h.seqnumTail,
    h.windowsize, _, hheld', hrest⟩

theorem Represents.remove_end (h : Represents w window) {front : List Node} {last : Node}
    (hl : window.linkedList = front ++ [last]) :
    ∃ w', w.remove_end = some (0, w') ∧ Represents w' { window with linkedList := front } := by
  obtain ⟨xs, hheld, hlist⟩ := h.list
  rw [hl] at hlist
  obtain ⟨ys, zs, rfl, hys, hzs⟩ := List.map_eq_append_iff.mp hlist
  obtain ⟨⟨a, x⟩, rest, rfl, rfl, hrest⟩ := List.map_eq_cons_iff.mp hzs
  rw [List.map_eq_nil_iff] at hrest
  subst hrest
  obtain ⟨m', l', hrem, hheld', _⟩ := linkedList_remove_end_held hheld
  exact ⟨{ w with mem := m', linkedList := l' }, by rw [HeapWindow.remove_end, hrem]; rfl, h.seqnumHead, h.seqnumTail,
    h.windowsize, _, hheld', hys⟩

/-! ## `seqnum_in_window` and `ack_window` -/

theorem seqnum_in_window_eq (h : Represents w window) (ackSeqnum pktSeqnum : UInt8) :
    seqnum_in_window w ackSeqnum pktSeqnum = some (Trtp.seqnum_in_window window ackSeqnum pktSeqnum) := by
  unfold seqnum_in_window Trtp.seqnum_in_window
  cases hl : window.linkedList with
  | nil =>
    rw [if_pos (h.size_zero.mpr hl), h.seqnumHead]
    rfl
  | cons current next =>
    have hne : window.linkedList ≠ [] := by
      rw [hl]
      exact List.cons_ne_nil _ _
    have hzero : w.linkedList.size ≠ 0 := fun heq => hne (h.size_zero.mp heq)
    rw [if_neg hzero, h.seqnum_head hl]
    rfl

theorem ack_loop_eq {current : Node} {next : List Node} (h : Represents w window)
    (hl : window.linkedList = current :: next) (ackSeqnum : UInt8) {fuel : Nat} (hfuel : next.length < fuel) :
    ∃ w', ack_loop ackSeqnum fuel w.linkedList.head w = some w' ∧
      Represents w' (ack_loop_window ackSeqnum window.linkedList window) := by
  induction fuel generalizing w window current next with
  | zero => exact absurd hfuel (Nat.not_lt_zero _)
  | succ fuel ih =>
    rw [hl, ack_loop_window]
    simp only [ack_loop, h.seqnum_head hl, seqnum_in_window_eq h, Option.bind_eq_bind, Option.bind_some]
    cases Trtp.seqnum_in_window window ackSeqnum (seqnumOf current) with
    | false => exact ⟨w, rfl, h⟩
    | true =>
      obtain ⟨w₁, hrem, h₁⟩ := h.remove hl
      simp only [hrem, Option.bind_some, if_true]
      have hacked : remove_acked window =
          { window with
            linkedList := next
            seqnumHead := (next.head?.map seqnumOf).getD window.seqnumHead } := by
        rw [remove_acked, hl]
        rfl
      cases next with
      | nil =>
        rw [if_pos (h₁.size_zero.mpr rfl), hacked]
        exact ⟨w₁, rfl, h₁⟩
      | cons node next =>
        have hzero : w₁.linkedList.size ≠ 0 := fun heq => absurd (h₁.size_zero.mp heq) (List.cons_ne_nil _ _)
        rw [if_neg hzero, h₁.seqnum_head rfl, Option.bind_some]
        have h₂ : Represents { w₁ with seqnumHead := seqnumOf node } (remove_acked window) := by
          rw [hacked]
          exact ⟨rfl, h₁.seqnumTail, h₁.windowsize, h₁.list⟩
        have hl₂ : (remove_acked window).linkedList = node :: next := by rw [hacked]
        obtain ⟨w', hrest, h'⟩ := ih h₂ hl₂ (Nat.lt_of_succ_lt_succ hfuel)
        rw [hl₂] at h'
        exact ⟨w', hrest, h'⟩

theorem can_ack_window_numbers (h : Represents w window) (ackSeqnum : UInt8) :
    can_ack_window w.numbers ackSeqnum = can_ack_window window ackSeqnum := by
  simp only [can_ack_window, HeapWindow.numbers, h.seqnumHead, h.seqnumTail]

/-- An `ACK` that is accepted reads the first packet. -/
theorem ack_window_none (h : Represents w window) (hnil : window.linkedList = []) {ackSeqnum : UInt8}
    (hcan : can_ack_window window ackSeqnum = true) : ack_window w ackSeqnum = none := by
  have hcan' : ¬ can_ack_window w.numbers ackSeqnum = false := by
    rw [can_ack_window_numbers h, hcan]
    decide
  rw [ack_window, if_neg hcan', ack_loop, h.seqnum_nil hnil]
  rfl

theorem ack_window_eq (h : Represents w window) {ackSeqnum : UInt8}
    (hsafe : window.linkedList = [] → can_ack_window window ackSeqnum = false) :
    ∃ w', ack_window w ackSeqnum = some w' ∧ Represents w' (acked_window window ackSeqnum) := by
  unfold ack_window acked_window
  rw [can_ack_window_numbers h]
  cases hcan : can_ack_window window ackSeqnum with
  | false => exact ⟨w, rfl, h⟩
  | true =>
    simp only [Bool.true_eq_false, if_false, if_true]
    cases hl : window.linkedList with
    | nil => exact absurd (hsafe hl) (by rw [hcan]; decide)
    | cons current next =>
      have hfuel : next.length < w.linkedList.size.toNat + 1 := by
        rw [h.size, hl, List.length_cons]
        omega
      rw [← hl]
      exact ack_loop_eq h hl ackSeqnum hfuel

/-! ## `update_window` -/

theorem remove_end_loop_eq (h : Represents w window) (fuel : Nat) (hfuel : window.linkedList.length < fuel) :
    ∃ w', remove_end_loop fuel w = some (true, w') ∧
      Represents w' { window with linkedList := window.linkedList.take window.windowsize } := by
  induction fuel generalizing w window with
  | zero => exact absurd hfuel (Nat.not_lt_zero _)
  | succ fuel ih =>
    rw [remove_end_loop, h.size, h.windowsize]
    by_cases hgt : window.linkedList.length > window.windowsize
    · rw [if_pos hgt]
      obtain ⟨front, last, hl⟩ : ∃ front last, window.linkedList = front ++ [last] :=
        (List.eq_nil_or_concat' window.linkedList).resolve_left fun hnil => by
          rw [hnil, List.length_nil] at hgt
          exact Nat.not_lt_zero _ hgt
      rw [hl, List.length_append, List.length_singleton] at hgt hfuel
      obtain ⟨w₁, hrem, h₁⟩ := h.remove_end hl
      obtain ⟨w', hrest, h'⟩ := ih h₁ (Nat.lt_of_succ_lt_succ hfuel)
      simp only [hrem, Option.bind_eq_bind, Option.bind_some, ne_eq, not_true_eq_false, if_false]
      refine ⟨w', hrest, ?_⟩
      rw [hl, List.take_append_of_le_length (by omega)]
      exact h'
    · rw [if_neg hgt, List.take_of_length_le (by omega)]
      exact ⟨w, rfl, h⟩

/-- A smaller window removes what does not fit and then reads the last packet. -/
theorem update_window_shrinks (h : Represents w window) {newSize : UInt8}
    (hshrink : Protocol.Shrinks window newSize.toNat) :
    ∃ w', Represents w'
        { window with
          windowsize := newSize.toNat
          linkedList := window.linkedList.take newSize.toNat } ∧
      update_window w newSize =
        (w'.seqnum_at w'.linkedList.tail).map fun seqnumTail => { w' with seqnumTail } := by
  have h0 : newSize ≠ 0 := fun heq => hshrink.1 (by rw [heq]; rfl)
  have hlt : newSize.toNat < w.windowsize := by
    rw [h.windowsize]
    exact hshrink.2
  have h₁ : Represents { w with windowsize := newSize.toNat } { window with windowsize := newSize.toNat } :=
    ⟨h.seqnumHead, h.seqnumTail, rfl, h.list⟩
  have hfuel : window.linkedList.length < w.linkedList.size.toNat + 1 := by
    rw [h.size]
    exact Nat.lt_succ_self _
  obtain ⟨w', hloop, h'⟩ := remove_end_loop_eq h₁ _ hfuel
  refine ⟨w', h', ?_⟩
  rw [update_window, if_neg h0, if_neg (by omega), if_neg (by omega), hloop]
  cases hread : w'.seqnum_at w'.linkedList.tail with
  | none => simp [hread]
  | some seqnumTail => simp [hread]

theorem update_window_none (h : Represents w window) (hnil : window.linkedList = []) {newSize : UInt8}
    (hshrink : Protocol.Shrinks window newSize.toNat) : update_window w newSize = none := by
  obtain ⟨w', h', heq⟩ := update_window_shrinks h hshrink
  rw [heq, h'.seqnum_nil (by rw [hnil, List.take_nil]), Option.map_none]

theorem update_window_eq {s : Sender} (h : Represents w s.window) {newSize : UInt8}
    (hsafe : s.window.linkedList = [] → ¬ Protocol.Shrinks s.window newSize.toNat) (stale : Pkt) :
    ∃ w', update_window w newSize = some w' ∧ Represents w' (Trtp.update_window s newSize stale).2.window := by
  rcases update_window_cases s newSize stale with ⟨hnot, stats, heq⟩ | ⟨hshrink, heq⟩
  · rw [heq]
    unfold update_window
    by_cases h0 : newSize = 0
    · rw [if_pos h0, if_pos h0]
      exact ⟨w, rfl, h⟩
    rw [if_neg h0, if_neg h0]
    have hne : newSize.toNat ≠ 0 := fun hzero => h0 (UInt8.toNat_inj.mp hzero)
    by_cases hsame : newSize.toNat = w.windowsize
    · rw [if_pos hsame]
      exact ⟨w, rfl, h.seqnumHead, h.seqnumTail, hsame.symm, h.list⟩
    · have hgt : newSize.toNat > w.windowsize := by
        by_contra hle
        refine hnot ⟨hne, ?_⟩
        rw [← h.windowsize]
        omega
      rw [if_neg hsame, if_pos hgt]
      exact ⟨_, rfl, h.seqnumHead, h.seqnumTail, rfl, h.list⟩
  · rw [heq]
    obtain ⟨w', h', hup⟩ := update_window_shrinks h hshrink
    have hne : s.window.linkedList.take newSize.toNat ≠ [] := by
      intro hnil
      rcases List.take_eq_nil_iff.mp hnil with hzero | hempty
      · exact hshrink.1 hzero
      · exact hsafe hempty hshrink
    have hlast := List.getLast?_eq_some_getLast hne
    rw [hup, h'.seqnum_tail hlast, Option.map_some]
    refine ⟨_, rfl, h'.seqnumHead, ?_, h'.windowsize, ?_⟩
    · rw [Protocol.shrink_window_seqnumTail, hlast]
      rfl
    · obtain ⟨xs, hheld, hlist⟩ := h'.list
      exact ⟨xs, hheld, hlist.trans (Protocol.shrink_window_linkedList ..).symm⟩

/-! ## A packet -/

/-- The packet makes the sender read the first or the last packet of its list, which is empty. -/
def ReadsNothing (window : Window Node) (pkt : Pkt) : Prop :=
  window.linkedList = [] ∧ (Protocol.Shrinks window (pkt_get_window pkt).toNat ∨
    (pkt_get_type pkt = .ACK ∧ can_ack_window window (pkt_get_seqnum pkt) = true))

instance (window : Window Node) (pkt : Pkt) : Decidable (ReadsNothing window pkt) :=
  decidable_of_iff (window.linkedList.isEmpty = true ∧ _) (and_congr_left fun _ => List.isEmpty_iff)

/-- Where the window does not shrink, the numbers that `can_ack_window` reads are the same. -/
theorem can_ack_window_updated {s : Sender} {newSize : UInt8} (h : ¬ Protocol.Shrinks s.window newSize.toNat)
    (stale : Pkt) (ackSeqnum : UInt8) :
    (Trtp.update_window s newSize stale).2.window.linkedList = s.window.linkedList ∧
      can_ack_window (Trtp.update_window s newSize stale).2.window ackSeqnum = can_ack_window s.window ackSeqnum := by
  rcases update_window_cases s newSize stale with ⟨_, stats, heq⟩ | ⟨hshrink, _⟩
  · rw [heq]
    exact ⟨rfl, rfl⟩
  · exact absurd hshrink h

theorem handle_packet_none {s : Sender} (h : Represents w s.window) {pkt : Pkt} (hreads : ReadsNothing s.window pkt) :
    handle_packet w pkt = none := by
  obtain ⟨hnil, hbad⟩ := hreads
  unfold handle_packet
  by_cases hshrink : Protocol.Shrinks s.window (pkt_get_window pkt).toNat
  · rw [update_window_none h hnil hshrink]
    rfl
  · obtain ⟨hack, hcan⟩ := hbad.resolve_left hshrink
    obtain ⟨w', hup, h'⟩ := update_window_eq h (fun _ => hshrink) pkt_new
    obtain ⟨hlist, hsame⟩ := can_ack_window_updated hshrink pkt_new (pkt_get_seqnum pkt)
    simp only [hup, Option.bind_eq_bind, Option.bind_some, if_pos hack]
    exact ack_window_none h' (hlist.trans hnil) (hsame.trans hcan)

theorem handle_packet_eq {s : Sender} (h : Represents w s.window) {pkt : Pkt} (hsafe : ¬ ReadsNothing s.window pkt)
    (stale : Pkt) :
    ∃ w', handle_packet w pkt = some w' ∧
      Represents w' (handled_window (Trtp.update_window s (pkt_get_window pkt) stale).2.window pkt) := by
  obtain ⟨w₁, hup, h₁⟩ := update_window_eq h (fun hnil hshrink => hsafe ⟨hnil, Or.inl hshrink⟩) stale
  unfold handle_packet handled_window
  simp only [hup, Option.bind_eq_bind, Option.bind_some]
  by_cases hack : pkt_get_type pkt = .ACK
  swap
  · rw [if_neg hack, if_neg hack]
    exact ⟨w₁, rfl, h₁⟩
  rw [if_pos hack, if_pos hack]
  refine ack_window_eq h₁ fun hnil => ?_
  by_cases hshrink : Protocol.Shrinks s.window (pkt_get_window pkt).toNat
  · -- a window that shrinks keeps a packet
    rw [update_window_shrink (fun hzero => hshrink.1 (by rw [hzero]; rfl)) hshrink.2,
      Protocol.shrink_window_linkedList] at hnil
    rcases List.take_eq_nil_iff.mp hnil with hzero | hempty
    · exact absurd hzero hshrink.1
    · exact absurd ⟨hempty, Or.inl hshrink⟩ hsafe
  · obtain ⟨hlist, hsame⟩ := can_ack_window_updated hshrink stale (pkt_get_seqnum pkt)
    rw [hsame]
    exact Bool.eq_false_iff.mpr fun hcan => hsafe ⟨hlist.symm.trans hnil, Or.inr ⟨hack, hcan⟩⟩

/-! ## `resent_pkt` -/

/-- What `resent_pkt` makes of the packets. -/
def retimed (io : Nat → UInt32 × Bool) : List (Nat × Node) → Nat → List (Nat × Node)
  | [], _ => []
  | (a, current) :: next, k =>
    if Expired current (io k).1 then
      let current := { current with pkt := (pkt_set_timestamp current.pkt (io k).1).2 }
      if (io k).2 then (a, current) :: retimed io next (k + 1) else (a, current) :: next
    else (a, current) :: retimed io next (k + 1)

@[simp] theorem retimed_addrs (io : Nat → UInt32 × Bool) (xs : List (Nat × Node)) (k : Nat) :
    addrs (retimed io xs k) = addrs xs := by
  induction xs generalizing k with
  | nil => rfl
  | cons x xs ih =>
    unfold retimed
    split
    · split
      · rw [addrs_cons, addrs_cons, ih]
      · rfl
    · rw [addrs_cons, addrs_cons, ih]

theorem retimed_pkts (crc32 : List UInt8 → UInt32) (io : Nat → UInt32 × Bool) (xs : List (Nat × Node))
    (k nbr_resent : Nat) (s : Sender) :
    (retimed io xs k).map Prod.snd = (Trtp.resent_loop crc32 io (xs.map Prod.snd) k nbr_resent s).2.1 := by
  induction xs generalizing k nbr_resent s with
  | nil => rfl
  | cons x xs ih =>
    obtain ⟨a, current⟩ := x
    rw [List.map_cons]
    unfold retimed Trtp.resent_loop
    by_cases hold : Expired current (io k).1
    swap
    · rw [if_neg hold, if_neg (id hold : ¬ ((io k).1 - pkt_get_timestamp current.pkt).toNat > TIMEOUT), List.map_cons,
        ih (k + 1) nbr_resent s]
    rw [if_pos hold, if_pos (id hold : ((io k).1 - pkt_get_timestamp current.pkt).toNat > TIMEOUT)]
    cases (io k).2 with
    | false => rfl
    | true =>
      simp only [if_true]
      rw [List.map_cons, ih (k + 1) (nbr_resent + 1)]

theorem set_timestamp_some {m : Memory Node} {a : Nat} {cell : Cell Node} (h : m.nodes a = some cell) (time : UInt32) :
    set_timestamp m (some a) time =
      some { m with
        nodes := Function.update m.nodes a
          (some { cell with value := { cell.value with pkt := (pkt_set_timestamp cell.value.pkt time).2 } }) } := by
  simp [set_timestamp, h]

/-- The walk ends on `tail`, or where a write fails. -/
theorem resent_loop_seg (io : Nat → UInt32 × Bool) {xs : List (Nat × Node)} {current tail q : Ptr} {m : Memory Node}
    (fuel k : Nat) (h : Seg m.nodes current xs q) (hnodup : (addrs xs).Nodup) (hne : xs ≠ [])
    (htail : ∀ last ∈ xs.getLast?, tail = some last.1) (hfuel : xs.length ≤ fuel) :
    ∃ m', resent_loop io tail fuel k current m = some m' ∧ Seg m'.nodes current (retimed io xs k) q ∧
      (∀ a, a ∉ addrs xs → m'.nodes a = m.nodes a) ∧ m'.deleted = m.deleted := by
  induction xs generalizing current m fuel k with
  | nil => contradiction
  | cons x rest ih =>
    obtain ⟨a, x⟩ := x
    obtain ⟨fuel, rfl⟩ : ∃ n, fuel = n + 1 := ⟨fuel - 1, by rw [List.length_cons] at hfuel; omega⟩
    obtain ⟨rfl, next, hcell, hrest⟩ := h
    rw [addrs_cons, List.nodup_cons] at hnodup
    -- the walk goes on, once the packet of `a` is `x₁`
    have hgo : ∀ m₁ x₁, m₁.nodes a = some ⟨x₁, next⟩ → Seg m₁.nodes next rest q →
        ∃ m', (if some a = tail then some m₁ else resent_loop io tail fuel (k + 1) next m₁) = some m' ∧
          Seg m'.nodes (some a) ((a, x₁) :: retimed io rest (k + 1)) q ∧
          (∀ b, b ∉ addrs ((a, x) :: rest) → m'.nodes b = m₁.nodes b) ∧ m'.deleted = m₁.deleted := by
      intro m₁ x₁ hcell₁ hrest₁
      cases rest with
      | nil =>
        have heq : tail = some a := htail (a, x) rfl
        rw [if_pos heq.symm]
        exact ⟨m₁, rfl, ⟨rfl, next, hcell₁, hrest₁⟩, fun _ _ => rfl, rfl⟩
      | cons y ys =>
        have hlast := List.getLast?_eq_some_getLast (List.cons_ne_nil y ys)
        have htail' : ∀ last ∈ (y :: ys).getLast?, tail = some last.1 := fun last hin =>
          htail last (by rw [List.getLast?_cons_of_ne_nil (List.cons_ne_nil y ys)]; exact hin)
        have hneq : some a ≠ tail := by
          rw [htail' _ hlast, ne_eq, Option.some.injEq]
          intro heq
          exact hnodup.1 (List.mem_map.mpr ⟨_, List.mem_of_getLast? hlast, heq.symm⟩)
        obtain ⟨m', hloop, hseg, hsame, hlog⟩ :=
          ih fuel (k + 1) hrest₁ hnodup.2 (List.cons_ne_nil y ys) htail' (Nat.le_of_succ_le_succ hfuel)
        rw [if_neg hneq]
        refine ⟨m', hloop, ⟨rfl, next, (hsame a hnodup.1).trans hcell₁, hseg⟩, fun b hb => ?_, hlog⟩
        exact hsame b fun hin => hb (List.mem_cons_of_mem _ hin)
    unfold resent_loop retimed
    simp only [Cells.access_some, hcell, Option.bind_eq_bind, Option.bind_some]
    by_cases hold : Expired x (io k).1
    swap
    · rw [if_neg hold, if_neg hold]
      exact hgo m x hcell hrest
    rw [if_pos hold, if_pos hold, set_timestamp_some hcell]
    simp only [Option.bind_some]
    have hother : ∀ b, b ∉ addrs ((a, x) :: rest) → ∀ cell, Function.update m.nodes a cell b = m.nodes b := by
      intro b hb cell
      exact Function.update_of_ne (fun heq => hb (by rw [heq]; exact List.mem_cons_self)) _ _
    cases hwrite : (io k).2 with
    | false =>
      simp only [if_true, Bool.false_eq_true, if_false]
      exact ⟨_, rfl, ⟨rfl, next, Function.update_self .., hrest.update hnodup.1 _⟩, fun b hb => hother b hb _, rfl⟩
    | true =>
      simp only [Bool.true_eq_false, if_false, if_true]
      obtain ⟨m', hloop, hseg, hsame, hlog⟩ := hgo
        { m with
          nodes := Function.update m.nodes a
            (some ⟨{ x with pkt := (pkt_set_timestamp x.pkt (io k).1).2 }, next⟩) }
        _ (Function.update_self ..) (hrest.update hnodup.1 _)
      exact ⟨m', hloop, hseg, fun b hb => (hsame b hb).trans (hother b hb _), hlog⟩

theorem resent_pkt_none (h : Represents w window) (hnil : window.linkedList = []) (io : Nat → UInt32 × Bool) :
    resent_pkt w io = none := by
  have hread := h.seqnum_nil hnil w.linkedList.head
  rw [HeapWindow.seqnum_at, Option.map_eq_none_iff] at hread
  rw [resent_pkt, resent_loop, hread]
  rfl

theorem resent_pkt_eq {s : Sender} (h : Represents w s.window) (hne : s.window.linkedList ≠ [])
    (crc32 : List UInt8 → UInt32) (io : Nat → UInt32 × Bool) :
    ∃ w', resent_pkt w io = some w' ∧ Represents w' (Trtp.resent_pkt crc32 s io).2.window := by
  obtain ⟨xs, hheld, hlist⟩ := h.list
  have hxs : xs ≠ [] := by
    rintro rfl
    exact hne hlist.symm
  obtain ⟨q, hseg⟩ := hheld.listed.seg
  have hfuel : xs.length ≤ w.linkedList.size.toNat + 1 := by
    rw [hheld.listed.size]
    exact Nat.le_succ _
  obtain ⟨m', hloop, hseg', hsame, _⟩ :=
    resent_loop_seg io _ 0 hseg hheld.listed.nodup hxs hheld.listed.tail hfuel
  have htail : ∀ last ∈ (retimed io xs 0).getLast?, w.linkedList.tail = some last.1 := by
    intro last hlast
    have haddr : last.1 ∈ (addrs (retimed io xs 0)).getLast? := by
      rw [addrs, List.getLast?_map, Option.mem_def.mp hlast]
      rfl
    rw [retimed_addrs, addrs, List.getLast?_map, Option.mem_map] at haddr
    obtain ⟨old, hold, heq⟩ := haddr
    rw [hheld.listed.tail old hold, heq]
  have hheld' : Held (fun _ => none) m' w.linkedList (retimed io xs 0) := by
    refine ⟨⟨?_, ?_, ⟨q, hseg'⟩, htail⟩, ?_, ?_⟩
    · have hlen := congrArg List.length (retimed_addrs io xs 0)
      rw [addrs, addrs, List.length_map, List.length_map] at hlen
      rw [hlen, hheld.listed.size]
    · rw [retimed_addrs]
      exact hheld.listed.nodup
    · intro a ha
      rw [retimed_addrs] at ha
      exact (hsame a ha).trans (hheld.owned.same a ha)
    · exact fun _ _ => rfl
  obtain ⟨_, copybuf, stats, sent, io_error, hs⟩ := Trtp.resent_loop_eq crc32 io s.window.linkedList 0 0 s
  refine ⟨{ w with mem := m' }, by rw [resent_pkt, hloop, Option.map_some], ?_⟩
  simp only [Trtp.resent_pkt, hs]
  refine ⟨h.seqnumHead, h.seqnumTail, h.windowsize, _, hheld', ?_⟩
  rw [retimed_pkts crc32 io xs 0 0 s, hlist]

/-! ## `fill_window` and `send_final_pkt` -/

theorem fill_window_eq (h : Represents w window) (hlen : window.linkedList.length < 255) {n : Nat}
    (hn : w.mem.nodes n = none) (pkt : Node) (sendingSeqnum : UInt8) (done : Bool) :
    ∃ w', fill_window w n pkt sendingSeqnum done = some w' ∧ Represents w'
      { seqnumHead := if window.linkedList.isEmpty then sendingSeqnum else window.seqnumHead
        seqnumTail := if done then sendingSeqnum else window.seqnumTail
        windowsize := window.windowsize
        linkedList := window.linkedList ++ [pkt] } := by
  have h₁ : Represents (if w.linkedList.size = 0 then { w with seqnumHead := sendingSeqnum } else w)
      { window with
        seqnumHead := if window.linkedList.isEmpty then sendingSeqnum else window.seqnumHead } := by
    by_cases hnil : window.linkedList = []
    · rw [if_pos (h.size_zero.mpr hnil), if_pos (List.isEmpty_iff.mpr hnil)]
      exact ⟨rfl, h.seqnumTail, h.windowsize, h.list⟩
    · rw [if_neg (mt h.size_zero.mp hnil), if_neg (mt List.isEmpty_iff.mp hnil)]
      exact h
  have hn₁ : (if w.linkedList.size = 0 then { w with seqnumHead := sendingSeqnum } else w).mem.nodes n = none := by
    split <;> exact hn
  obtain ⟨w₂, hadd, h₂⟩ := h₁.add_pkt hlen hn₁ pkt
  unfold fill_window
  simp only [hadd, Option.bind_eq_bind, Option.bind_some]
  cases done with
  | true => exact ⟨_, rfl, h₂.seqnumHead, rfl, h₂.windowsize, h₂.list⟩
  | false => exact ⟨_, rfl, h₂⟩

theorem send_final_pkt_eq (h : Represents w window) (hlen : window.linkedList.length < 255) {n : Nat}
    (hn : w.mem.nodes n = none) (pkt : Node) (write : Bool) :
    ∃ w', send_final_pkt w n pkt write = some w' ∧ Represents w'
      { window with
        seqnumTail := window.seqnumTail + 1
        linkedList := if write then window.linkedList ++ [pkt] else window.linkedList } := by
  have h₁ : Represents { w with seqnumTail := w.seqnumTail + 1 } { window with seqnumTail := window.seqnumTail + 1 } :=
    ⟨h.seqnumHead, by rw [h.seqnumTail], h.windowsize, h.list⟩
  cases write with
  | true => exact h₁.add_pkt hlen hn pkt
  | false => exact ⟨_, rfl, h₁⟩

end Trtp.Heap
