import Trtp.Packet
import Trtp.Lib.Serial

/-!
# Windows

`window_pkt_t` with what the receiver and the sender do to it, over any packets that have a number.
-/

open Trtp.Lib

namespace Trtp

/-- What a window reads of its packets: their number, and whether their length is 0. -/
class Numbered (α : Type) where
  seqnumOf : α → UInt8
  isFinal : α → Bool

export Numbered (seqnumOf isFinal)

instance : Numbered Pkt where
  seqnumOf := pkt_get_seqnum
  isFinal pkt := pkt_get_length pkt = 0

/-- `window_pkt_t`. The size of the list is its length. -/
structure Window (α : Type) where
  seqnumHead : UInt8
  seqnumTail : UInt8
  windowsize : Nat
  linkedList : List α
  deriving Repr

/-- The window that both parties start with. -/
def Window.initial {α : Type} : Window α := ⟨0, 0, 1, []⟩

variable {α : Type}

/-! ## The linked list -/

def linkedList_add_pkt (list : List α) (pkt : α) : List α := list ++ [pkt]

def linkedList_remove (list : List α) : List α := list.tail

def linkedList_remove_end (list : List α) : List α := list.dropLast

/-- `while (list->size > size) linkedList_remove_end(list);` -/
def remove_end_while (size : Nat) (list : List α) : List α := linkedList_remove_end^[list.length - size] list

theorem iterate_remove_end (k : Nat) (list : List α) :
    linkedList_remove_end^[k] list = list.take (list.length - k) := by
  induction k generalizing list with
  | zero => simp
  | succ k ih =>
    rw [Function.iterate_succ_apply, ih, linkedList_remove_end, List.length_dropLast, List.dropLast_eq_take,
      List.take_take]
    congr 1
    omega

@[simp] theorem remove_end_while_eq (size : Nat) (list : List α) : remove_end_while size list = list.take size := by
  rw [remove_end_while, iterate_remove_end]
  by_cases h : size ≤ list.length
  · rw [Nat.sub_sub_self h]
  · rw [List.take_of_length_le (by omega), List.take_of_length_le (by omega)]

/-- `(seqnum < head) ? seqnum + 256 : seqnum` -/
def lift (head seqnum : UInt8) : Nat := if seqnum < head then seqnum.toNat + 256 else seqnum.toNat

theorem lift_eq (head seqnum : UInt8) : lift head seqnum = dist head seqnum + head.toNat :=
  (dist_lift head seqnum).symm

/-! ## The size and the tests of the receiver -/

def increase_window (window : Window α) : Window α :=
  if window.windowsize < 31 then { window with windowsize := window.windowsize + 1 } else window

/-- `(window->seqnumHead + window->windowsize) % 256` -/
def Window.border (window : Window α) : UInt8 := window.seqnumHead + UInt8.ofNat window.windowsize

def is_in_window (window : Window α) (seqnum : UInt8) : Bool :=
  let head := window.seqnumHead
  let tail := window.border
  let ignored :=
    if head < tail then
      (decide (seqnum.toNat > tail.toNat + 1) || decide (seqnum < head)) &&
        !(decide (seqnum = 0) && decide (tail = 255))
    else decide (seqnum < head) && decide (seqnum.toNat > tail.toNat + 1)
  if ignored then false
  else if head = tail ∧ seqnum ≠ head then false
  else true

def is_seqnum_greater (seqnumA seqnumB : UInt8) (window : Window α) : Bool :=
  let head := window.seqnumHead
  let tail := window.border
  if head < tail then decide (seqnumA > seqnumB) else decide (lift head seqnumA > lift head seqnumB)

@[simp] theorem increase_window_linkedList (window : Window α) :
    (increase_window window).linkedList = window.linkedList := by
  unfold increase_window
  split <;> rfl

@[simp] theorem increase_window_seqnumHead (window : Window α) :
    (increase_window window).seqnumHead = window.seqnumHead := by
  unfold increase_window
  split <;> rfl

/-! ## The tests of the sender -/

/-- The statements after the first two `return`s are unreachable. -/
def can_ack_window (window : Window α) (seqnum : UInt8) : Bool :=
  let head := window.seqnumHead
  decide (lift head seqnum < lift head window.seqnumTail + 31)

def is_in_sender_window (window : Window α) (seqnum : UInt8) : Bool :=
  let head := window.seqnumHead
  let tail := window.seqnumTail
  let outside :=
    if head < tail then decide (seqnum > tail) || decide (seqnum < head)
    else decide (seqnum < head) && decide (seqnum > tail)
  if outside then false
  else if head = tail ∧ seqnum ≠ head then false
  else true

/-! ## What the tests say -/

theorem border_toNat (window : Window α) :
    window.border.toNat = (window.seqnumHead.toNat + window.windowsize) % 256 := by
  rw [Window.border, UInt8.toNat_add, UInt8.toNat_ofNat']
  omega

/-- A window of size `n` takes the `n + 2` next numbers. -/
theorem is_in_window_iff (window : Window α) (seqnum : UInt8) (h1 : 1 ≤ window.windowsize)
    (h31 : window.windowsize ≤ 31) :
    is_in_window window seqnum = true ↔ dist window.seqnumHead seqnum ≤ window.windowsize + 1 := by
  have hborder := border_toNat window
  have hs := seqnum.toNat_lt
  have hh := window.seqnumHead.toNat_lt
  have hne : window.seqnumHead ≠ window.border := by
    intro heq
    rw [← UInt8.toNat_inj, hborder] at heq
    omega
  simp only [is_in_window, hne, false_and, if_false, dist_eq, UInt8.lt_iff_toNat_lt, ← UInt8.toNat_inj,
    hborder, UInt8.toNat_zero]
  have h255 : (255 : UInt8).toNat = 255 := rfl
  rw [h255]
  by_cases hlt : window.seqnumHead.toNat < (window.seqnumHead.toNat + window.windowsize) % 256
  · simp [hlt]
    omega
  · simp [hlt]
    omega

/-- Past the border numbers compare as they are ahead of the head. -/
theorem is_seqnum_greater_wrapped (window : Window α) (a b : UInt8) (h31 : window.windowsize ≤ 31)
    (h : 256 ≤ window.seqnumHead.toNat + window.windowsize) :
    is_seqnum_greater a b window = decide (dist window.seqnumHead b < dist window.seqnumHead a) := by
  have hborder := border_toNat window
  have hh := window.seqnumHead.toNat_lt
  have hlt : ¬ window.seqnumHead < window.border := by
    rw [UInt8.lt_iff_toNat_lt, hborder]
    omega
  simp [is_seqnum_greater, hlt, lift_eq]

/-- Before the border they compare as they are. -/
theorem is_seqnum_greater_plain (window : Window α) (a b : UInt8) (h1 : 1 ≤ window.windowsize)
    (h31 : window.windowsize ≤ 31) (h : window.seqnumHead.toNat + window.windowsize < 256) :
    is_seqnum_greater a b window = decide (b < a) := by
  have hborder := border_toNat window
  have hlt : window.seqnumHead < window.border := by
    rw [UInt8.lt_iff_toNat_lt, hborder]
    omega
  simp [is_seqnum_greater, hlt]

theorem can_ack_window_iff (window : Window α) (seqnum : UInt8) :
    can_ack_window window seqnum = true ↔
      dist window.seqnumHead seqnum < dist window.seqnumHead window.seqnumTail + 31 := by
  simp only [can_ack_window, lift_eq, decide_eq_true_eq]
  omega

/-! ## The list of the receiver -/

variable [Numbered α]

/-- The walk of `linkedList_add_increasing`: the new list, and whether the packet went to its end. Nothing for
a packet that is there already. -/
def add_loop (window : Window α) (pkt : α) : List α → Option (List α × Bool)
  | [] => some ([pkt], true)
  | current :: next =>
    if seqnumOf pkt = seqnumOf current then none
    else if is_seqnum_greater (seqnumOf current) (seqnumOf pkt) window then some (pkt :: current :: next, false)
    else (add_loop window pkt next).map fun (list, atEnd) => (current :: list, atEnd)

/-- `none` is the `-1` of a duplicate. -/
def linkedList_add_increasing (window : Window α) (pkt : α) : Option (Window α) :=
  (add_loop window pkt window.linkedList).map fun (list, atEnd) =>
    { window with
      linkedList := list
      seqnumTail := if atEnd then seqnumOf pkt else window.seqnumTail }

/-- What a `DATA` packet in the window makes of it. -/
def store (window : Window α) (pkt : α) : Window α :=
  match linkedList_add_increasing window pkt with
  | some window => if window.seqnumHead = seqnumOf pkt then increase_window window else window
  | none => window

/-- `eof_reached` of the receiver is not in the window. -/
def decrease_window (window : Window α) : Window α :=
  if window.windowsize > 4 then
    let windowsize := window.windowsize / 2
    let list := remove_end_while windowsize window.linkedList
    { window with
      windowsize
      linkedList := list
      seqnumTail :=
        if window.linkedList.length > windowsize then (list.getLast?.map seqnumOf).getD window.seqnumTail
        else window.seqnumTail }
  else window

/-- What `flush_file` makes of the window once it has written the first packet. -/
def flushed (window : Window α) (next : List α) : Window α :=
  let head := window.seqnumHead + 1
  { window with
    seqnumHead := head
    seqnumTail := if next.isEmpty then head else window.seqnumTail
    linkedList := next }

/-- `flush_file` when all its writes succeed, where `list` is the list of the window: the packets it writes, the
window, and whether it comes to the final packet. -/
def flush_loop_window (list : List α) (window : Window α) : List α × Window α × Bool :=
  match list with
  | [] => ([], window, false)
  | current :: next =>
    if window.seqnumHead ≠ seqnumOf current then ([], window, false)
    else if isFinal current then ([], { window with seqnumHead := window.seqnumHead + 1 }, true)
    else
      let (written, window, eof) := flush_loop_window next (flushed window next)
      (current :: written, window, eof)

/-! ## The list of the sender -/

/-- The statements after the first `return` are unreachable. -/
def seqnum_in_window (window : Window α) (ackSeqnum pktSeqnum : UInt8) : Bool :=
  let head := (window.linkedList.head?.map seqnumOf).getD window.seqnumHead
  decide (lift head pktSeqnum < lift head ackSeqnum)

/-- What one turn of the loop of `ack_window` does to the window. -/
def remove_acked (window : Window α) : Window α :=
  let list := linkedList_remove window.linkedList
  { window with
    linkedList := list
    seqnumHead := (list.head?.map seqnumOf).getD window.seqnumHead }

/-- What the loop of `ack_window` does to the window, where `list` is its list. -/
def ack_loop_window (ackSeqnum : UInt8) (list : List α) (window : Window α) : Window α :=
  match list with
  | [] => window
  | current :: next =>
    if seqnum_in_window window ackSeqnum (seqnumOf current) then
      ack_loop_window ackSeqnum next (remove_acked window)
    else window

/-- What `update_window` does to the window when `newSize` is smaller. `stale` is what the freed node of an empty
list gives for its number. -/
def shrink_window (window : Window α) (newSize : Nat) (stale : UInt8) : Window α :=
  let list := remove_end_while newSize window.linkedList
  { window with
    windowsize := newSize
    linkedList := list
    seqnumTail := (list.getLast?.map seqnumOf).getD stale }

theorem remove_acked_list {window : Window α} {current : α} {next : List α}
    (h : window.linkedList = current :: next) : (remove_acked window).linkedList = next := by
  simp [remove_acked, linkedList_remove, h]

theorem remove_acked_head {window : Window α} {current : α} {next : List α}
    (h : window.linkedList = current :: next) :
    (remove_acked window).seqnumHead = (next.head?.map seqnumOf).getD window.seqnumHead := by
  simp [remove_acked, linkedList_remove, h]

/-- Only the number of the first packet itself does not acknowledge it. -/
theorem seqnum_in_window_head {window : Window α} {current : α} {next : List α}
    (h : window.linkedList = current :: next) (ackSeqnum : UInt8) :
    seqnum_in_window window ackSeqnum (seqnumOf current) = true ↔ seqnumOf current ≠ ackSeqnum := by
  have hzero : dist (seqnumOf current) ackSeqnum = 0 ↔ ackSeqnum = seqnumOf current := dist_eq_zero
  simp only [seqnum_in_window, h, List.head?_cons, Option.map_some, Option.getD_some, lift_eq, dist_self,
    decide_eq_true_eq]
  rw [ne_comm, ne_eq, ← hzero]
  omega

end Trtp
