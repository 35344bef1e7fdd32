import Trtp.LinkedList.Run
import Trtp.Receiver.Run

/-!
# The receiver on its list

`read_write_receiver.c` node by node. As long as no packet is stored in a list of 255, its runs are those of the
receiver on a sequence of packets, and no access faults.
-/

open Trtp.Lib

namespace Trtp.Heap

/-- The receiver with the memory of its list. The sequence of `receiver.window` is not used. -/
structure HeapReceiver where
  receiver : Receiver
  linkedList : LinkedList
  mem : Memory Pkt
  /-- The packets that `receive_data` has made. -/
  made : List Pkt

def HeapReceiver.initial (buffer : Mem) : HeapReceiver :=
  ⟨.initial buffer, linkedList_create, ⟨fun _ => none, []⟩, []⟩

variable (crc32 : List UInt8 → UInt32)

/-! ## `decrease_window` -/

/-- `while (list->size > window->windowsize) { linkedList_remove_end(list); ++i; }`, at most `fuel` times. -/
def decrease_loop (windowsize : Nat) :
    Nat → Nat → LinkedList → Memory Pkt → Option (Nat × LinkedList × Memory Pkt)
  | 0, _, _, _ => none
  | fuel + 1, i, list, m =>
    if list.size.toNat > windowsize then do
      let (_, m, list) ← linkedList_remove_end m list
      decrease_loop windowsize fuel (i + 1) list m
    else some (i, list, m)

def decrease_window (h : HeapReceiver) : Option HeapReceiver :=
  let window := h.receiver.window
  if window.windowsize > 4 then do
    let windowsize := window.windowsize / 2
    let (i, linkedList, mem) ← decrease_loop windowsize (h.linkedList.size.toNat + 1) 0 h.linkedList h.mem
    let seqnumTail ←
      if i > 0 then (mem.nodes.access linkedList.tail).map fun tail => pkt_get_seqnum tail.value
      else some window.seqnumTail
    some { h with
      linkedList, mem
      receiver := { h.receiver with window := { window with windowsize, seqnumTail }, eof_reached := false } }
  else some h

def send_troncated_nack (h : HeapReceiver) (pkt : Pkt) (write : Bool) : Option HeapReceiver := do
  let h ← decrease_window { h with receiver := h.receiver.count_truncated }
  match send_response crc32 h.receiver .NACK (pkt_get_seqnum pkt) (pkt_get_timestamp pkt) write with
  | (true, receiver) => some { h with receiver := receiver.count_nack }
  | (false, receiver) => some { h with receiver }

/-! ## `receive_data` -/

/-- `pkt_del(pkt)` -/
def HeapReceiver.del (h : HeapReceiver) (pkt : Pkt) : HeapReceiver := { h with mem := pkt_del h.mem pkt }

/-- `packet_ignored++; pkt_del(pkt);` -/
def HeapReceiver.ignore (h : HeapReceiver) (pkt : Pkt) : HeapReceiver :=
  { h.del pkt with receiver := h.receiver.ignore }

/-- `n` is what `malloc` gives for a node. -/
def store_data (h : HeapReceiver) (n : Nat) (pkt : Pkt) : Option (Int × HeapReceiver) := do
  let seqnum := pkt_get_seqnum pkt
  let r := { h.receiver with
    stats := { h.receiver.stats with data_received := h.receiver.stats.data_received + 1 } }
  let (retval, atEnd, mem, linkedList) ← linkedList_add_increasing h.mem h.linkedList r.window n pkt
  if retval = 0 then
    let r := { r with
      window := { r.window with seqnumTail := if atEnd then seqnum else r.window.seqnumTail } }
    let r := if pkt_get_length pkt = 0 then { r with eof_reached := true, eof_seqnum := seqnum } else r
    let r :=
      if r.window.seqnumHead = seqnum then { r with window := increase_window r.window, resent_ack := false }
      else { r with resent_ack := true }
    some (0, { h with receiver := r, mem, linkedList })
  else
    let r := { r with
      stats := { r.stats with packet_duplicated := r.stats.packet_duplicated + 1 }
      resent_ack := true }
    some (-1, { h with receiver := r, mem, linkedList }.del pkt)

def receive_valid (h : HeapReceiver) (n : Nat) (pkt : Pkt) (write : Bool) : Option (Int × HeapReceiver) :=
  match pkt_get_type pkt with
  | .DATA =>
    if pkt_get_tr pkt ≠ 0 then (send_troncated_nack crc32 h pkt write).map fun h => (0, h.del pkt)
    else
      match h.receiver.is_in_window (pkt_get_seqnum pkt) with
      | (true, receiver) => store_data { h with receiver } n pkt
      | (false, receiver) => some (0, { h.del pkt with receiver := { receiver with resent_ack := true } })
  | .FEC => some (-1, h.ignore pkt)
  | .ACK | .NACK => some (0, h.ignore pkt)

def receive_decoded (h : HeapReceiver) (n : Nat) (retval : PktStatus) (pkt : Pkt) (write : Bool) :
    Option (Int × HeapReceiver) :=
  if retval = .E_CRC then
    if pkt_get_type pkt = .DATA ∧ pkt_get_tr pkt = 1 then
      match h.receiver.is_in_window (pkt_get_seqnum pkt) with
      | (true, receiver) => (send_troncated_nack crc32 { h with receiver } pkt write).map fun h => (0, h.del pkt)
      | (false, receiver) => some (-1, { h with receiver }.ignore pkt)
    else some (-1, h.ignore pkt)
  else if retval ≠ .PKT_OK then some (-1, h.ignore pkt)
  else receive_valid crc32 h n pkt write

def receive_data (h : HeapReceiver) (n : Nat) (bytes_read : Option (List UInt8)) (write : Bool) :
    Option (Int × HeapReceiver) :=
  let receiver := h.receiver.read bytes_read
  let (retval, pkt) := pkt_decode crc32 receiver.buffer (readLen bytes_read) pkt_new
  receive_decoded crc32 { h with receiver, made := h.made ++ [pkt] } n retval pkt write

/-! ## `flush_file` -/

/-- `current` has gone to the output, and is still in the list. -/
def HeapReceiver.wrote (h : HeapReceiver) (current : Pkt) (written : List UInt8) : HeapReceiver :=
  let window := h.receiver.window
  let seqnumHead := window.seqnumHead + 1
  { h with receiver := { h.receiver with
    window := { window with
      seqnumHead
      seqnumTail := if h.linkedList.size = 1 then seqnumHead else window.seqnumTail }
    lastTimestamp := pkt_get_timestamp current
    consumed := h.receiver.consumed + 1
    stdout := h.receiver.stdout ++ [written] } }

/-- `if (list->size == 0) resent_ack = 1;` -/
def HeapReceiver.flush_end (h : HeapReceiver) : HeapReceiver :=
  if h.linkedList.size = 0 then { h with receiver := { h.receiver with resent_ack := true } } else h

/-- The loop, at most `fuel` times. -/
def flush_loop (wr : Nat → Option Nat) : Nat → Ptr → Nat → HeapReceiver → Option (Int × HeapReceiver)
  | 0, _, _, _ => none
  | fuel + 1, current, packet_write, h => do
    let node ← h.mem.nodes.access current
    let pkt := node.value
    if h.receiver.window.seqnumHead ≠ pkt_get_seqnum pkt then some (packet_write, h.flush_end)
    else if pkt_get_length pkt = 0 then
      let window := { h.receiver.window with seqnumHead := h.receiver.window.seqnumHead + 1 }
      some (-1, { h with receiver := { h.receiver with
        lastTimestamp := pkt_get_timestamp pkt
        window
        consumed := h.receiver.consumed + 1 } })
    else
      match wr packet_write with
      | none => some (-1, h)
      | some n => do
        let payload := readBuffer (pkt_get_payload pkt) (pkt_get_length pkt).toNat
        let h := h.wrote pkt (payload.take n)
        let (_, mem, linkedList) ← linkedList_remove h.mem h.linkedList
        let h := { h with mem, linkedList }
        if current = linkedList.tail then some ((packet_write + 1 : Nat), h.flush_end)
        else flush_loop wr fuel linkedList.head (packet_write + 1) h

def flush_file (h : HeapReceiver) (wr : Nat → Option Nat) : Option (Int × HeapReceiver) :=
  if h.linkedList.size = 0 then some (0, { h with receiver := { h.receiver with resent_ack := true } })
  else flush_loop wr h.linkedList.size.toNat h.linkedList.head 0 h

def flush_turn (h : HeapReceiver) (wr : Nat → Option Nat) (write : Bool) : Option HeapReceiver := do
  let (retval, h) ← flush_file h wr
  if retval = -1 then
    let receiver := { h.receiver with eof_wrote := true }
    some { h with receiver := send_ack crc32 receiver receiver.lastTimestamp write }
  else some h

/-- A step of the main loop. It is `none` after the end of the file, or when an access faults. -/
def heap_step (h : HeapReceiver) : Nat × LoopAction → Option HeapReceiver
  | (n, a) =>
    if h.receiver.eof_wrote then none
    else
      match a with
      | .receive bytes_read write => (receive_data crc32 h n bytes_read write).map Prod.snd
      | .flush wr write => flush_turn crc32 h wr write
      | .ack write => some { h with receiver := ack_turn crc32 h.receiver write }

/-! ## What the receiver stands for -/

/-- The receiver with a sequence of packets in its window. -/
def with_list (r : Receiver) (list : List Pkt) : Receiver := { r with window := { r.window with linkedList := list } }

/-- The receiver on the sequence of packets that the list has. -/
def HeapReceiver.view (h : HeapReceiver) (xs : List (Nat × Pkt)) : Receiver :=
  with_list h.receiver (xs.map Prod.snd)

/-- Nothing but the nodes of the list is allocated. Each packet that was made is in the list, or was deleted once, or is
in a local variable. -/
structure Holds (h : HeapReceiver) (xs : List (Nat × Pkt)) (locals : List Pkt) : Prop where
  held : Held (fun _ => none) h.mem h.linkedList xs
  ledger : ((h.mem.deleted ++ xs.map Prod.snd) ++ locals).Perm h.made

theorem holds_initial (buffer : Mem) : Holds (.initial buffer) [] [] :=
  ⟨linkedList_create_held _ _, List.Perm.refl _⟩

variable {crc32} {h : HeapReceiver} {xs : List (Nat × Pkt)} {locals : List Pkt} {pkt : Pkt}

theorem Holds.receiver (hh : Holds h xs locals) (receiver : Receiver) : Holds { h with receiver } xs locals :=
  ⟨hh.held, hh.ledger⟩

theorem Holds.del (hh : Holds h xs [pkt]) : Holds (h.del pkt) xs [] where
  held := ⟨hh.held.listed, hh.held.owned⟩
  ledger := by
    have hmove : ((h.mem.deleted ++ [pkt]) ++ xs.map Prod.snd).Perm ((h.mem.deleted ++ xs.map Prod.snd) ++ [pkt]) := by
      rw [List.append_assoc, List.append_assoc]
      exact List.perm_append_comm.append_left _
    rw [List.append_nil]
    exact hmove.trans hh.ledger

theorem Holds.fresh (hh : Holds h xs locals) {n : Nat} (hn : h.mem.nodes n = none) : n ∉ addrs xs := by
  intro hin
  obtain ⟨⟨a, x⟩, hmem, rfl⟩ := List.mem_map.mp hin
  obtain ⟨q, hseg⟩ := hh.held.listed.seg
  obtain ⟨link, hcell⟩ := hseg.mem hmem
  rw [hn] at hcell
  contradiction

/-! ### What does not look at the list -/

theorem with_list_is_in_window (r : Receiver) (list : List Pkt) (seqnum : UInt8) :
    (with_list r list).is_in_window seqnum =
      ((r.is_in_window seqnum).1, with_list (r.is_in_window seqnum).2 list) := by
  have hsame : Trtp.is_in_window (with_list r list).window seqnum = Trtp.is_in_window r.window seqnum := rfl
  unfold Receiver.is_in_window
  rw [hsame]
  split <;> rfl

theorem with_list_send_response (r : Receiver) (list : List Pkt) (type : PType) (seqnum : UInt8) (timestamp : UInt32)
    (write : Bool) :
    send_response crc32 (with_list r list) type seqnum timestamp write =
      ((send_response crc32 r type seqnum timestamp write).1,
        with_list (send_response crc32 r type seqnum timestamp write).2 list) := by
  have hsize : (with_list r list).window.windowsize = r.window.windowsize := rfl
  have hbuffer : (with_list r list).buffer = r.buffer := rfl
  unfold send_response
  rw [hsize, hbuffer]
  rcases response_pkt type seqnum r.window.windowsize timestamp with ⟨status, pkt⟩
  cases status <;> try rfl
  simp only
  rcases pkt_encode crc32 pkt r.buffer PKT_MAX_LEN with ⟨status, buffer, len⟩
  cases status <;> try rfl
  cases write <;> rfl

theorem with_list_send_ack (r : Receiver) (list : List Pkt) (timestamp : UInt32) (write : Bool) :
    send_ack crc32 (with_list r list) timestamp write = with_list (send_ack crc32 r timestamp write) list := by
  have hhead : (with_list r list).window.seqnumHead = r.window.seqnumHead := rfl
  unfold send_ack
  rw [hhead, with_list_send_response]
  rcases send_response crc32 r .ACK r.window.seqnumHead timestamp write with ⟨ok, r'⟩
  cases ok <;> rfl

theorem with_list_ack_turn (r : Receiver) (list : List Pkt) (write : Bool) :
    ack_turn crc32 (with_list r list) write = with_list (ack_turn crc32 r write) list := by
  have hresent : (with_list r list).resent_ack = r.resent_ack := rfl
  have htime : (with_list r list).lastTimestamp = r.lastTimestamp := rfl
  unfold ack_turn
  rw [hresent, htime, with_list_send_ack]
  split <;> rfl

theorem add_loop_with_list (r : Receiver) (list : List Pkt) (pkt : Pkt) (walked : List Pkt) :
    add_loop (with_list r list).window pkt walked = add_loop r.window pkt walked := by
  induction walked with
  | nil => rfl
  | cons current next ih =>
    rw [add_loop, add_loop, ih]
    rfl

/-! ## `decrease_window` -/

theorem decrease_loop_eq (hh : Holds h xs locals) (windowsize i : Nat) {fuel : Nat} (hfuel : xs.length < fuel) :
    ∃ linkedList mem, decrease_loop windowsize fuel i h.linkedList h.mem =
        some (i + (xs.length - windowsize), linkedList, mem) ∧
      Holds { h with linkedList, mem } (xs.take windowsize) locals := by
  induction fuel generalizing h xs i with
  | zero => exact absurd hfuel (Nat.not_lt_zero _)
  | succ fuel ih =>
    rw [decrease_loop, hh.held.listed.size]
    by_cases hgt : xs.length > windowsize
    · rw [if_pos hgt]
      obtain ⟨front, ⟨a, x⟩, rfl⟩ : ∃ front last, xs = front ++ [last] :=
        (List.eq_nil_or_concat' xs).resolve_left fun hnil => by
          rw [hnil, List.length_nil] at hgt
          exact Nat.not_lt_zero _ hgt
      rw [List.length_append, List.length_singleton] at hgt hfuel
      obtain ⟨mem, linkedList, hrem, hheld, hlog⟩ := linkedList_remove_end_held hh.held
      have hh₁ : Holds { h with linkedList, mem } front locals := by
        refine ⟨hheld, ?_⟩
        rw [hlog]
        exact (perm_delete (List.Perm.refl _) (List.perm_append_singleton (a, x) front)).append_right locals
          |>.trans hh.ledger
      obtain ⟨linkedList', mem', hloop, hh'⟩ := ih hh₁ (i + 1) (Nat.lt_of_succ_lt_succ hfuel)
      refine ⟨linkedList', mem', ?_, ?_⟩
      · simp only [hrem, Option.bind_eq_bind, Option.bind_some]
        rw [hloop, List.length_append, List.length_singleton]
        congr 2
        omega
      · rw [List.take_append_of_le_length (by omega)]
        exact hh'
    · rw [if_neg hgt, List.take_of_length_le (by omega)]
      refine ⟨_, _, ?_, hh⟩
      rw [Nat.sub_eq_zero_of_le (by omega), Nat.add_zero]

theorem Listed.tail_access {m : Memory Pkt} {l : LinkedList} (hl : Listed m.nodes l xs) {last : Nat × Pkt}
    (hlast : last ∈ xs.getLast?) : ∃ next, m.nodes.access l.tail = some ⟨last.2, next⟩ := by
  obtain ⟨q, hseg⟩ := hl.seg
  obtain ⟨next, hcell⟩ := hseg.mem (List.mem_of_getLast? hlast)
  rw [hl.tail last hlast]
  exact ⟨next, hcell⟩

/-- The tail is read only after a removal, and a window of two packets or more is not empty then. -/
theorem decrease_window_eq (hh : Holds h xs locals) :
    ∃ h' ys, decrease_window h = some h' ∧ Holds h' ys locals ∧ h'.view ys = (h.view xs).decrease := by
  have hsize : (h.view xs).window.windowsize = h.receiver.window.windowsize := rfl
  unfold decrease_window Receiver.decrease Trtp.decrease_window
  rw [hsize]
  by_cases hlarge : h.receiver.window.windowsize > 4
  swap
  · simp only [if_neg hlarge]
    exact ⟨h, xs, rfl, hh, rfl⟩
  simp only [if_pos hlarge]
  have hfuel : xs.length < h.linkedList.size.toNat + 1 := by
    rw [hh.held.listed.size]
    exact Nat.lt_succ_self _
  obtain ⟨linkedList, mem, hloop, hh'⟩ := decrease_loop_eq hh (h.receiver.window.windowsize / 2) 0 hfuel
  have hlist : (h.view xs).window.linkedList = xs.map Prod.snd := rfl
  simp only [hloop, Option.bind_eq_bind, Option.bind_some, Nat.zero_add, remove_end_while_eq, hlist, List.length_map]
  by_cases hgt : xs.length > h.receiver.window.windowsize / 2
  · obtain ⟨last, hlast⟩ : ∃ last, (xs.take (h.receiver.window.windowsize / 2)).getLast? = some last := by
      refine Option.isSome_iff_exists.mp (List.getLast?_isSome.mpr ?_)
      rw [ne_eq, List.take_eq_nil_iff, not_or]
      refine ⟨by omega, ?_⟩
      rintro rfl
      exact Nat.not_lt_zero _ hgt
    obtain ⟨next, haccess⟩ := Listed.tail_access hh'.held.listed hlast
    have hread : (mem.nodes.access linkedList.tail).map (fun tail => pkt_get_seqnum tail.value) =
        some (pkt_get_seqnum last.2) := by
      rw [haccess]
      rfl
    have hpos : xs.length - h.receiver.window.windowsize / 2 > 0 := by omega
    simp only [if_pos hpos, if_pos hgt, hread, Option.bind_some]
    refine ⟨_, _, rfl, hh'.receiver _, ?_⟩
    rw [← List.map_take, List.getLast?_map, hlast]
    rfl
  · have hpos : ¬ xs.length - h.receiver.window.windowsize / 2 > 0 := by omega
    simp only [if_neg hpos, if_neg hgt]
    refine ⟨_, _, rfl, hh'.receiver _, ?_⟩
    rw [← List.map_take]
    rfl

/-! ## `receive_data` -/

theorem send_troncated_nack_held (crc32 : List UInt8 → UInt32) (hh : Holds h xs locals) (pkt : Pkt) (write : Bool) :
    ∃ h' ys, send_troncated_nack crc32 h pkt write = some h' ∧ Holds h' ys locals ∧
      h'.view ys = Trtp.send_troncated_nack crc32 (h.view xs) pkt write := by
  obtain ⟨h₁, ys, hdec, hh₁, hview⟩ := decrease_window_eq (hh.receiver h.receiver.count_truncated)
  have hcount : (h.view xs).count_truncated.decrease = with_list h₁.receiver (ys.map Prod.snd) := hview.symm
  unfold send_troncated_nack Trtp.send_troncated_nack
  rw [hcount, with_list_send_response]
  simp only [hdec, Option.bind_eq_bind, Option.bind_some]
  rcases send_response crc32 h₁.receiver .NACK (pkt_get_seqnum pkt) (pkt_get_timestamp pkt) write with ⟨ok, r⟩
  cases ok with
  | true => exact ⟨_, ys, rfl, hh₁.receiver _, rfl⟩
  | false => exact ⟨_, ys, rfl, hh₁.receiver _, rfl⟩

/-- The new packet is in the list, or deleted. -/
theorem store_data_eq (hh : Holds h xs [pkt]) {n : Nat} (hn : h.mem.nodes n = none) (hlen : xs.length < 255) :
    ∃ h' ys, store_data h n pkt = some ((Trtp.store_data (h.view xs) pkt).1, h') ∧ Holds h' ys [] ∧
      h'.view ys = (Trtp.store_data (h.view xs) pkt).2 := by
  have hins := linkedList_add_increasing_held h.receiver.window pkt hh.held (fun _ => hlen) rfl (hh.fresh hn)
  have hwalk := insert_increasing_add_loop h.receiver.window n pkt xs
  have hadd : Trtp.linkedList_add_increasing (h.view xs).window pkt =
      (add_loop h.receiver.window pkt (xs.map Prod.snd)).map fun (list, atEnd) =>
        { (h.view xs).window with
          linkedList := list
          seqnumTail := if atEnd then pkt_get_seqnum pkt else h.receiver.window.seqnumTail } := by
    have hwith := add_loop_with_list h.receiver (xs.map Prod.snd) pkt (xs.map Prod.snd)
    unfold Trtp.linkedList_add_increasing
    rw [← hwith]
    rfl
  unfold store_data Trtp.store_data
  simp only [hadd, ← hwalk]
  cases hcase : insert_increasing h.receiver.window n pkt xs with
  | none =>
    rw [hcase] at hins
    simp only [hins, Option.bind_eq_bind, Option.bind_some, Option.map_none]
    refine ⟨_, xs, rfl, ?_, rfl⟩
    exact (hh.receiver _).del
  | some inserted =>
    obtain ⟨ys, atEnd⟩ := inserted
    rw [hcase] at hins
    obtain ⟨mem, linkedList, heq, hheld, hlog⟩ := hins
    simp only [heq, Option.bind_eq_bind, Option.bind_some, Option.map_some, if_true]
    have hh' : ∀ receiver, Holds { h with receiver, mem, linkedList } ys [] := by
      refine fun receiver => ⟨hheld, ?_⟩
      rw [List.append_nil, hlog]
      exact (perm_store (List.Perm.refl _) (insert_increasing_perm hcase)).trans hh.ledger
    simp only [HeapReceiver.view, with_list]
    by_cases hzero : pkt_get_length pkt = 0 <;> by_cases hfirst : h.receiver.window.seqnumHead = pkt_get_seqnum pkt
    all_goals
      simp only [hzero, hfirst, if_true, if_false, increase_window]
      refine ⟨_, ys, rfl, hh' _, ?_⟩
      split_ifs <;> rfl

theorem receive_valid_eq (crc32 : List UInt8 → UInt32) (hh : Holds h xs [pkt]) {n : Nat} (hn : h.mem.nodes n = none)
    (hlen : xs.length < 255) (write : Bool) :
    ∃ h' ys, receive_valid crc32 h n pkt write = some ((Trtp.receive_valid crc32 (h.view xs) pkt write).1, h') ∧
      Holds h' ys [] ∧ h'.view ys = (Trtp.receive_valid crc32 (h.view xs) pkt write).2 := by
  unfold receive_valid Trtp.receive_valid
  cases pkt_get_type pkt with
  | FEC => exact ⟨_, xs, rfl, hh.del.receiver _, rfl⟩
  | ACK => exact ⟨_, xs, rfl, hh.del.receiver _, rfl⟩
  | NACK => exact ⟨_, xs, rfl, hh.del.receiver _, rfl⟩
  | DATA =>
    simp only
    by_cases htr : pkt_get_tr pkt ≠ 0
    · rw [if_pos htr, if_pos htr]
      obtain ⟨h', ys, hnack, hh', hview⟩ := send_troncated_nack_held crc32 hh pkt write
      rw [hnack]
      exact ⟨_, ys, rfl, hh'.del, hview⟩
    · rw [if_neg htr, if_neg htr, HeapReceiver.view, with_list_is_in_window]
      rcases h.receiver.is_in_window (pkt_get_seqnum pkt) with ⟨inside, r⟩
      cases inside with
      | true => exact store_data_eq (hh.receiver r) hn hlen
      | false => exact ⟨_, xs, rfl, hh.del.receiver _, rfl⟩

theorem receive_decoded_eq (crc32 : List UInt8 → UInt32) (hh : Holds h xs [pkt]) {n : Nat} (hn : h.mem.nodes n = none)
    (hlen : xs.length < 255) (retval : PktStatus) (write : Bool) :
    ∃ h' ys, receive_decoded crc32 h n retval pkt write =
        some ((Trtp.receive_decoded crc32 (h.view xs) retval pkt write).1, h') ∧
      Holds h' ys [] ∧ h'.view ys = (Trtp.receive_decoded crc32 (h.view xs) retval pkt write).2 := by
  unfold receive_decoded Trtp.receive_decoded
  by_cases hcrc : retval = .E_CRC
  swap
  · simp only [if_neg hcrc]
    by_cases hok : retval ≠ .PKT_OK
    · simp only [if_pos hok]
      exact ⟨_, xs, rfl, hh.del.receiver _, rfl⟩
    · simp only [if_neg hok]
      exact receive_valid_eq crc32 hh hn hlen write
  simp only [if_pos hcrc]
  by_cases htrunc : pkt_get_type pkt = .DATA ∧ pkt_get_tr pkt = 1
  swap
  · simp only [if_neg htrunc]
    exact ⟨_, xs, rfl, hh.del.receiver _, rfl⟩
  simp only [if_pos htrunc]
  rw [HeapReceiver.view, with_list_is_in_window]
  rcases h.receiver.is_in_window (pkt_get_seqnum pkt) with ⟨inside, r⟩
  cases inside with
  | true =>
    obtain ⟨h', ys, hnack, hh', hview⟩ := send_troncated_nack_held crc32 (hh.receiver r) pkt write
    simp only [hnack]
    exact ⟨_, ys, rfl, hh'.del, hview⟩
  | false => exact ⟨_, xs, rfl, (hh.receiver r).del.receiver _, rfl⟩

theorem receive_data_eq (crc32 : List UInt8 → UInt32) (hh : Holds h xs []) {n : Nat} (hn : h.mem.nodes n = none)
    (hlen : xs.length < 255) (bytes_read : Option (List UInt8)) (write : Bool) :
    ∃ h' ys, receive_data crc32 h n bytes_read write =
        some ((Trtp.receive_data crc32 (h.view xs) bytes_read write).1, h') ∧
      Holds h' ys [] ∧ h'.view ys = (Trtp.receive_data crc32 (h.view xs) bytes_read write).2 := by
  have hbuffer : ((h.view xs).read bytes_read).buffer = (h.receiver.read bytes_read).buffer := rfl
  unfold receive_data Trtp.receive_data
  simp only [hbuffer]
  rcases pkt_decode crc32 (h.receiver.read bytes_read).buffer (readLen bytes_read) pkt_new with ⟨retval, pkt⟩
  have hh₁ : Holds { h with receiver := h.receiver.read bytes_read, made := h.made ++ [pkt] } xs [pkt] := by
    refine ⟨hh.held, ?_⟩
    have hledger := hh.ledger
    rw [List.append_nil] at hledger
    exact hledger.append_right [pkt]
  exact receive_decoded_eq crc32 hh₁ hn hlen retval write

/-! ## `flush_file` -/

theorem linkedList_remove_tail {m m' : Memory Pkt} {l l' : LinkedList} {retval : Int}
    (hrem : linkedList_remove m l = some (retval, m', l')) : l'.tail = l.tail := by
  unfold linkedList_remove at hrem
  split at hrem
  · cases hrem
    rfl
  split at hrem
  · unfold remove_last at hrem
    obtain ⟨_, _, hrem⟩ := Option.bind_eq_some_iff.mp hrem
    obtain ⟨_, _, hrem⟩ := Option.bind_eq_some_iff.mp hrem
    cases hrem
    rfl
  · obtain ⟨_, _, hrem⟩ := Option.bind_eq_some_iff.mp hrem
    obtain ⟨_, _, hrem⟩ := Option.bind_eq_some_iff.mp hrem
    cases hrem
    rfl

/-- A packet that is written leaves the list, and `current` is compared with `tail` when it is freed. -/
theorem flush_loop_held {a : Nat} {x : Pkt} (hh : Holds h ((a, x) :: xs) []) (wr : Nat → Option Nat)
    {packet_write fuel : Nat} (hfuel : xs.length < fuel) :
    ∃ h' ys, flush_loop wr fuel (some a) packet_write h =
        some ((Trtp.flush_loop wr (x :: xs.map Prod.snd) packet_write (h.view ((a, x) :: xs))).1, h') ∧
      Holds h' ys [] ∧
      h'.view ys = (Trtp.flush_loop wr (x :: xs.map Prod.snd) packet_write (h.view ((a, x) :: xs))).2 := by
  induction fuel generalizing h a x xs packet_write with
  | zero => exact absurd hfuel (Nat.not_lt_zero _)
  | succ fuel ih =>
    obtain ⟨q, _, next, hcell, _⟩ := hh.held.listed.seg
    have hhead : (h.view ((a, x) :: xs)).window.seqnumHead = h.receiver.window.seqnumHead := rfl
    unfold flush_loop Trtp.flush_loop
    simp only [Cells.access_some, hcell, Option.bind_eq_bind, Option.bind_some, hhead]
    by_cases hgap : h.receiver.window.seqnumHead ≠ pkt_get_seqnum x
    · have hmore : h.linkedList.size ≠ 0 := fun hzero =>
        absurd (hh.held.listed.size_zero.mp hzero) (List.cons_ne_nil _ _)
      simp only [if_pos hgap, HeapReceiver.flush_end, if_neg hmore]
      exact ⟨h, _, rfl, hh, rfl⟩
    simp only [if_neg hgap]
    by_cases hfinal : pkt_get_length x = 0
    · simp only [if_pos hfinal]
      exact ⟨_, (a, x) :: xs, rfl, hh.receiver _, rfl⟩
    simp only [if_neg hfinal]
    cases wr packet_write with
    | none => exact ⟨h, _, rfl, hh, rfl⟩
    | some n =>
      simp only
      generalize (readBuffer (pkt_get_payload x) (pkt_get_length x).toNat).take n = written
      obtain ⟨mem, linkedList, hrem, hheld, hlog⟩ := linkedList_remove_held hh.held
      have hwrote : (h.wrote x written).mem = h.mem ∧ (h.wrote x written).linkedList = h.linkedList := ⟨rfl, rfl⟩
      have hh₁ : Holds { h.wrote x written with mem, linkedList } xs [] := by
        refine ⟨hheld, ?_⟩
        rw [hlog]
        exact (perm_delete (List.Perm.refl _) (List.Perm.refl ((a, x) :: xs))).append_right [] |>.trans hh.ledger
      have hview : { h.wrote x written with mem, linkedList }.view xs =
          flush_one (h.view ((a, x) :: xs)) x (xs.map Prod.snd) written := by
        have hone : h.linkedList.size = 1 ↔ xs = [] := by
          rw [hh.held.listed.size_one, List.length_cons, Nat.add_eq_right, List.length_eq_zero_iff]
        simp only [HeapReceiver.view, HeapReceiver.wrote, with_list, flush_one, flushed, hone, List.isEmpty_iff,
          List.map_eq_nil_iff]
      simp only [hwrote, hrem, Option.bind_some, ← hview]
      cases xs with
      | nil =>
        -- the last node was freed: `tail` still points to it
        have htail : some a = linkedList.tail :=
          (hh.held.listed.tail (a, x) rfl).symm.trans (linkedList_remove_tail hrem).symm
        have hzero : linkedList.size = 0 := hheld.listed.size_zero.mpr rfl
        simp only [if_pos htail, HeapReceiver.flush_end, if_pos hzero]
        exact ⟨_, [], rfl, hh₁.receiver _, rfl⟩
      | cons y ys =>
        obtain ⟨b, y⟩ := y
        have hlast := List.getLast?_eq_some_getLast (List.cons_ne_nil (b, y) ys)
        have hne : some a ≠ linkedList.tail := by
          have hnodup := hh.held.listed.nodup
          rw [addrs_cons, List.nodup_cons] at hnodup
          rw [hheld.listed.tail _ hlast, ne_eq, Option.some.injEq]
          intro heq
          exact hnodup.1 (List.mem_map.mpr ⟨_, List.mem_of_getLast? hlast, heq.symm⟩)
        obtain ⟨_, hhead', _⟩ := hheld.listed.seg
        rw [if_neg hne, hhead']
        exact ih hh₁ (Nat.lt_of_succ_lt_succ hfuel)

theorem flush_file_held (hh : Holds h xs []) (wr : Nat → Option Nat) :
    ∃ h' ys, flush_file h wr = some ((Trtp.flush_file (h.view xs) wr).1, h') ∧ Holds h' ys [] ∧
      h'.view ys = (Trtp.flush_file (h.view xs) wr).2 := by
  have hlist : (h.view xs).window.linkedList = xs.map Prod.snd := rfl
  unfold flush_file Trtp.flush_file
  rw [hlist]
  cases xs with
  | nil =>
    rw [if_pos (hh.held.listed.size_zero.mpr rfl)]
    exact ⟨_, [], rfl, hh.receiver _, rfl⟩
  | cons x xs =>
    obtain ⟨a, x⟩ := x
    have hmore : h.linkedList.size ≠ 0 := fun hzero =>
      absurd (hh.held.listed.size_zero.mp hzero) (List.cons_ne_nil _ _)
    obtain ⟨q, hhead, _⟩ := hh.held.listed.seg
    rw [if_neg hmore, hh.held.listed.size, hhead]
    exact flush_loop_held hh wr (Nat.lt_succ_self _)

theorem flush_turn_held (hh : Holds h xs []) (wr : Nat → Option Nat) (write : Bool) :
    ∃ h' ys, flush_turn crc32 h wr write = some h' ∧ Holds h' ys [] ∧
      h'.view ys = Trtp.flush_turn crc32 (h.view xs) wr write := by
  obtain ⟨h₁, ys, hflush, hh₁, hview⟩ := flush_file_held hh wr
  unfold flush_turn Trtp.flush_turn
  rw [hflush]
  simp only [Option.bind_eq_bind, Option.bind_some, ← hview]
  by_cases hend : (Trtp.flush_file (h.view xs) wr).1 = -1
  · simp only [if_pos hend]
    refine ⟨_, ys, rfl, hh₁.receiver _, ?_⟩
    exact (with_list_send_ack ..).symm
  · simp only [if_neg hend]
    exact ⟨h₁, ys, rfl, hh₁, rfl⟩

/-! ## Runs -/

/-- `malloc` gives an address that is not in use, for a list of less than 255 packets. -/
def Allocates (h : HeapReceiver) : Nat × LoopAction → Prop
  | (n, .receive _ _) => h.mem.nodes n = none ∧ h.linkedList.size.toNat < 255
  | (_, .flush _ _) => True
  | (_, .ack _) => True

/-- A step of the receiver on its list is the step of the receiver on the sequence, which is possible until the end of
the file. -/
theorem heap_step_held (hh : Holds h xs []) {n : Nat} {a : LoopAction} (hok : Allocates h (n, a)) {r : Receiver}
    (hs : loop_step crc32 (h.view xs) a = some r) :
    ∃ h' ys, heap_step crc32 h (n, a) = some h' ∧ Holds h' ys [] ∧ h'.view ys = r := by
  obtain ⟨hgo, ⟨bytes_read, write, rfl, rfl⟩ | ⟨wr, write, rfl, rfl⟩ | ⟨write, rfl, rfl⟩⟩ := loop_step_cases hs
  all_goals
    have hgo' : ¬ h.receiver.eof_wrote = true := by
      rw [Bool.not_eq_true]
      exact hgo
    unfold heap_step
    simp only [if_neg hgo']
  · have hlen : xs.length < 255 := hh.held.listed.size.symm.trans_lt hok.2
    obtain ⟨h', ys, hrec, hh', hview⟩ := receive_data_eq crc32 hh hok.1 hlen bytes_read write
    rw [hrec]
    exact ⟨h', ys, rfl, hh', hview⟩
  · exact flush_turn_held hh wr write
  · exact ⟨_, xs, rfl, hh.receiver _, (with_list_ack_turn ..).symm⟩

theorem loop_step_some (crc32 : List UInt8 → UInt32) {r : Receiver} (hgo : r.eof_wrote = false) (a : LoopAction) :
    ∃ r', loop_step crc32 r a = some r' := by
  unfold loop_step
  rw [hgo]
  cases a <;> exact ⟨_, rfl⟩

/-- The states of the runs. -/
theorem heap_reach {buffer : Mem} (hreach : Reach (heap_step crc32) Allocates (.initial buffer) h) :
    ∃ xs, Holds h xs [] ∧ Reach (loop_step crc32) (fun _ _ => True) (.initial buffer) (h.view xs) := by
  refine hreach.invariant (P := fun h => ∃ xs, Holds h xs [] ∧
    Reach (loop_step crc32) (fun _ _ => True) (.initial buffer) (h.view xs)) ⟨[], holds_initial buffer, .start⟩ ?_
  rintro h ⟨n, a⟩ h' ⟨xs, hh, hpure⟩ hok hs
  have hgo : h.receiver.eof_wrote = false := by
    rw [← Bool.not_eq_true]
    intro hend
    simp only [heap_step, hend, if_true] at hs
    contradiction
  obtain ⟨r, hr⟩ := loop_step_some crc32 (r := h.view xs) hgo a
  obtain ⟨h'', ys, hs', hh', hview⟩ := heap_step_held hh hok hr
  obtain rfl : h'' = h' := Option.some.inj (hs'.symm.trans hs)
  exact ⟨ys, hh', hview ▸ hpure.next trivial hr⟩

/-- A run of the receiver on its list is a run on the sequence of packets that `next` leads through. Nothing else is
allocated, each packet that was made is in the list or was deleted once, no step faults, and `linkedList_del` frees the
rest. -/
theorem receiver_list_safe {buffer : Mem} (hreach : Reach (heap_step crc32) Allocates (.initial buffer) h) :
    ∃ xs, Reach (loop_step crc32) (fun _ _ => True) (.initial buffer) (with_list h.receiver (xs.map Prod.snd)) ∧
      h.linkedList.size.toNat = xs.length ∧
      h.mem.nodes.follow h.linkedList.size.toNat h.linkedList.head = some xs ∧
      (∀ a, a ∉ addrs xs → h.mem.nodes a = none) ∧
      (h.mem.deleted ++ xs.map Prod.snd).Perm h.made ∧
      (h.receiver.eof_wrote = false → ∀ a, Allocates h a → (heap_step crc32 h a).isSome) ∧
      ∃ mem, linkedList_del h.mem h.linkedList = some (0, mem) ∧ (∀ a, mem.nodes a = none) ∧
        mem.deleted.Perm h.made := by
  obtain ⟨xs, hh, hpure⟩ := heap_reach hreach
  have hledger := hh.ledger
  rw [List.append_nil] at hledger
  obtain ⟨q, hseg⟩ := hh.held.listed.seg
  refine ⟨xs, hpure, hh.held.listed.size, ?_, hh.held.owned.same, hledger, ?_, ?_⟩
  · rw [hh.held.listed.size]
    exact hseg.follow
  · rintro hgo ⟨n, a⟩ hok
    obtain ⟨r, hr⟩ := loop_step_some crc32 (r := h.view xs) hgo a
    obtain ⟨h', _, hs, _⟩ := heap_step_held hh hok hr
    rw [hs]
    rfl
  · obtain ⟨mem, hdel, hfree, hlog⟩ := linkedList_del_held hh.held
    rw [← hlog] at hledger
    exact ⟨mem, hdel, hfree, hledger⟩

/-- A run on the sequence that never stores in a list of 255 packets is one on the list. -/
theorem heap_run {buffer : Mem} {r : Receiver}
    (hreach : Reach (loop_step crc32) (fun r _ => r.window.linkedList.length < 255) (.initial buffer) r) :
    ∃ h xs, (Holds h xs [] ∧ h.view xs = r) ∧ Reach (heap_step crc32) Allocates (.initial buffer) h := by
  obtain ⟨h, ⟨xs, hh⟩, hrun⟩ : ∃ h : HeapReceiver, (∃ xs, Holds h xs [] ∧ h.view xs = r) ∧
      Reach (heap_step crc32) Allocates (.initial buffer) h :=
    hreach.simulation (R := fun r h => ∃ xs, Holds h xs [] ∧ h.view xs = r) ⟨[], holds_initial buffer, rfl⟩ (by
      rintro r a r' h ⟨xs, hh, rfl⟩ hlen hs
      obtain ⟨n, hn⟩ := Infinite.exists_notMem_finset (addrs xs).toFinset
      rw [List.mem_toFinset] at hn
      have hok : Allocates h (n, a) := by
        have hsize : h.linkedList.size.toNat < 255 := by
          have hmap : (xs.map Prod.snd).length < 255 := hlen
          rwa [hh.held.listed.size, ← List.length_map Prod.snd]
        cases a with
        | receive bytes_read write => exact ⟨hh.held.owned.same n hn, hsize⟩
        | flush wr write => trivial
        | ack write => trivial
      obtain ⟨h', ys, hs', hh', hview⟩ := heap_step_held hh hok hs
      exact ⟨h', ⟨ys, hh', hview⟩, .next .start hok hs'⟩)
  exact ⟨h, xs, hh, hrun⟩

/-- Chunk 1 comes before chunk 0, both are written, and chunk 3 is left in the list. -/
theorem receiver_list_safe_gap :
    ∃ h, Reach (heap_step zlib_crc32) Allocates (.initial fun _ => 0) h ∧ h.receiver.stdout.length = 2 ∧
      h.linkedList.size.toNat = 1 ∧
      ∃ mem, linkedList_del h.mem h.linkedList = some (0, mem) ∧ (∀ a, mem.nodes a = none) ∧
        mem.deleted.Perm h.made := by
  generalize zlib_crc32 = crc32
  have hrun : (run Protocol.Receiver.step (fun t b => Fed 4 b ∧ (fun t _ => t.window.linkedList.length < 255) t b)
      [.deliver (.chunk 1), .deliver (.chunk 0), .flush, .deliver (.chunk 3)] .initial).any
      (fun t => decide (t.output.length = 2 ∧ t.window.linkedList.length = 1)) = true := by decide
  obtain ⟨r, t, hrel, ht, hr⟩ : ∃ r t, ReceiverRel crc32 (markedFile 3) r t ∧
      decide (t.output.length = 2 ∧ t.window.linkedList.length = 1) = true ∧
        Reach (loop_step crc32) (fun r _ => r.window.linkedList.length < 255) (.initial fun _ => 0) r :=
    loop_run_of_protocol _ hrun (fun _ _ _ _ hrel hlen _ => hrel.window.length.trans_lt hlen)
      (fun _ _ hrel hlen => hrel.window.length.trans_lt hlen) fun _ => 0
  obtain ⟨h, xs, ⟨hh, hview⟩, hrun'⟩ := heap_run hr
  obtain ⟨hout, hlen⟩ := of_decide_eq_true ht
  have hstdout : h.receiver.stdout.length = r.stdout.length := by
    rw [← hview]
    rfl
  have hlist : xs.length = r.window.linkedList.length := by
    rw [← hview]
    exact (List.length_map Prod.snd).symm
  obtain ⟨_, _, _, _, _, _, _, hdel⟩ := receiver_list_safe hrun'
  refine ⟨h, hrun', ?_, ?_, hdel⟩
  · rw [hstdout, hrel.output, List.length_map, hout]
  · rw [hh.held.listed.size, hlist, hrel.window.length, hlen]

end Trtp.Heap
