import Trtp.LinkedList.Sender
import Trtp.Sender.FlowControl

/-!
# The sender's accesses to its list

The main loop in the order of its tests, with the list in memory. `poll` may report `POLLIN`, `POLLOUT` or both.
-/

open Trtp.Lib

namespace Trtp

open Heap (HeapWindow Represents ReadsNothing)

/-! ## The main loop -/

/-- Where the main loop is in its turn. `pollin` tells whether `POLLIN` was reported. -/
inductive SenderPhase where
  | poll
  | fill (pollin : Bool)
  | final (pollin : Bool)
  | resend (pollin : Bool)
  | read
  deriving DecidableEq

structure SenderLoop where
  snd : Sender
  phase : SenderPhase
  /-- The window in memory, until an access to what is not a node of the list, or a store outside `fec->pkts`, which
  may end up anywhere (as in `window->linkedList`). -/
  window : Option HeapWindow

/-- `n` is what `malloc` gives for the node. -/
inductive LoopCall where
  | poll (pollout pollin : Bool)
  | fill (io : FillIO) (fec_enable : Bool) (n : Nat)
  | filled
  | final (time : UInt32) (write : Bool) (n : Nat)
  | closed
  | resend (io : Nat → UInt32 × Bool)
  | read (bytes_read : Option (List UInt8)) (time : UInt32) (stale : Pkt)

def SenderLoop.initial (copybuf : Mem) : SenderLoop := ⟨.initial copybuf, .poll, some .initial⟩

/-- No node is at the address. -/
def SenderLoop.free (l : SenderLoop) (n : Nat) : Bool := l.window.all fun w => (w.mem.nodes n).isNone

/-- The test before the calls of `fill_window` and `send_final_pkt`. -/
def Sender.hasRoom (s : Sender) : Bool := decide (s.window.linkedList.length < s.window.windowsize)

variable (crc32 : List UInt8 → UInt32)

/-- The call of `resent_pkt` and the test after it, whatever is in the list. -/
def resend_turn (s : Sender) (io : Nat → UInt32 × Bool) : Sender :=
  let s := (resent_pkt crc32 s io).2
  if s.lastPkt ∧ s.lastRst > MAX_RESENT_LAST_PKT then { s with stopped := some .noNews } else s

/-- A turn of `fill_window` is a step of its own. -/
def loop_call (l : SenderLoop) : LoopCall → Option SenderLoop
  | .poll pollout pollin =>
    if l.phase = .poll then
      some { l with phase := if pollout then .fill pollin else if pollin then .read else .poll }
    else none
  | .fill io fec_enable n =>
    match l.phase with
    | .fill pollin =>
      if l.free n then
        (turn_step crc32 l.snd io fec_enable).map fun snd =>
          { snd
            phase :=
              match fill_turn crc32 l.snd io fec_enable with
              | .filled _ => .fill pollin
              | .eof _ | .failed _ => .final pollin
            window :=
              if io.pread (chunkOffset l.snd.global_pkt) = some [] then l.window
              else if Overruns l.snd io fec_enable then none
              else l.window.bind fun w => Heap.fill_window w n (turn_node l.snd io)
                (UInt8.ofNat (l.snd.global_pkt.toNat % 256)) (turn_fec l.snd io fec_enable).1 }
      else none
    | _ => none
  | .filled =>
    match l.phase with
    | .fill pollin =>
      if l.snd.eof_reached = false ∧ l.snd.hasRoom then none else some { l with phase := .final pollin }
    | _ => none
  | .final time write n =>
    match l.phase with
    | .final pollin =>
      if l.free n then
        (final_step crc32 l.snd time write).map fun snd =>
          { snd
            phase := .resend pollin
            window := l.window.bind fun w => Heap.send_final_pkt w n (final_node l.snd time) write }
      else none
    | _ => none
  | .closed =>
    match l.phase with
    | .final pollin =>
      if l.snd.lastPkt = false ∧ l.snd.eof_reached ∧ l.snd.hasRoom then none
      else some { l with phase := .resend pollin }
    | _ => none
  | .resend io =>
    match l.phase with
    | .resend pollin =>
      some
        { snd := resend_turn crc32 l.snd io
          phase := if pollin then .read else .poll
          window := l.window.bind fun w => Heap.resent_pkt w io }
    | _ => none
  | .read bytes_read time stale =>
    if l.phase = .read then
      (response_step crc32 l.snd bytes_read time stale).map fun snd =>
        { snd
          phase := .poll
          window :=
            match incoming crc32 l.snd bytes_read with
            | some pkt => l.window.bind fun w => Heap.handle_packet w pkt
            | none => l.window }
    else none

/-- The calls until the loop is left. -/
def sender_loop_step (l : SenderLoop) (a : LoopCall) : Option SenderLoop :=
  if l.snd.stopped = none then loop_call crc32 l a else none

/-- Nothing is stored outside `fec->pkts`. While the list is empty, no packet comes that makes the window smaller or is
an `ACK` that is accepted, and the write of the final packet does not fail. -/
def AccessSafe (l : SenderLoop) : LoopCall → Prop
  | .fill io fec_enable _ => ¬ Overruns l.snd io fec_enable
  | .final _ write _ => write = false → l.snd.window.linkedList ≠ []
  | .read bytes_read _ _ => ∀ pkt, incoming crc32 l.snd bytes_read = some pkt → ¬ ReadsNothing l.snd.window pkt
  | _ => True

variable {crc32}

/-! ## The list is not empty -/

/-- What `resent_pkt` needs, as far as the turn has come. -/
def ListReady (l : SenderLoop) : Prop :=
  match l.phase with
  | .final _ => l.snd.window.linkedList ≠ [] ∨ l.snd.eof_reached = true
  | .resend _ => l.snd.window.linkedList ≠ []
  | _ => True

structure AccessInv (l : SenderLoop) : Prop where
  window : ∃ w, l.window = some w ∧ Represents w l.snd.window
  flow : ∃ accepted, FlowControl ⟨l.snd, accepted⟩
  last : l.snd.stopped = none → l.snd.lastPkt = true → l.snd.window.linkedList ≠ []
  ready : ListReady l

theorem accessInv_initial (copybuf : Mem) : AccessInv (.initial copybuf) where
  window := ⟨_, rfl, Heap.represents_initial⟩
  flow := ⟨1, flowControl_initial copybuf⟩
  last _ hlast := absurd hlast (by decide : ¬ false = true)
  ready := trivial

theorem FlowControl.nonempty {s : Sender} {accepted : Nat} (h : FlowControl ⟨s, accepted⟩)
    (hroom : ¬ s.hasRoom = true) : s.window.linkedList ≠ [] := by
  intro hnil
  have hpos := h.pos
  have hsize : s.window.windowsize = accepted := h.accepted
  rw [Sender.hasRoom, decide_eq_true_iff, hnil, List.length_nil, hsize] at hroom
  exact hroom hpos

theorem FlowControl.list_lt {s : Sender} {accepted : Nat} (h : FlowControl ⟨s, accepted⟩) :
    s.window.linkedList.length < 255 := by
  have hlist : s.window.linkedList.length ≤ accepted := h.list
  have hle : accepted ≤ 31 := h.le
  omega

theorem SenderLoop.free_node {l : SenderLoop} {n : Nat} (h : l.free n = true) {w : HeapWindow}
    (hw : l.window = some w) : w.mem.nodes n = none := by
  rw [SenderLoop.free, hw, Option.all_some, Option.isNone_iff_eq_none] at h
  exact h

theorem AccessInv.fill {l l' : SenderLoop} (h : AccessInv l) {io : FillIO} {fec_enable : Bool} {n : Nat}
    (hok : ¬ Overruns l.snd io fec_enable) (hs : loop_call crc32 l (.fill io fec_enable n) = some l') :
    AccessInv l' := by
  unfold loop_call at hs
  simp only at hs
  split at hs
  swap
  · contradiction
  rename_i pollin hphase
  rw [Option.ite_none_right_eq_some] at hs
  obtain ⟨hfree, hs⟩ := hs
  obtain ⟨s', hturn, rfl⟩ := Option.map_eq_some_iff.mp hs
  obtain ⟨w, hw, hrep⟩ := h.window
  obtain ⟨accepted, hflow⟩ := h.flow
  have hflow' := hflow.fill hturn
  obtain ⟨_, _, _, ⟨hend, rfl⟩ | ⟨hread, copybuf, stats, sent, io_error, rfl⟩⟩ := turn_step_cases hturn
  · refine ⟨⟨w, by rw [if_pos hend, hw], hrep⟩, ⟨accepted, hflow'⟩, h.last, ?_⟩
    rw [fill_turn_eof hend]
    exact Or.inr rfl
  · obtain ⟨w', hfill, hrep'⟩ := Heap.fill_window_eq hrep hflow.list_lt (SenderLoop.free_node hfree hw)
      (turn_node l.snd io) (UInt8.ofNat (l.snd.global_pkt.toNat % 256)) (turn_fec l.snd io fec_enable).1
    have hne : l.snd.window.linkedList ++ [turn_node l.snd io] ≠ [] := by simp
    refine ⟨⟨w', by rw [if_neg hread, if_neg hok, hw, Option.bind_some, hfill], hrep'⟩, ⟨accepted, hflow'⟩,
      fun _ _ => hne, ?_⟩
    unfold ListReady
    simp only
    split
    · rename_i heq
      exact Or.inl hne
    · rename_i heq
      exact hne
    · trivial

theorem AccessInv.filled {l l' : SenderLoop} (h : AccessInv l) (hs : loop_call crc32 l .filled = some l') :
    AccessInv l' := by
  unfold loop_call at hs
  simp only at hs
  split at hs
  swap
  · contradiction
  rename_i pollin hphase
  rw [Option.ite_none_left_eq_some, Option.some.injEq] at hs
  obtain ⟨hstop, rfl⟩ := hs
  obtain ⟨accepted, hflow⟩ := h.flow
  refine ⟨h.window, h.flow, h.last, ?_⟩
  cases heof : l.snd.eof_reached with
  | true => exact Or.inr heof
  | false => exact Or.inl (hflow.nonempty fun hroom => hstop ⟨heof, hroom⟩)

theorem final_call {l l' : SenderLoop} {time : UInt32} {write : Bool} {n : Nat}
    (hs : loop_call crc32 l (.final time write n) = some l') :
    l.free n = true ∧ ∃ pollin s', final_step crc32 l.snd time write = some s' ∧ l' =
      { snd := s'
        phase := .resend pollin
        window := l.window.bind fun w => Heap.send_final_pkt w n (final_node l.snd time) write } := by
  unfold loop_call at hs
  simp only at hs
  split at hs
  swap
  · contradiction
  rename_i pollin hphase
  rw [Option.ite_none_right_eq_some] at hs
  obtain ⟨s', hfinal, heq⟩ := Option.map_eq_some_iff.mp hs.2
  exact ⟨hs.1, pollin, s', hfinal, heq.symm⟩

theorem AccessInv.final_window {l : SenderLoop} (h : AccessInv l) {n : Nat} (hfree : l.free n = true) (time : UInt32)
    (write : Bool) :
    ∃ w', (l.window.bind fun w => Heap.send_final_pkt w n (final_node l.snd time) write) = some w' ∧ Represents w'
      { l.snd.window with
        seqnumTail := l.snd.window.seqnumTail + 1
        linkedList :=
          if write then l.snd.window.linkedList ++ [final_node l.snd time] else l.snd.window.linkedList } := by
  obtain ⟨w, hw, hrep⟩ := h.window
  obtain ⟨accepted, hflow⟩ := h.flow
  obtain ⟨w', hsend, hrep'⟩ :=
    Heap.send_final_pkt_eq hrep hflow.list_lt (SenderLoop.free_node hfree hw) (final_node l.snd time) write
  exact ⟨w', by rw [hw, Option.bind_some, hsend], hrep'⟩

theorem AccessInv.final {l l' : SenderLoop} (h : AccessInv l) {time : UInt32} {write : Bool} {n : Nat}
    (hok : AccessSafe crc32 l (.final time write n)) (hs : loop_call crc32 l (.final time write n) = some l') :
    AccessInv l' := by
  obtain ⟨hfree, pollin, s', hfinal, rfl⟩ := final_call hs
  obtain ⟨accepted, hflow⟩ := h.flow
  have hflow' := hflow.final hfinal
  obtain ⟨_, _, _, _, copybuf, stats, sent, io_error, allocated, rfl, _⟩ := final_step_eq hfinal
  have hne : (if write then l.snd.window.linkedList ++ [final_node l.snd time] else l.snd.window.linkedList) ≠ [] := by
    cases write with
    | true => simp
    | false => exact hok rfl
  exact ⟨h.final_window hfree time write, ⟨accepted, hflow'⟩, fun _ _ => hne, hne⟩

theorem AccessInv.closed {l l' : SenderLoop} (h : AccessInv l) (hgo : l.snd.stopped = none)
    (hs : loop_call crc32 l .closed = some l') : AccessInv l' := by
  have hready := h.ready
  unfold loop_call at hs
  simp only at hs
  split at hs
  swap
  · contradiction
  rename_i pollin hphase
  rw [Option.ite_none_left_eq_some, Option.some.injEq] at hs
  obtain ⟨hstop, rfl⟩ := hs
  obtain ⟨accepted, hflow⟩ := h.flow
  refine ⟨h.window, h.flow, h.last, ?_⟩
  simp only [ListReady, hphase] at hready ⊢
  rcases hready with hne | heof
  · exact hne
  cases hlast : l.snd.lastPkt with
  | true => exact h.last hgo hlast
  | false => exact hflow.nonempty fun hroom => hstop ⟨hlast, heof, hroom⟩

theorem AccessInv.resend {l l' : SenderLoop} (h : AccessInv l) (hgo : l.snd.stopped = none)
    {io : Nat → UInt32 × Bool} (hs : loop_call crc32 l (.resend io) = some l') : AccessInv l' := by
  have hready := h.ready
  unfold loop_call at hs
  simp only at hs
  split at hs
  swap
  · contradiction
  rename_i pollin hphase
  rw [Option.some.injEq] at hs
  subst hs
  simp only [ListReady, hphase] at hready
  obtain ⟨w, hw, hrep⟩ := h.window
  obtain ⟨accepted, hflow⟩ := h.flow
  have hstep : resent_step crc32 l.snd io = some (resend_turn crc32 l.snd io) := if_pos ⟨hgo, hready⟩
  obtain ⟨w', hresent, hrep'⟩ := Heap.resent_pkt_eq hrep hready crc32 io
  have hwindow : (resend_turn crc32 l.snd io).window = (resent_pkt crc32 l.snd io).2.window := by
    unfold resend_turn
    simp only
    split <;> rfl
  have hne : (resend_turn crc32 l.snd io).window.linkedList ≠ [] := by
    obtain ⟨_, _, copybuf, stats, sent, io_error, list, hlist, heq⟩ := resent_step_eq hstep
    rw [heq]
    rintro rfl
    exact hready (List.forall₂_nil_right_iff.mp hlist)
  refine ⟨⟨w', by rw [hw, Option.bind_some, hresent], by rw [hwindow]; exact hrep'⟩, ⟨accepted, hflow.resend hstep⟩,
    fun _ _ => hne, ?_⟩
  unfold ListReady
  cases pollin <;> trivial

theorem read_call {l l' : SenderLoop} {bytes_read : Option (List UInt8)} {time : UInt32} {stale : Pkt}
    (hs : loop_call crc32 l (.read bytes_read time stale) = some l') :
    ∃ s', response_step crc32 l.snd bytes_read time stale = some s' ∧ l' =
      { snd := s'
        phase := .poll
        window :=
          match incoming crc32 l.snd bytes_read with
          | some pkt => l.window.bind fun w => Heap.handle_packet w pkt
          | none => l.window } := by
  unfold loop_call at hs
  simp only at hs
  rw [Option.ite_none_right_eq_some] at hs
  obtain ⟨s', hresponse, heq⟩ := Option.map_eq_some_iff.mp hs.2
  exact ⟨s', hresponse, heq.symm⟩

theorem AccessInv.read {l l' : SenderLoop} (h : AccessInv l) {bytes_read : Option (List UInt8)} {time : UInt32}
    {stale : Pkt} (hok : AccessSafe crc32 l (.read bytes_read time stale))
    (hs : loop_call crc32 l (.read bytes_read time stale) = some l') : AccessInv l' := by
  obtain ⟨s', hresponse, rfl⟩ := read_call hs
  obtain ⟨w, hw, hrep⟩ := h.window
  obtain ⟨accepted, hflow⟩ := h.flow
  have hflow' := hflow.response hresponse
  obtain ⟨hgo, ⟨hi, copybuf, stats, rfl⟩ | ⟨pkt, u, fec, stats, hi, hu, _, _, _, rfl⟩⟩ := response_step_cases hresponse
  · exact ⟨⟨w, by rw [hi]; exact hw, hrep⟩, ⟨_, hflow'⟩, h.last, trivial⟩
  · have hrep₁ : Represents w
        ({ l.snd with copybuf := readInto bytes_read l.snd.copybuf, lastRst := 0 } : Sender).window := hrep
    obtain ⟨w', hpacket, hrep'⟩ := Heap.handle_packet_eq hrep₁ (hok pkt hi) stale
    rw [hu] at hrep'
    refine ⟨⟨w', by simp only [hi, hw, Option.bind_some, hpacket], hrep'⟩, ⟨_, hflow'⟩, fun hstop hlast hnil => ?_,
      trivial⟩
    simp only at hstop hlast hnil
    by_cases hack : pkt_get_type pkt = .ACK
    · rw [if_pos ⟨hack, hlast, List.isEmpty_iff.mpr hnil⟩] at hstop
      contradiction
    -- no packet is removed unless the flag is cleared
    rw [handled_window, if_neg hack] at hnil
    rcases updated_cases hu with ⟨_, _, heq⟩ | ⟨_, heq⟩
    · rw [heq] at hlast hnil
      exact h.last hgo hlast hnil
    · rw [heq] at hlast
      exact absurd hlast (by decide : ¬ false = true)

theorem sender_loop_step_access {l l' : SenderLoop} (h : AccessInv l) {a : LoopCall} (hok : AccessSafe crc32 l a)
    (hs : sender_loop_step crc32 l a = some l') : AccessInv l' := by
  rw [sender_loop_step, Option.ite_none_right_eq_some] at hs
  obtain ⟨hgo, hs⟩ := hs
  cases a with
  | poll pollout pollin =>
    rw [loop_call, Option.ite_none_right_eq_some, Option.some.injEq] at hs
    obtain ⟨_, rfl⟩ := hs
    refine ⟨h.window, h.flow, h.last, ?_⟩
    unfold ListReady
    cases pollout <;> cases pollin <;> trivial
  | fill io fec_enable n => exact h.fill hok hs
  | filled => exact h.filled hs
  | final time write n => exact h.final hok hs
  | closed => exact h.closed hgo hs
  | resend io => exact h.resend hgo hs
  | read bytes_read time stale => exact h.read hok hs

/-- Any other step stores or reads where it must not, or `resent_pkt` does right after it. -/
theorem unsafe_access {l l' : SenderLoop} (h : AccessInv l) {a : LoopCall} (hbad : ¬ AccessSafe crc32 l a)
    (hs : sender_loop_step crc32 l a = some l') :
    l'.window = none ∨ ∀ io, ∃ l'', sender_loop_step crc32 l' (.resend io) = some l'' ∧ l''.window = none := by
  rw [sender_loop_step, Option.ite_none_right_eq_some] at hs
  obtain ⟨hgo, hs⟩ := hs
  cases a with
  | poll | filled | closed | resend => exact absurd trivial hbad
  | fill io fec_enable n =>
    left
    have hover : Overruns l.snd io fec_enable := Decidable.not_not.mp hbad
    unfold loop_call at hs
    simp only at hs
    split at hs
    swap
    · contradiction
    rw [Option.ite_none_right_eq_some] at hs
    obtain ⟨s', _, rfl⟩ := Option.map_eq_some_iff.mp hs.2
    simp only [if_neg hover.2.1, if_pos hover]
  | final time write n =>
    right
    obtain ⟨hwrite, hnil⟩ : write = false ∧ l.snd.window.linkedList = [] := by
      simpa [AccessSafe] using hbad
    subst hwrite
    obtain ⟨hfree, pollin, s', hfinal, rfl⟩ := final_call hs
    obtain ⟨w', hw', hrep'⟩ := h.final_window hfree time false
    have hgo' : s'.stopped = none := by
      obtain ⟨_, _, _, _, copybuf, stats, sent, io_error, allocated, rfl, _⟩ := final_step_eq hfinal
      exact hgo
    intro io
    refine ⟨_, by rw [sender_loop_step, if_pos hgo']; rfl, ?_⟩
    simp only [hw', Option.bind_some, Heap.resent_pkt_none hrep' hnil]
  | read bytes_read time stale =>
    left
    obtain ⟨pkt, hi, hreads⟩ : ∃ pkt, incoming crc32 l.snd bytes_read = some pkt ∧ ReadsNothing l.snd.window pkt := by
      simpa [AccessSafe] using hbad
    obtain ⟨s', _, rfl⟩ := read_call hs
    obtain ⟨w, hw, hrep⟩ := h.window
    simp only [hi, hw, Option.bind_some, Heap.handle_packet_none hrep hreads]

/-! ## The runs -/

theorem access_run {copybuf : Mem} {l : SenderLoop}
    (h : Reach (sender_loop_step crc32) (AccessSafe crc32) (.initial copybuf) l) : AccessInv l :=
  h.invariant (accessInv_initial copybuf) fun _ _ _ hinv hok hs => sender_loop_step_access hinv hok hs

/-- No call has read what is not a node of the list or stored outside `fec->pkts`, and the memory has the list of the
model. The first step that is not safe ends this, or the `resent_pkt` after it does. -/
theorem list_accesses {copybuf : Mem} {l : SenderLoop}
    (h : Reach (sender_loop_step crc32) (AccessSafe crc32) (.initial copybuf) l) :
    (∃ w, l.window = some w ∧ Represents w l.snd.window) ∧
      ∀ a l', ¬ AccessSafe crc32 l a → sender_loop_step crc32 l a = some l' →
        l'.window = none ∨ ∀ io, ∃ l'', sender_loop_step crc32 l' (.resend io) = some l'' ∧ l''.window = none :=
  ⟨(access_run h).window, fun _ _ hbad hs => unsafe_access (access_run h) hbad hs⟩

/-! ## An acknowledgement that comes twice -/

/-- Anything but the end of the file, and no failure. -/
def readByte : FillIO := ⟨fun _ => some [7], 0, true, true⟩

/-- The sender, between two turns, with packet 0 in its list or none. -/
structure AtRest (l : SenderLoop) (list : List UInt8) : Prop where
  phase : l.phase = .poll
  going : l.snd.stopped = none
  lastPkt : l.snd.lastPkt = false
  window : l.snd.window.seqnumHead = 0 ∧ l.snd.window.seqnumTail = 0 ∧ l.snd.window.windowsize = 1
  list : l.snd.window.linkedList.map seqnumOf = list

theorem fill_call {l : SenderLoop} {pollin : Bool} (hphase : l.phase = .fill pollin) (hgo : l.snd.stopped = none)
    {n : Nat} (hfree : l.free n = true) {io : FillIO} {fec_enable : Bool} {s' s : Sender}
    (hturn : turn_step crc32 l.snd io fec_enable = some s')
    (hfilled : fill_turn crc32 l.snd io fec_enable = .filled s) :
    ∃ window, sender_loop_step crc32 l (.fill io fec_enable n) = some ⟨s', .fill pollin, window⟩ := by
  simp only [sender_loop_step, loop_call, hphase, hgo, hfree, hturn, hfilled, if_true, Option.map_some]
  exact ⟨_, rfl⟩

theorem sends_first (crc32 : List UInt8 → UInt32) (copybuf : Mem) :
    ∃ l, Reach (sender_loop_step crc32) (AccessSafe crc32) (.initial copybuf) l ∧ AtRest l [0] := by
  obtain ⟨s₁, hturn⟩ : ∃ s₁, turn_step crc32 (.initial copybuf) readByte false = some s₁ :=
    ⟨_, if_pos ⟨rfl, rfl, (by decide : 0 < 1)⟩⟩
  have hfilled : fill_turn crc32 (.initial copybuf) readByte false =
    .filled (fill_turn crc32 (.initial copybuf) readByte false).state := rfl
  obtain ⟨w₁, hfill⟩ :=
    fill_call (l := ⟨.initial copybuf, .fill false, some .initial⟩) rfl rfl (n := 0) rfl hturn hfilled
  obtain ⟨_, _, _, ⟨hend, _⟩ | ⟨_, copybuf₁, stats, sent, io_error, hs₁⟩⟩ := turn_step_cases hturn
  · simp [readByte] at hend
  have hgo : s₁.stopped = none := by rw [hs₁]; rfl
  have heof : s₁.eof_reached = false := by rw [hs₁]; rfl
  have hlast : s₁.lastPkt = false := by rw [hs₁]; rfl
  have hlist : s₁.window.linkedList = [turn_node (.initial copybuf) readByte] := by rw [hs₁]; rfl
  have hnumbers : s₁.window.seqnumHead = 0 ∧ s₁.window.seqnumTail = 0 ∧ s₁.window.windowsize = 1 := by
    rw [hs₁]
    exact ⟨rfl, rfl, rfl⟩
  have hroom : s₁.hasRoom = false := by
    rw [Sender.hasRoom, hlist, hnumbers.2.2]
    rfl
  have hstep : resent_step crc32 s₁ (fun _ => (0, true)) = some (resend_turn crc32 s₁ fun _ => (0, true)) :=
    if_pos ⟨hgo, by rw [hlist]; exact List.cons_ne_nil _ _⟩
  have hpoll : sender_loop_step crc32 (.initial copybuf) (.poll true false) =
    some ⟨.initial copybuf, .fill false, some .initial⟩ := rfl
  have hdone : sender_loop_step crc32 ⟨s₁, .fill false, w₁⟩ .filled = some ⟨s₁, .final false, w₁⟩ := by
    simp [sender_loop_step, loop_call, hgo, hroom]
  have hclosed : sender_loop_step crc32 ⟨s₁, .final false, w₁⟩ .closed = some ⟨s₁, .resend false, w₁⟩ := by
    simp [sender_loop_step, loop_call, hgo, heof]
  have hresend : sender_loop_step crc32 ⟨s₁, .resend false, w₁⟩ (.resend fun _ => (0, true)) =
      some ⟨resend_turn crc32 s₁ fun _ => (0, true), .poll, w₁.bind fun w => Heap.resent_pkt w fun _ => (0, true)⟩ := by
    simp [sender_loop_step, loop_call, hgo]
  refine ⟨⟨resend_turn crc32 s₁ fun _ => (0, true), .poll, w₁.bind fun w => Heap.resent_pkt w fun _ => (0, true)⟩,
    ?_, ?_⟩
  · refine Reach.next (a := .resend fun _ => (0, true)) ?_ trivial hresend
    refine Reach.next (a := .closed) ?_ trivial hclosed
    refine Reach.next (a := .filled) ?_ trivial hdone
    refine Reach.next (a := .fill readByte false 0) ?_ (fun hover => Bool.false_ne_true hover.1) hfill
    exact Reach.next (a := .poll true false) .start trivial hpoll
  · obtain ⟨_, _, copybuf₂, stats₂, sent₂, io_error₂, list, hretimed, heq⟩ := resent_step_eq hstep
    rw [heq]
    refine ⟨rfl, ?_, hlast, hnumbers, ?_⟩
    · simp [hlast]
    · rw [hlist] at hretimed
      obtain ⟨node, next, hnode, hnext, rfl⟩ := List.forall₂_cons_left_iff.mp hretimed
      rw [List.forall₂_nil_left_iff.mp hnext, List.map_cons, hnode.seqnum]
      rfl

/-- The `ACK` for 1, with the window 1. -/
def secondAck (crc32 : List UInt8 → UInt32) : List UInt8 := pkt_bytes crc32 (responsePkt true 1 1)

theorem secondAck_incoming (crc32 : List UInt8 → UInt32) (s : Sender) :
    ∃ pkt, incoming crc32 s (some (secondAck crc32)) = some pkt ∧ pkt_get_type pkt = .ACK ∧ pkt_get_seqnum pkt = 1 ∧
      pkt_get_window pkt = 1 := by
  obtain ⟨pkt, hi, hr⟩ := (responsePkt_sendable true 1 1).incoming crc32 s
  refine ⟨pkt, hi, hr.type, hr.seqnum, UInt8.toNat_inj.mp ?_⟩
  rw [pkt_get_window_toNat, hr.window, responsePkt, BitVec.toNat_ofNat]
  rfl

theorem AtRest.can_ack {l : SenderLoop} {list : List UInt8} (h : AtRest l list) :
    can_ack_window l.snd.window 1 = true := by
  simp only [can_ack_window, h.window.1, h.window.2.1]
  decide

theorem acks_first (crc32 : List UInt8 → UInt32) {l : SenderLoop} (h : AtRest l [0]) :
    ∃ l', sender_loop_step crc32 { l with phase := .read } (.read (some (secondAck crc32)) 0 pkt_new) = some l' ∧
      AtRest l' [] := by
  obtain ⟨pkt, hi, htype, hseq, hwin⟩ := secondAck_incoming crc32 l.snd
  obtain ⟨s', hresponse⟩ : ∃ s', response_step crc32 l.snd (some (secondAck crc32)) 0 pkt_new = some s' :=
    ⟨_, if_pos h.going⟩
  refine ⟨⟨s', .poll, l.window.bind fun w => Heap.handle_packet w pkt⟩, ?_, ?_⟩
  · simp only [sender_loop_step, loop_call, h.going, hresponse, hi, if_true, Option.map_some]
  obtain ⟨node, hlist, hnode⟩ := List.map_eq_singleton_iff.mp h.list
  obtain ⟨_, ⟨hnone, _⟩ | ⟨pkt', u, fec, stats, hi', hu, _, _, _, rfl⟩⟩ := response_step_cases hresponse
  · rw [hi] at hnone
    contradiction
  obtain rfl := Option.some.inj (hi.symm.trans hi')
  have hsize : l.snd.window.windowsize ≤ (1 : UInt8).toNat := Nat.le_of_eq h.window.2.2
  have hgrow := update_window_grow
    (s := { l.snd with copybuf := readInto (some (secondAck crc32)) l.snd.copybuf, lastRst := 0 })
    (by decide : (1 : UInt8) ≠ 0) hsize pkt_new
  rw [hwin, hgrow] at hu
  subst hu
  have hacked : handled_window { l.snd.window with windowsize := (1 : UInt8).toNat } pkt =
      ⟨l.snd.window.seqnumHead, l.snd.window.seqnumTail, 1, []⟩ := by
    have hcan : can_ack_window { l.snd.window with windowsize := (1 : UInt8).toNat } 1 = true := h.can_ack
    rw [handled_window, if_pos htype, hseq, acked_window, if_pos hcan]
    simp only [hlist]
    rw [Protocol.ack_loop_window_cons 1 rfl, if_pos (by rw [hnode]; decide)]
    rfl
  simp only [hacked]
  refine ⟨rfl, ?_, h.lastPkt, ⟨h.window.1, h.window.2.1, rfl⟩, rfl⟩
  simp [h.lastPkt, h.going]

theorem first_acked (crc32 : List UInt8 → UInt32) (copybuf : Mem) :
    ∃ l, Reach (sender_loop_step crc32) (AccessSafe crc32) (.initial copybuf) l ∧ AtRest l [] := by
  obtain ⟨l, hreach, hrest⟩ := sends_first crc32 copybuf
  have hpoll : sender_loop_step crc32 l (.poll false true) = some { l with phase := .read } := by
    simp [sender_loop_step, loop_call, hrest.going, hrest.phase]
  obtain ⟨l', hread, hrest'⟩ := acks_first crc32 hrest
  have hsafe : AccessSafe crc32 { l with phase := .read } (.read (some (secondAck crc32)) 0 pkt_new) := by
    intro pkt _ hreads
    have hlist := hrest.list
    rw [hreads.1] at hlist
    contradiction
  have hpolled := Reach.next (a := LoopCall.poll false true) hreach trivial hpoll
  exact ⟨l', .next hpolled hsafe hread, hrest'⟩

/-- With packet 0 sent and acknowledged, the list is empty, and nothing wrong was read. -/
theorem list_accesses_acked :
    ∃ l, Reach (sender_loop_step zlib_crc32) (AccessSafe zlib_crc32) (.initial fun _ => 0) l ∧
      l.snd.window.linkedList = [] ∧ ∃ w, l.window = some w ∧ Represents w l.snd.window := by
  generalize zlib_crc32 = crc32
  obtain ⟨l, hreach, hrest⟩ := first_acked crc32 fun _ => 0
  exact ⟨l, hreach, List.map_eq_nil_iff.mp hrest.list, (list_accesses hreach).1⟩

/-- The same `ACK` once more, with `POLLIN` alone: the node that is freed is read. -/
theorem freed_node_read :
    ∃ l, Reach (sender_loop_step zlib_crc32) (fun _ _ => True) (.initial fun _ => 0) l ∧ l.window = none := by
  generalize zlib_crc32 = crc32
  obtain ⟨l, hreach, hrest⟩ := first_acked crc32 fun _ => 0
  obtain ⟨w, hw, hrep⟩ := (access_run hreach).window
  have hpoll : sender_loop_step crc32 l (.poll false true) = some { l with phase := .read } := by
    simp [sender_loop_step, loop_call, hrest.going, hrest.phase]
  obtain ⟨pkt, hi, htype, hseq, _⟩ := secondAck_incoming crc32 l.snd
  have hreads : ReadsNothing l.snd.window pkt :=
    ⟨List.map_eq_nil_iff.mp hrest.list, Or.inr ⟨htype, by rw [hseq]; exact hrest.can_ack⟩⟩
  obtain ⟨s', hresponse⟩ : ∃ s', response_step crc32 l.snd (some (secondAck crc32)) 0 pkt_new = some s' :=
    ⟨_, if_pos hrest.going⟩
  have hread : sender_loop_step crc32 { l with phase := .read } (.read (some (secondAck crc32)) 0 pkt_new) =
      some ⟨s', .poll, none⟩ := by
    simp only [sender_loop_step, loop_call, hrest.going, hresponse, hi, hw, Option.bind_some,
      Heap.handle_packet_none hrep hreads, if_true, Option.map_some]
  have hpolled := Reach.next (a := LoopCall.poll false true) (hreach.mono fun _ _ _ => trivial) trivial hpoll
  exact ⟨_, .next hpolled trivial hread, rfl⟩

end Trtp
