import Trtp.Sender.Accumulator

/-!
# Flow control

The list of the sender against the last window that a packet has brought. Where the source leaves open what a call does,
any state may follow.
-/

open Trtp.Lib

namespace Trtp

variable (crc32 : List UInt8 → UInt32)

/-- The sender, with the last window that is not 0 of a packet that was not ignored as a whole. -/
structure Flow where
  snd : Sender
  accepted : Nat

/-- `update_window` is called with the window of `incoming`. -/
def accepted_window (s : Sender) (accepted : Nat) : SenderCall → Nat
  | .response bytes_read _ _ =>
    match incoming crc32 s bytes_read with
    | some pkt => if pkt_get_window pkt = 0 then accepted else (pkt_get_window pkt).toNat
    | none => accepted
  | _ => accepted

/-- A call, or a call that strays with the state that follows. -/
inductive FlowAction where
  | defined (a : SenderCall)
  | undefined (a : SenderCall) (snd : Sender)

def FlowAction.call : FlowAction → SenderCall
  | .defined a | .undefined a _ => a

def flow_step (f : Flow) : FlowAction → Option Flow
  | .defined a =>
    if Strays f.snd a then none
    else (call_step crc32 f.snd a).map fun snd => ⟨snd, accepted_window crc32 f.snd f.accepted a⟩
  | .undefined a snd => if Strays f.snd a then (call_step crc32 f.snd a).map fun _ => ⟨snd, f.accepted⟩ else none

/-- The source says what the call does. -/
def FlowSafe (f : Flow) (a : FlowAction) : Prop := ¬ Strays f.snd a.call

variable {crc32}

structure FlowControl (f : Flow) : Prop where
  accepted : f.snd.window.windowsize = f.accepted
  pos : 1 ≤ f.accepted
  le : f.accepted ≤ MAX_WINDOW_SIZE
  list : f.snd.window.linkedList.length ≤ f.accepted

theorem FlowControl.pkt_set_window {f : Flow} (h : FlowControl f) (pkt : Pkt) :
    (pkt_set_window pkt (UInt8.ofNat f.snd.window.windowsize)).1 = .PKT_OK := by
  have hle := h.le
  rw [← h.accepted, MAX_WINDOW_SIZE] at hle
  have hsize : (UInt8.ofNat f.snd.window.windowsize).toNat = f.snd.window.windowsize := by
    rw [UInt8.toNat_ofNat']
    omega
  rw [Trtp.pkt_set_window, if_neg (by rw [hsize, MAX_WINDOW_SIZE]; omega)]

theorem FlowControl.size {f : Flow} (h : FlowControl f) :
    (UInt8.ofNat f.snd.window.linkedList.length).toNat = f.snd.window.linkedList.length := by
  have hle := h.le
  have hlist := h.list
  rw [MAX_WINDOW_SIZE] at hle
  rw [UInt8.toNat_ofNat']
  omega

theorem flowControl_initial (copybuf : Mem) : FlowControl ⟨.initial copybuf, 1⟩ :=
  ⟨rfl, Nat.le_refl 1, (by decide : 1 ≤ MAX_WINDOW_SIZE), Nat.zero_le 1⟩

/-! ## The calls -/

theorem FlowControl.fill {f : Flow} (h : FlowControl f) {io : FillIO} {fec_enable : Bool} {s' : Sender}
    (hs : turn_step crc32 f.snd io fec_enable = some s') : FlowControl ⟨s', f.accepted⟩ := by
  obtain ⟨_, _, hlt, ⟨_, rfl⟩ | ⟨_, copybuf, stats, sent, io_error, rfl⟩⟩ := turn_step_cases hs
  · exact ⟨h.accepted, h.pos, h.le, h.list⟩
  · rw [h.accepted] at hlt
    refine ⟨h.accepted, h.pos, h.le, ?_⟩
    rw [List.length_append, List.length_singleton]
    exact hlt

theorem FlowControl.final {f : Flow} (h : FlowControl f) {time : UInt32} {write : Bool} {s' : Sender}
    (hs : final_step crc32 f.snd time write = some s') : FlowControl ⟨s', f.accepted⟩ := by
  obtain ⟨_, _, _, hlt, copybuf, stats, sent, io_error, allocated, rfl, _⟩ := final_step_eq hs
  rw [h.accepted] at hlt
  refine ⟨h.accepted, h.pos, h.le, ?_⟩
  cases write with
  | true =>
    simp only [if_true, List.length_append, List.length_singleton]
    exact hlt
  | false => exact h.list

theorem FlowControl.resend {f : Flow} (h : FlowControl f) {io : Nat → UInt32 × Bool} {s' : Sender}
    (hs : resent_step crc32 f.snd io = some s') : FlowControl ⟨s', f.accepted⟩ := by
  obtain ⟨_, _, copybuf, stats, sent, io_error, list, hlist, rfl⟩ := resent_step_eq hs
  exact ⟨h.accepted, h.pos, h.le, hlist.length_eq ▸ h.list⟩

theorem FlowControl.handled {s' : Sender} {window : Window Node} {pkt : Pkt} {accepted : Nat}
    (hwindow : s'.window = handled_window window pkt) (hsize : window.windowsize = accepted) (hpos : 1 ≤ accepted)
    (hle : accepted ≤ MAX_WINDOW_SIZE) (hlist : window.linkedList.length ≤ accepted) :
    FlowControl ⟨s', accepted⟩ := by
  refine ⟨?_, hpos, hle, ?_⟩
  · rw [hwindow, (handled_window_keeps _ _).2, hsize]
  · rw [hwindow]
    exact (handled_window_suffix _ _).length_le.trans hlist

theorem FlowControl.response {f : Flow} (h : FlowControl f) {bytes_read : Option (List UInt8)} {time : UInt32}
    {stale : Pkt} {s' : Sender} (hs : response_step crc32 f.snd bytes_read time stale = some s') :
    FlowControl ⟨s', accepted_window crc32 f.snd f.accepted (.response bytes_read time stale)⟩ := by
  obtain ⟨_, ⟨hi, copybuf, stats, rfl⟩ | ⟨pkt, u, fec, stats, hi, hu, _, _, _, rfl⟩⟩ := response_step_cases hs
  · simp only [accepted_window, hi]
    exact ⟨h.accepted, h.pos, h.le, h.list⟩
  simp only [accepted_window, hi]
  have hlist := h.list
  have hle := pkt_get_window_le pkt
  rcases updated_cases hu with ⟨hnot, _, heq⟩ | ⟨hshrink, heq⟩
  · rw [heq]
    refine FlowControl.handled rfl ?_ ?_ ?_ ?_
    all_goals split
    · exact h.accepted
    · rfl
    · exact h.pos
    · rename_i h0
      exact Nat.one_le_iff_ne_zero.mpr fun hzero => h0 (UInt8.toNat_inj.mp hzero)
    · exact h.le
    · exact hle
    · exact h.list
    · rename_i h0
      -- a window that does not shrink has room for the list
      have hsize := windowsize_le_of_not_shrinks hnot h0
      rw [h.accepted] at hsize
      exact hlist.trans hsize
  · rw [heq]
    have h0 : pkt_get_window pkt ≠ 0 := fun hzero => hshrink.1 (by rw [hzero]; rfl)
    rw [if_neg h0]
    refine FlowControl.handled rfl rfl (Nat.one_le_iff_ne_zero.mpr hshrink.1) hle ?_
    rw [Protocol.shrink_window_linkedList, List.length_take]
    exact Nat.min_le_left _ _

theorem flow_step_control {f f' : Flow} (h : FlowControl f) {a : FlowAction} (hok : FlowSafe f a)
    (hs : flow_step crc32 f a = some f') : FlowControl f' := by
  cases a with
  | undefined a snd =>
    obtain ⟨hstray, _⟩ := Option.ite_none_right_eq_some.mp hs
    exact absurd hstray hok
  | defined a =>
    obtain ⟨_, hs⟩ := Option.ite_none_left_eq_some.mp hs
    obtain ⟨s', hs', rfl⟩ := Option.map_eq_some_iff.mp hs
    cases a with
    | fill io fec_enable => exact h.fill hs'
    | final time write => exact h.final hs'
    | resend io => exact h.resend hs'
    | response bytes_read time stale => exact h.response hs'

/-! ## The runs -/

/-- As long as no call strays, the list is never longer than the last window, which every packet can carry, and its size
never wraps. -/
theorem flow_control {copybuf : Mem} {f : Flow} (h : Reach (flow_step crc32) FlowSafe ⟨.initial copybuf, 1⟩ f) :
    FlowControl f ∧ (∀ pkt, (pkt_set_window pkt (UInt8.ofNat f.snd.window.windowsize)).1 = .PKT_OK) ∧
      (UInt8.ofNat f.snd.window.linkedList.length).toNat = f.snd.window.linkedList.length := by
  have hflow : FlowControl f :=
    h.invariant (flowControl_initial copybuf) fun _ _ _ hf hok hs => flow_step_control hf hok hs
  exact ⟨hflow, hflow.pkt_set_window, hflow.size⟩

theorem flow_step_defined {f : Flow} {a : SenderCall} {s' : Sender} (hok : ¬ Strays f.snd a)
    (hs : call_step crc32 f.snd a = some s') :
    flow_step crc32 f (.defined a) = some ⟨s', accepted_window crc32 f.snd f.accepted a⟩ := by
  rw [flow_step, if_neg hok, hs]
  rfl

theorem flow_run {copybuf : Mem} {s : Sender}
    (h : Reach (call_step crc32) (fun s a => ¬ Strays s a) (.initial copybuf) s) :
    ∃ accepted, Reach (flow_step crc32) FlowSafe ⟨.initial copybuf, 1⟩ ⟨s, accepted⟩ := by
  have hsim : ∀ (s : Sender) (a : SenderCall) (s' : Sender) (f : Flow), f.snd = s → ¬ Strays s a →
      call_step crc32 s a = some s' → ∃ f', f'.snd = s' ∧ Reach (flow_step crc32) FlowSafe f f' := by
    rintro s a s' f rfl hok hs
    exact ⟨_, rfl, .next .start (a := .defined a) hok (flow_step_defined hok hs)⟩
  have hstart : (⟨.initial copybuf, 1⟩ : Flow).snd = .initial copybuf := rfl
  obtain ⟨f, rfl, hreach⟩ := h.simulation (R := fun s (f : Flow) => f.snd = s) hstart hsim
  exact ⟨f.accepted, hreach⟩

/-- A `NACK` brings the window 5. -/
theorem flow_control_five :
    ∃ f, Reach (flow_step zlib_crc32) FlowSafe ⟨.initial fun _ => 0, 1⟩ f ∧ f.accepted = 5 ∧ FlowControl f := by
  generalize zlib_crc32 = crc32
  obtain ⟨⟨pkt, hi, hwin⟩, s, hs, _⟩ := nack_grows crc32 (s := .initial fun _ => 0) rfl 5 (by decide) (by decide)
    (by decide) 0
  have hne : pkt_get_window pkt ≠ 0 := by
    intro hzero
    rw [hzero] at hwin
    contradiction
  have haccepted : accepted_window crc32 (.initial fun _ => 0) 1
      (.response (some (pkt_bytes crc32 (responsePkt false 0 5))) 0 pkt_new) = 5 := by
    simp only [accepted_window, hi, if_neg hne, hwin]
  have hstep := flow_step_defined (f := ⟨.initial fun _ => 0, 1⟩)
    (a := .response (some (pkt_bytes crc32 (responsePkt false 0 5))) 0 pkt_new) id hs
  rw [haccepted] at hstep
  have hreach : Reach (flow_step crc32) FlowSafe ⟨.initial fun _ => 0, 1⟩ ⟨s, 5⟩ :=
    .next .start (a := .defined (.response _ 0 pkt_new)) id hstep
  exact ⟨_, hreach, rfl, (flow_control hreach).1⟩

/-- A packet after the failed write of a `FEC`. -/
def strayFill : SenderCall := .fill ⟨fun _ => some [7], 0, true, true⟩ true

theorem turn_strays (crc32 : List UInt8 → UInt32) {s : Sender} (hgo : s.stopped = none)
    (heof : s.eof_reached = false) (hroom : s.window.linkedList.length < s.window.windowsize) {k : UInt8}
    (hi : s.fec.i = k) (hfour : 4 ≤ k.toNat) :
    Strays s strayFill ∧ ∃ s', call_step crc32 s strayFill = some s' ∧ s'.stopped = none ∧ s'.eof_reached = false ∧
      s'.window.linkedList.length = s.window.linkedList.length + 1 ∧ s'.window.windowsize = s.window.windowsize ∧
      s'.fec.i = k + 1 := by
  have hread : ¬ (some [7] : Option (List UInt8)) = some [] := by decide
  obtain ⟨s', hs⟩ : ∃ s', turn_step crc32 s ⟨fun _ => some [7], 0, true, true⟩ true = some s' :=
    ⟨_, if_pos ⟨hgo, heof, hroom⟩⟩
  refine ⟨⟨rfl, hread, rfl, by rw [hi]; exact hfour⟩, s', hs, ?_⟩
  obtain ⟨_, _, _, ⟨hend, _⟩ | ⟨_, buf, stats, sent, io_error, rfl⟩⟩ := turn_step_cases hs
  · exact absurd hend hread
  have hne : s.fec.i ≠ 3 := by
    rintro hthree
    rw [← hi, hthree] at hfour
    contradiction
  refine ⟨hgo, heof, by simp, rfl, ?_⟩
  simp only [turn_fec, if_true, fec_push_less hne, hi]

theorem flow_step_strays {f : Flow} {a : SenderCall} {s' : Sender} (hstray : Strays f.snd a)
    (hs : call_step crc32 f.snd a = some s') (snd : Sender) :
    flow_step crc32 f (.undefined a snd) = some ⟨snd, f.accepted⟩ := by
  rw [flow_step, if_pos hstray, hs]
  rfl

/-- With the window 7 the write of the first `FEC` fails. The next packets are stored at `fec->pkts[4]`, `[5]` and
`[6]`. There lies the window, and `windowsize` becomes a part of an address. -/
theorem failed_fec_flow :
    ∃ f, Reach (flow_step zlib_crc32) (fun _ _ => True) ⟨.initial fun _ => 0, 1⟩ f ∧
      f.snd.window.windowsize = 21900 ∧ ¬ FlowControl f := by
  generalize zlib_crc32 = crc32
  obtain ⟨s₄, hreach, hgo₄, heof₄, hlen₄, hsize₄, hi₄⟩ := failed_fec_full crc32 (n := 7) (by decide) (by decide)
  obtain ⟨accepted, hrun⟩ := flow_run hreach
  obtain ⟨hstray₄, s₅, hs₅, hgo₅, heof₅, hlen₅, hsize₅, hi₅⟩ := turn_strays crc32 hgo₄ heof₄ (by omega) hi₄
    (by decide)
  obtain ⟨hstray₅, s₆, hs₆, hgo₆, heof₆, hlen₆, hsize₆, hi₆⟩ := turn_strays crc32 hgo₅ heof₅ (by omega) hi₅
    (by decide)
  obtain ⟨hstray₆, s₇, hs₇, _⟩ := turn_strays crc32 hgo₆ heof₆ (by omega) hi₆ (by decide)
  let s : Sender := { s₇ with window := { s₇.window with seqnumHead := 0xb0, windowsize := 21900 } }
  have hfour : Reach (flow_step crc32) (fun _ _ => True) _ _ := hrun.mono fun _ _ _ => trivial
  have hfive := hfour.next (a := .undefined strayFill s₅) trivial (flow_step_strays hstray₄ hs₅ s₅)
  have hsix := hfive.next (a := .undefined strayFill s₆) trivial (flow_step_strays hstray₅ hs₆ s₆)
  have hseven := hsix.next (a := .undefined strayFill s) trivial (flow_step_strays hstray₆ hs₇ s)
  refine ⟨⟨s, accepted⟩, hseven, rfl, fun hflow => ?_⟩
  have hle := hflow.le
  rw [← hflow.accepted] at hle
  have hbound : 21900 ≤ MAX_WINDOW_SIZE := hle
  contradiction

end Trtp
