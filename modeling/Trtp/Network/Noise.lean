import Trtp.Network.Completion
import Trtp.Network.Damage

/-!
# The transfer over a noisy network

At most four bytes in a row of a datagram are damaged, in both directions and as often as one likes, and `crc32` detects
it. To the file this is no worse than a network that loses these datagrams.
-/

open Trtp.Lib

namespace Trtp

open Protocol (Shrinks)

variable (crc32 : List UInt8 → UInt32) (file : List UInt8)

/-! ## The network -/

/-- An event, or the arrival of a damaged datagram. -/
inductive NoisyEvent where
  | event (e : Event)
  | segment (segment : Segment) (datagram : List UInt8)
  | response (response : Response) (datagram : List UInt8) (time : UInt32) (stale : Pkt)

def noisy_step (s : System) : NoisyEvent → Option System
  | .event e => system_step crc32 file s e
  | .segment segment datagram =>
    if s.rcv.eof_wrote = false ∧ segment ∈ s.snd.sent then
      some { s with rcv := (receive_data crc32 s.rcv (some datagram) true).2 }
    else none
  | .response response datagram time stale =>
    if response ∈ s.rcv.sent then
      (sender_step crc32 file s.snd (.response (some datagram) time stale)).map fun snd => { s with snd }
    else none

/-- Not across the borders of the CRCs, and TR stays at 0. -/
def DamagedSegment (segment : Segment) (datagram : List UInt8) : Prop :=
  (∃ lo up, Burst [8, 12, segment.datagram.length - 4] lo up segment.datagram datagram) ∧
    ∀ b ∈ datagram.head?, b &&& 0b00100000 = 0

/-- The same of a response, which stays one of the types without a length field. -/
def DamagedResponse (response : Response) (datagram : List UInt8) : Prop :=
  (∃ lo up, Burst [6] lo up response.datagram datagram) ∧ ∀ b ∈ datagram.head?, b &&& 0b10000000 ≠ 0

/-- What arrives is in time. It is whole, or damaged, or it does not decode and has TR at 0. -/
def Noisy (s : System) : NoisyEvent → Prop
  | .event (.corrupted datagram) => hdrTr (readInto (some datagram) s.rcv.buffer) = 0
  | .event e => Undamaged crc32 s e
  | .segment segment datagram => Near s segment ∧ DamagedSegment segment datagram
  | .response response datagram _ _ => DamagedResponse response datagram

variable {crc32 file}

/-! ## What the sender has sent -/

theorem sender_step_emitting {s s' : Sender} (h : Emitting crc32 s) {a : SenderAction}
    (hs : sender_step crc32 file s a = some s') : Emitting crc32 s' := by
  cases a with
  | fill time fec_enable =>
    obtain ⟨hfill, _⟩ := Option.filter_eq_some_iff.mp hs
    unfold fill_step at hfill
    split at hfill
    swap
    · contradiction
    rename_i hguard
    obtain rfl := Option.some.inj hfill
    exact (fill_loop_run _ fec_enable _ 0 hguard.1).invariant h fun _ _ _ hu _ => call_step_emitting hu
  | final time => exact h.final hs
  | resend time => exact h.resend hs
  | response bytes_read time stale => exact h.response hs

theorem receiver_event_snd {s s' : System} {e : Event}
    (hs : receiver_event crc32 s e = some s') : s'.snd = s.snd := by
  unfold receiver_event at hs
  split at hs
  · contradiction
  cases e with
  | data | truncated | corrupted =>
    obtain ⟨_, hs⟩ := Option.ite_none_right_eq_some.mp hs
    rw [← Option.some.inj hs]
  | flush | ack => rw [← Option.some.inj hs]
  | fill | final | resend | response | badResponse => contradiction

theorem system_step_emitting {s s' : System} (h : Emitting crc32 s.snd) {e : Event}
    (hs : system_step crc32 file s e = some s') : Emitting crc32 s'.snd := by
  unfold system_step at hs
  split at hs
  · obtain ⟨_, a, ha⟩ := sender_event_cases hs
    exact sender_step_emitting h ha
  · rw [receiver_event_snd hs]
    exact h

/-! ## Damage to the protocol -/

variable (crc32 file) in
/-- The state stands for the state of the protocol, and all that was sent decodes. -/
structure NoisyRel (s : System) (t : Protocol.State) : Prop where
  system : SystemRel crc32 file s t
  emitting : Emitting crc32 s.snd

variable {s s' : System} {t : Protocol.State}

theorem NoisyRel.event (h : NoisyRel crc32 file s t) {e : Event} (hok : Undamaged crc32 s e)
    (hs : system_step crc32 file s e = some s') :
    ∃ t', NoisyRel crc32 file s' t' ∧ Reach (Protocol.step (chunkCount file)) Protocol.Undamaged t t' := by
  have hemitting := system_step_emitting h.emitting hs
  rcases system_step_rel h.system hs with hsame | ⟨b, t', hm, ht, hrel⟩
  · exact ⟨t, ⟨hsame, hemitting⟩, .start⟩
  · exact ⟨t', ⟨hrel, hemitting⟩, .next .start ((undamaged_iff h.system hm).mp hok) ht⟩

theorem NoisyRel.receiver (h : NoisyRel crc32 file s t) {r : Receiver} (hr : ReceiverRel crc32 file r t.rcv) :
    NoisyRel crc32 file { s with rcv := r } t :=
  ⟨⟨h.system.snd, hr, h.system.acked⟩, h.emitting⟩

/-- What does not decode is ignored where TR is 0. -/
theorem receive_data_garbage {r : Receiver} {datagram : List UInt8}
    (hrej : Rejected crc32 r.buffer datagram) (htr : hdrTr (readInto (some datagram) r.buffer) = 0) (write : Bool) :
    (receive_data crc32 r (some datagram) write).2 = (r.read (some datagram)).ignore := by
  have hv : ¬ (Intact crc32 (r.read (some datagram)).buffer ∧
      LenTests (r.read (some datagram)).buffer (readLen (some datagram))) :=
    fun hv => hrej ((pkt_decode_ok_iff crc32 _ _).mpr hv)
  rw [receive_data_ignored crc32 write hv fun htrunc => ?_]
  have hone := htrunc.tr
  rw [show (r.read (some datagram)).buffer = readInto (some datagram) r.buffer from rfl, htr] at hone
  exact absurd hone (by decide)

/-- What decodes to the same packet has the same effect. -/
theorem receive_data_same {r : Receiver} {d d' : List UInt8}
    (hok : (pkt_decode crc32 (readInto (some d) r.buffer) (readLen (some d)) pkt_new).1 = .PKT_OK)
    (hsame : pkt_decode crc32 (readInto (some d') r.buffer) (readLen (some d')) pkt_new =
      pkt_decode crc32 (readInto (some d) r.buffer) (readLen (some d)) pkt_new) (write : Bool) :
    (receive_data crc32 r (some d') write).2.visible = (receive_data crc32 r (some d) write).2.visible := by
  rcases hd : pkt_decode crc32 (readInto (some d) r.buffer) (readLen (some d)) pkt_new with ⟨retval, pkt⟩
  rw [hd] at hok hsame
  obtain rfl : retval = .PKT_OK := hok
  rw [receive_data_of_decode crc32 (r := r) write hd, receive_data_of_decode crc32 (r := r) write hsame]
  simp only [receive_decoded, reduceCtorEq, if_false, ne_eq, not_true_eq_false]
  rw [receive_valid_visible, receive_valid_visible crc32 (r.read (some d))]
  rfl

theorem receiverRel_visible {r : Receiver} {t : Protocol.Receiver} :
    ReceiverRel crc32 file r.visible t ↔ ReceiverRel crc32 file r t :=
  ⟨fun h => ⟨h.window, h.size, h.consumed, h.output, h.done, h.replies⟩,
    fun h => ⟨h.window, h.size, h.consumed, h.output, h.done, h.replies⟩⟩

/-- A damaged segment is lost, or it arrives as it was sent. -/
theorem NoisyRel.segment (h : NoisyRel crc32 file s t) (hdetects : DetectsBursts crc32) {segment : Segment}
    {datagram : List UInt8} (hok : Noisy crc32 s (.segment segment datagram))
    (hs : noisy_step crc32 file s (.segment segment datagram) = some s') :
    ∃ t', NoisyRel crc32 file s' t' ∧ Reach (Protocol.step (chunkCount file)) Protocol.Undamaged t t' := by
  obtain ⟨hnear, ⟨lo, up, hburst⟩, htr⟩ := hok
  obtain ⟨⟨hgo, hmem⟩, hs⟩ := Option.ite_none_right_eq_some.mp hs
  rw [← Option.some.inj hs]
  obtain ⟨pkt, hpkt⟩ := h.emitting.sent segment hmem
  rcases hpkt.damaged hdetects hburst htr s.rcv true with hlost | ⟨_, _, hsame⟩
  · rw [hlost]
    exact ⟨t, h.receiver (h.system.rcv.read _).ignore, .start⟩
  · have harrives := hpkt.arrives s.rcv.buffer
    have hok : (pkt_decode crc32 (readInto (some segment.datagram) s.rcv.buffer)
        (readLen (some segment.datagram)) pkt_new).1 = .PKT_OK := by
      rw [pkt_decode_of_tests _ harrives.intact harrives.lenTests]
    have hvisible := receive_data_same hok hsame true
    have hdata : system_step crc32 file s (.data segment) =
        some { s with rcv := (receive_data crc32 s.rcv (some segment.datagram) true).2 } := by
      simp [system_step, Event.snd, receiver_event, hgo, hmem]
    obtain ⟨t', hrel, hreach⟩ := h.event (e := .data segment) ⟨trivial, hnear, trivial, by simp [Fits, Event.snd]⟩ hdata
    refine ⟨t', ⟨⟨hrel.system.snd, ?_, hrel.system.acked⟩, hrel.emitting⟩, hreach⟩
    rw [← receiverRel_visible, hvisible, receiverRel_visible]
    exact hrel.system.rcv

/-- A damaged response is lost. -/
theorem NoisyRel.response (h : NoisyRel crc32 file s t) (hdetects : DetectsBursts crc32) {response : Response}
    {datagram : List UInt8} {time : UInt32} {stale : Pkt} (hok : DamagedResponse response datagram)
    (hs : noisy_step crc32 file s (.response response datagram time stale) = some s') : NoisyRel crc32 file s' t := by
  obtain ⟨⟨lo, up, hburst⟩, htype⟩ := hok
  obtain ⟨hmem, hs⟩ := Option.ite_none_right_eq_some.mp hs
  obtain ⟨snd, hsnd, rfl⟩ := Option.map_eq_some_iff.mp hs
  obtain ⟨q, _, _, pkt, hd, hsendable, hpkt, _⟩ := h.system.rcv.replies.reply response hmem
  rw [hd] at hburst
  have hlost := hsendable.damaged hdetects (hpkt ▸ response_not_hasLength q.ack) hburst htype s.snd
  have hrel := sender_step_rel h.system.snd hsnd
  simp only [SenderAction.toProtocol, hlost, Option.map_none] at hrel
  exact ⟨⟨hrel, h.system.rcv, h.system.acked⟩, sender_step_emitting h.emitting hsnd⟩

theorem noisy_step_rel (h : NoisyRel crc32 file s t) (hdetects : DetectsBursts crc32) {e : NoisyEvent}
    (hok : Noisy crc32 s e) (hs : noisy_step crc32 file s e = some s') :
    ∃ t', NoisyRel crc32 file s' t' ∧ Reach (Protocol.step (chunkCount file)) Protocol.Undamaged t t' := by
  cases e with
  | segment segment datagram => exact h.segment hdetects hok hs
  | response response datagram time stale => exact ⟨t, h.response hdetects hok hs, .start⟩
  | event e =>
    cases e with
    | corrupted datagram =>
      have htr : hdrTr (readInto (some datagram) s.rcv.buffer) = 0 := hok
      simp only [noisy_step, system_step, Event.snd, Option.isSome_none, Bool.false_eq_true, if_false,
        receiver_event] at hs
      obtain ⟨_, hs⟩ := Option.ite_none_left_eq_some.mp hs
      obtain ⟨hrej, hs⟩ := Option.ite_none_right_eq_some.mp hs
      rw [← Option.some.inj hs, receive_data_garbage hrej htr]
      exact ⟨t, h.receiver (h.system.rcv.read _).ignore, .start⟩
    | fill | final | resend | response | badResponse | data | truncated | flush | ack => exact h.event hok hs

theorem noisy_run (hdetects : DetectsBursts crc32) {copybuf buffer : Mem}
    (h : Reach (noisy_step crc32 file) (Noisy crc32) (.initial copybuf buffer) s) :
    ∃ t, NoisyRel crc32 file s t ∧ Reach (Protocol.step (chunkCount file)) Protocol.Undamaged .initial t :=
  h.simulation ⟨systemRel_initial crc32 file copybuf buffer, emitting_initial copybuf⟩
    fun _ _ _ _ hrel hok hs => noisy_step_rel hrel hdetects hok hs

/-! ## The transfer -/

/-- The same output, and the same packets in the same windows. -/
structure SameTransfer (s s' : System) : Prop where
  stdout : s.rcv.stdout = s'.rcv.stdout
  consumed : s.rcv.consumed = s'.rcv.consumed
  eof_wrote : s.rcv.eof_wrote = s'.rcv.eof_wrote
  stored : Window.Rel (fun pkt pkt' => pkt.seqnum = pkt'.seqnum ∧ payloadBytes pkt = payloadBytes pkt') s.rcv.window
    s'.rcv.window
  global_pkt : s.snd.global_pkt = s'.snd.global_pkt
  eof_reached : s.snd.eof_reached = s'.snd.eof_reached
  lastPkt : s.snd.lastPkt = s'.snd.lastPkt
  allAcked : s.snd.stopped = some .allAcked ↔ s'.snd.stopped = some .allAcked
  kept : Window.Rel (fun node node' => node.pkt.seqnum = node'.pkt.seqnum ∧
    payloadBytes node.pkt = payloadBytes node'.pkt) s.snd.window s'.snd.window
  acked : s.acked = s'.acked

theorem SystemRel.same (h : SystemRel crc32 file s t) (h' : SystemRel crc32 file s' t) :
    SameTransfer s s' where
  stdout := h.rcv.output.trans h'.rcv.output.symm
  consumed := h.rcv.consumed.trans h'.rcv.consumed.symm
  eof_wrote := h.rcv.done.trans h'.rcv.done.symm
  stored := h.rcv.window.join (fun _ _ _ hx hx' =>
    ⟨hx.seqnum.trans hx'.seqnum.symm, hx.payload.trans hx'.payload.symm⟩) h'.rcv.window
  global_pkt := h.snd.count.trans h'.snd.count.symm
  eof_reached := h.snd.eof.trans h'.snd.eof.symm
  lastPkt := h.snd.lastPkt.trans h'.snd.lastPkt.symm
  allAcked := h.snd.stopped.trans h'.snd.stopped.symm
  kept := h.snd.window.join (fun _ _ _ hx hx' =>
    ⟨hx.pkt.seqnum.trans hx'.pkt.seqnum.symm, hx.pkt.payload.trans hx'.pkt.payload.symm⟩) h'.snd.window
  acked := h.acked.trans h'.acked.symm

theorem noisy_step_eofListed {e : NoisyEvent} (h : EofListed s.rcv) (hs : noisy_step crc32 file s e = some s') :
    EofListed s'.rcv := by
  cases e with
  | event e => exact system_step_eofListed h hs
  | segment segment datagram =>
    obtain ⟨_, hs⟩ := Option.ite_none_right_eq_some.mp hs
    rw [← Option.some.inj hs]
    exact receive_data_eofListed h _ true
  | response response datagram time stale =>
    obtain ⟨_, hs⟩ := Option.ite_none_right_eq_some.mp hs
    obtain ⟨_, _, rfl⟩ := Option.map_eq_some_iff.mp hs
    exact h

def byteSegment : Segment := ⟨some 0, [65, 0, 1, 0, 0, 0, 0, 0, 75, 73, 206, 191, 7, 76, 102, 122, 46]⟩

def finalSegment : Segment := ⟨some 1, [66, 0, 0, 1, 0, 0, 0, 0, 51, 250, 51, 73, 0, 0, 0, 0]⟩

def byteAck : Response := ⟨1, [130, 1, 0, 0, 0, 0, 223, 218, 61, 192]⟩

/-- The first packet and its `ACK` come damaged before they come whole. Of the final packet only CRC2 is damaged. -/
def noisyRun : List NoisyEvent :=
  [.event (.fill (fun _ => 0) false), .segment byteSegment (byteSegment.datagram.set 12 8), .event (.data byteSegment),
    .event .flush, .event .ack, .response byteAck (byteAck.datagram.set 1 2) 0 pkt_new,
    .event (.response byteAck 0 pkt_new), .event (.fill (fun _ => 0) false), .event (.final 0),
    .segment finalSegment (finalSegment.datagram.set 12 9), .event .flush]

/-- What `noisyRun` needs. -/
def Early (s : System) : Prop :=
  s.rcv.stdout.length < 128 ∧ s.rcv.consumed < 128 ∧
    ∀ pkt ∈ incoming zlib_crc32 s.snd (some byteAck.datagram), ¬ Shrinks s.snd.window (pkt_get_window pkt).toNat

instance (s : System) : Decidable (Early s) := inferInstanceAs (Decidable (_ ∧ _ ∧ _))

theorem noisyRun_done :
    (run (noisy_step zlib_crc32 [7]) (fun s _ => Early s) noisyRun (.initial (fun _ => 0) fun _ => 0)).any
      (fun s => s.rcv.eof_wrote) = true := by
  decide +kernel

theorem Early.near (h : Early s) {segment : Segment} {k : Nat} (hk : segment.chunk = some k) (hlt : k < 128) :
    Near s segment := by
  intro j hj
  obtain rfl : k = j := Option.some.inj (hk.symm.trans hj)
  obtain ⟨hstdout, _⟩ := h
  omega

theorem Early.noisy (h : Early s) : ∀ e ∈ noisyRun, Noisy zlib_crc32 s e := by
  have hturn : Undamaged zlib_crc32 s (.fill (fun _ => 0) false) :=
    ⟨trivial, trivial, trivial, fun a ha => by obtain rfl := Option.some.inj ha; trivial⟩
  have hflush : Undamaged zlib_crc32 s .flush := ⟨trivial, trivial, trivial, fun a ha => nomatch ha⟩
  simp only [noisyRun, List.forall_mem_cons, List.not_mem_nil, false_implies, implies_true, and_true]
  refine ⟨hturn, ⟨h.near rfl (by decide), ⟨12, 13, .one_byte _ (by decide) (by decide)⟩, fun b hb => ?_⟩,
    ⟨trivial, h.near rfl (by decide), trivial, fun a ha => nomatch ha⟩, hflush,
    ⟨trivial, trivial, trivial, fun a ha => nomatch ha⟩,
    ⟨⟨1, 2, .one_byte _ (by decide) (by decide)⟩, fun b hb => ?_⟩,
    ⟨trivial, trivial, ?_, fun a ha => ?_⟩, hturn,
    ⟨trivial, trivial, trivial, fun a ha => ?_⟩,
    ⟨h.near rfl (by decide), ⟨12, 13, .one_byte _ (by decide) (by decide)⟩, fun b hb => ?_⟩, hflush⟩
  · rw [← Option.some.inj hb]
    rfl
  · rw [← Option.some.inj hb]
    decide
  · exact Nat.lt_add_left 1 h.2.1
  · obtain rfl := Option.some.inj ha
    exact h.2.2
  · obtain rfl := Option.some.inj ha
    trivial
  · rw [← Option.some.inj hb]
    rfl

end Trtp
