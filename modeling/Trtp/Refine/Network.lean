import Trtp.Refine.Conditions
import Trtp.Refine.Receiver

/-!
# The system refines the protocol

Each event is a step of the protocol or changes nothing there. Each step of the protocol, except for a header that is
corrupted, is an event.
-/

open Trtp.Lib

namespace Trtp

open Protocol (Item Reply)

variable (crc32 : List UInt8 → UInt32) (file : List UInt8)

/-- The state of both programs stands for the state of the protocol. -/
structure SystemRel (s : System) (t : Protocol.State) : Prop where
  snd : SenderRel crc32 file s.snd t.snd
  rcv : ReceiverRel crc32 file s.rcv t.rcv
  acked : s.acked = t.acked

theorem systemRel_initial (copybuf buffer : Mem) : SystemRel crc32 file (.initial copybuf buffer) .initial :=
  ⟨senderRel_initial crc32 file copybuf, receiverRel_initial crc32 file buffer, rfl⟩

/-- The event is the action. -/
inductive Matches : Event → Protocol.Action → Prop
  | fill (time : Nat → UInt32) (fec_enable : Bool) : Matches (.fill time fec_enable) .fill
  | final (time : UInt32) : Matches (.final time) .final
  | response {response : Response} {q : Reply} (h : ResponseCarries crc32 response q) (time : UInt32) (stale : Pkt) :
    Matches (.response response time stale) (.respond q (pkt_get_seqnum stale))
  | data {segment : Segment} {x : Item} (h : SegmentCarries crc32 file segment x) : Matches (.data segment) (.deliver x)
  | truncated {segment : Segment} {x : Item} (h : SegmentCarries crc32 file segment x) :
    Matches (.truncated segment) (.truncated x)
  | corrupted (datagram : List UInt8) (seqnum : UInt8) : Matches (.corrupted datagram) (.corrupted seqnum)
  | flush : Matches .flush .flush
  | ack : Matches .ack .ack

variable {crc32 file}

theorem ResponseCarries.incoming {response : Response} {q : Reply} (h : ResponseCarries crc32 response q) (s : Sender) :
    ∃ pkt, incoming crc32 s (some response.datagram) = some pkt ∧ decide (pkt_get_type pkt = .ACK) = q.ack ∧
      pkt_get_seqnum pkt = q.seqnum ∧ (pkt_get_window pkt).toNat = q.window := by
  obtain ⟨_, sentPkt, hd, hs, htype, hseq, hwin⟩ := h
  obtain ⟨pkt, hi, hr⟩ := hs.incoming crc32 s
  rw [hd]
  refine ⟨pkt, hi, ?_, hr.seqnum.trans hseq, ?_⟩
  · rw [pkt_get_type, hr.type, htype]
    cases q.ack <;> rfl
  · rw [pkt_get_window_toNat, hr.window, hwin]

theorem ResponseCarries.toProtocol {response : Response} {q : Reply} (h : ResponseCarries crc32 response q) (s : Sender)
    (time : UInt32) (stale : Pkt) :
    SenderAction.toProtocol crc32 s (.response (some response.datagram) time stale) =
      some (.respond q.ack q.seqnum q.window (pkt_get_seqnum stale)) := by
  obtain ⟨pkt, hi, hack, hseq, hwin⟩ := h.incoming s
  simp only [SenderAction.toProtocol, hi, Option.map_some, hack, hseq, hwin]

theorem ResponseCarries.acked {response : Response} {q : Reply} (h : ResponseCarries crc32 response q) (s : Sender)
    (acked : List Nat) :
    (if (Trtp.incoming crc32 s (some response.datagram)).any (pkt_get_type · = .ACK) then response.consumed :: acked
      else acked) = if q.ack then q.consumed :: acked else acked := by
  obtain ⟨pkt, hi, hack, _, _⟩ := h.incoming s
  rw [hi, Option.any_some, hack, h.1]

/-! ## An event is an action -/

theorem incoming_rejected {s : Sender} {datagram : List UInt8} (h : Rejected crc32 s.copybuf datagram) :
    incoming crc32 s (some datagram) = none := by
  unfold Rejected at h
  unfold incoming
  rcases hd : pkt_decode crc32 (readInto (some datagram) s.copybuf) (readLen (some datagram)) pkt_new with ⟨retval, pkt⟩
  rw [hd] at h
  exact if_neg fun hok => h hok.1

theorem sender_event_rel {s s' : System} {t : Protocol.State} (h : SystemRel crc32 file s t) {e : Event}
    (hs : sender_event crc32 file s e = some s') :
    SystemRel crc32 file s' t ∨
      ∃ b t', Matches crc32 file e b ∧ Protocol.step (chunkCount file) t b = some t' ∧
        SystemRel crc32 file s' t' := by
  cases e with
  | fill time fec_enable =>
    obtain ⟨snd, hsnd, rfl⟩ := Option.map_eq_some_iff.mp hs
    obtain ⟨t', ht, hrel⟩ := sender_step_rel h.snd hsnd
    exact Or.inr ⟨.fill, { t with snd := t' }, .fill time fec_enable, by rw [Protocol.step, ht]; rfl,
      hrel, h.rcv, h.acked⟩
  | final time =>
    obtain ⟨snd, hsnd, rfl⟩ := Option.map_eq_some_iff.mp hs
    obtain ⟨t', ht, hrel⟩ := sender_step_rel h.snd hsnd
    exact Or.inr ⟨.final, { t with snd := t' }, .final time, by rw [Protocol.step, ht]; rfl, hrel, h.rcv, h.acked⟩
  | resend time =>
    obtain ⟨snd, hsnd, rfl⟩ := Option.map_eq_some_iff.mp hs
    exact Or.inl ⟨sender_step_rel h.snd hsnd, h.rcv, h.acked⟩
  | badResponse datagram time stale =>
    simp only [sender_event] at hs
    split at hs
    swap
    · contradiction
    rename_i hrej
    obtain ⟨snd, hsnd, rfl⟩ := Option.map_eq_some_iff.mp hs
    have hstep := sender_step_rel h.snd hsnd
    simp only [SenderAction.toProtocol, incoming_rejected hrej, Option.map_none] at hstep
    exact Or.inl ⟨hstep, h.rcv, h.acked⟩
  | response response time stale =>
    simp only [sender_event] at hs
    split at hs
    swap
    · contradiction
    rename_i hmem
    obtain ⟨snd, hsnd, rfl⟩ := Option.map_eq_some_iff.mp hs
    obtain ⟨q, hq, hc⟩ := h.rcv.replies.reply response hmem
    have hstep := sender_step_rel h.snd hsnd
    rw [hc.toProtocol] at hstep
    obtain ⟨t', ht, hrel⟩ := hstep
    refine Or.inr ⟨.respond q (pkt_get_seqnum stale),
      { t with snd := t', acked := if q.ack then q.consumed :: t.acked else t.acked }, .response hc time stale, ?_,
      hrel, h.rcv, ?_⟩
    · rw [Protocol.step, if_pos hq, ht]
      rfl
    · simp only [hc.acked, h.acked]
  | data | truncated | corrupted | flush | ack => contradiction

theorem receiver_event_rel {s s' : System} {t : Protocol.State} (h : SystemRel crc32 file s t) {e : Event}
    (hs : receiver_event crc32 s e = some s') :
    SystemRel crc32 file s' t ∨
      ∃ b t', Matches crc32 file e b ∧ Protocol.step (chunkCount file) t b = some t' ∧
        SystemRel crc32 file s' t' := by
  unfold receiver_event at hs
  split at hs
  · contradiction
  rename_i hgo
  rw [h.rcv.done] at hgo
  cases e with
  | data segment =>
    simp only [Option.ite_none_right_eq_some, Option.some.injEq] at hs
    obtain ⟨hmem, rfl⟩ := hs
    rcases h.snd.sent.item segment hmem with hfec | ⟨x, hx, hc⟩
    · refine Or.inl ⟨h.snd, receive_data_other h.rcv ?_, h.acked⟩
      rw [(hdrType_fec hfec _).1]
      decide
    · obtain ⟨hchunk, pkt, hpkt, hd⟩ := hc
      refine Or.inr ⟨.deliver x, { t with rcv := t.rcv.deliver x }, .data ⟨hchunk, pkt, hpkt, hd⟩, ?_, h.snd, ?_,
        h.acked⟩
      · rw [Protocol.step, if_pos hx, Protocol.Receiver.step, if_neg hgo]
        rfl
      · simp only [hd]
        exact receive_data_whole h.rcv hpkt
  | truncated segment =>
    simp only [Option.ite_none_right_eq_some, Option.some.injEq] at hs
    obtain ⟨hmem, rfl⟩ := hs
    rcases h.snd.sent.item segment hmem with hfec | ⟨x, hx, hc⟩
    · refine Or.inl ⟨h.snd, receive_data_other h.rcv ?_, h.acked⟩
      rw [(hdrType_fec hfec _).2]
      decide
    · obtain ⟨hchunk, pkt, hpkt, hd⟩ := hc
      have hcut := receive_data_cut h.rcv hpkt
      rw [← hd] at hcut
      by_cases hin : isFinal x = true ∨ is_in_window t.rcv.window (seqnumOf x) = true
      · rw [if_pos hin] at hcut
        refine Or.inr ⟨.truncated x, { t with rcv := t.rcv.nack (seqnumOf x) }, .truncated ⟨hchunk, pkt, hpkt, hd⟩, ?_,
          h.snd, hcut, h.acked⟩
        rw [Protocol.step, if_pos ⟨hx, hin⟩, Protocol.Receiver.step, if_neg hgo]
        rfl
      · rw [if_neg hin] at hcut
        exact Or.inl ⟨h.snd, hcut, h.acked⟩
  | corrupted datagram =>
    simp only [Option.ite_none_right_eq_some, Option.some.injEq] at hs
    obtain ⟨hrej, rfl⟩ := hs
    rcases receive_data_rejected h.rcv hrej with hsame | ⟨seqnum, hnack⟩
    · exact Or.inl ⟨h.snd, hsame, h.acked⟩
    · refine Or.inr ⟨.corrupted seqnum, { t with rcv := t.rcv.nack seqnum }, .corrupted datagram seqnum, ?_, h.snd,
        hnack, h.acked⟩
      rw [Protocol.step, Protocol.Receiver.step, if_neg hgo]
      rfl
  | flush =>
    simp only [Option.some.injEq] at hs
    rw [← hs]
    refine Or.inr ⟨.flush, { t with rcv := t.rcv.flush }, .flush, ?_, h.snd, flush_turn_rel h.rcv, h.acked⟩
    rw [Protocol.step, Protocol.Receiver.step, if_neg hgo]
    rfl
  | ack =>
    simp only [Option.some.injEq] at hs
    rw [← hs]
    refine Or.inr ⟨.ack, { t with rcv := t.rcv.reply true t.rcv.window.seqnumHead }, .ack, ?_, h.snd,
      (send_ack_rel h.rcv _).resent false, h.acked⟩
    rw [Protocol.step, Protocol.Receiver.step, if_neg hgo]
    rfl
  | fill | final | resend | response | badResponse => contradiction

theorem system_step_rel {s s' : System} {t : Protocol.State} (h : SystemRel crc32 file s t) {e : Event}
    (hs : system_step crc32 file s e = some s') :
    SystemRel crc32 file s' t ∨
      ∃ b t', Matches crc32 file e b ∧ Protocol.step (chunkCount file) t b = some t' ∧
        SystemRel crc32 file s' t' := by
  unfold system_step at hs
  split at hs
  · exact sender_event_rel h hs
  · exact receiver_event_rel h hs

theorem system_run {ok : System → Event → Prop} {ok' : Protocol.State → Protocol.Action → Prop} {copybuf buffer : Mem}
    {s : System} (hok : ∀ s t e b, SystemRel crc32 file s t → ok s e → Matches crc32 file e b → ok' t b)
    (h : Reach (system_step crc32 file) ok (.initial copybuf buffer) s) :
    ∃ t, SystemRel crc32 file s t ∧ Reach (Protocol.step (chunkCount file)) ok' .initial t := by
  refine h.simulation (systemRel_initial crc32 file copybuf buffer) ?_
  intro s e s' t hrel he hs
  rcases system_step_rel hrel hs with hsame | ⟨b, t', hm, ht, hrel'⟩
  · exact ⟨t, hsame, .start⟩
  · exact ⟨t', hrel', .next .start (hok s t e b hrel he hm) ht⟩

/-! ## An action is an event -/

theorem sender_event_of_protocol {s : System} {t : Protocol.State} (h : SystemRel crc32 file s t)
    (hnews : s.snd.stopped ≠ some .noNews) {e : Event} {a : SenderAction} (he : e.snd = some a)
    (hplain : sender_event crc32 file s e = (sender_step crc32 file s.snd a).map fun snd => { s with snd })
    {b : Protocol.SenderAction} (hab : a.toProtocol crc32 s.snd = some b) {snd' : Protocol.Sender}
    (ht : t.snd.step (chunkCount file) b = some snd') :
    ∃ s', system_step crc32 file s e = some s' ∧ SystemRel crc32 file s' { t with snd := snd' } ∧
      s'.snd.stopped ≠ some .noNews := by
  obtain ⟨snd, hsnd, hrel, hnews'⟩ := sender_step_of_protocol h.snd hnews hab ht
  refine ⟨{ s with snd }, ?_, ⟨hrel, h.rcv, h.acked⟩, hnews'⟩
  simp only [system_step, he, Option.isSome_some, if_true, hplain, hsnd, Option.map_some]

theorem receiver_event_of_protocol {s : System} {t : Protocol.State} (h : SystemRel crc32 file s t) {e : Event}
    {rcv : Receiver} {rcv' : Protocol.Receiver} (he : e.snd = none)
    (hplain : ¬ s.rcv.eof_wrote = true → receiver_event crc32 s e = some { s with rcv })
    (hgo : ¬ t.rcv.done = true) (hrel : ReceiverRel crc32 file rcv rcv') :
    ∃ s', system_step crc32 file s e = some s' ∧ SystemRel crc32 file s' { t with rcv := rcv' } ∧ s'.snd = s.snd := by
  rw [← h.rcv.done] at hgo
  refine ⟨{ s with rcv }, ?_, ⟨h.snd, hrel, h.acked⟩, rfl⟩
  simp only [system_step, he, Option.isSome_none, Bool.false_eq_true, if_false, hplain hgo]

/-- What the code does with a corrupted header depends on its window. -/
def Uncorrupted : Protocol.Action → Prop
  | .corrupted _ => False
  | _ => True

instance (b : Protocol.Action) : Decidable (Uncorrupted b) :=
  match b with
  | .corrupted _ => .isFalse id
  | .fill | .final | .respond _ _ | .deliver _ | .truncated _ | .flush | .ack => .isTrue trivial

theorem receiver_step_of_protocol {s : System} {t t' : Protocol.State} (h : SystemRel crc32 file s t)
    {b : Protocol.Action} (hb : Uncorrupted b) (hrcv : b.snd = none)
    (ht : Protocol.step (chunkCount file) t b = some t') :
    ∃ e s', Matches crc32 file e b ∧ system_step crc32 file s e = some s' ∧ SystemRel crc32 file s' t' ∧
      s'.snd = s.snd := by
  cases b with
  | fill | final | respond => contradiction
  | deliver x =>
    simp only [Protocol.step] at ht
    split at ht
    swap
    · contradiction
    rename_i hx
    obtain ⟨rcv', hrcv, rfl⟩ := Option.map_eq_some_iff.mp ht
    obtain ⟨hgo, hrcv⟩ := Option.ite_none_left_eq_some.mp hrcv
    obtain rfl := Option.some.inj hrcv
    obtain ⟨segment, hmem, hc⟩ := h.snd.sent.segment x hx
    obtain ⟨pkt, hpkt, hd⟩ := hc.2
    have hrel := receive_data_whole h.rcv hpkt
    rw [← hd] at hrel
    obtain ⟨s', hs', hrel', hsnd⟩ := receiver_event_of_protocol h (e := .data segment) rfl
      (fun hgo => by simp only [receiver_event, hgo, hmem, if_true, if_false, Bool.false_eq_true]) hgo hrel
    exact ⟨_, s', .data hc, hs', hrel', hsnd⟩
  | truncated x =>
    simp only [Protocol.step] at ht
    split at ht
    swap
    · contradiction
    rename_i hx
    obtain ⟨rcv', hrcv, rfl⟩ := Option.map_eq_some_iff.mp ht
    obtain ⟨hgo, hrcv⟩ := Option.ite_none_left_eq_some.mp hrcv
    obtain rfl := Option.some.inj hrcv
    obtain ⟨segment, hmem, hc⟩ := h.snd.sent.segment x hx.1
    obtain ⟨pkt, hpkt, hd⟩ := hc.2
    have hrel := receive_data_cut h.rcv hpkt
    rw [← hd, if_pos hx.2] at hrel
    obtain ⟨s', hs', hrel', hsnd⟩ := receiver_event_of_protocol h (e := .truncated segment) rfl
      (fun hgo => by simp only [receiver_event, hgo, hmem, if_true, if_false, Bool.false_eq_true]) hgo hrel
    exact ⟨_, s', .truncated hc, hs', hrel', hsnd⟩
  | corrupted seqnum => exact absurd hb id
  | flush =>
    obtain ⟨rcv', hrcv, rfl⟩ := Option.map_eq_some_iff.mp ht
    obtain ⟨hgo, hrcv⟩ := Option.ite_none_left_eq_some.mp hrcv
    obtain rfl := Option.some.inj hrcv
    have hrel := flush_turn_rel h.rcv
    obtain ⟨s', hs', hrel', hsnd⟩ := receiver_event_of_protocol h (e := .flush) rfl
      (fun hgo => by simp only [receiver_event, hgo, if_false, Bool.false_eq_true]) hgo hrel
    exact ⟨_, s', .flush, hs', hrel', hsnd⟩
  | ack =>
    obtain ⟨rcv', hrcv, rfl⟩ := Option.map_eq_some_iff.mp ht
    obtain ⟨hgo, hrcv⟩ := Option.ite_none_left_eq_some.mp hrcv
    obtain rfl := Option.some.inj hrcv
    have hrel := (send_ack_rel h.rcv s.rcv.lastTimestamp).resent false
    obtain ⟨s', hs', hrel', hsnd⟩ := receiver_event_of_protocol h (e := .ack) rfl
      (fun hgo => by simp only [receiver_event, hgo, if_false, Bool.false_eq_true]) hgo hrel
    exact ⟨_, s', .ack, hs', hrel', hsnd⟩

theorem system_step_of_protocol {s : System} {t t' : Protocol.State} (h : SystemRel crc32 file s t)
    (hnews : s.snd.stopped ≠ some .noNews) {b : Protocol.Action} (hb : Uncorrupted b)
    (ht : Protocol.step (chunkCount file) t b = some t') :
    ∃ e s', Matches crc32 file e b ∧ system_step crc32 file s e = some s' ∧ SystemRel crc32 file s' t' ∧
      s'.snd.stopped ≠ some .noNews := by
  cases b with
  | fill =>
    obtain ⟨snd', hsnd, rfl⟩ := Option.map_eq_some_iff.mp ht
    obtain ⟨s', hs', hrel⟩ := sender_event_of_protocol h hnews (e := .fill (fun _ => 0) false) rfl rfl rfl hsnd
    exact ⟨_, s', .fill _ _, hs', hrel⟩
  | final =>
    obtain ⟨snd', hsnd, rfl⟩ := Option.map_eq_some_iff.mp ht
    obtain ⟨s', hs', hrel⟩ := sender_event_of_protocol h hnews (e := .final 0) rfl rfl rfl hsnd
    exact ⟨_, s', .final _, hs', hrel⟩
  | respond q stale =>
    simp only [Protocol.step] at ht
    split at ht
    swap
    · contradiction
    rename_i hq
    obtain ⟨snd', hsnd, rfl⟩ := Option.map_eq_some_iff.mp ht
    obtain ⟨response, hmem, hc⟩ := h.rcv.replies.response q hq
    obtain ⟨snd, hstep, hrel, hnews'⟩ :=
      sender_step_of_protocol h.snd hnews (hc.toProtocol s.snd 0 (stalePkt stale)) hsnd
    refine ⟨_, { s with snd, acked := if q.ack then q.consumed :: s.acked else s.acked },
      .response hc 0 (stalePkt stale), ?_, ⟨hrel, h.rcv, ?_⟩, hnews'⟩
    · simp only [system_step, Event.snd, Option.isSome_some, if_true, sender_event, hmem, hstep, Option.map_some,
        hc.acked]
    · simp only [h.acked]
  | deliver | truncated | corrupted | flush | ack =>
    obtain ⟨e, s', hm, hs', hrel, hsnd⟩ := receiver_step_of_protocol h hb rfl ht
    exact ⟨e, s', hm, hs', hrel, hsnd ▸ hnews⟩

theorem system_run_of_protocol (crc32 : List UInt8 → UInt32) {ok : System → Event → Prop}
    {ok' : Protocol.State → Protocol.Action → Prop} {t : Protocol.State}
    (hok : ∀ s t e b, SystemRel crc32 file s t → ok' t b → Matches crc32 file e b → ok s e)
    (copybuf buffer : Mem)
    (h : Reach (Protocol.step (chunkCount file)) (fun t b => Uncorrupted b ∧ ok' t b) .initial t) :
    ∃ s, SystemRel crc32 file s t ∧ Reach (system_step crc32 file) ok (.initial copybuf buffer) s := by
  have hstart : SystemRel crc32 file (.initial copybuf buffer) .initial ∧
      (System.initial copybuf buffer).snd.stopped ≠ some .noNews :=
    ⟨systemRel_initial crc32 file copybuf buffer, by simp [System.initial, Sender.initial]⟩
  obtain ⟨s, ⟨hrel, _⟩, hreach⟩ := h.simulation
    (R := fun t s => SystemRel crc32 file s t ∧ s.snd.stopped ≠ some .noNews) hstart (by
      rintro t b t' s ⟨hrel, hnews⟩ ⟨hb, hb'⟩ ht
      obtain ⟨e, s', hm, hs', hrel', hnews'⟩ := system_step_of_protocol hrel hnews hb ht
      exact ⟨s', ⟨hrel', hnews'⟩, .next .start (hok s t e b hrel hb' hm) hs'⟩)
  exact ⟨s, hrel, hreach⟩

end Trtp
