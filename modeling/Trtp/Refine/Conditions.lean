import Trtp.Refine.Sender
import Trtp.Protocol.Delivery
import Trtp.Lib.Transition

/-!
# Conditions and runs, carried over

What is asked of a window of the code is what is asked of the window of the protocol. Runs of the sender carry over
both ways.
-/

open Trtp.Lib

namespace Trtp

open Protocol (Item Shrinks EndsInData DropsData CleanShrink FreshAck Covers KeepsNumbers KeepsCount)

section

variable {α β : Type} [Numbered α] [Numbered β] {R : α → β → Prop} {w : Window α} {v : Window β}

omit [Numbered α] [Numbered β] in
theorem Window.Rel.shrinks (h : Window.Rel R w v) (size : Nat) : Shrinks w size ↔ Shrinks v size := by
  unfold Shrinks
  rw [h.size]

theorem Alike.forall_data (hR : Alike R) {l : List α} {l' : List β} (h : List.Forall₂ R l l') :
    (∀ p ∈ l, isFinal p = false) ↔ ∀ p ∈ l', isFinal p = false := by
  induction h with
  | nil => simp
  | cons hxy _ ih => simp only [List.forall_mem_cons, ih, hR.final hxy]

theorem Alike.getLast?_data (hR : Alike R) {l : List α} {l' : List β} (h : List.Forall₂ R l l') :
    (∃ p, l.getLast? = some p ∧ isFinal p = false) ↔ ∃ p, l'.getLast? = some p ∧ isFinal p = false := by
  induction h with
  | nil => simp
  | cons hxy htl ih =>
    cases htl with
    | nil => simp [hR.final hxy]
    | cons _ _ => simpa using ih

theorem Window.Rel.endsInData (hR : Alike R) (h : Window.Rel R w v) (size : Nat) :
    EndsInData w size ↔ EndsInData v size := by
  unfold EndsInData
  rw [h.shrinks, hR.getLast?_data (List.forall₂_take size h.list)]

theorem Window.Rel.dropsData (hR : Alike R) (h : Window.Rel R w v) (size : Nat) :
    DropsData w size ↔ DropsData v size := by
  unfold DropsData
  rw [h.shrinks, hR.forall_data (List.forall₂_drop size h.list)]

omit [Numbered α] [Numbered β] in
theorem Window.Rel.nil_iff (h : Window.Rel R w v) : w.linkedList = [] ↔ v.linkedList = [] := by
  rw [← List.isEmpty_iff, h.isEmpty, List.isEmpty_iff]

theorem Window.Rel.cleanShrink (hR : Alike R) (h : Window.Rel R w v) (size : Nat) :
    CleanShrink w size ↔ CleanShrink v size := by
  unfold CleanShrink
  rw [h.shrinks, hR.forall_data h.list, ne_eq, h.nil_iff]

theorem Window.Rel.freshAck (hR : Alike R) (h : Window.Rel R w v) (a : UInt8) : FreshAck w a ↔ FreshAck v a := by
  unfold FreshAck
  rw [h.head]
  cases hw : w.linkedList with
  | nil =>
    rw [h.nil_iff.mp hw]
    simp
  | cons x xs =>
    have hlist := h.list
    rw [hw] at hlist
    cases hv : v.linkedList with
    | nil =>
      rw [hv] at hlist
      cases hlist
    | cons y ys =>
      rw [hv] at hlist
      obtain ⟨hxy, _⟩ := List.forall₂_cons.mp hlist
      simp [hR.seqnum hxy]

theorem Window.Rel.borderSafe (hR : Alike R) (h : Window.Rel R w v) (seqnum : UInt8) :
    BorderSafe w seqnum ↔ BorderSafe v seqnum := by
  have hall : ∀ {l : List α} {l' : List β}, List.Forall₂ R l l' →
      ((∀ q ∈ l, (seqnumOf q < v.seqnumHead ↔ seqnum < v.seqnumHead)) ↔
        ∀ q ∈ l', (seqnumOf q < v.seqnumHead ↔ seqnum < v.seqnumHead)) := by
    intro l l' hl
    induction hl with
    | nil => simp
    | cons hxy _ ih => simp only [List.forall_mem_cons, ih, hR.seqnum hxy]
  have hex : ∀ {l : List α} {l' : List β}, List.Forall₂ R l l' →
      ((∃ q ∈ l, seqnum ≤ seqnumOf q) ↔ ∃ q ∈ l', seqnum ≤ seqnumOf q) := by
    intro l l' hl
    induction hl with
    | nil => simp
    | cons hxy _ ih => simp only [List.exists_mem_cons_iff, ih, hR.seqnum hxy]
  unfold BorderSafe
  rw [h.head, h.size, hall h.list, hex h.list]

end

/-! ## Runs of the sender -/

variable {crc32 : List UInt8 → UInt32} {file : List UInt8}

theorem sender_run {ok : Sender → SenderAction → Prop} {ok' : Protocol.Sender → Protocol.SenderAction → Prop}
    {copybuf : Mem} {s : Sender}
    (hok : ∀ s t a b, SenderRel crc32 file s t → ok s a → a.toProtocol crc32 s = some b → ok' t b)
    (h : Reach (sender_step crc32 file) ok (.initial copybuf) s) :
    ∃ t, SenderRel crc32 file s t ∧ Reach (Protocol.Sender.step (chunkCount file)) ok' .initial t := by
  refine h.simulation (senderRel_initial crc32 file copybuf) ?_
  intro s a s' t hrel ha hs
  have hstep := sender_step_rel hrel hs
  cases hb : a.toProtocol crc32 s with
  | none =>
    rw [hb] at hstep
    exact ⟨t, hstep, .start⟩
  | some b =>
    rw [hb] at hstep
    obtain ⟨t', ht, hrel'⟩ := hstep
    exact ⟨t', hrel', .next .start (hok s t a b hrel ha hb) ht⟩

/-- A response with these fields. -/
def responsePkt (ack : Bool) (seqnum : UInt8) (window : Nat) : Pkt :=
  { pkt_new with type := if ack then .ACK else .NACK, window := BitVec.ofNat 5 window, seqnum }

theorem responsePkt_sendable (ack : Bool) (seqnum : UInt8) (window : Nat) :
    Sendable (responsePkt ack seqnum window) := by
  refine ⟨rfl, ?_, ?_, fun _ => rfl⟩
  · cases ack <;> simp [responsePkt]
  · cases ack <;> simp [responsePkt]

/-- A packet with this number, as an empty list leaves it behind. -/
def stalePkt (seqnum : UInt8) : Pkt := { pkt_new with seqnum }

theorem exists_sender_action {n : Nat} {t t' : Protocol.Sender} {b : Protocol.SenderAction} (s : Sender)
    (ht : t.step n b = some t') : ∃ a, SenderAction.toProtocol crc32 s a = some b := by
  cases b with
  | fill => exact ⟨.fill (fun _ => 0) false, rfl⟩
  | final => exact ⟨.final 0, rfl⟩
  | respond ack seqnum size stale =>
    have h31 : size ≤ 31 := by
      unfold Protocol.Sender.step at ht
      split at ht
      · contradiction
      simp only at ht
      split at ht
      · assumption
      · contradiction
    obtain ⟨pkt, hi, hr⟩ := (responsePkt_sendable ack seqnum size).incoming crc32 s
    refine ⟨.response (some (pkt_bytes crc32 (responsePkt ack seqnum size))) 0 (stalePkt stale), ?_⟩
    have hack : decide (pkt_get_type pkt = .ACK) = ack := by
      rw [pkt_get_type, hr.type]
      cases ack <;> rfl
    have hseq : pkt_get_seqnum pkt = seqnum := hr.seqnum
    have hwin : (pkt_get_window pkt).toNat = size := by
      rw [pkt_get_window_toNat, hr.window, responsePkt, BitVec.toNat_ofNat]
      omega
    simp only [SenderAction.toProtocol, hi, Option.map_some, hack, hseq, hwin]
    rfl

theorem sender_run_of_protocol {ok : Sender → SenderAction → Prop}
    {ok' : Protocol.Sender → Protocol.SenderAction → Prop} {t : Protocol.Sender}
    (hok : ∀ s t a b, SenderRel crc32 file s t → ok' t b → a.toProtocol crc32 s = some b → ok s a)
    (copybuf : Mem) (h : Reach (Protocol.Sender.step (chunkCount file)) ok' .initial t) :
    ∃ s, SenderRel crc32 file s t ∧ Reach (sender_step crc32 file) ok (.initial copybuf) s := by
  have hstart : SenderRel crc32 file (.initial copybuf) .initial ∧ (Sender.initial copybuf).stopped ≠ some .noNews :=
    ⟨senderRel_initial crc32 file copybuf, by simp [Sender.initial]⟩
  obtain ⟨s, ⟨hrel, _⟩, hreach⟩ := h.simulation
    (R := fun t s => SenderRel crc32 file s t ∧ s.stopped ≠ some .noNews) hstart (by
      rintro t b t' s ⟨hrel, hnews⟩ hb ht
      obtain ⟨a, ha⟩ := exists_sender_action s ht
      obtain ⟨s', hs', hrel', hnews'⟩ := sender_step_of_protocol hrel hnews ha ht
      exact ⟨s', ⟨hrel', hnews'⟩, .next .start (hok s t a b hrel hb ha) hs'⟩)
  exact ⟨s, hrel, hreach⟩

/-! ## What is asked of a response -/

variable (crc32) in
/-- The window is ready for the size that a response brings. -/
def Sized (P : Window Node → Nat → Prop) (s : Sender) : SenderAction → Prop
  | .response bytes_read _ _ => ∀ pkt ∈ incoming crc32 s bytes_read, P s.window (pkt_get_window pkt).toNat
  | _ => True

theorem Sized.mono {P P' : Window Node → Nat → Prop} (hP : ∀ w size, P w size → P' w size) {s : Sender}
    {a : SenderAction} (h : Sized crc32 P s a) : Sized crc32 P' s a := by
  cases a with
  | response bytes_read time stale => exact fun pkt hi => hP _ _ (h pkt hi)
  | fill | final | resend => trivial

/-- The same, of a response of the protocol. -/
def SizedItem (Q : Window Item → Nat → Prop) (t : Protocol.Sender) : Protocol.SenderAction → Prop
  | .respond _ _ size _ => Q t.window size
  | _ => True

theorem sized_iff {P : Window Node → Nat → Prop} {Q : Window Item → Nat → Prop}
    (hPQ : ∀ {w v}, Window.Rel (NodeCarries file) w v → ∀ size, P w size ↔ Q v size)
    {s : Sender} {t : Protocol.Sender} (h : SenderRel crc32 file s t) {a : SenderAction} {b : Protocol.SenderAction}
    (hab : a.toProtocol crc32 s = some b) : Sized crc32 P s a ↔ SizedItem Q t b := by
  cases a with
  | fill time fec_enable =>
    obtain rfl := Option.some.inj hab
    exact Iff.rfl
  | final time =>
    obtain rfl := Option.some.inj hab
    exact Iff.rfl
  | resend time => contradiction
  | response bytes_read time stale =>
    obtain ⟨pkt, hi, rfl⟩ := Option.map_eq_some_iff.mp hab
    simp only [Sized, SizedItem, hi, Option.mem_def, Option.some.injEq, forall_eq']
    exact hPQ h.window _

end Trtp
