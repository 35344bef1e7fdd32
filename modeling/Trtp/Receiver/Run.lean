import Trtp.Receiver.Loop
import Trtp.Refine.Conditions
import Trtp.Refine.Receiver

/-!
# The receiver on its own

Runs of the receiver on any datagrams. A run on chunks of a file is found with the receiver of the protocol.
-/

open Trtp.Lib

namespace Trtp

open Protocol (Item)

variable {crc32 : List UInt8 → UInt32} {file : List UInt8}

/-! ## Runs on chunks -/

/-- One of `n` chunks arrives, or the list is flushed. -/
def Fed (n : Nat) : Protocol.ReceiverAction → Prop
  | .deliver (.chunk k) => k < n
  | .flush => True
  | _ => False

instance (n : Nat) (b : Protocol.ReceiverAction) : Decidable (Fed n b) :=
  match b with
  | .deliver (.chunk _) => inferInstanceAs (Decidable (_ < _))
  | .flush => .isTrue trivial
  | .deliver (.final _ _) | .nack _ | .ack => .isFalse id

theorem exists_carries {k : Nat} (hk : k < chunkCount file) : ∃ pkt, Carries file pkt (.chunk k) :=
  ⟨_, data_pkt_carries file hk 1 (fun _ => 0) 0⟩

theorem flush_file_rel {r : Receiver} {t : Protocol.Receiver} (h : ReceiverRel crc32 file r t)
    (hgo : t.flush.done = false) : ReceiverRel crc32 file (flush_file r (fullWrites r)).2 t.flush := by
  obtain ⟨_, hrel⟩ := flush_loop_rel h h.window.list (fullWrites r) 0 (fun i pkt hi => by
    simp [fullWrites, hi, pkt_get_length])
  rw [flush_file_eq]
  unfold Protocol.Receiver.flush at hgo ⊢
  rcases hw : flush_loop_window t.window.linkedList t.window with ⟨written, window, eof⟩
  rw [hw] at hrel hgo
  cases eof with
  | false => exact hrel
  | true => contradiction

/-- The actions of the code that realise one of the protocol. -/
inductive Realises (crc32 : List UInt8 → UInt32) (file : List UInt8) (r : Receiver) :
    ReceiverAction → Protocol.ReceiverAction → Prop
  | deliver {pkt : Pkt} {x : Item} (hx : Carries file pkt x) :
    Realises crc32 file r (.receive (some (pkt_bytes crc32 pkt)) true) (.deliver x)
  | flush : Realises crc32 file r (.flush (fullWrites r)) .flush

theorem fed_step {r : Receiver} {t t' : Protocol.Receiver} {b : Protocol.ReceiverAction}
    (h : ReceiverRel crc32 file r t) (hfed : Fed (chunkCount file) b) (hs : t.step b = some t') :
    t.done = false ∧
      ((∃ x pkt, b = .deliver x ∧ Carries file pkt x ∧
          ReceiverRel crc32 file (receive_data crc32 r (some (pkt_bytes crc32 pkt)) true).2 t') ∨
        (b = .flush ∧ t' = t.flush)) := by
  unfold Protocol.Receiver.step at hs
  split at hs
  · contradiction
  rename_i hgo
  refine ⟨by simpa using hgo, ?_⟩
  cases b with
  | deliver x =>
    obtain ⟨pkt, hx⟩ : ∃ pkt, Carries file pkt x := by
      cases x with
      | chunk k => exact exists_carries hfed
      | final => contradiction
    rw [← Option.some.inj hs]
    exact Or.inl ⟨x, pkt, rfl, hx, receive_data_whole h hx⟩
  | flush => exact Or.inr ⟨rfl, (Option.some.inj hs).symm⟩
  | nack | ack => contradiction

theorem receiver_run_of_protocol {ok : Receiver → ReceiverAction → Prop}
    {ok' : Protocol.Receiver → Protocol.ReceiverAction → Prop}
    (hok : ∀ r t a b, ReceiverRel crc32 file r t → ok' t b → Realises crc32 file r a b → ok r a) (buffer : Mem)
    {t : Protocol.Receiver}
    (h : Reach Protocol.Receiver.step (fun t b => Fed (chunkCount file) b ∧ t.flush.done = false ∧ ok' t b) .initial
      t) :
    ∃ r, ReceiverRel crc32 file r t ∧ Reach (receiver_step crc32) ok (.initial buffer) r := by
  refine h.simulation (R := fun t r => ReceiverRel crc32 file r t) (receiverRel_initial crc32 file buffer) ?_
  rintro t b t' r hrel ⟨hfed, hgo, hb⟩ hs
  obtain ⟨_, ⟨x, pkt, rfl, hx, hrel'⟩ | ⟨rfl, rfl⟩⟩ := fed_step hrel hfed hs
  · exact ⟨_, hrel', .next .start (hok r t _ _ hrel hb (.deliver hx)) rfl⟩
  · exact ⟨_, flush_file_rel hrel hgo, .next .start (hok r t _ _ hrel hb .flush) rfl⟩

theorem loop_run_of_protocol {n : Nat} (as : List Protocol.ReceiverAction)
    {ok' : Protocol.Receiver → Protocol.ReceiverAction → Prop} [∀ t b, Decidable (ok' t b)]
    {ok : Receiver → LoopAction → Prop} {p : Protocol.Receiver → Bool}
    (h : (run Protocol.Receiver.step (fun t b => Fed (n + 1) b ∧ ok' t b) as .initial).any p = true)
    (hdeliver : ∀ r t pkt x, ReceiverRel crc32 (markedFile n) r t → ok' t (.deliver x) → Carries (markedFile n) pkt x →
      ok r (.receive (some (pkt_bytes crc32 pkt)) true))
    (hflush : ∀ r t, ReceiverRel crc32 (markedFile n) r t → ok' t .flush → ok r (.flush (fullWrites r) true))
    (buffer : Mem) :
    ∃ r t, ReceiverRel crc32 (markedFile n) r t ∧ p t = true ∧ Reach (loop_step crc32) ok (.initial buffer) r := by
  obtain ⟨t, hreach, ht⟩ := reach_of_run h
  rw [← markedFile_count] at hreach
  obtain ⟨r, hrel, hr⟩ : ∃ r, ReceiverRel crc32 (markedFile n) r t ∧ Reach (loop_step crc32) ok (.initial buffer) r :=
    hreach.simulation (R := fun t r => ReceiverRel crc32 (markedFile n) r t)
      (receiverRel_initial crc32 (markedFile n) buffer) (by
      rintro t b t' r hrel ⟨hfed, hb⟩ hs
      obtain ⟨hgo, ⟨x, pkt, rfl, hx, hrel'⟩ | ⟨rfl, rfl⟩⟩ := fed_step hrel hfed hs
      · refine ⟨_, hrel', .next .start (hdeliver r t pkt x hrel hb hx) ?_⟩
        rw [loop_step, hrel.done, hgo]
        rfl
      · refine ⟨_, flush_turn_rel hrel, .next .start (hflush r t hrel hb) ?_⟩
        rw [loop_step, hrel.done, hgo]
        rfl)
  exact ⟨r, t, hrel, ht, hr⟩

theorem ReceiverRel.seqnums {r : Receiver} {t : Protocol.Receiver} (h : ReceiverRel crc32 file r t) :
    r.window.linkedList.map pkt_get_seqnum = t.window.linkedList.map seqnumOf :=
  List.forall₂_eq_eq_eq ▸
    List.forall₂_map_left_iff.mpr (List.forall₂_map_right_iff.mpr (h.window.list.imp fun _ _ hx => hx.seqnum))

/-! ## The order of the list -/

variable (crc32)

/-- The list of the receiver stays sorted, without duplicates, and the packet that `flush_file` waits for is its
first, as long as no insertion crosses the border and no final packet has others behind it. -/
theorem receiver_ordered {buffer : Mem} {r : Receiver}
    (h : Reach (receiver_step crc32) (OrderSafe crc32) (Receiver.initial buffer) r) :
    Ordered r.window ∧ (r.window.linkedList.map pkt_get_seqnum).Nodup ∧
      ∀ p ∈ r.window.linkedList, pkt_get_seqnum p = r.window.seqnumHead →
        r.window.linkedList.head? = some p := by
  have hinv : SizeOk r.window ∧ Ordered r.window := by
    refine h.invariant (P := fun r => SizeOk r.window ∧ Ordered r.window) ?_ ?_
    · exact ⟨initial_sizeOk, List.Pairwise.nil⟩
    · rintro s a s' ⟨hsize, ho⟩ hok hs
      exact receiver_step_ordered crc32 hsize ho hok hs
  exact ⟨hinv.2, hinv.2.nodup, fun p hp hseq => hinv.2.head_first hp hseq⟩

variable {crc32}

/-- The conditions of the order, on chunks. -/
def OrderSafeItem (t : Protocol.Receiver) : Protocol.ReceiverAction → Prop
  | .deliver x => BorderSafe t.window (seqnumOf x)
  | _ => ∀ x ∈ t.window.linkedList, isFinal x = false

instance (t : Protocol.Receiver) (b : Protocol.ReceiverAction) : Decidable (OrderSafeItem t b) :=
  match b with
  | .deliver _ => inferInstanceAs (Decidable (BorderSafe _ _))
  | .flush | .nack _ | .ack => inferInstanceAs (Decidable (∀ x ∈ t.window.linkedList, _))

theorem flushClean_of_data (wr : Nat → Option Nat) {list : List Pkt} (h : ∀ p ∈ list, isFinal p = false)
    (packet_write : Nat) (head : UInt8) : FlushClean wr list packet_write head := by
  induction list generalizing packet_write head with
  | nil => trivial
  | cons current next ih =>
    intro _
    have hlen : pkt_get_length current ≠ 0 := by simpa [isFinal] using h current List.mem_cons_self
    rw [if_neg hlen]
    exact fun _ => ih (fun p hp => h p (List.mem_cons_of_mem _ hp)) _ _

theorem orderSafe_of_item {r : Receiver} {t : Protocol.Receiver} {a : ReceiverAction} {b : Protocol.ReceiverAction}
    (hrel : ReceiverRel crc32 file r t) (hb : OrderSafeItem t b) (ha : Realises crc32 file r a b) :
    OrderSafe crc32 r a := by
  cases ha with
  | @deliver pkt x hx =>
    intro _
    obtain ⟨_, _, hr⟩ := hx.sendable.received r.buffer
    have hseq : hdrSeqnum (readInto (some (pkt_bytes crc32 pkt)) r.buffer) = seqnumOf x :=
      (accepted_header crc32 _).2.2.2.2.1.symm.trans (hr.seqnum.trans hx.seqnum)
    rw [hseq]
    exact (hrel.window.borderSafe (carries_alike file) _).mpr hb
  | flush =>
    refine flushClean_of_data _ (fun p hp => ?_) _ _
    obtain ⟨x, hx, hcarry⟩ := exists_of_forall₂ hrel.window.list hp
    exact hcarry.final.trans (hb x hx)

theorem receiver_run {n : Nat} (as : List Protocol.ReceiverAction)
    {ok' : Protocol.Receiver → Protocol.ReceiverAction → Prop} [∀ t b, Decidable (ok' t b)]
    {ok : Receiver → ReceiverAction → Prop} {p : Protocol.Receiver → Bool}
    (h : (run Protocol.Receiver.step (fun t b => Fed (n + 1) b ∧ t.flush.done = false ∧ ok' t b) as .initial).any p =
      true)
    (hok : ∀ r t a b, ReceiverRel crc32 (markedFile n) r t → ok' t b → Realises crc32 (markedFile n) r a b → ok r a)
    (buffer : Mem) :
    ∃ r t, ReceiverRel crc32 (markedFile n) r t ∧ p t = true ∧ Reach (receiver_step crc32) ok (.initial buffer) r := by
  obtain ⟨t, hreach, ht⟩ := reach_of_run h
  rw [← markedFile_count] at hreach
  obtain ⟨r, hrel, hr⟩ := receiver_run_of_protocol hok buffer hreach
  exact ⟨r, t, hrel, ht, hr⟩

/-- Chunk 1 comes before chunk 0. -/
theorem receiver_ordered_swapped :
    ∃ r, Reach (receiver_step zlib_crc32) (OrderSafe zlib_crc32) (.initial fun _ => 0) r ∧
      r.window.linkedList.map pkt_get_seqnum = [0, 1] ∧ Ordered r.window := by
  generalize zlib_crc32 = crc32
  obtain ⟨r, t, hrel, ht, hr⟩ := receiver_run (n := 1) [.deliver (.chunk 1), .deliver (.chunk 0)]
    (p := fun t => decide (t.window.linkedList.map seqnumOf = [0, 1])) (by decide)
    (fun _ _ _ _ hrel hb ha => orderSafe_of_item hrel hb ha) fun _ => 0
  exact ⟨r, hr, (hrel.seqnums).trans (of_decide_eq_true ht), (receiver_ordered crc32 hr).1⟩

/-- 224 chunks are written, one by one, with the window at 31 in the end. Then 225, 256 and 224 come. -/
def borderRun : List Protocol.ReceiverAction :=
  (List.range 224).flatMap (fun k => [.deliver (.chunk k), .flush]) ++
    [.deliver (.chunk 225), .deliver (.chunk 256), .deliver (.chunk 224)]

theorem borderRun_list :
    (run Protocol.Receiver.step (fun t b => Fed 257 b ∧ t.flush.done = false ∧ True) borderRun .initial).any
      (fun t => decide (t.window.linkedList.map seqnumOf = [0, 224, 225] ∧ t.window.seqnumHead = 224)) = true := by
  decide +kernel

/-- Packet 256 is in front of the packet that `flush_file` waits for. -/
theorem border_packet_first :
    ∃ r, Reach (receiver_step zlib_crc32) (fun _ _ => True) (.initial fun _ => 0) r ∧ ¬ Ordered r.window ∧
      ∃ p ∈ r.window.linkedList, pkt_get_seqnum p = r.window.seqnumHead ∧
        r.window.linkedList.head? ≠ some p := by
  generalize zlib_crc32 = crc32
  obtain ⟨r, t, hrel, ht, hr⟩ := receiver_run (n := 256) _ borderRun_list
    (fun _ _ _ _ _ _ _ => trivial) fun _ => 0
  obtain ⟨hlist, hhead⟩ := of_decide_eq_true ht
  rw [← hrel.seqnums] at hlist
  rw [← hrel.window.head] at hhead
  obtain ⟨p₀, l₀, hl₀, hp₀, hl₁⟩ := List.map_eq_cons_iff.mp hlist
  obtain ⟨p₁, l₁, rfl, hp₁, _⟩ := List.map_eq_cons_iff.mp hl₁
  have hfirst : r.window.linkedList.head? ≠ some p₁ := by
    rw [hl₀, List.head?_cons, ne_eq, Option.some.injEq]
    rintro rfl
    rw [hp₀] at hp₁
    contradiction
  have hmem : p₁ ∈ r.window.linkedList := by simp [hl₀]
  have hseq : pkt_get_seqnum p₁ = r.window.seqnumHead := hp₁.trans hhead.symm
  exact ⟨r, hr, fun ho => hfirst (ho.head_first hmem hseq), p₁, hmem, hseq, hfirst⟩

end Trtp
