import Trtp.Network.Transfer

/-!
# What an `ACK` promises

An `ACK` removes only what the receiver has consumed, and what it has acknowledged does not come back.
-/

open Trtp.Lib

namespace Trtp

open Protocol (Item Reply CleanShrink FreshAck Shrinks Covers AckSafe KeepSafe TransferSafe DeliverSafe Sound Forward
  Numbering Delivered EmptyFile Waiting)

variable (crc32 : List UInt8 → UInt32)

/-! ## What is asked of the responses -/

/-- A response comes before the receiver has consumed 128 packets more. -/
def Recent (s : System) : Event → Prop
  | .response response _ _ => s.rcv.consumed < response.consumed + 128
  | _ => True

/-- What holds of the sender when it gets an `ACK`, and of how many packets were consumed then. -/
def OnAck (P : Sender → Pkt → Nat → Prop) (s : System) : Event → Prop
  | .response response _ _ => ∀ pkt ∈ incoming crc32 s.snd (some response.datagram), pkt_get_type pkt = .ACK →
    P s.snd pkt response.consumed
  | _ => True

/-- The `ACK` has the number `seqnumHead` only if the first packet has it. -/
def Fresh : System → Event → Prop := OnAck crc32 fun snd pkt _ => FreshAck snd.window (pkt_get_seqnum pkt)

/-- The `ACK` does not go past the packets that are left once the window is smaller. -/
def Covered : System → Event → Prop := OnAck crc32 fun snd pkt a =>
  a ≤ chunkIndex snd.global_pkt + (if snd.lastPkt then 1 else 0) ∧
    (Shrinks snd.window (pkt_get_window pkt).toNat →
      ∀ node ∈ snd.window.linkedList.drop (pkt_get_window pkt).toNat, a ≤ node.index)

variable {crc32} {file : List UInt8}

theorem onAck_iff {P : Sender → Pkt → Nat → Prop} {Q : Reply → Prop} {s : System}
    (hPQ : ∀ pkt q, pkt_get_seqnum pkt = q.seqnum → (pkt_get_window pkt).toNat = q.window →
      (P s.snd pkt q.consumed ↔ Q q)) {e : Event} {b : Protocol.Action} (hm : Matches crc32 file e b) :
    OnAck crc32 P s e ↔ ∀ q stale, b = .respond q stale → q.ack = true → Q q := by
  cases hm with
  | @response response q hc time stale =>
    obtain ⟨pkt, hi, hack, hseq, hwin⟩ := hc.incoming s.snd
    simp only [OnAck, hi, Option.mem_def, Option.some.injEq, forall_eq', hc.1, hPQ pkt q hseq hwin,
      Protocol.Action.respond.injEq]
    constructor
    · rintro hP _ _ ⟨rfl, _⟩
      exact fun h => hP (of_decide_eq_true (hack.trans h))
    · intro hQ h
      exact hQ q _ ⟨rfl, rfl⟩ (by rw [← hack]; exact decide_eq_true h)
  | fill | final | data | truncated | corrupted | flush | ack => simp [OnAck]

theorem recent_iff {s : System} {t : Protocol.State} (h : SystemRel crc32 file s t) {e : Event} {b : Protocol.Action}
    (hm : Matches crc32 file e b) :
    Recent s e ↔ ∀ q stale, b = .respond q stale → t.rcv.consumed < q.consumed + 128 := by
  cases hm with
  | @response response q hc time stale =>
    simp only [Recent, hc.1, h.rcv.consumed, Protocol.Action.respond.injEq]
    constructor
    · rintro hr _ _ ⟨rfl, _⟩
      exact hr
    · intro hr
      exact hr q _ ⟨rfl, rfl⟩
  | fill | final | data | truncated | corrupted | flush | ack => simp [Recent]

/-! ## What `ack_window` takes off the list -/

theorem update_window_window (s : Sender) (copybuf : Mem) (lastRst : Nat) (newSize : UInt8) (stale : Pkt) :
    (update_window { s with copybuf, lastRst } newSize stale).2.window = (update_window s newSize stale).2.window := by
  unfold update_window
  split_ifs <;> rfl

theorem handle_response_suffix (s : Sender) {bytes_read : Option (List UInt8)} {pkt : Pkt}
    (hi : incoming crc32 s bytes_read = some pkt) (time : UInt32) (stale : Pkt) :
    (handle_response crc32 s bytes_read time stale).window.linkedList <:+
      (update_window s (pkt_get_window pkt) stale).2.window.linkedList := by
  obtain ⟨fec, stats, _, _, _, _, heq⟩ :=
    handle_packet_eq { s with copybuf := readInto bytes_read s.copybuf, lastRst := 0 } pkt time stale rfl
  rw [handle_response_some hi, heq, ← update_window_window s (readInto bytes_read s.copybuf) 0]
  simp only [handled_window]
  split
  · exact acked_window_suffix _ _
  · exact List.suffix_rfl

/-! ## Only what is consumed -/

variable (crc32) in
/-- A response that is recent, does not shrink the window of an empty list or of one with the final packet, and whose
`ACK` is fresh. -/
def SoundAck (s : System) (e : Event) : Prop := Recent s e ∧ Fits crc32 CleanShrink s e ∧ Fresh crc32 s e

theorem soundAck_iff {s : System} {t : Protocol.State} (h : SystemRel crc32 file s t) {e : Event} {b : Protocol.Action}
    (hm : Matches crc32 file e b) : SoundAck crc32 s e ↔ AckSafe t b := by
  have hfresh : Fresh crc32 s e ↔
      ∀ q stale, b = .respond q stale → q.ack = true → FreshAck t.snd.window q.seqnum := by
    refine onAck_iff (fun pkt q hseq _ => ?_) hm
    rw [hseq, h.snd.window.freshAck (nodeCarries_alike file)]
  rw [SoundAck, recent_iff h hm, fits_iff (fun h => h.cleanShrink (nodeCarries_alike file)) h hm, hfresh]
  cases b with
  | respond q stale =>
    simp only [AckSafe, Protocol.Action.respond.injEq, and_imp, forall_eq', forall_apply_eq_imp_iff]
  | fill | final | deliver | truncated | corrupted | flush | ack => simp [AckSafe]

/-- The packets that a response of the protocol takes off the list are consumed. -/
def RemovesConsumed (n : Nat) (t : Protocol.State) (q : Reply) (stale : UInt8) : Prop :=
  ∀ snd, t.snd.step n (.respond q.ack q.seqnum q.window stale) = some snd →
    ∀ pre, (t.snd.update q.window stale).window.linkedList = pre ++ snd.window.linkedList →
      ∀ x ∈ pre, seqnumOf x = serial x.index ∧ x.index < t.rcv.consumed

theorem response_removes {s s' : System} {t : Protocol.State} (h : SystemRel crc32 file s t) {response : Response}
    {time : UInt32} {stale pkt : Pkt} (hi : incoming crc32 s.snd (some response.datagram) = some pkt)
    (hs : system_step crc32 file s (.response response time stale) = some s')
    (hsound : ∀ q ∈ t.rcv.replies, ResponseCarries crc32 response q →
      RemovesConsumed (chunkCount file) t q (pkt_get_seqnum stale)) :
    ∃ acked, (update_window s.snd (pkt_get_window pkt) stale).2.window.linkedList =
        acked ++ s'.snd.window.linkedList ∧
      ∀ node ∈ acked, pkt_get_seqnum node.pkt = serial node.index ∧ node.index < s.rcv.consumed := by
  rw [system_step, if_pos (by rfl)] at hs
  simp only [sender_event] at hs
  split at hs
  swap
  · contradiction
  rename_i hmem
  obtain ⟨snd, hsnd, rfl⟩ := Option.map_eq_some_iff.mp hs
  obtain ⟨q, hq, hc⟩ := h.rcv.replies.reply response hmem
  obtain ⟨pkt', hi', hack, hseq, hwin⟩ := hc.incoming s.snd
  obtain rfl := Option.some.inj (hi.symm.trans hi')
  have hstep := sender_step_rel h.snd hsnd
  rw [hc.toProtocol] at hstep
  obtain ⟨snd', ht, hrel⟩ := hstep
  have hu := update_window_rel h.snd.toSenderCarries (pkt_get_window pkt) stale
  rw [hwin] at hu
  have hsuffix := handle_response_suffix s.snd hi time stale
  have hcode : snd = handle_response crc32 s.snd (some response.datagram) time stale := by
    simp only [sender_step, response_step, Option.ite_none_right_eq_some, Option.some.injEq] at hsnd
    exact hsnd.2.symm
  rw [← hcode] at hsuffix
  have hsuffix' : snd'.window.linkedList <:+ (t.snd.update q.window (pkt_get_seqnum stale)).window.linkedList := by
    obtain ⟨_, _, rfl⟩ := Protocol.respond_cases ht
    unfold Protocol.Sender.respond
    split
    · exact (Protocol.Sender.ack_keeps _ _).suffix
    · exact List.suffix_rfl
  obtain ⟨acked, pre, hacked, hpre, hrest⟩ := forall₂_of_suffix hu.window.list hrel.window.list hsuffix hsuffix'
  refine ⟨acked, hacked, fun node hnode => ?_⟩
  obtain ⟨x, hx, hcarry⟩ := exists_of_forall₂ hrest hnode
  obtain ⟨hxseq, hxlt⟩ := hsound q hq hc snd' ht pre hpre x hx
  rw [h.rcv.consumed, hcarry.index]
  exact ⟨hcarry.pkt.seqnum.trans hxseq, hxlt⟩

theorem run_sound {t : Protocol.State} {n : Nat} (hn : 1 ≤ n) (h : Reach (Protocol.step n) AckSafe .initial t) :
    Sound n t :=
  h.invariant (Protocol.sound_initial n) fun _ _ _ => Protocol.step_sound hn

/-- An `ACK` removes only what the receiver has consumed, and the sender leaves its loop when everything is consumed.
The receiver has then written the file, if the `DATA` packets come in time and in place. -/
theorem ack_sound {copybuf buffer : Mem} {s : System}
    (h : Reach (system_step crc32 file) (SoundAck crc32) (.initial copybuf buffer) s) :
    (∀ response time stale s', SoundAck crc32 s (.response response time stale) →
        system_step crc32 file s (.response response time stale) = some s' →
        ∀ pkt ∈ incoming crc32 s.snd (some response.datagram),
          ∃ acked, (update_window s.snd (pkt_get_window pkt) stale).2.window.linkedList =
              acked ++ s'.snd.window.linkedList ∧
            ∀ node ∈ acked, pkt_get_seqnum node.pkt = serial node.index ∧ node.index < s.rcv.consumed) ∧
      (s.snd.stopped = some .allAcked → chunkCount file < s.rcv.consumed) ∧
      (Reach (system_step crc32 file) (fun s e => SoundAck crc32 s e ∧ Timely s e ∧ InPlace s e)
          (.initial copybuf buffer) s →
        s.snd.stopped = some .allAcked → s.rcv.eof_wrote = true ∧ s.rcv.stdout.flatten = file) := by
  refine ⟨?_, ?_, ?_⟩
  · obtain ⟨t, hrel, hreach⟩ := system_run (fun s t e b hrel hok hm => (soundAck_iff hrel hm).mp hok) h
    intro response time stale s' hok hs pkt hi
    refine response_removes hrel hi hs fun q hq hc snd ht pre hpre x hx => ?_
    have hsafe := (soundAck_iff hrel (.response hc time stale)).mp hok
    rcases Nat.eq_zero_or_pos (chunkCount file) with hn | hn
    · rw [hn] at hreach ht
      rw [(Protocol.run_waiting hreach).1.nothing_removed hq hsafe.2.2 ht hpre] at hx
      contradiction
    · exact (Protocol.respond_sound (run_sound hn hreach) hq hsafe ht).2.2 pre hpre x hx
  · obtain ⟨t, hrel, hreach⟩ := system_run (fun s t e b hrel hok hm => (soundAck_iff hrel hm).mp hok) h
    rw [hrel.snd.stopped, hrel.rcv.consumed]
    intro hstop
    rcases Nat.eq_zero_or_pos (chunkCount file) with hn | hn
    · rw [hn] at hreach
      rw [(Protocol.run_waiting hreach).2.going] at hstop
      contradiction
    · exact (run_sound hn hreach).stopped hstop
  · intro hboth hstop
    obtain ⟨t, hrel, hreach⟩ := system_run (fun s t e b hrel hok hm =>
      show AckSafe t b ∧ TransferSafe t b from ⟨(soundAck_iff hrel hm).mp hok.1, (transferSafe_iff hrel hm).mp
        ⟨hok.2.1, hok.1.2.1.mono fun _ _ => CleanShrink.endsInData, hok.2.2⟩⟩) hboth
    have hack := hreach.mono fun _ _ hok => hok.1
    rw [hrel.snd.stopped] at hstop
    rcases Nat.eq_zero_or_pos (chunkCount file) with hn | hn
    · rw [hn] at hack
      rw [(Protocol.run_waiting hack).2.going] at hstop
      contradiction
    · have hlate := (run_sound hn hack).stopped hstop
      obtain ⟨_, hd⟩ : Numbering (chunkCount file) t.snd ∧ Delivered (chunkCount file) t.rcv :=
        hreach.invariant (P := fun t => Numbering (chunkCount file) t.snd ∧ Delivered (chunkCount file) t.rcv)
          ⟨Protocol.numbering_initial hn, Protocol.delivered_initial _⟩
          fun _ _ _ h hok => Protocol.step_delivered h hok.2
      have hdone : t.rcv.done = true := by
        by_contra hgo
        obtain ⟨hle, _, hcons, _⟩ := hd.going (by simpa using hgo)
        omega
      exact ⟨hrel.rcv.done.trans hdone, flatten_delivered hd hrel.rcv hdone⟩

/-- One byte is transferred, and acknowledged. -/
def shortRun : List Protocol.Action :=
  [.fill, .deliver (.chunk 0), .flush, .ack, .respond ⟨true, 1, 2, 1⟩ 0, .fill, .final, .deliver (.final 1 1), .flush]

theorem ack_sound_one_byte :
    ∃ s, Reach (system_step zlib_crc32 [7]) (SoundAck zlib_crc32) (.initial (fun _ => 0) fun _ => 0) s ∧
      s.snd.stopped = some .allAcked ∧ chunkCount [7] < s.rcv.consumed ∧ s.rcv.stdout.flatten = [7] := by
  generalize zlib_crc32 = crc32
  have hrun : (run (Protocol.step (chunkCount [7])) (fun t b => Uncorrupted b ∧ AckSafe t b ∧ TransferSafe t b)
      (shortRun ++ [.respond ⟨true, 2, 3, 2⟩ 0]) .initial).any (fun t => t.snd.stopped) = true := by decide
  obtain ⟨t, hreach, ht⟩ := reach_of_run hrun
  obtain ⟨s, hrel, hs⟩ := system_run_of_protocol crc32
    (fun s t e b hrel hb hm => show SoundAck crc32 s e ∧ Timely s e ∧ InPlace s e by
      have htransfer := (transferSafe_iff hrel hm).mpr hb.2
      exact ⟨(soundAck_iff hrel hm).mpr hb.1, htransfer.1, htransfer.2.2⟩)
    (fun _ => 0) (fun _ => 0) hreach
  have hstop : s.snd.stopped = some .allAcked := hrel.snd.stopped.mpr ht
  have hsound := hs.mono fun _ _ hok => hok.1
  exact ⟨s, hsound, hstop, (ack_sound hsound).2.1 hstop, ((ack_sound hsound).2.2 hs hstop).2⟩

/-- A response of the protocol that is recent. -/
def RecentItem (t : Protocol.State) : Protocol.Action → Prop
  | .respond q _ => t.rcv.consumed < q.consumed + 128
  | _ => True

instance (t : Protocol.State) (b : Protocol.Action) : Decidable (RecentItem t b) :=
  match b with
  | .respond _ _ => inferInstanceAs (Decidable (_ < _))
  | .fill | .final | .deliver _ | .truncated _ | .corrupted _ | .flush | .ack => .isTrue trivial

theorem recentItem_iff {s : System} {t : Protocol.State} (h : SystemRel crc32 file s t) {e : Event}
    {b : Protocol.Action} (hm : Matches crc32 file e b) : Recent s e ↔ RecentItem t b := by
  rw [recent_iff h hm]
  cases b with
  | respond q stale =>
    simp only [RecentItem, Protocol.Action.respond.injEq, and_imp, forall_eq', forall_apply_eq_imp_iff]
  | fill | final | deliver | truncated | corrupted | flush | ack => simp [RecentItem]

/-- 41 chunks are acknowledged, and the final packet is sent. An `ACK` for 40 comes again: `seqnumHead` is still 40. -/
def duplicatedAckRun : List Protocol.Action :=
  round 0 1 2 ++ round 1 2 4 ++ round 3 4 8 ++ round 7 8 16 ++ round 15 16 31 ++ round 31 9 31 ++ arrivals 40 1 ++
  [.ack, .respond ⟨true, serial 41, 31, 41⟩ 0, .final, .respond ⟨true, serial 40, 31, 40⟩ 0]

theorem duplicatedAckRun_stops :
    (run (Protocol.step 41) (fun t b => Uncorrupted b ∧ RecentItem t b) duplicatedAckRun .initial).any
      (fun t => t.snd.stopped && decide (t.rcv.consumed = 41)) = true := by
  decide +kernel

/-- The final packet is not consumed when the sender takes everything for acknowledged. -/
theorem final_acked_unread :
    ∃ s, Reach (system_step zlib_crc32 (markedFile 40)) Recent (.initial (fun _ => 0) fun _ => 0) s ∧
      s.snd.stopped = some .allAcked ∧ ¬ chunkCount (markedFile 40) < s.rcv.consumed := by
  generalize zlib_crc32 = crc32
  have hcount : chunkCount (markedFile 40) = 41 := markedFile_count 40
  have hrun := duplicatedAckRun_stops
  rw [← hcount] at hrun
  obtain ⟨t, hreach, ht⟩ := reach_of_run hrun
  obtain ⟨s, hrel, hs⟩ := system_run_of_protocol crc32
    (fun s t e b hrel hb hm => (recentItem_iff hrel hm).mpr hb) (fun _ => 0) (fun _ => 0) hreach
  rw [Bool.and_eq_true, decide_eq_true_eq] at ht
  refine ⟨s, hs, hrel.snd.stopped.mpr ht.1, ?_⟩
  rw [hrel.rcv.consumed]
  omega

/-! ## Nothing comes back -/

/-- What an `ACK` has acknowledged is not in the list, and is not read again. At the last `ACK` the sender ends. -/
structure NoRegression (file : List UInt8) (s : System) : Prop where
  list : ∀ a ∈ s.acked, ∀ node ∈ s.snd.window.linkedList, a ≤ node.index
  count : ∀ a ∈ s.acked, min a (chunkCount file) ≤ chunkIndex s.snd.global_pkt
  last : ∀ a ∈ s.acked, chunkCount file < a →
    s.snd.window.linkedList = [] ∧ s.snd.lastPkt = true ∧ s.snd.stopped = some .allAcked

theorem covers_iff {s : Sender} {t : Protocol.Sender} (h : SenderRel crc32 file s t) (size a : Nat) :
    (a ≤ chunkIndex s.global_pkt + (if s.lastPkt then 1 else 0) ∧
      (Shrinks s.window size → ∀ node ∈ s.window.linkedList.drop size, a ≤ node.index)) ↔ Covers t size a := by
  have hdrop := List.forall₂_drop size h.window.list
  have hall : (∀ node ∈ s.window.linkedList.drop size, a ≤ node.index) ↔
      ∀ x ∈ t.window.linkedList.drop size, a ≤ x.index := by
    constructor
    · intro hn x hx
      obtain ⟨node, hmem, hnode⟩ := exists_of_forall₂ hdrop.flip hx
      exact hnode.index ▸ hn node hmem
    · intro hx node hn
      obtain ⟨x, hmem, hnode⟩ := exists_of_forall₂ hdrop hn
      exact hnode.index ▸ hx x hmem
  unfold Covers
  rw [h.count, h.lastPkt, h.window.shrinks, hall]

theorem keepSafe_iff {s : System} {t : Protocol.State} (h : SystemRel crc32 file s t) {e : Event} {b : Protocol.Action}
    (hm : Matches crc32 file e b) : Fits crc32 CleanShrink s e ∧ Covered crc32 s e ↔ KeepSafe t b := by
  have hcovered : Covered crc32 s e ↔
      ∀ q stale, b = .respond q stale → q.ack = true → Covers t.snd q.window q.consumed := by
    refine onAck_iff (fun pkt q _ hwin => ?_) hm
    rw [hwin, covers_iff h.snd]
  rw [fits_iff (fun h => h.cleanShrink (nodeCarries_alike file)) h hm, hcovered]
  cases b with
  | respond q stale =>
    simp only [KeepSafe, Protocol.Action.respond.injEq, and_imp, forall_eq', forall_apply_eq_imp_iff]
  | fill | final | deliver | truncated | corrupted | flush | ack => simp [KeepSafe]

/-- What is acknowledged does not come back, as long as no shrink finds the list empty or the final packet in it, and no
`ACK` goes past the packets that are left. -/
theorem ack_forward {copybuf buffer : Mem} {s : System}
    (h : Reach (system_step crc32 file) (fun s e => Fits crc32 CleanShrink s e ∧ Covered crc32 s e)
      (.initial copybuf buffer) s) : NoRegression file s := by
  obtain ⟨t, hrel, hreach⟩ := system_run (fun s t e b hrel hok hm => (keepSafe_iff hrel hm).mp hok) h
  rcases Nat.eq_zero_or_pos (chunkCount file) with hn | hn
  · rw [hn] at hreach
    have hempty : EmptyFile t := by
      refine hreach.invariant Protocol.emptyFile_initial fun t b t' he hok hs => Protocol.step_emptyFile he ?_ hs
      rintro q stale rfl
      exact he.not_shrinks hok.1.endsInData
    have hzero : ∀ a ∈ s.acked, a = 0 := by
      rw [hrel.acked]
      exact hempty.acked
    refine ⟨?_, ?_, ?_⟩
    · intro a ha node _
      rw [hzero a ha]
      exact Nat.zero_le _
    · intro a ha
      rw [hzero a ha, Nat.zero_min]
      exact Nat.zero_le _
    · intro a ha hlt
      rw [hzero a ha] at hlt
      omega
  · have hf : Forward (chunkCount file) t :=
      hreach.invariant (Protocol.forward_initial _) fun _ _ _ => Protocol.step_forward hn
    by_cases hstop : t.snd.stopped = true
    · obtain ⟨hnil, hlast, hcount⟩ := hf.stopped hstop
      have hnil' := hrel.snd.window.nil_iff.mpr hnil
      refine ⟨?_, ?_, ?_⟩
      · intro a _ node hnode
        rw [hnil'] at hnode
        contradiction
      · intro a _
        rw [hrel.snd.count, hcount]
        exact Nat.min_le_right _ _
      · intro a _ _
        exact ⟨hnil', hrel.snd.lastPkt.trans hlast, hrel.snd.stopped.mpr hstop⟩
    · obtain ⟨first, hc, hfirst⟩ := hf.ahead (by simpa using hstop)
      rw [← hrel.acked] at hfirst
      refine ⟨?_, ?_, ?_⟩
      · intro a ha node hnode
        obtain ⟨x, hx, hcarry⟩ := exists_of_forall₂ hrel.snd.window.list hnode
        rw [hcarry.index]
        exact (hfirst a ha).trans (hc.index_ge hx)
      · intro a ha
        have := hfirst a ha
        have := hc.le
        rw [hrel.snd.count, Protocol.chunkIndex_of_le hc.small]
        omega
      · intro a ha hlt
        have := hfirst a ha
        have := hc.le
        have := hc.count
        omega

theorem ack_forward_one_byte :
    ∃ s, Reach (system_step zlib_crc32 [7]) (fun s e => Fits zlib_crc32 CleanShrink s e ∧ Covered zlib_crc32 s e)
        (.initial (fun _ => 0) fun _ => 0) s ∧ s.acked = [2, 1] ∧ NoRegression [7] s := by
  generalize zlib_crc32 = crc32
  have hrun : (run (Protocol.step (chunkCount [7])) (fun t b => Uncorrupted b ∧ KeepSafe t b)
      (shortRun ++ [.respond ⟨true, 2, 3, 2⟩ 0]) .initial).any (fun t => decide (t.acked = [2, 1])) = true := by decide
  obtain ⟨t, hreach, ht⟩ := reach_of_run hrun
  obtain ⟨s, hrel, hs⟩ := system_run_of_protocol crc32
    (fun s t e b hrel hb hm => (keepSafe_iff hrel hm).mpr hb) (fun _ => 0) (fun _ => 0) hreach
  exact ⟨s, hs, hrel.acked.trans (of_decide_eq_true ht), ack_forward hs⟩

/-- Chunks 0 to 10 are consumed. Two truncated packets make the window 3, and the list of the sender holds 7 to 14 when
it gets the `ACK` for 11. -/
def shrunkAckRun : List Protocol.Action :=
  round 0 1 2 ++ round 1 2 4 ++ round 3 4 8 ++ .fill :: arrivals 7 4 ++
  [.truncated (.chunk 11), .truncated (.chunk 12), .ack, .respond ⟨true, serial 11, 3, 11⟩ 0, .fill]

theorem shrunkAckRun_refills :
    (run (Protocol.step 16) (fun t b => Uncorrupted b ∧ RecentItem t b) shrunkAckRun .initial).any
      (fun t => decide (11 ∈ t.acked ∧ Item.chunk 10 ∈ t.snd.window.linkedList)) = true := by
  decide +kernel

/-- Chunk 10 is sent again after the `ACK` for 11. -/
theorem acked_chunk_refilled :
    ∃ s, Reach (system_step zlib_crc32 (markedFile 15)) Recent (.initial (fun _ => 0) fun _ => 0) s ∧
      ¬ NoRegression (markedFile 15) s := by
  generalize zlib_crc32 = crc32
  have hcount : chunkCount (markedFile 15) = 16 := markedFile_count 15
  have hrun := shrunkAckRun_refills
  rw [← hcount] at hrun
  obtain ⟨t, hreach, ht⟩ := reach_of_run hrun
  obtain ⟨s, hrel, hs⟩ := system_run_of_protocol crc32
    (fun s t e b hrel hb hm => (recentItem_iff hrel hm).mpr hb) (fun _ => 0) (fun _ => 0) hreach
  obtain ⟨hacked, hx⟩ := of_decide_eq_true ht
  refine ⟨s, hs, fun hno => ?_⟩
  obtain ⟨node, hnode, hcarry⟩ := exists_of_forall₂ hrel.snd.window.list.flip hx
  have hle := hno.list 11 (hrel.acked ▸ hacked) node hnode
  rw [hcarry.index] at hle
  exact absurd hle (by decide)

end Trtp
