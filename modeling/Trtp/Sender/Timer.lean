import Trtp.Codec.Size
import Trtp.Sender.Loop

/-!
# The retransmission timer

`resent_pkt` on true times: what the 32 bits of the clock say of a packet's age, and what a failed write leaves
behind.
-/

open Trtp.Lib

namespace Trtp

section

/-! The true time of the `i`-th reading, when the `i`-th packet was last sent, and whether its write succeeds. -/

variable (clock sentAt : Nat → Nat) (writes : Nat → Bool)

/-- The true age of the `i`-th packet is over the timeout. -/
def Old (i : Nat) : Prop := clock i - sentAt i > TIMEOUT

instance (i : Nat) : Decidable (Old clock sentAt i) := inferInstanceAs (Decidable (_ > _))

/-- No write of an old packet fails, of those from `first` on and before `last`. -/
def AllWritten (first last : Nat) : Prop := ∀ i, first ≤ i → i < last → Old clock sentAt i → writes i = true

instance (first last : Nat) : Decidable (AllWritten clock sentAt writes first last) :=
  inferInstanceAs (Decidable (∀ i, first ≤ i → i < last → Old clock sentAt i → writes i = true))

/-- The `i`-th packet comes to a write, in a loop that starts at `first`. -/
def Tried (first i : Nat) : Prop := Old clock sentAt i ∧ AllWritten clock sentAt writes first i

instance (first i : Nat) : Decidable (Tried clock sentAt writes first i) := inferInstanceAs (Decidable (_ ∧ _))

/-- Its write succeeds. -/
def Written (first i : Nat) : Prop := Old clock sentAt i ∧ AllWritten clock sentAt writes first (i + 1)

instance (first i : Nat) : Decidable (Written clock sentAt writes first i) := inferInstanceAs (Decidable (_ ∧ _))

/-- The clock and the writes as `resent_pkt` sees them. -/
def timerCalls (i : Nat) : UInt32 × Bool := (UInt32.ofNat (clock i), writes i)

/-- The timestamps are the low 32 bits of the true times, and no age reaches 2^32. -/
structure TrueTimes (list : List Node) : Prop where
  stamp : ∀ i (hi : i < list.length), pkt_get_timestamp list[i].pkt = UInt32.ofNat (sentAt i)
  past : ∀ i < list.length, sentAt i ≤ clock i
  age : ∀ i < list.length, clock i - sentAt i < 2 ^ 32

/-- The node with a new timestamp. -/
def stamped (node : Node) (time : Nat) : Node :=
  { node with pkt := (pkt_set_timestamp node.pkt (UInt32.ofNat time)).2 }

variable (crc32 : List UInt8 → UInt32)

/-- The old packets of a list that starts at `first`, up to the first failing write, as datagrams. -/
def writtenSegments (list : List Node) (first : Nat) : List Segment :=
  (list.zipIdx first).filterMap fun (node, i) =>
    if Written clock sentAt writes first i then
      some ⟨some node.index, pkt_bytes crc32 (stamped node (clock i)).pkt⟩
    else none

/-- What `resent_pkt` should do: write the old packets, and give a new timestamp to those that are written. -/
structure TimerContract (s : Sender) (result : Int × Sender) : Prop where
  retval : result.1 =
    if AllWritten clock sentAt writes 0 s.window.linkedList.length then
      ((writtenSegments clock sentAt writes crc32 s.window.linkedList 0).length : Int)
    else -1
  sent : result.2.sent = s.sent ++ writtenSegments clock sentAt writes crc32 s.window.linkedList 0
  list : result.2.window.linkedList = s.window.linkedList.zipIdx.map fun (node, i) =>
    if Written clock sentAt writes 0 i then stamped node (clock i) else node
  order : List.Forall₂ Retimed s.window.linkedList result.2.window.linkedList

end

section Loop

variable {clock sentAt : Nat → Nat} {writes : Nat → Bool}

/-! ## Ages -/

/-- The 32 bits give the true age. -/
theorem expired_iff_old {node : Node} {i : Nat} (hstamp : pkt_get_timestamp node.pkt = UInt32.ofNat (sentAt i))
    (hpast : sentAt i ≤ clock i) (hage : clock i - sentAt i < 2 ^ 32) :
    Expired node (UInt32.ofNat (clock i)) ↔ Old clock sentAt i := by
  have hdiff : (UInt32.ofNat (clock i) - UInt32.ofNat (sentAt i)).toNat = clock i - sentAt i := by
    rw [UInt32.toNat_sub, UInt32.toNat_ofNat', UInt32.toNat_ofNat']
    omega
  rw [Expired, hstamp, hdiff, Old]

/-- A new timestamp differs from the old one when the packet is old. -/
theorem stamped_ne {node : Node} {i : Nat} (hstamp : pkt_get_timestamp node.pkt = UInt32.ofNat (sentAt i))
    (hage : clock i - sentAt i < 2 ^ 32) (hold : Old clock sentAt i) : stamped node (clock i) ≠ node := by
  intro heq
  have htime : UInt32.ofNat (clock i) = UInt32.ofNat (sentAt i) := by
    rw [← hstamp]
    exact congrArg (fun node : Node => pkt_get_timestamp node.pkt) heq
  have hmod := congrArg UInt32.toNat htime
  rw [UInt32.toNat_ofNat', UInt32.toNat_ofNat'] at hmod
  unfold Old TIMEOUT at hold
  omega

theorem allWritten_of_le {first last : Nat} (h : last ≤ first) : AllWritten clock sentAt writes first last := by
  intro i hfirst hlast
  omega

/-- One more packet in front. -/
theorem allWritten_cons {first last : Nat} (h : first < last) :
    AllWritten clock sentAt writes first last ↔
      (Old clock sentAt first → writes first = true) ∧ AllWritten clock sentAt writes (first + 1) last := by
  constructor
  · intro hall
    exact ⟨hall first (Nat.le_refl _) h, fun i hi => hall i (by omega)⟩
  · rintro ⟨hfirst, hrest⟩ i hi hlt
    rcases Nat.eq_or_lt_of_le hi with rfl | hi
    · exact hfirst
    · exact hrest i hi hlt

theorem tried_cons {first i : Nat} (h : first < i) (hok : Old clock sentAt first → writes first = true) :
    Tried clock sentAt writes first i ↔ Tried clock sentAt writes (first + 1) i := by
  rw [Tried, Tried, allWritten_cons h]
  tauto

theorem written_cons {first i : Nat} (h : first < i) (hok : Old clock sentAt first → writes first = true) :
    Written clock sentAt writes first i ↔ Written clock sentAt writes (first + 1) i := by
  rw [Written, Written, allWritten_cons (Nat.lt_succ_of_lt h)]
  tauto

theorem tried_first {first : Nat} : Tried clock sentAt writes first first ↔ Old clock sentAt first :=
  and_iff_left (allWritten_of_le (Nat.le_refl first))

theorem written_first {first : Nat} :
    Written clock sentAt writes first first ↔ Old clock sentAt first ∧ writes first = true := by
  rw [Written, allWritten_cons (Nat.lt_succ_self first)]
  have hrest : AllWritten clock sentAt writes (first + 1) (first + 1) := allWritten_of_le (Nat.le_refl _)
  tauto

/-! ## The loop -/

variable {crc32 : List UInt8 → UInt32}

/-- What a packet that does not fail leaves to the others. -/
theorem segments_cons {first : Nat} (current : Node) (next : List Node)
    (hok : Old clock sentAt first → writes first = true) :
    writtenSegments clock sentAt writes crc32 (current :: next) first =
      (if Old clock sentAt first then
        [⟨some current.index, pkt_bytes crc32 (stamped current (clock first)).pkt⟩] else []) ++
        writtenSegments clock sentAt writes crc32 next (first + 1) := by
  have hhead : Written clock sentAt writes first first ↔ Old clock sentAt first := by
    rw [written_first]
    exact and_iff_left_of_imp hok
  have hrest : (next.zipIdx (first + 1)).filterMap (fun (node, i) =>
      if Written clock sentAt writes first i then
        some (⟨some node.index, pkt_bytes crc32 (stamped node (clock i)).pkt⟩ : Segment) else none) =
      writtenSegments clock sentAt writes crc32 next (first + 1) := by
    refine List.filterMap_congr fun p hp => ?_
    simp only [written_cons (List.le_snd_of_mem_zipIdx hp) hok]
  rw [writtenSegments, List.zipIdx_cons, List.filterMap_cons, hrest]
  by_cases hold : Old clock sentAt first
  · simp [hhead, hold]
  · simp [hhead, hold]

theorem stamps_cons {first : Nat} (current : Node) (next : List Node)
    (hok : Old clock sentAt first → writes first = true) :
    ((current :: next).zipIdx first).map (fun (node, i) =>
        if Tried clock sentAt writes first i then stamped node (clock i) else node) =
      (if Old clock sentAt first then stamped current (clock first) else current) ::
        (next.zipIdx (first + 1)).map fun (node, i) =>
          if Tried clock sentAt writes (first + 1) i then stamped node (clock i) else node := by
  have hrest : (next.zipIdx (first + 1)).map (fun (node, i) =>
      if Tried clock sentAt writes first i then stamped node (clock i) else node) =
      (next.zipIdx (first + 1)).map fun (node, i) =>
        if Tried clock sentAt writes (first + 1) i then stamped node (clock i) else node := by
    refine List.map_congr_left fun p hp => ?_
    simp only [tried_cons (List.le_snd_of_mem_zipIdx hp) hok]
  rw [List.zipIdx_cons, List.map_cons, hrest]
  simp only [tried_first]

/-- After a write that fails nothing is tried. -/
theorem rest_of_failed {first : Nat} (hold : Old clock sentAt first) (hfail : writes first = false) {i : Nat}
    (h : first < i) : ¬ AllWritten clock sentAt writes first i := by
  rw [allWritten_cons h]
  rintro ⟨hok, -⟩
  rw [hok hold] at hfail
  contradiction

theorem segments_failed {first : Nat} (hold : Old clock sentAt first) (hfail : writes first = false)
    (list : List Node) :
    writtenSegments clock sentAt writes crc32 list first = [] := by
  apply List.filterMap_eq_nil_iff.mpr
  intro p hp
  have hle := List.le_snd_of_mem_zipIdx hp
  simp only [Written, rest_of_failed hold hfail (Nat.lt_succ_of_le hle), and_false, if_false]

theorem stamps_failed {first : Nat} (hold : Old clock sentAt first) (hfail : writes first = false) (current : Node)
    (next : List Node) :
    ((current :: next).zipIdx first).map (fun (node, i) =>
        if Tried clock sentAt writes first i then stamped node (clock i) else node) =
      stamped current (clock first) :: next := by
  have hrest : (next.zipIdx (first + 1)).map (fun (node, i) =>
      if Tried clock sentAt writes first i then stamped node (clock i) else node) =
      (next.zipIdx (first + 1)).map Prod.fst := by
    refine List.map_congr_left fun p hp => ?_
    simp only [Tried, rest_of_failed hold hfail (List.le_snd_of_mem_zipIdx hp), and_false, if_false]
  rw [List.zipIdx_cons, List.map_cons, hrest, List.zipIdx_map_fst]
  simp only [tried_first, hold, if_true]

/-- What the loop does from the `first`-th packet on. -/
theorem resent_loop_timed (list : List Node) (first nbr_resent : Nat) (s : Sender)
    (htrue : ∀ p ∈ list.zipIdx first, pkt_get_timestamp p.1.pkt = UInt32.ofNat (sentAt p.2) ∧ sentAt p.2 ≤ clock p.2 ∧
      clock p.2 - sentAt p.2 < 2 ^ 32)
    (hlen : ∀ node ∈ list, node.pkt.length.toNat ≤ MAX_PAYLOAD_SIZE) :
    (resent_loop crc32 (timerCalls clock writes) list first nbr_resent s).2.1 =
        (list.zipIdx first).map (fun (node, i) =>
          if Tried clock sentAt writes first i then stamped node (clock i) else node) ∧
      (resent_loop crc32 (timerCalls clock writes) list first nbr_resent s).2.2.sent =
        s.sent ++ writtenSegments clock sentAt writes crc32 list first ∧
      (resent_loop crc32 (timerCalls clock writes) list first nbr_resent s).1 =
        if AllWritten clock sentAt writes first (first + list.length) then
          ((nbr_resent + (writtenSegments clock sentAt writes crc32 list first).length : Nat) : Int)
        else -1 := by
  induction list generalizing first nbr_resent s with
  | nil =>
    have hall : AllWritten clock sentAt writes first (first + ([] : List Node).length) :=
      allWritten_of_le (Nat.le_refl _)
    rw [if_pos hall]
    exact ⟨rfl, (List.append_nil _).symm, rfl⟩
  | cons current next ih =>
    obtain ⟨hstamp, hpast, hage⟩ := htrue (current, first) List.mem_cons_self
    have hexp : ((timerCalls clock writes first).1 - pkt_get_timestamp current.pkt).toNat > TIMEOUT ↔
        Old clock sentAt first := expired_iff_old hstamp hpast hage
    have hlast : first + (current :: next).length = first + 1 + next.length := by
      rw [List.length_cons]
      omega
    have hih := fun nbr_resent s => ih (first + 1) nbr_resent s (fun p hp => htrue p (List.mem_cons_of_mem _ hp))
      fun node hnode => hlen node (List.mem_cons_of_mem _ hnode)
    have hall : (Old clock sentAt first → writes first = true) →
        (AllWritten clock sentAt writes first (first + (current :: next).length) ↔
          AllWritten clock sentAt writes (first + 1) (first + 1 + next.length)) := by
      intro hok
      rw [hlast, allWritten_cons (by omega)]
      exact and_iff_right hok
    unfold resent_loop
    by_cases hold : Old clock sentAt first
    swap
    · have hok : Old clock sentAt first → writes first = true := fun h => absurd h hold
      obtain ⟨hlist, hsent, hret⟩ := hih nbr_resent s
      rw [if_neg (fun h => hold (hexp.mp h)), stamps_cons current next hok, segments_cons current next hok, if_neg hold,
        if_neg hold]
      exact ⟨congrArg (current :: ·) hlist, hsent, hret.trans (by simp only [hall hok, List.nil_append])⟩
    rw [if_pos (hexp.mpr hold)]
    have hwrite : (timerCalls clock writes first).2 = writes first := rfl
    have hnode : (pkt_set_timestamp current.pkt (timerCalls clock writes first).1).2 =
        (stamped current (clock first)).pkt := rfl
    rw [hwrite, hnode]
    cases hw : writes first with
    | true =>
      have hok : Old clock sentAt first → writes first = true := fun _ => hw
      have hpkt : (stamped current (clock first)).pkt.length.toNat ≤ MAX_PAYLOAD_SIZE := hlen current List.mem_cons_self
      rw [stamps_cons current next hok, segments_cons current next hok, if_pos hold, if_pos hold]
      simp only [write_pkt_eq crc32 s _ (encode_size_le hpkt), if_true, hall hok]
      refine ⟨congrArg (stamped current (clock first) :: ·) (hih _ _).1, (hih _ _).2.1.trans ?_,
        (hih _ _).2.2.trans ?_⟩
      · rw [List.append_assoc]
      · rw [List.length_append, List.length_singleton]
        simp only [Nat.add_assoc]
    | false =>
      have hnot : ¬ AllWritten clock sentAt writes first (first + (current :: next).length) := by
        apply rest_of_failed hold hw
        rw [List.length_cons]
        omega
      rw [segments_failed hold hw, stamps_failed hold hw, if_neg hnot]
      simp only [Sender.write_pkt, Bool.false_eq_true, if_false, List.append_nil]
      exact ⟨rfl, trivial, trivial⟩

/-! ## `resent_pkt` -/

theorem TrueTimes.zipIdx {list : List Node} (h : TrueTimes clock sentAt list) :
    ∀ p ∈ list.zipIdx 0, pkt_get_timestamp p.1.pkt = UInt32.ofNat (sentAt p.2) ∧ sentAt p.2 ≤ clock p.2 ∧
      clock p.2 - sentAt p.2 < 2 ^ 32 := by
  intro p hp
  obtain ⟨hlt, hget⟩ := List.getElem?_eq_some_iff.mp (List.mem_zipIdx_iff_getElem?.mp hp)
  refine ⟨?_, h.past p.2 hlt, h.age p.2 hlt⟩
  rw [← hget, h.stamp p.2 hlt]

/-- The first old packet whose write fails. -/
theorem exists_first_failed {last : Nat} (h : ¬ AllWritten clock sentAt writes 0 last) :
    ∃ i < last, Tried clock sentAt writes 0 i ∧ ¬ Written clock sentAt writes 0 i := by
  induction last with
  | zero => exact absurd (allWritten_of_le (Nat.le_refl 0)) h
  | succ last ih =>
    by_cases hbefore : AllWritten clock sentAt writes 0 last
    · refine ⟨last, Nat.lt_succ_self last, ⟨?_, hbefore⟩, fun hw => h hw.2⟩
      by_contra hold
      refine h fun i hi hlt hi_old => ?_
      rcases Nat.lt_succ_iff_lt_or_eq.mp hlt with hlt | rfl
      · exact hbefore i hi hlt hi_old
      · exact absurd hi_old hold
    · obtain ⟨i, hlt, hi⟩ := ih hbefore
      exact ⟨i, Nat.lt_succ_of_lt hlt, hi⟩

theorem written_of_allWritten {last i : Nat} (h : AllWritten clock sentAt writes 0 last) (hlt : i < last) :
    Tried clock sentAt writes 0 i ↔ Written clock sentAt writes 0 i := by
  constructor
  · rintro ⟨hold, -⟩
    exact ⟨hold, fun j hj hle => h j hj (by omega)⟩
  · rintro ⟨hold, -⟩
    exact ⟨hold, fun j hj hle => h j hj (by omega)⟩

end Loop

/-- `resent_pkt` keeps to its timer exactly when no write of an old packet fails. -/
theorem resent_pkt_timer_iff (crc32 : List UInt8 → UInt32) (s : Sender) (clock sentAt : Nat → Nat)
    (writes : Nat → Bool) (htrue : TrueTimes clock sentAt s.window.linkedList)
    (hlen : ∀ node ∈ s.window.linkedList, node.pkt.length.toNat ≤ MAX_PAYLOAD_SIZE) :
    TimerContract clock sentAt writes crc32 s (resent_pkt crc32 s (timerCalls clock writes)) ↔
      AllWritten clock sentAt writes 0 s.window.linkedList.length := by
  obtain ⟨hlist, hsent, hret⟩ := resent_loop_timed s.window.linkedList 0 0 s
    htrue.zipIdx hlen
  have horder := (resent_loop_eq crc32 (timerCalls clock writes) s.window.linkedList 0 0 s).1
  rw [Nat.zero_add, Nat.zero_add] at hret
  constructor
  · intro hc
    by_contra hfail
    obtain ⟨i, hi, htried, hnot⟩ := exists_first_failed hfail
    have heq := hlist.symm.trans hc.list
    have hnode := List.getElem_of_eq heq (i := i) (by simpa using hi)
    simp only [List.getElem_map, List.getElem_zipIdx, Nat.zero_add, htried, hnot, if_true, if_false] at hnode
    exact stamped_ne (htrue.stamp i hi) (htrue.age i hi) htried.1 hnode
  · intro hall
    refine ⟨hret, hsent, hlist.trans (List.map_congr_left fun p hp => ?_), horder⟩
    have hlt := (List.getElem?_eq_some_iff.mp (List.mem_zipIdx_iff_getElem?.mp hp)).1
    simp only [written_of_allWritten hall hlt]

/-- Packet 0, sent at time 0, and packet 1, sent at time 1000. -/
def twoSent : Sender :=
  { Sender.initial (fun _ => 0) with
    window := ⟨0, 1, 2, [⟨0, 0, dataPkt 0 [1]⟩, ⟨1, 1, { dataPkt 1 [2] with timestamp := 1000 }⟩]⟩ }

theorem twoSent_times : TrueTimes (fun _ => 2500) (fun i => 1000 * i) twoSent.window.linkedList where
  stamp i hi := by
    match i, hi with
    | 0, _ => rfl
    | 1, _ => rfl
  past i hi := by
    have hlt : i < 2 := hi
    omega
  age _ _ := by omega

/-- Packet 0 has expired and packet 1 has not. -/
theorem resent_pkt_timer_iff_old :
    TimerContract (fun _ => 2500) (fun i => 1000 * i) (fun i => i = 0) zlib_crc32 twoSent
        (resent_pkt zlib_crc32 twoSent (timerCalls (fun _ => 2500) fun i => i = 0)) ∧
      (resent_pkt zlib_crc32 twoSent (timerCalls (fun _ => 2500) fun i => i = 0)).1 = 1 := by
  have hwritten : AllWritten (fun _ => 2500) (fun i => 1000 * i) (fun i => decide (i = 0)) 0
      twoSent.window.linkedList.length := by
    intro i _ hlt hold
    have hage : 2500 - 1000 * i > 2000 := hold
    exact decide_eq_true (by omega)
  exact ⟨(resent_pkt_timer_iff zlib_crc32 twoSent _ _ _ twoSent_times (by decide)).mpr hwritten, by decide⟩

/-- One packet, sent at time 0. -/
def oneSent : Sender :=
  { Sender.initial (fun _ => 0) with window := ⟨0, 0, 1, [⟨0, 0, dataPkt 0 [1]⟩]⟩ }

/-- A write that fails after the timeout leaves the new timestamp. -/
theorem not_timer_failed_write :
    ¬ TimerContract (fun _ => 2001) (fun _ => 0) (fun _ => false) zlib_crc32 oneSent
      (resent_pkt zlib_crc32 oneSent (timerCalls (fun _ => 2001) (fun _ => false))) := by
  intro h
  have htimes := congrArg (List.map fun node : Node => pkt_get_timestamp node.pkt) h.list
  exact absurd htimes (by decide)

end Trtp
