import Trtp.Network
import Trtp.Receiver.Loop
import Trtp.Refine.Receiver

/-!
# What `flush_file` writes

With writes that succeed in full, the packets that follow on from `seqnumHead`. The result of a write is only compared
with -1, and -1 is also the end of the file.
-/

open Trtp.Lib

namespace Trtp

/-- The bytes that the write of a packet is given. -/
def outBytes (pkt : Pkt) : List UInt8 := readBuffer (pkt_get_payload pkt) (pkt_get_length pkt).toNat

/-- How many packets follow on from `head` before a gap or a final packet. -/
def follow (head : UInt8) : List Pkt → Nat
  | [] => 0
  | current :: next =>
    if head = seqnumOf current ∧ pkt_get_length current ≠ 0 then follow (head + 1) next + 1 else 0

theorem follow_cons {head : UInt8} {current : Pkt} {next : List Pkt}
    (hrun : head = seqnumOf current ∧ pkt_get_length current ≠ 0) :
    follow head (current :: next) = follow (head + 1) next + 1 := if_pos hrun

theorem follow_stop {head : UInt8} {current : Pkt} {next : List Pkt}
    (hstop : ¬ (head = seqnumOf current ∧ pkt_get_length current ≠ 0)) : follow head (current :: next) = 0 :=
  if_neg hstop

theorem follow_le (head : UInt8) (list : List Pkt) : follow head list ≤ list.length := by
  induction list generalizing head with
  | nil => exact Nat.le_refl 0
  | cons current next ih =>
    unfold follow
    split
    · exact Nat.succ_le_succ (ih (head + 1))
    · exact Nat.zero_le _

theorem ofNat_succ (head : UInt8) (i : Nat) : head + UInt8.ofNat (i + 1) = head + 1 + UInt8.ofNat i := by
  rw [UInt8.ofNat_add, UInt8.add_comm (UInt8.ofNat i), ← UInt8.add_assoc]
  rfl

/-- `follow` counts the longest run. -/
theorem le_follow_iff {head : UInt8} {list : List Pkt} {k : Nat} :
    k ≤ follow head list ↔ k ≤ list.length ∧
      ∀ i (hi : i < list.length), i < k → seqnumOf list[i] = head + UInt8.ofNat i ∧ pkt_get_length list[i] ≠ 0 := by
  induction list generalizing head k with
  | nil =>
    exact ⟨fun h => ⟨h, fun i hi => absurd hi (Nat.not_lt_zero i)⟩, fun h => h.1⟩
  | cons current next ih =>
    cases k with
    | zero => simp
    | succ k =>
      unfold follow
      constructor
      · intro hle
        split at hle
        swap
        · omega
        rename_i hfirst
        obtain ⟨hlen, hrest⟩ := ih.mp (Nat.le_of_succ_le_succ hle)
        refine ⟨Nat.succ_le_succ hlen, fun i hi hlt => ?_⟩
        cases i with
        | zero => exact ⟨hfirst.1.symm.trans (UInt8.add_zero head).symm, hfirst.2⟩
        | succ i =>
          rw [ofNat_succ]
          exact hrest i (Nat.lt_of_succ_lt_succ hi) (Nat.lt_of_succ_lt_succ hlt)
      · rintro ⟨hlen, hrun⟩
        obtain ⟨hseq, hdata⟩ := hrun 0 (Nat.zero_lt_succ _) (Nat.zero_lt_succ _)
        have hseq0 : head = seqnumOf current := (hseq.trans (UInt8.add_zero head)).symm
        rw [if_pos ⟨hseq0, hdata⟩]
        refine Nat.succ_le_succ (ih.mpr ⟨Nat.le_of_succ_le_succ hlen, fun i hi hlt => ?_⟩)
        rw [← ofNat_succ]
        exact hrun (i + 1) (Nat.succ_lt_succ hi) (Nat.succ_lt_succ hlt)

/-! ## Writes in full -/

/-- The packet after the first `n` ends the file. -/
def EndsAt (head : UInt8) (list : List Pkt) (n : Nat) : Prop :=
  ∃ final ∈ (list.drop n).head?, seqnumOf final = head + UInt8.ofNat n ∧ pkt_get_length final = 0

/-- The `k`-th write of a call is full. -/
def FullWrite (wr : Nat → Option Nat) (k : Nat) (pkt : Pkt) : Prop :=
  ∃ n, wr k = some n ∧ (pkt_get_length pkt).toNat ≤ n

theorem endsAt_succ {head : UInt8} {current : Pkt} {next : List Pkt} {n : Nat} :
    EndsAt head (current :: next) (n + 1) ↔ EndsAt (head + 1) next n := by
  unfold EndsAt
  rw [List.drop_succ_cons, ofNat_succ]

theorem endsAt_zero {head : UInt8} {current : Pkt} {next : List Pkt} :
    EndsAt head (current :: next) 0 ↔ head = seqnumOf current ∧ pkt_get_length current = 0 := by
  unfold EndsAt
  simp [eq_comm]

theorem take_outBytes {pkt : Pkt} {n : Nat} (h : (pkt_get_length pkt).toNat ≤ n) :
    (outBytes pkt).take n = outBytes pkt := by
  rw [List.take_of_length_le]
  rw [outBytes, readBuffer_length]
  exact h

/-- A packet that follows on, and whose write does not fail. -/
theorem flush_loop_cons {wr : Nat → Option Nat} {current : Pkt} {next : List Pkt} {k n : Nat} {r : Receiver}
    (hrun : r.window.seqnumHead = seqnumOf current ∧ pkt_get_length current ≠ 0) (hwr : wr k = some n) :
    flush_loop wr (current :: next) k r =
      flush_loop wr next (k + 1) (flush_one r current next ((outBytes current).take n)) := by
  have hsame : ¬ r.window.seqnumHead ≠ pkt_get_seqnum current := fun hne => hne hrun.1
  rw [flush_loop, if_neg hsame, if_neg hrun.2, hwr]
  rfl

/-- One whose write fails. -/
theorem flush_loop_failed {wr : Nat → Option Nat} {current : Pkt} {next : List Pkt} {k : Nat} {r : Receiver}
    (hrun : r.window.seqnumHead = seqnumOf current ∧ pkt_get_length current ≠ 0) (hwr : wr k = none) :
    flush_loop wr (current :: next) k r = (-1, r) := by
  have hsame : ¬ r.window.seqnumHead ≠ pkt_get_seqnum current := fun hne => hne hrun.1
  rw [flush_loop, if_neg hsame, if_neg hrun.2, hwr]

theorem flush_loop_gap {wr : Nat → Option Nat} {current : Pkt} {next : List Pkt} {k : Nat} {r : Receiver}
    (hgap : r.window.seqnumHead ≠ seqnumOf current) : flush_loop wr (current :: next) k r = ((k : Int), r) :=
  if_pos hgap

/-- The loop with full writes, on the list of the window. -/
theorem flush_loop_full (wr : Nat → Option Nat) {list : List Pkt} (k : Nat) {r : Receiver}
    (hlist : r.window.linkedList = list)
    (hfull : ∀ i (hi : i < list.length), i < follow r.window.seqnumHead list → FullWrite wr (k + i) list[i]) :
    (flush_loop wr list k r).2.stdout =
        r.stdout ++ (list.take (follow r.window.seqnumHead list)).map outBytes ∧
      (flush_loop wr list k r).2.window.linkedList = list.drop (follow r.window.seqnumHead list) ∧
      (EndsAt r.window.seqnumHead list (follow r.window.seqnumHead list) →
        (flush_loop wr list k r).1 = -1 ∧ (flush_loop wr list k r).2.window.seqnumHead =
          r.window.seqnumHead + UInt8.ofNat (follow r.window.seqnumHead list + 1)) ∧
      (¬ EndsAt r.window.seqnumHead list (follow r.window.seqnumHead list) →
        (flush_loop wr list k r).1 = (k + follow r.window.seqnumHead list : Nat) ∧
          (flush_loop wr list k r).2.window.seqnumHead =
            r.window.seqnumHead + UInt8.ofNat (follow r.window.seqnumHead list)) := by
  induction list generalizing k r with
  | nil =>
    refine ⟨by simp [flush_loop], hlist, fun ⟨_, hfinal, _⟩ => by contradiction, fun _ => ⟨rfl, ?_⟩⟩
    exact (UInt8.add_zero _).symm
  | cons current next ih =>
    by_cases hrun : r.window.seqnumHead = seqnumOf current ∧ pkt_get_length current ≠ 0
    · rw [follow_cons hrun] at hfull ⊢
      obtain ⟨n, hwr, hn⟩ := hfull 0 (Nat.zero_lt_succ _) (Nat.zero_lt_succ _)
      rw [Nat.add_zero] at hwr
      have hbytes : (outBytes current).take n = outBytes current := take_outBytes hn
      rw [flush_loop_cons hrun hwr]
      obtain ⟨hout, hrest, hend, hgo⟩ := ih (k + 1) (r := flush_one r current next ((outBytes current).take n)) rfl
        (fun i hi hlt => by
          rw [Nat.add_assoc, Nat.add_comm 1]
          exact hfull (i + 1) (Nat.succ_lt_succ hi) (Nat.succ_lt_succ hlt))
      have hhead : (flush_one r current next ((outBytes current).take n)).window.seqnumHead =
          r.window.seqnumHead + 1 := rfl
      rw [hhead] at hout hrest hend hgo
      rw [endsAt_succ, ofNat_succ r.window.seqnumHead (_ + 1), ofNat_succ r.window.seqnumHead (follow _ _)]
      refine ⟨hout.trans ?_, hrest, hend, fun hnot => ⟨(hgo hnot).1.trans ?_, (hgo hnot).2⟩⟩
      · rw [List.take_succ_cons, List.map_cons, hbytes]
        exact List.append_assoc _ _ _
      · rw [Nat.add_assoc, Nat.add_comm 1]
    · rw [follow_stop hrun, endsAt_zero]
      by_cases hsame : r.window.seqnumHead = seqnumOf current
      · have hzero : pkt_get_length current = 0 := by
          by_contra hdata
          exact hrun ⟨hsame, hdata⟩
        rw [flush_loop, if_neg (fun hne => hne hsame), if_pos hzero]
        exact ⟨(List.append_nil _).symm, hlist, fun _ => ⟨rfl, rfl⟩, fun hnot => absurd ⟨hsame, hzero⟩ hnot⟩
      · rw [flush_loop_gap hsame]
        exact ⟨(List.append_nil _).symm, hlist, fun h => absurd h.1 hsame, fun _ => ⟨rfl, (UInt8.add_zero _).symm⟩⟩

/-! ## On an ordered list -/

/-- The first `k` packets are at the distances below `k` and are not empty. -/
structure Run (window : Window Pkt) (k : Nat) : Prop where
  le : k ≤ window.linkedList.length
  ahead : ∀ i (hi : i < window.linkedList.length), i < k → window.ahead window.linkedList[i] = i
  data : ∀ i (hi : i < window.linkedList.length), i < k → pkt_get_length window.linkedList[i] ≠ 0

/-- In increasing order the `i`-th packet is at least at distance `i`. -/
theorem Ordered.le_ahead {window : Window Pkt} (ho : Ordered window) (i : Nat) (hi : i < window.linkedList.length) :
    i ≤ window.ahead window.linkedList[i] := by
  induction i with
  | zero => exact Nat.zero_le _
  | succ i ih =>
    have hbefore := ih (by omega)
    have hlt := List.pairwise_iff_getElem.mp ho i (i + 1) (by omega) hi (Nat.lt_succ_self i)
    omega

theorem ahead_lt (window : Window Pkt) (pkt : Pkt) : window.ahead pkt < 256 := UInt8.toNat_lt _

theorem ahead_eq_iff {window : Window Pkt} {pkt : Pkt} {i : Nat} (h : i < 256) :
    window.ahead pkt = i ↔ seqnumOf pkt = window.seqnumHead + UInt8.ofNat i := by
  have hi : dist window.seqnumHead (window.seqnumHead + UInt8.ofNat i) = i := by
    rw [dist_add, UInt8.toNat_ofNat', Nat.mod_eq_of_lt h]
  rw [← @dist_inj window.seqnumHead, hi]
  rfl

theorem run_iff_le_follow {window : Window Pkt} (ho : Ordered window) {k : Nat} :
    Run window k ↔ k ≤ follow window.seqnumHead window.linkedList := by
  have hbound : ∀ i (hi : i < window.linkedList.length), i < 256 := fun i hi =>
    Nat.lt_of_le_of_lt (ho.le_ahead i hi) (ahead_lt window _)
  rw [le_follow_iff]
  constructor
  · intro h
    exact ⟨h.le, fun i hi hlt => ⟨(ahead_eq_iff (hbound i hi)).mp (h.ahead i hi hlt), h.data i hi hlt⟩⟩
  · rintro ⟨hle, hrun⟩
    exact ⟨hle, fun i hi hlt => (ahead_eq_iff (hbound i hi)).mpr (hrun i hi hlt).1, fun i hi hlt => (hrun i hi hlt).2⟩

/-- The packet with the number after the run, if it is there, is empty. -/
theorem endsAt_follow {head : UInt8} {list : List Pkt} (hlt : follow head list < list.length)
    (hseq : seqnumOf list[follow head list] = head + UInt8.ofNat (follow head list)) :
    EndsAt head list (follow head list) := by
  refine ⟨list[follow head list], ?_, hseq, ?_⟩
  · rw [Option.mem_def, List.head?_drop, List.getElem?_eq_getElem hlt]
  · by_contra hdata
    have hlonger : follow head list + 1 ≤ follow head list := by
      refine le_follow_iff.mpr ⟨hlt, fun i hi hle => ?_⟩
      rcases Nat.lt_succ_iff_lt_or_eq.mp hle with hbefore | rfl
      · exact (le_follow_iff.mp (Nat.le_refl _)).2 i hi hbefore
      · exact ⟨hseq, hdata⟩
    omega

/-- What stays does not have the number after the run, unless it ends the file. -/
theorem not_waiting {window : Window Pkt} (ho : Ordered window) {n : Nat}
    (hn : n = follow window.seqnumHead window.linkedList)
    (hnot : ¬ EndsAt window.seqnumHead window.linkedList n) :
    ∀ pkt ∈ window.linkedList.drop n, seqnumOf pkt ≠ window.seqnumHead + UInt8.ofNat n := by
  intro pkt hpkt hseq
  obtain ⟨j, hj, rfl⟩ := List.mem_iff_getElem.mp hpkt
  rw [List.getElem_drop] at hseq
  rw [List.length_drop] at hj
  have hlt : n + j < window.linkedList.length := by omega
  have hle := ho.le_ahead (n + j) hlt
  have h256 := ahead_lt window window.linkedList[n + j]
  have hahead := (ahead_eq_iff (by omega)).mpr hseq
  have hj0 : j = 0 := by omega
  subst hj0 hn
  exact hnot (endsAt_follow hlt hseq)

/-- `flush_file` on an ordered list, with writes that succeed in full: the first `n` packets are the longest run. -/
theorem flush_file_run (r : Receiver) (n : Nat) (ho : Ordered r.window) (hrun : Run r.window n)
    (hmax : ∀ k, Run r.window k → k ≤ n) :
    (flush_file r (fullWrites r)).2.stdout = r.stdout ++ (r.window.linkedList.take n).map outBytes ∧
      (flush_file r (fullWrites r)).2.window.linkedList = r.window.linkedList.drop n ∧
      (EndsAt r.window.seqnumHead r.window.linkedList n →
        (flush_file r (fullWrites r)).1 = -1 ∧
          (flush_file r (fullWrites r)).2.window.seqnumHead = r.window.seqnumHead + UInt8.ofNat (n + 1)) ∧
      (¬ EndsAt r.window.seqnumHead r.window.linkedList n →
        (flush_file r (fullWrites r)).1 = n ∧
          (flush_file r (fullWrites r)).2.window.seqnumHead = r.window.seqnumHead + UInt8.ofNat n ∧
          ∀ pkt ∈ (flush_file r (fullWrites r)).2.window.linkedList,
            seqnumOf pkt ≠ (flush_file r (fullWrites r)).2.window.seqnumHead) := by
  have hn : n = follow r.window.seqnumHead r.window.linkedList :=
    Nat.le_antisymm ((run_iff_le_follow ho).mp hrun) (hmax _ ((run_iff_le_follow ho).mpr (Nat.le_refl _)))
  obtain ⟨hout, hrest, hend, hgo⟩ := flush_loop_full (fullWrites r) 0 (r := r) rfl (fun i hi _ => by
    refine ⟨_, ?_, Nat.le_refl _⟩
    rw [fullWrites, Nat.zero_add, List.getElem?_eq_getElem hi]
    rfl)
  rw [← hn] at hout hrest hend hgo
  rw [flush_file_eq]
  refine ⟨hout, hrest, hend, fun hnot => ⟨(hgo hnot).1.trans (by rw [Nat.zero_add]), (hgo hnot).2, ?_⟩⟩
  rw [hrest, (hgo hnot).2]
  exact not_waiting ho hn hnot

/-- Numbers 255, 0 and 2 from 255 on: the first two are written. -/
def gapReceiver : Receiver :=
  { Receiver.initial (fun _ => 0) with
    window := ⟨255, 2, 4, [dataPkt 255 [1, 2], dataPkt 0 [3], dataPkt 2 [4]]⟩ }

theorem flush_file_run_gap : (flush_file gapReceiver (fullWrites gapReceiver)).2.stdout = [[1, 2], [3]] := by
  refine (flush_file_run gapReceiver 2 ?_ ⟨by decide, by decide, by decide⟩ fun k hk => ?_).1
  · unfold Ordered
    decide
  · by_contra hlt
    exact absurd (hk.ahead 2 (by decide) (by omega)) (by decide)

/-! ## Writes that fail, or write less -/

/-- From `r` to `r'` the first `m` packets are gone, all their bytes are out, and the loop has ended only if the
next packet ends the file. -/
structure Flushed (r r' : Receiver) (m : Nat) : Prop where
  le : m ≤ r.window.linkedList.length
  run : ∀ i (hi : i < r.window.linkedList.length), i < m →
    seqnumOf r.window.linkedList[i] = r.window.seqnumHead + UInt8.ofNat i ∧
      pkt_get_length r.window.linkedList[i] ≠ 0
  stdout : r'.stdout = r.stdout ++ (r.window.linkedList.take m).map outBytes
  removed : r'.window.linkedList = r.window.linkedList.drop m
  going : r'.eof_wrote = false → r'.window.seqnumHead = r.window.seqnumHead + UInt8.ofNat m
  ended : r'.eof_wrote = true → EndsAt r.window.seqnumHead r.window.linkedList m ∧
    r'.window.seqnumHead = r.window.seqnumHead + UInt8.ofNat (m + 1)

/-- Errors of the output are not taken for delivery. -/
def OutputContract (r r' : Receiver) : Prop := ∃ m, Flushed r r' m

theorem flush_loop_stdout (wr : Nat → Option Nat) (list : List Pkt) (k : Nat) (r : Receiver) :
    r.stdout <+: (flush_loop wr list k r).2.stdout := by
  induction list generalizing k r with
  | nil => exact List.prefix_rfl
  | cons current next ih =>
    unfold flush_loop
    split
    · exact List.prefix_rfl
    split
    · exact List.prefix_rfl
    split
    · exact List.prefix_rfl
    · exact (List.prefix_append r.stdout _).trans (ih (k + 1) (flush_one r current next _))

/-- A write in the run that is not full shows. -/
theorem flush_loop_bad (wr : Nat → Option Nat) {list : List Pkt} (k : Nat) {r : Receiver}
    (hlist : r.window.linkedList = list) {m : Nat}
    (hout : (flush_loop wr list k r).2.stdout = r.stdout ++ (list.take m).map outBytes)
    (hrest : (flush_loop wr list k r).2.window.linkedList = list.drop m)
    (hend : (flush_loop wr list k r).1 = -1 → EndsAt r.window.seqnumHead list m) :
    ∀ i (hi : i < list.length), i < follow r.window.seqnumHead list → FullWrite wr (k + i) list[i] := by
  induction list generalizing k r m with
  | nil => exact fun i hi => absurd hi (Nat.not_lt_zero i)
  | cons current next ih =>
    by_cases hrun : r.window.seqnumHead = seqnumOf current ∧ pkt_get_length current ≠ 0
    swap
    · rw [follow_stop hrun]
      exact fun i _ hlt => absurd hlt (Nat.not_lt_zero i)
    cases hwr : wr k with
    | none =>
      rw [flush_loop_failed hrun hwr] at hrest hend
      have hm : m = 0 := by
        have hlen := congrArg List.length (hlist.symm.trans hrest)
        rw [List.length_drop, List.length_cons] at hlen
        omega
      rw [hm, endsAt_zero] at hend
      exact absurd (hend rfl).2 hrun.2
    | some n =>
      rw [flush_loop_cons hrun hwr] at hout hrest hend
      have hpre := flush_loop_stdout wr next (k + 1) (flush_one r current next ((outBytes current).take n))
      have hone : (flush_one r current next ((outBytes current).take n)).stdout =
          r.stdout ++ [(outBytes current).take n] := rfl
      rw [hout, hone, List.prefix_append_right_inj] at hpre
      cases m with
      | zero => exact absurd hpre (by simp)
      | succ m =>
        rw [List.take_succ_cons, List.map_cons, List.cons_prefix_cons] at hpre
        have hn : (pkt_get_length current).toNat ≤ n := by
          have hlen := congrArg List.length hpre.1
          rw [List.length_take, outBytes, readBuffer_length] at hlen
          omega
        have hnext := ih (k + 1) (r := flush_one r current next ((outBytes current).take n)) rfl (m := m)
          (by rw [hout, hone, hpre.1, List.append_assoc]; rfl) hrest (fun hret => endsAt_succ.mp (hend hret))
        rw [follow_cons hrun]
        intro i hi hlt
        cases i with
        | zero => exact ⟨n, hwr, hn⟩
        | succ i =>
          have hfull := hnext i (Nat.lt_of_succ_lt_succ hi) (Nat.lt_of_succ_lt_succ hlt)
          rwa [Nat.add_assoc, Nat.add_comm 1] at hfull

theorem flush_loop_eof_wrote (wr : Nat → Option Nat) (list : List Pkt) (k : Nat) (r : Receiver) :
    (flush_loop wr list k r).2.eof_wrote = r.eof_wrote := by
  induction list generalizing k r with
  | nil => rfl
  | cons current next ih =>
    unfold flush_loop
    split
    · rfl
    split
    · rfl
    split
    · rfl
    · exact ih (k + 1) (flush_one r current next _)

/-- What the loop makes of a call of `flush_file`. -/
theorem flush_step_eq {crc32 : List UInt8 → UInt32} {r r' : Receiver} {wr : Nat → Option Nat} {write : Bool}
    (hs : loop_step crc32 r (.flush wr write) = some r') :
    r'.stdout = (flush_loop wr r.window.linkedList 0 r).2.stdout ∧
      r'.window = (flush_loop wr r.window.linkedList 0 r).2.window ∧
      (r'.eof_wrote = true ↔ (flush_loop wr r.window.linkedList 0 r).1 = -1) := by
  have hgo := (loop_step_cases hs).1
  have hstep : r' = flush_turn crc32 r wr write := by
    simpa [loop_step, hgo] using hs.symm
  have heof := flush_loop_eof_wrote wr r.window.linkedList 0 r
  rw [hstep, flush_turn, flush_file_eq]
  by_cases hend : (flush_loop wr r.window.linkedList 0 r).1 = -1
  · obtain ⟨_, _, _, heq⟩ := send_ack_eq crc32
      { (flush_loop wr r.window.linkedList 0 r).2 with eof_wrote := true }
      (flush_loop wr r.window.linkedList 0 r).2.lastTimestamp write
    simp only [hend, if_true, heq, and_self]
  · simp only [hend, if_false, heof, hgo]
    simp

/-- A turn of the loop keeps its output exactly when each packet that follows on is written in full. -/
theorem flush_output_iff {crc32 : List UInt8 → UInt32} {r r' : Receiver} {wr : Nat → Option Nat} {write : Bool}
    (hs : loop_step crc32 r (.flush wr write) = some r') :
    OutputContract r r' ↔
      ∀ i (hi : i < r.window.linkedList.length), i < follow r.window.seqnumHead r.window.linkedList →
        FullWrite wr i r.window.linkedList[i] := by
  obtain ⟨hout, hwindow, heof⟩ := flush_step_eq hs
  constructor
  · rintro ⟨m, hm⟩ i hi hlt
    have hfull := flush_loop_bad wr 0 rfl (hout.symm.trans hm.stdout)
      ((congrArg Window.linkedList hwindow).symm.trans hm.removed) (fun hret => (hm.ended (heof.mpr hret)).1) i hi hlt
    rwa [Nat.zero_add] at hfull
  · intro hfull
    obtain ⟨hstdout, hrest, hend, hgo⟩ := flush_loop_full wr 0 (r := r) rfl (fun i hi hlt => by
      rw [Nat.zero_add]
      exact hfull i hi hlt)
    have hret : (flush_loop wr r.window.linkedList 0 r).1 = -1 ↔
        EndsAt r.window.seqnumHead r.window.linkedList (follow r.window.seqnumHead r.window.linkedList) := by
      constructor
      · intro hret
        by_contra hnot
        have hcount := (hgo hnot).1
        omega
      · exact fun h => (hend h).1
    refine ⟨follow r.window.seqnumHead r.window.linkedList, follow_le _ _,
      (le_follow_iff.mp (Nat.le_refl _)).2, hout.trans hstdout, ?_, fun hf => ?_, fun ht => ?_⟩
    · rw [hwindow, hrest]
    · rw [hwindow]
      exact (hgo fun h => by rw [heof.mpr (hret.mpr h)] at hf; contradiction).2
    · rw [hwindow]
      exact ⟨hret.mp (heof.mp ht), (hend (hret.mp (heof.mp ht))).2⟩

theorem flush_output_iff_gap :
    OutputContract gapReceiver (flush_turn zlib_crc32 gapReceiver (fullWrites gapReceiver) true) := by
  refine (flush_output_iff (show loop_step zlib_crc32 gapReceiver (.flush (fullWrites gapReceiver) true) = some _
    from rfl)).mpr fun i hi _ => ⟨_, ?_, Nat.le_refl _⟩
  rw [fullWrites, List.getElem?_eq_getElem hi]
  rfl

/-- A write that fails ends the loop. -/
theorem not_output_failed_write :
    ¬ OutputContract gapReceiver (flush_turn zlib_crc32 gapReceiver (fun _ => none) true) := by
  rintro ⟨m, hm⟩
  have hs : loop_step zlib_crc32 gapReceiver (.flush (fun _ => none) true) = some _ := rfl
  obtain ⟨final, hfinal, -, hzero⟩ := (hm.ended ((flush_step_eq hs).2.2.mpr rfl)).1
  have hdata : ∀ pkt ∈ gapReceiver.window.linkedList, pkt_get_length pkt ≠ 0 := by decide
  exact hdata final (List.mem_of_mem_drop (List.mem_of_mem_head? hfinal)) hzero

end Trtp
