import Trtp.Window

/-!
# The order of the receiver's list

The list is sorted by how far a packet is ahead of `seqnumHead`. Insertion keeps this where `is_seqnum_greater`
agrees with it, and not at the border of the eight bits.
-/

open Trtp.Lib

namespace Trtp

variable {α : Type} [Numbered α]

/-- How far a packet is ahead of the window. -/
def Window.ahead (window : Window α) (pkt : α) : Nat := dist window.seqnumHead (seqnumOf pkt)

/-- The packets are in strictly increasing distance from `seqnumHead`. -/
def Ordered (window : Window α) : Prop := window.linkedList.Pairwise fun p q => window.ahead p < window.ahead q

/-- `is_seqnum_greater` places the number right among those that are stored: past the border, or with all of them
on its side of the border, or with one at or above it. -/
def BorderSafe (window : Window α) (seqnum : UInt8) : Prop :=
  256 ≤ window.seqnumHead.toNat + window.windowsize ∨
    (∀ q ∈ window.linkedList, (seqnumOf q < window.seqnumHead ↔ seqnum < window.seqnumHead)) ∨
    (window.seqnumHead ≤ seqnum ∧ ∃ q ∈ window.linkedList, seqnum ≤ seqnumOf q)

instance (window : Window α) (seqnum : UInt8) : Decidable (BorderSafe window seqnum) :=
  inferInstanceAs (Decidable (_ ∨ _ ∨ _))

/-- The sizes that a receiver's window can have. -/
def SizeOk (window : Window α) : Prop := 1 ≤ window.windowsize ∧ window.windowsize ≤ 31

/-! ## What the order gives -/

theorem Ordered.nodup {window : Window α} (h : Ordered window) : (window.linkedList.map seqnumOf).Nodup := by
  rw [List.nodup_iff_pairwise_ne, List.pairwise_map]
  refine h.imp fun {p q} hlt heq => ?_
  unfold Window.ahead at hlt
  rw [heq] at hlt
  exact lt_irrefl _ hlt

/-- The packet that `flush_file` waits for is the first of the list. -/
theorem Ordered.head_first {window : Window α} (h : Ordered window) {p : α} (hp : p ∈ window.linkedList)
    (hseq : seqnumOf p = window.seqnumHead) : window.linkedList.head? = some p := by
  have hzero : window.ahead p = 0 := dist_eq_zero.mpr hseq
  unfold Ordered at h
  cases hl : window.linkedList with
  | nil => rw [hl] at hp; contradiction
  | cons x xs =>
    rw [hl] at h hp
    rcases List.mem_cons.mp hp with rfl | hmem
    · rfl
    · have hlt := List.rel_of_pairwise_cons h hmem
      omega

/-! ## Insertion -/

theorem add_loop_perm {window : Window α} {pkt : α} {list list' : List α} {atEnd : Bool}
    (h : add_loop window pkt list = some (list', atEnd)) : list'.Perm (pkt :: list) := by
  induction list generalizing list' atEnd with
  | nil =>
    simp only [add_loop, Option.some.injEq, Prod.mk.injEq] at h
    rw [← h.1]
  | cons x xs ih =>
    unfold add_loop at h
    split at h
    · contradiction
    split at h
    · simp only [Option.some.injEq, Prod.mk.injEq] at h
      rw [← h.1]
    · obtain ⟨⟨ys, e⟩, hys, heq⟩ := Option.map_eq_some_iff.mp h
      simp only [Prod.mk.injEq] at heq
      rw [← heq.1]
      exact ((ih hys).cons x).trans (List.Perm.swap pkt x xs)

section Insert

variable {window : Window α} {pkt : α}

/-- Insertion where the comparison is right for every stored packet. -/
theorem add_loop_sorted {list list' : List α} {atEnd : Bool}
    (hgt : ∀ q ∈ list, seqnumOf pkt ≠ seqnumOf q →
      (is_seqnum_greater (seqnumOf q) (seqnumOf pkt) window = true ↔ window.ahead pkt < window.ahead q))
    (hsorted : list.Pairwise fun p q => window.ahead p < window.ahead q)
    (h : add_loop window pkt list = some (list', atEnd)) :
    list'.Pairwise fun p q => window.ahead p < window.ahead q := by
  induction list generalizing list' atEnd with
  | nil =>
    simp only [add_loop, Option.some.injEq, Prod.mk.injEq] at h
    rw [← h.1]
    exact List.pairwise_singleton _ _
  | cons x xs ih =>
    obtain ⟨hx, hxs⟩ := List.pairwise_cons.mp hsorted
    unfold add_loop at h
    split at h
    · contradiction
    rename_i hne
    have hcmp := hgt x List.mem_cons_self hne
    split at h
    · rename_i hgreater
      have hlt := hcmp.mp hgreater
      simp only [Option.some.injEq, Prod.mk.injEq] at h
      rw [← h.1, List.pairwise_cons]
      refine ⟨fun q hq => ?_, hsorted⟩
      rcases List.mem_cons.mp hq with rfl | hmem
      · exact hlt
      · exact hlt.trans (hx q hmem)
    · rename_i hnot
      obtain ⟨⟨ys, e⟩, hys, heq⟩ := Option.map_eq_some_iff.mp h
      simp only [Prod.mk.injEq] at heq
      rw [← heq.1, List.pairwise_cons]
      refine ⟨fun q hq => ?_, ih (fun q hq => hgt q (List.mem_cons_of_mem x hq)) hxs hys⟩
      rcases List.mem_cons.mp ((add_loop_perm hys).mem_iff.mp hq) with rfl | hmem
      · have hdiff : window.ahead q ≠ window.ahead x := fun heq => hne (dist_inj.mp heq)
        have hle : ¬ window.ahead q < window.ahead x := fun hlt => hnot (hcmp.mpr hlt)
        omega
      · exact hx q hmem

/-- Insertion before the border of a packet that is ahead of none of the others on its side. -/
theorem add_loop_below {list list' : List α} {atEnd : Bool} (h1 : 1 ≤ window.windowsize)
    (h31 : window.windowsize ≤ 31) (hplain : window.seqnumHead.toNat + window.windowsize < 256)
    (hhead : window.seqnumHead ≤ seqnumOf pkt) (hq : ∃ q ∈ list, seqnumOf pkt ≤ seqnumOf q)
    (hsorted : list.Pairwise fun p q => window.ahead p < window.ahead q)
    (h : add_loop window pkt list = some (list', atEnd)) :
    list'.Pairwise fun p q => window.ahead p < window.ahead q := by
  have hlift := dist_lift window.seqnumHead
  simp only [UInt8.lt_iff_toNat_lt] at hlift
  have hp := hlift (seqnumOf pkt)
  rw [UInt8.le_iff_toNat_le] at hhead
  rw [if_neg (by omega)] at hp
  induction list generalizing list' atEnd with
  | nil =>
    obtain ⟨q, hq, _⟩ := hq
    contradiction
  | cons x xs ih =>
    obtain ⟨hx, hxs⟩ := List.pairwise_cons.mp hsorted
    have hxl := hlift (seqnumOf x)
    have hpn := (seqnumOf pkt).toNat_lt
    unfold add_loop at h
    split at h
    · contradiction
    rename_i hne
    rw [is_seqnum_greater_plain window _ _ h1 h31 hplain] at h
    split at h
    · rename_i hgreater
      rw [decide_eq_true_eq, UInt8.lt_iff_toNat_lt] at hgreater
      rw [if_neg (by omega)] at hxl
      have hlt : window.ahead pkt < window.ahead x := by unfold Window.ahead; omega
      simp only [Option.some.injEq, Prod.mk.injEq] at h
      rw [← h.1, List.pairwise_cons]
      refine ⟨fun q hq => ?_, hsorted⟩
      rcases List.mem_cons.mp hq with rfl | hmem
      · exact hlt
      · exact hlt.trans (hx q hmem)
    · rename_i hnot
      rw [decide_eq_true_eq, UInt8.lt_iff_toNat_lt] at hnot
      have hxn : (seqnumOf x).toNat ≠ (seqnumOf pkt).toNat := fun heq => hne (UInt8.toNat_inj.mp heq.symm)
      obtain ⟨q, hmem, hle⟩ := hq
      rw [UInt8.le_iff_toNat_le] at hle
      -- the one at or above is further on, so `x` is still on the near side of the border
      have hqx : q ∈ xs := by
        rcases List.mem_cons.mp hmem with rfl | hmem
        · omega
        · exact hmem
      have hnear : ¬ (seqnumOf x).toNat < window.seqnumHead.toNat := by
        intro hfar
        rw [if_pos hfar] at hxl
        have hqlt := hx q hqx
        have hql := hlift (seqnumOf q)
        have hqn := (seqnumOf q).toNat_lt
        unfold Window.ahead at hqlt
        rw [if_neg (by omega)] at hql
        omega
      rw [if_neg hnear] at hxl
      obtain ⟨⟨ys, e⟩, hys, heq⟩ := Option.map_eq_some_iff.mp h
      simp only [Prod.mk.injEq] at heq
      rw [← heq.1, List.pairwise_cons]
      refine ⟨fun y hy => ?_, ih ⟨q, hqx, by rw [UInt8.le_iff_toNat_le]; exact hle⟩ hxs hys⟩
      rcases List.mem_cons.mp ((add_loop_perm hys).mem_iff.mp hy) with rfl | hymem
      · unfold Window.ahead
        omega
      · exact hx y hymem

/-- The comparison is right past the border, and among numbers on one side of it. -/
theorem greater_iff_ahead (hsize : SizeOk window) {seqnum : UInt8} (q : α)
    (hside : 256 ≤ window.seqnumHead.toNat + window.windowsize ∨
      (seqnumOf q < window.seqnumHead ↔ seqnum < window.seqnumHead)) :
    is_seqnum_greater (seqnumOf q) seqnum window = true ↔ dist window.seqnumHead seqnum < window.ahead q := by
  by_cases hwrap : 256 ≤ window.seqnumHead.toNat + window.windowsize
  · rw [is_seqnum_greater_wrapped window _ _ hsize.2 hwrap, decide_eq_true_eq]
    rfl
  · have hlift := dist_lift window.seqnumHead
    have hq := hlift (seqnumOf q)
    have hs := hlift seqnum
    have hiff := hside.resolve_left hwrap
    rw [is_seqnum_greater_plain window _ _ hsize.1 hsize.2 (by omega), decide_eq_true_eq, UInt8.lt_iff_toNat_lt]
    unfold Window.ahead
    by_cases hlt : seqnum < window.seqnumHead
    · rw [if_pos hlt] at hs
      rw [if_pos (hiff.mpr hlt)] at hq
      omega
    · rw [if_neg hlt] at hs
      rw [if_neg (fun h => hlt (hiff.mp h))] at hq
      omega

theorem linkedList_add_increasing_spec {window' : Window α}
    (h : linkedList_add_increasing window pkt = some window') :
    window'.seqnumHead = window.seqnumHead ∧ window'.windowsize = window.windowsize ∧
      ∃ atEnd, add_loop window pkt window.linkedList = some (window'.linkedList, atEnd) := by
  obtain ⟨⟨list, atEnd⟩, hadd, heq⟩ := Option.map_eq_some_iff.mp h
  rw [← heq]
  exact ⟨rfl, rfl, atEnd, hadd⟩

/-- Insertion keeps the order where the border is safe. -/
theorem linkedList_add_increasing_ordered {window' : Window α} (hsize : SizeOk window) (ho : Ordered window)
    (hsafe : BorderSafe window (seqnumOf pkt)) (h : linkedList_add_increasing window pkt = some window') :
    Ordered window' := by
  obtain ⟨hhead, _, atEnd, hadd⟩ := linkedList_add_increasing_spec h
  have hahead : window'.ahead = window.ahead := by
    unfold Window.ahead
    rw [hhead]
  unfold Ordered
  rw [hahead]
  by_cases hwrap : 256 ≤ window.seqnumHead.toNat + window.windowsize
  · exact add_loop_sorted (fun q _ _ => greater_iff_ahead hsize q (Or.inl hwrap)) ho hadd
  rcases hsafe with hwrap' | hsame | ⟨hle, hq⟩
  · exact absurd hwrap' hwrap
  · exact add_loop_sorted (fun q hq _ => greater_iff_ahead hsize q (Or.inr (hsame q hq))) ho hadd
  · exact add_loop_below hsize.1 hsize.2 (by omega) hle hq ho hadd

end Insert

/-! ## The operations -/

omit [Numbered α] in
theorem initial_sizeOk : SizeOk (Window.initial : Window α) := ⟨Nat.le_refl 1, (by decide : 1 ≤ 31)⟩

omit [Numbered α] in
theorem increase_window_sizeOk {window : Window α} (h : SizeOk window) : SizeOk (increase_window window) := by
  unfold increase_window SizeOk at *
  split
  · simp only
    omega
  · exact h

theorem store_sizeOk {window : Window α} (h : SizeOk window) (pkt : α) : SizeOk (store window pkt) := by
  unfold store
  cases hadd : linkedList_add_increasing window pkt with
  | none => exact h
  | some window' =>
    have hsize : SizeOk window' := by
      unfold SizeOk
      rw [(linkedList_add_increasing_spec hadd).2.1]
      exact h
    simp only
    split
    · exact increase_window_sizeOk hsize
    · exact hsize

theorem ordered_increase_window {window : Window α} : Ordered (increase_window window) ↔ Ordered window := by
  unfold Ordered Window.ahead
  simp

theorem store_ordered {window : Window α} {pkt : α} (hsize : SizeOk window) (ho : Ordered window)
    (hsafe : BorderSafe window (seqnumOf pkt)) : Ordered (store window pkt) := by
  unfold store
  cases hadd : linkedList_add_increasing window pkt with
  | none => exact ho
  | some window' =>
    have hordered := linkedList_add_increasing_ordered hsize ho hsafe hadd
    simp only
    split
    · exact ordered_increase_window.mpr hordered
    · exact hordered

theorem decrease_window_seqnumHead (window : Window α) :
    (decrease_window window).seqnumHead = window.seqnumHead := by
  unfold decrease_window
  split <;> rfl

theorem decrease_window_sizeOk {window : Window α} (h : SizeOk window) : SizeOk (decrease_window window) := by
  unfold decrease_window SizeOk at *
  split
  · simp only
    omega
  · exact h

/-- What is left is a beginning of the list. -/
theorem decrease_window_begins (window : Window α) :
    (decrease_window window).linkedList <+: window.linkedList := by
  unfold decrease_window
  split
  · simp only [remove_end_while_eq]
    exact List.take_prefix _ _
  · exact List.prefix_rfl

theorem decrease_window_ordered {window : Window α} (ho : Ordered window) : Ordered (decrease_window window) := by
  unfold Ordered Window.ahead at *
  rw [decrease_window_seqnumHead]
  exact ho.sublist (decrease_window_begins window).sublist

theorem mem_store {window : Window α} {pkt x : α} (h : x ∈ (store window pkt).linkedList) :
    x = pkt ∨ x ∈ window.linkedList := by
  unfold store at h
  cases hadd : linkedList_add_increasing window pkt with
  | none =>
    rw [hadd] at h
    exact Or.inr h
  | some window' =>
    obtain ⟨_, _, atEnd, hloop⟩ := linkedList_add_increasing_spec hadd
    have hmem : x ∈ window'.linkedList := by
      rw [hadd] at h
      simp only at h
      split at h
      · rwa [increase_window_linkedList] at h
      · exact h
    exact List.mem_cons.mp ((add_loop_perm hloop).mem_iff.mp hmem)

theorem store_seqnumHead (window : Window α) (pkt : α) : (store window pkt).seqnumHead = window.seqnumHead := by
  unfold store
  cases hadd : linkedList_add_increasing window pkt with
  | none => rfl
  | some window' =>
    have hhead := (linkedList_add_increasing_spec hadd).1
    simp only
    split
    · rw [increase_window_seqnumHead, hhead]
    · exact hhead

omit [Numbered α] in
theorem increase_window_windowsize_le (window : Window α) :
    window.windowsize ≤ (increase_window window).windowsize := by
  unfold increase_window
  split
  · exact Nat.le_succ _
  · exact Nat.le_refl _

theorem store_keeps (window : Window α) (pkt : α) :
    window.windowsize ≤ (store window pkt).windowsize ∧ window.linkedList ⊆ (store window pkt).linkedList := by
  unfold store
  cases hadd : linkedList_add_increasing window pkt with
  | none => exact ⟨Nat.le_refl _, List.Subset.refl _⟩
  | some window' =>
    obtain ⟨_, hsize, atEnd, hloop⟩ := linkedList_add_increasing_spec hadd
    have hsub : window.linkedList ⊆ window'.linkedList := fun x hx =>
      (add_loop_perm hloop).mem_iff.mpr (List.mem_cons_of_mem pkt hx)
    simp only
    split
    · exact ⟨hsize ▸ increase_window_windowsize_le window', by rw [increase_window_linkedList]; exact hsub⟩
    · exact ⟨Nat.le_of_eq hsize.symm, hsub⟩

theorem flushed_ordered {window : Window α} {current : α} {next : List α}
    (hlist : window.linkedList = current :: next) (ho : Ordered window) : Ordered (flushed window next) := by
  unfold Ordered at *
  rw [hlist, List.pairwise_cons] at ho
  refine ho.2.imp_of_mem fun {p q} hp hq hlt => ?_
  have hstep : ∀ x ∈ next, (flushed window next).ahead x + 1 = window.ahead x := by
    intro x hx
    refine dist_succ fun heq => ?_
    have hzero : window.ahead x = 0 := dist_eq_zero.mpr heq
    have := ho.1 x hx
    omega
  have := hstep p hp
  have := hstep q hq
  omega

end Trtp
