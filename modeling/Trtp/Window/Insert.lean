import Trtp.Window.Order

/-!
# Ordered insertion

`linkedList_add_increasing` puts a packet at its place, except where the window ends at 255: `is_in_window` takes 0
there, and `is_seqnum_greater` puts it before all the others.
-/

open Trtp.Lib

namespace Trtp

variable {α : Type} [Numbered α]

/-- The stored packets are in the window and in order. -/
structure Stored (window : Window α) : Prop where
  size : SizeOk window
  inside : ∀ q ∈ window.linkedList, is_in_window window (seqnumOf q) = true
  ordered : Ordered window

/-- What an insertion should do, where `none` is -1. -/
structure InsertContract (window : Window α) (pkt : α) : Prop where
  duplicate : linkedList_add_increasing window pkt = none ↔ ∃ q ∈ window.linkedList, seqnumOf q = seqnumOf pkt
  perm : ∀ window', linkedList_add_increasing window pkt = some window' →
    window'.linkedList.Perm (pkt :: window.linkedList)
  ordered : ∀ window', linkedList_add_increasing window pkt = some window' →
    window'.seqnumHead = window.seqnumHead ∧ Ordered window'
  tail : ∀ window', linkedList_add_increasing window pkt = some window' →
    ∀ last ∈ window'.linkedList.getLast?, window'.seqnumTail = seqnumOf last

/-- The order of 8-bit numbers is that of the distances: not with 0 and another number, when the window ends at
255, unless the walk stops before 0. -/
def Placed (window : Window α) (seqnum : UInt8) : Prop :=
  window.seqnumHead.toNat + window.windowsize = 255 →
    if seqnum = 0 then ∀ q ∈ window.linkedList, seqnumOf q = 0
    else (∃ q ∈ window.linkedList, seqnumOf q = 0) → ∃ q ∈ window.linkedList, seqnum ≤ seqnumOf q

/-- `seqnumTail` is right before, or it is set. -/
def TailSet (window : Window α) (seqnum : UInt8) : Prop :=
  (∃ q ∈ window.linkedList, seqnumOf q = seqnum) ∨
    (∀ q ∈ window.linkedList, window.ahead q < dist window.seqnumHead seqnum) ∨
    ∃ last ∈ window.linkedList.getLast?, window.seqnumTail = seqnumOf last

/-! ## The walk -/

/-- No packet is further than the last. -/
theorem Ordered.ahead_le_last {window : Window α} (ho : Ordered window) {last x : α}
    (hlast : last ∈ window.linkedList.getLast?) (hx : x ∈ window.linkedList) :
    window.ahead x ≤ window.ahead last := by
  obtain ⟨front, hfront⟩ := List.getLast?_eq_some_iff.mp hlast
  unfold Ordered at ho
  rw [hfront] at ho hx
  rcases List.mem_append.mp hx with hin | hin
  · exact Nat.le_of_lt ((List.pairwise_append.mp ho).2.2 x hin last (List.mem_singleton_self last))
  · rw [List.mem_singleton.mp hin]

theorem add_loop_none {window : Window α} {pkt : α} {list : List α} (h : add_loop window pkt list = none) :
    ∃ q ∈ list, seqnumOf q = seqnumOf pkt := by
  induction list with
  | nil => contradiction
  | cons x xs ih =>
    unfold add_loop at h
    split at h
    · rename_i hsame
      exact ⟨x, List.mem_cons_self, hsame.symm⟩
    split at h
    · contradiction
    · obtain ⟨q, hq, heq⟩ := ih (Option.map_eq_none_iff.mp h)
      exact ⟨q, List.mem_cons_of_mem x hq, heq⟩

/-- At the end of the list, or in front of one of it. -/
theorem add_loop_last {window : Window α} {pkt : α} {list list' : List α} {atEnd : Bool}
    (h : add_loop window pkt list = some (list', atEnd)) :
    if atEnd then list' = list ++ [pkt] else list ≠ [] ∧ list'.getLast? = list.getLast? := by
  induction list generalizing list' with
  | nil =>
    simp only [add_loop, Option.some.injEq, Prod.mk.injEq] at h
    obtain ⟨rfl, rfl⟩ := h
    rfl
  | cons x xs ih =>
    unfold add_loop at h
    split at h
    · contradiction
    split at h
    · simp only [Option.some.injEq, Prod.mk.injEq] at h
      obtain ⟨rfl, rfl⟩ := h
      exact ⟨List.cons_ne_nil x xs, List.getLast?_cons_cons⟩
    · obtain ⟨⟨ys, e⟩, hys, heq⟩ := Option.map_eq_some_iff.mp h
      simp only [Prod.mk.injEq] at heq
      obtain ⟨rfl, rfl⟩ := heq
      have hnext := ih hys
      cases e with
      | true => exact congrArg (x :: ·) hnext
      | false =>
        obtain ⟨hne, hlast⟩ := hnext
        refine ⟨List.cons_ne_nil x xs, ?_⟩
        rw [List.getLast?_cons, List.getLast?_cons, hlast]

/-- No stored packet is greater: the walk goes to the end. -/
theorem add_loop_append {window : Window α} {pkt : α} {list : List α} (hne : ∀ q ∈ list, seqnumOf pkt ≠ seqnumOf q)
    (hnot : ∀ q ∈ list, is_seqnum_greater (seqnumOf q) (seqnumOf pkt) window = false) :
    add_loop window pkt list = some (list ++ [pkt], true) := by
  induction list with
  | nil => rfl
  | cons x xs ih =>
    have hx : ¬ is_seqnum_greater (seqnumOf x) (seqnumOf pkt) window = true := by
      rw [hnot x List.mem_cons_self]
      exact Bool.false_ne_true
    rw [add_loop, if_neg (hne x List.mem_cons_self), if_neg hx,
      ih (fun q hq => hne q (List.mem_cons_of_mem x hq)) (fun q hq => hnot q (List.mem_cons_of_mem x hq))]
    rfl

/-! ## The border at 255 -/

omit [Numbered α] in
/-- Of the numbers in a window that does not pass 255, only 0 is below `seqnumHead`. -/
theorem zero_of_below {window : Window α} {seqnum : UInt8} (hsize : SizeOk window)
    (hin : is_in_window window seqnum = true) (hplain : window.seqnumHead.toNat + window.windowsize < 256)
    (hlt : seqnum < window.seqnumHead) :
    window.seqnumHead.toNat + window.windowsize = 255 ∧ seqnum = 0 := by
  have hle := (is_in_window_iff window seqnum hsize.1 hsize.2).mp hin
  have hlift := dist_lift window.seqnumHead seqnum
  rw [if_pos hlt] at hlift
  rw [← UInt8.toNat_inj, UInt8.toNat_zero]
  omega

/-- There 0 is the last number of the window. -/
theorem ahead_zero {window : Window α} {q : α} (hsize : SizeOk window)
    (h255 : window.seqnumHead.toNat + window.windowsize = 255) (hq : seqnumOf q = 0) :
    window.ahead q = window.windowsize + 1 := by
  have hlift := dist_lift window.seqnumHead 0
  have hpos := hsize.1
  have h31 := hsize.2
  have hbelow : (0 : UInt8) < window.seqnumHead := by
    rw [UInt8.lt_iff_toNat_lt, UInt8.toNat_zero]
    omega
  rw [if_pos hbelow, UInt8.toNat_zero] at hlift
  unfold Window.ahead
  rw [hq]
  omega

theorem Placed.borderSafe {window : Window α} {seqnum : UInt8} (hp : Placed window seqnum) (hs : Stored window)
    (hin : is_in_window window seqnum = true) : BorderSafe window seqnum := by
  by_cases hwrap : 256 ≤ window.seqnumHead.toNat + window.windowsize
  · exact Or.inl hwrap
  right
  have hstored := fun q hq => zero_of_below hs.size (hs.inside q hq) (by omega)
  have hself := zero_of_below hs.size hin (by omega)
  by_cases h255 : window.seqnumHead.toNat + window.windowsize = 255
  swap
  · left
    exact fun q hq => ⟨fun h => absurd (hstored q hq h).1 h255, fun h => absurd (hself h).1 h255⟩
  have hplace := hp h255
  by_cases hzero : seqnum = 0
  · rw [if_pos hzero] at hplace
    left
    intro q hq
    rw [hplace q hq, hzero]
  · rw [if_neg hzero] at hplace
    have hhead : ¬ seqnum < window.seqnumHead := fun h => hzero (hself h).2
    by_cases h0 : ∃ q ∈ window.linkedList, seqnumOf q = 0
    · exact Or.inr ⟨UInt8.not_lt.mp hhead, hplace h0⟩
    · left
      exact fun q hq => ⟨fun h => absurd ⟨q, hq, (hstored q hq h).2⟩ h0, fun h => absurd h hhead⟩

section Contract

variable {window : Window α} {pkt : α} (hs : Stored window) (hin : is_in_window window (seqnumOf pkt) = true)
include hs hin

/-! ## From the contract -/

omit hs hin in
theorem InsertContract.tailSet (hc : InsertContract window pkt) : TailSet window (seqnumOf pkt) := by
  by_cases hdup : ∃ q ∈ window.linkedList, seqnumOf q = seqnumOf pkt
  · exact Or.inl hdup
  right
  cases hadd : linkedList_add_increasing window pkt with
  | none => exact absurd (hc.duplicate.mp hadd) hdup
  | some window' =>
    obtain ⟨⟨list, atEnd⟩, hloop, heq⟩ := Option.map_eq_some_iff.mp hadd
    obtain ⟨-, hordered⟩ := hc.ordered window' hadd
    have htail := hc.tail window' hadd
    rw [← heq] at hordered htail
    have hlast := add_loop_last hloop
    cases atEnd with
    | true =>
      left
      intro q hq
      have hlist : list = window.linkedList ++ [pkt] := hlast
      unfold Ordered at hordered
      simp only [hlist] at hordered
      exact (List.pairwise_append.mp hordered).2.2 q hq pkt (List.mem_singleton_self pkt)
    | false =>
      right
      obtain ⟨hne, hsame⟩ := hlast
      refine ⟨_, List.getLast?_eq_some_getLast hne, ?_⟩
      exact htail _ (by rw [hsame]; exact List.getLast?_eq_some_getLast hne)

omit hin in
/-- In a window that ends at 255 the numbers are compared as they are. -/
theorem greater_at_border (h255 : window.seqnumHead.toNat + window.windowsize = 255) (a b : UInt8) :
    is_seqnum_greater a b window = decide (a > b) := is_seqnum_greater_plain window a b hs.size.1 hs.size.2 (by omega)

omit hin in
/-- 0 is the last number of the window, so that it is alone when it comes first. -/
theorem alone_at_border (h255 : window.seqnumHead.toNat + window.windowsize = 255) {x : α} {xs : List α}
    (hl : window.linkedList = x :: xs) (hx0 : seqnumOf x = 0) : xs = [] := by
  have hfar := ahead_zero hs.size h255 hx0
  have hordered := hs.ordered
  unfold Ordered at hordered
  rw [hl] at hordered
  apply List.eq_nil_iff_forall_not_mem.mpr
  intro q hq
  have hlt := List.rel_of_pairwise_cons hordered hq
  have hqle := (is_in_window_iff window (seqnumOf q) hs.size.1 hs.size.2).mp
    (hs.inside q (by rw [hl]; exact List.mem_cons_of_mem x hq))
  unfold Window.ahead at hlt hfar
  omega

omit hin in
/-- The packet 0 goes before any other. -/
theorem InsertContract.zero_placed (hc : InsertContract window pkt)
    (h255 : window.seqnumHead.toNat + window.windowsize = 255) (hzero : seqnumOf pkt = 0) :
    ∀ q ∈ window.linkedList, seqnumOf q = 0 := by
  cases hl : window.linkedList with
  | nil => exact fun q hq => absurd hq List.not_mem_nil
  | cons x xs =>
    by_cases hx0 : seqnumOf x = 0
    · rw [alone_at_border hs h255 hl hx0]
      intro q hq
      rw [List.mem_singleton.mp hq]
      exact hx0
    · have hgreater : is_seqnum_greater (seqnumOf x) (seqnumOf pkt) window = true := by
        rw [greater_at_border hs h255, decide_eq_true_eq, hzero, gt_iff_lt, UInt8.lt_iff_toNat_lt, UInt8.toNat_zero]
        exact Nat.pos_of_ne_zero fun h => hx0 (UInt8.toNat_inj.mp h)
      have hadd : linkedList_add_increasing window pkt = some { window with linkedList := pkt :: x :: xs } := by
        rw [linkedList_add_increasing, hl, add_loop, if_neg (by rw [hzero]; exact Ne.symm hx0), if_pos hgreater]
        rfl
      have hlt := List.rel_of_pairwise_cons (hc.ordered _ hadd).2 List.mem_cons_self
      have hx : x ∈ window.linkedList := by rw [hl]; exact List.mem_cons_self
      have hxle := (is_in_window_iff window (seqnumOf x) hs.size.1 hs.size.2).mp (hs.inside x hx)
      have hself := ahead_zero hs.size h255 hzero
      change window.ahead pkt < dist window.seqnumHead (seqnumOf x) at hlt
      omega

/-- Another packet goes behind 0, unless the walk stops before. -/
theorem InsertContract.before_zero (hc : InsertContract window pkt)
    (h255 : window.seqnumHead.toNat + window.windowsize = 255) {last : α} (hmem : last ∈ window.linkedList)
    (hlast : seqnumOf last = 0) : ∃ q ∈ window.linkedList, seqnumOf pkt ≤ seqnumOf q := by
  have hle := (is_in_window_iff window (seqnumOf pkt) hs.size.1 hs.size.2).mp hin
  by_contra hnone
  push Not at hnone
  have hloop : add_loop window pkt window.linkedList = some (window.linkedList ++ [pkt], true) := by
    refine add_loop_append (fun q hq heq => ?_) fun q hq => ?_
    · exact hnone q hq (by rw [heq]; exact UInt8.le_refl _)
    · rw [greater_at_border hs h255, decide_eq_false_iff_not, gt_iff_lt, UInt8.not_lt]
      exact UInt8.le_of_lt (UInt8.not_le.mp (hnone q hq))
  have hadd : linkedList_add_increasing window pkt = some
      { window with linkedList := window.linkedList ++ [pkt], seqnumTail := seqnumOf pkt } := by
    rw [linkedList_add_increasing, hloop]
    rfl
  obtain ⟨-, hordered⟩ := hc.ordered _ hadd
  have hlt := (List.pairwise_append.mp hordered).2.2 last hmem pkt (List.mem_singleton_self pkt)
  have hfar := ahead_zero hs.size h255 hlast
  change window.ahead last < dist window.seqnumHead (seqnumOf pkt) at hlt
  omega

theorem InsertContract.placed (hc : InsertContract window pkt) : Placed window (seqnumOf pkt) := by
  intro h255
  split
  · rename_i hzero
    exact hc.zero_placed hs h255 hzero
  · rintro ⟨last, hmem, hlast⟩
    exact hc.before_zero hs hin h255 hmem hlast

/-! ## To the contract -/

theorem insertContract_of_placed (hp : Placed window (seqnumOf pkt)) (ht : TailSet window (seqnumOf pkt)) :
    InsertContract window pkt := by
  have hsafe := hp.borderSafe hs hin
  have hdup : linkedList_add_increasing window pkt = none ↔ ∃ q ∈ window.linkedList, seqnumOf q = seqnumOf pkt := by
    constructor
    · intro hnone
      exact add_loop_none (Option.map_eq_none_iff.mp hnone)
    · rintro ⟨q, hq, heq⟩
      cases hadd : linkedList_add_increasing window pkt with
      | none => rfl
      | some window' =>
        have hnodup := (linkedList_add_increasing_ordered hs.size hs.ordered hsafe hadd).nodup
        obtain ⟨-, -, atEnd, hloop⟩ := linkedList_add_increasing_spec hadd
        have hperm := ((add_loop_perm hloop).map seqnumOf).nodup_iff.mp hnodup
        rw [List.map_cons, List.nodup_cons] at hperm
        exact absurd (List.mem_map.mpr ⟨q, hq, heq⟩) hperm.1
  refine ⟨hdup, fun window' hadd => ?_, fun window' hadd => ?_, fun window' hadd => ?_⟩
  · obtain ⟨-, -, atEnd, hloop⟩ := linkedList_add_increasing_spec hadd
    exact add_loop_perm hloop
  · exact ⟨(linkedList_add_increasing_spec hadd).1,
      linkedList_add_increasing_ordered hs.size hs.ordered hsafe hadd⟩
  · have hordered := linkedList_add_increasing_ordered hs.size hs.ordered hsafe hadd
    obtain ⟨⟨list, atEnd⟩, hloop, heq⟩ := Option.map_eq_some_iff.mp hadd
    have hlast := add_loop_last hloop
    rw [← heq] at hordered ⊢
    intro last hmem
    cases atEnd with
    | true =>
      have hlist : list = window.linkedList ++ [pkt] := hlast
      simp only [hlist, List.getLast?_concat, Option.mem_def, Option.some.injEq] at hmem
      rw [← hmem]
      rfl
    | false =>
      change window.seqnumTail = seqnumOf last
      obtain ⟨-, hsame⟩ := hlast
      have hmem' : last ∈ window.linkedList.getLast? := hsame ▸ hmem
      rcases ht with hin' | hbefore | ⟨last', hlast', htail⟩
      · rw [hdup.mpr hin'] at hadd
        contradiction
      · -- the packet is in the list, so not beyond its last
        have hlt := hbefore last (List.mem_of_getLast? hmem')
        have hpkt : pkt ∈ list := (add_loop_perm hloop).mem_iff.mpr List.mem_cons_self
        have hle : window.ahead pkt ≤ window.ahead last := hordered.ahead_le_last hmem hpkt
        exact absurd hlt (Nat.not_lt.mpr hle)
      · rw [Option.mem_def.mp hlast', Option.mem_def, Option.some.injEq] at hmem'
        rw [← hmem', htail]

end Contract

/-- An insertion is right exactly when the packet is not misplaced at 255 and `seqnumTail` is set. -/
theorem linkedList_add_increasing_iff (window : Window α) (pkt : α) (hs : Stored window)
    (hin : is_in_window window (seqnumOf pkt) = true) :
    InsertContract window pkt ↔ Placed window (seqnumOf pkt) ∧ TailSet window (seqnumOf pkt) :=
  ⟨fun h => ⟨h.placed hs hin, h.tailSet⟩, fun h => insertContract_of_placed hs hin h.1 h.2⟩

theorem linkedList_add_increasing_iff_wrap : InsertContract (⟨254, 0, 4, [dataPkt 254 [1], dataPkt 0 [2]]⟩ : Window Pkt)
    (dataPkt 255 [3]) := by
  refine (linkedList_add_increasing_iff _ _ ⟨⟨by decide, by decide⟩, by decide, ?_⟩ (by decide)).mpr
    ⟨fun h => absurd h (by decide), Or.inr (Or.inr ⟨dataPkt 0 [2], rfl, rfl⟩)⟩
  unfold Ordered
  decide

/-- Packet 0 arrives after packet 253, in a window that ends at 255, and is put in front. -/
theorem not_insert_at_border : ¬ InsertContract (⟨252, 253, 3, [dataPkt 253 [1]]⟩ : Window Pkt) (dataPkt 0 [2]) := by
  intro h
  have hordered := (h.ordered _ rfl).2
  unfold Ordered at hordered
  revert hordered
  decide

end Trtp
