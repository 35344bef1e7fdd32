import Trtp.LinkedList.Refine
import Trtp.Lib.Transition

/-!
# The life of a list

Any sequence of operations on a list does without a fault what the same operations do to a sequence of packets.
-/

open Trtp.Lib

namespace Trtp.Heap

variable {α : Type}

/-! ## The operations -/

/-- A call. The address is what `malloc` gives, or the caller's node, whose `next` may be anything. -/
inductive ListOp (α : Type) where
  | create
  | add (n : Nat) (pkt : α) (next : Ptr)
  | add_pkt (n : Nat) (pkt : α)
  | add_increasing (window : Window α) (n : Nat) (pkt : α)
  | remove
  | remove_end
  | remove_middle (previous current : Nat)
  | del

structure World (α : Type) where
  mem : Memory α
  list : Option LinkedList

/-- What the call returns, if it does not fault, and what it leaves. -/
def list_op [Numbered α] (w : World α) : ListOp α → Option (Option Int × World α)
  | .create => some (none, { w with list := some linkedList_create })
  | .add n pkt next => do
    let (retval, mem, list) ← linkedList_add (put_node w.mem n ⟨pkt, next⟩) (← w.list) n
    some (some retval, ⟨mem, some list⟩)
  | .add_pkt n pkt => do
    let (retval, mem, list) ← linkedList_add_pkt w.mem (← w.list) n pkt
    some (some retval, ⟨mem, some list⟩)
  | .add_increasing window n pkt => do
    let (retval, _, mem, list) ← linkedList_add_increasing w.mem (← w.list) window n pkt
    some (some retval, ⟨mem, some list⟩)
  | .remove => do
    let (retval, mem, list) ← linkedList_remove w.mem (← w.list)
    some (some retval, ⟨mem, some list⟩)
  | .remove_end => do
    let (retval, mem, list) ← linkedList_remove_end w.mem (← w.list)
    some (some retval, ⟨mem, some list⟩)
  | .remove_middle previous current => do
    let (mem, list) ← linkedList_remove_middle w.mem (← w.list) previous current
    some (none, ⟨mem, some list⟩)
  | .del => do
    let (retval, mem) ← linkedList_del w.mem (← w.list)
    some (some retval, ⟨mem, none⟩)

/-! ## What they mean -/

/-- The packets of the list, each with the address of its node, and all packets that were ever stored. -/
structure Life (α : Type) where
  list : Option (List (Nat × α))
  stored : List α

/-- `n` is not the address of a node. -/
def Fresh (others : Cells α) (xs : List (Nat × α)) (n : Nat) : Prop := others n = none ∧ n ∉ addrs xs

/-- The operation on the sequence, with what it returns. The list has 255 packets at most. -/
inductive Means [Numbered α] (others : Cells α) : Life α → ListOp α → Option Int → Life α → Prop
  | create {stored : List α} : Means others ⟨none, stored⟩ .create none ⟨some [], stored⟩
  | add {xs : List (Nat × α)} {stored : List α} {n : Nat} {pkt : α} {next : Ptr} (hn : Fresh others xs n)
      (hlen : xs.length < 255) :
      Means others ⟨some xs, stored⟩ (.add n pkt next) (some 0) ⟨some (xs ++ [(n, pkt)]), stored ++ [pkt]⟩
  | add_pkt {xs : List (Nat × α)} {stored : List α} {n : Nat} {pkt : α} (hn : Fresh others xs n)
      (hlen : xs.length < 255) :
      Means others ⟨some xs, stored⟩ (.add_pkt n pkt) (some 0) ⟨some (xs ++ [(n, pkt)]), stored ++ [pkt]⟩
  | add_increasing {xs ys : List (Nat × α)} {stored : List α} {window : Window α} {n : Nat} {pkt : α} {atEnd : Bool}
      (hn : Fresh others xs n) (hlen : xs.length < 255)
      (hins : insert_increasing window n pkt xs = some (ys, atEnd)) :
      Means others ⟨some xs, stored⟩ (.add_increasing window n pkt) (some 0) ⟨some ys, stored ++ [pkt]⟩
  | duplicate {xs : List (Nat × α)} {stored : List α} {window : Window α} {n : Nat} {pkt : α} (hn : Fresh others xs n)
      (hins : insert_increasing window n pkt xs = none) :
      Means others ⟨some xs, stored⟩ (.add_increasing window n pkt) (some (-1)) ⟨some xs, stored⟩
  | remove_empty {stored : List α} : Means others ⟨some [], stored⟩ .remove (some (-1)) ⟨some [], stored⟩
  | remove {x : Nat × α} {xs : List (Nat × α)} {stored : List α} :
      Means others ⟨some (x :: xs), stored⟩ .remove (some 0) ⟨some xs, stored⟩
  | remove_end_empty {stored : List α} : Means others ⟨some [], stored⟩ .remove_end (some (-1)) ⟨some [], stored⟩
  | remove_end {xs : List (Nat × α)} {x : Nat × α} {stored : List α} :
      Means others ⟨some (xs ++ [x]), stored⟩ .remove_end (some 0) ⟨some xs, stored⟩
  | remove_middle {pre rest : List (Nat × α)} {p c : Nat} {x y : α} {stored : List α} (hrest : rest ≠ []) :
      Means others ⟨some (pre ++ [(p, x), (c, y)] ++ rest), stored⟩ (.remove_middle p c) none
        ⟨some (pre ++ [(p, x)] ++ rest), stored⟩
  | del {xs : List (Nat × α)} {stored : List α} :
      Means others ⟨some xs, stored⟩ .del (some 0) ⟨none, stored⟩

/-! ## The memory of a life -/

/-- Outside of the list, the memory is as it was. What was stored is in the list, or was deleted once. -/
def Lives (others : Cells α) (s : Life α) (w : World α) : Prop :=
  match s.list with
  | none => w.list = none ∧ w.mem.nodes = others ∧ w.mem.deleted.Perm s.stored
  | some xs => ∃ l, w.list = some l ∧ Held others w.mem l xs ∧ (w.mem.deleted ++ xs.map Prod.snd).Perm s.stored

theorem perm_store {deleted stored : List α} {xs ys : List (Nat × α)} {n : Nat} {pkt : α}
    (h : (deleted ++ xs.map Prod.snd).Perm stored) (hys : ys.Perm ((n, pkt) :: xs)) :
    (deleted ++ ys.map Prod.snd).Perm (stored ++ [pkt]) := by
  have hmap : (ys.map Prod.snd).Perm (pkt :: xs.map Prod.snd) := hys.map Prod.snd
  have hfront : (deleted ++ ys.map Prod.snd).Perm (pkt :: (deleted ++ xs.map Prod.snd)) :=
    (hmap.append_left deleted).trans List.perm_middle
  exact (hfront.trans (h.cons pkt)).trans (List.perm_append_singleton ..).symm

theorem perm_delete {deleted stored : List α} {xs ys : List (Nat × α)} {a : Nat} {pkt : α}
    (h : (deleted ++ xs.map Prod.snd).Perm stored) (hys : xs.Perm ((a, pkt) :: ys)) :
    ((deleted ++ [pkt]) ++ ys.map Prod.snd).Perm stored := by
  have hmap : (xs.map Prod.snd).Perm (pkt :: ys.map Prod.snd) := hys.map Prod.snd
  rw [List.append_assoc]
  exact (hmap.symm.append_left deleted).trans h

variable [Numbered α]

theorem insert_increasing_perm {window : Window α} {n : Nat} {pkt : α} {xs ys : List (Nat × α)} {atEnd : Bool}
    (h : insert_increasing window n pkt xs = some (ys, atEnd)) : ys.Perm ((n, pkt) :: xs) := by
  induction xs generalizing ys with
  | nil =>
    simp only [insert_increasing, Option.some.injEq, Prod.mk.injEq] at h
    rw [← h.1]
  | cons x xs ih =>
    obtain ⟨a, x⟩ := x
    rw [insert_increasing] at h
    split at h
    · contradiction
    split at h
    · simp only [Option.some.injEq, Prod.mk.injEq] at h
      rw [← h.1]
    · obtain ⟨⟨zs, e⟩, hins, heq⟩ := Option.map_eq_some_iff.mp h
      simp only [Prod.mk.injEq] at heq
      rw [← heq.1]
      exact ((ih (heq.2 ▸ hins)).cons (a, x)).trans (List.Perm.swap ..)

/-- Each call does to the memory what it means. -/
theorem list_op_lives {others : Cells α} {s s' : Life α} {op : ListOp α} {r : Option Int} {w : World α}
    (h : Lives others s w) (hop : Means others s op r s') :
    ∃ w', list_op w op = some (r, w') ∧ Lives others s' w' := by
  cases hop with
  | create =>
    obtain ⟨_, hnodes, hperm⟩ := h
    refine ⟨_, rfl, linkedList_create, rfl, ?_, by simpa using hperm⟩
    have hheld := linkedList_create_held others w.mem.deleted
    rw [← hnodes] at hheld ⊢
    exact hheld
  | add hn hlen =>
    rename_i n pkt next
    obtain ⟨l, hl, hheld, hperm⟩ := h
    obtain ⟨m', l', hadd, hheld', hlog⟩ := linkedList_add_held hheld hlen hn.1 hn.2 pkt next
    refine ⟨⟨m', some l'⟩, by simp [list_op, hl, hadd], l', rfl, hheld', ?_⟩
    rw [hlog]
    exact perm_store hperm (List.perm_append_singleton ..)
  | add_pkt hn hlen =>
    rename_i n pkt
    obtain ⟨l, hl, hheld, hperm⟩ := h
    obtain ⟨m', l', hadd, hheld', hlog⟩ := linkedList_add_pkt_held hheld hlen hn.1 hn.2 pkt
    refine ⟨⟨m', some l'⟩, by simp [list_op, hl, hadd], l', rfl, hheld', ?_⟩
    rw [hlog]
    exact perm_store hperm (List.perm_append_singleton ..)
  | add_increasing hn hlen hins =>
    obtain ⟨l, hl, hheld, hperm⟩ := h
    rename_i window n pkt atEnd
    have hadd := linkedList_add_increasing_held window pkt hheld (fun _ => hlen) hn.1 hn.2
    rw [hins] at hadd
    obtain ⟨m', l', hadd, hheld', hlog⟩ := hadd
    refine ⟨⟨m', some l'⟩, by simp [list_op, hl, hadd], l', rfl, hheld', ?_⟩
    rw [hlog]
    exact perm_store hperm (insert_increasing_perm hins)
  | duplicate hn hins =>
    obtain ⟨l, hl, hheld, hperm⟩ := h
    rename_i window n pkt
    have hadd := linkedList_add_increasing_held window pkt hheld (by simp [hins]) hn.1 hn.2
    rw [hins] at hadd
    exact ⟨⟨w.mem, some l⟩, by simp [list_op, hl, hadd], l, rfl, hheld, hperm⟩
  | remove_empty =>
    obtain ⟨l, hl, hheld, hperm⟩ := h
    exact ⟨⟨w.mem, some l⟩, by simp [list_op, hl, linkedList_remove_nil hheld], l, rfl, hheld, hperm⟩
  | remove =>
    obtain ⟨l, hl, hheld, hperm⟩ := h
    obtain ⟨m', l', hrem, hheld', hlog⟩ := linkedList_remove_held hheld
    refine ⟨⟨m', some l'⟩, by simp [list_op, hl, hrem], l', rfl, hheld', ?_⟩
    rw [hlog]
    exact perm_delete hperm (List.Perm.refl _)
  | remove_end_empty =>
    obtain ⟨l, hl, hheld, hperm⟩ := h
    exact ⟨⟨w.mem, some l⟩, by simp [list_op, hl, linkedList_remove_end_nil hheld], l, rfl, hheld, hperm⟩
  | remove_end =>
    obtain ⟨l, hl, hheld, hperm⟩ := h
    obtain ⟨m', l', hrem, hheld', hlog⟩ := linkedList_remove_end_held hheld
    refine ⟨⟨m', some l'⟩, by simp [list_op, hl, hrem], l', rfl, hheld', ?_⟩
    rw [hlog]
    exact perm_delete hperm (List.perm_append_singleton ..)
  | remove_middle hrest =>
    rename_i pre rest p c x y stored
    obtain ⟨l, hl, hheld, hperm⟩ := h
    obtain ⟨m', l', hrem, hheld', hlog⟩ := linkedList_remove_middle_held hrest hheld
    refine ⟨⟨m', some l'⟩, by simp [list_op, hl, hrem], l', rfl, hheld', ?_⟩
    rw [hlog]
    refine perm_delete (a := c) hperm ?_
    have hsplit : pre ++ [(p, x), (c, y)] ++ rest = (pre ++ [(p, x)]) ++ (c, y) :: rest := by simp
    rw [hsplit]
    exact List.perm_middle
  | del =>
    obtain ⟨l, hl, hheld, hperm⟩ := h
    obtain ⟨m', hdel, hnodes, hlog⟩ := linkedList_del_held hheld
    refine ⟨⟨m', none⟩, by simp [list_op, hl, hdel], rfl, funext hnodes, ?_⟩
    rw [hlog]
    exact hperm

/-- From a memory without a list, any sequence of calls that keeps to 255 packets. -/
theorem linkedList_run {others : Cells α} {ops : List (ListOp α)} {returns : List (Option Int)} {s : Life α}
    (h : Trace (Means others) ⟨none, []⟩ ops returns s) :
    ∃ w, results list_op ops ⟨⟨others, []⟩, none⟩ = some (returns, w) ∧ Lives others s w := by
  have hstart : Lives others (⟨none, []⟩ : Life α) ⟨⟨others, []⟩, none⟩ := ⟨rfl, rfl, List.Perm.refl _⟩
  exact Trace.forward list_op (fun _ _ _ _ _ hR hop => list_op_lives hR hop) h hstart

/-- With a list, `next` leads from `head` through its packets to `tail`, and `size` counts them. Without, all that was
stored is deleted, and nothing is left allocated. -/
theorem linkedList_refines {others : Cells α} {ops : List (ListOp α)} {returns : List (Option Int)} {s : Life α}
    (h : Trace (Means others) ⟨none, []⟩ ops returns s) :
    ∃ w, results list_op ops ⟨⟨others, []⟩, none⟩ = some (returns, w) ∧
      match s.list with
      | none => w.list = none ∧ w.mem.nodes = others ∧ w.mem.deleted.Perm s.stored
      | some xs => ∃ l, w.list = some l ∧ l.size.toNat = xs.length ∧
          w.mem.nodes.follow l.size.toNat l.head = some xs ∧ (∀ last ∈ xs.getLast?, l.tail = some last.1) ∧
          (xs = [] → linkedList_remove w.mem l = some (-1, w.mem, l) ∧
            linkedList_remove_end w.mem l = some (-1, w.mem, l)) ∧
          (∀ ys p x last, xs = ys ++ [(p, x), last] →
            before_tail w.mem.nodes l.tail l.size.toNat l.head = some (some p)) ∧
          (∀ a, a ∉ addrs xs → w.mem.nodes a = others a) ∧
          (w.mem.deleted ++ xs.map Prod.snd).Perm s.stored := by
  obtain ⟨w, hrun, hlives⟩ := linkedList_run h
  refine ⟨w, hrun, ?_⟩
  unfold Lives at hlives
  cases hlist : s.list with
  | none =>
    rw [hlist] at hlives
    exact hlives
  | some xs =>
    rw [hlist] at hlives
    obtain ⟨l, hl, hheld, hperm⟩ := hlives
    obtain ⟨q, hseg⟩ := hheld.listed.seg
    refine ⟨l, hl, hheld.listed.size, ?_, hheld.listed.tail, ?_, ?_, hheld.owned.same, hperm⟩
    · rw [hheld.listed.size]
      exact hseg.follow
    · rintro rfl
      exact ⟨linkedList_remove_nil hheld, linkedList_remove_end_nil hheld⟩
    · rintro ys p x ⟨t, y⟩ rfl
      exact hheld.listed.before_tail

def numberedPkt (seqnum : UInt8) : Pkt := { pkt_new with seqnum }

/-- A list that is empty twice, with an address that is used again. -/
def listCalls : List (ListOp Pkt) :=
  [.create, .add_pkt 10 (numberedPkt 0), .add 11 (numberedPkt 4) (some 10),
    .add_increasing .initial 12 (numberedPkt 2), .add_increasing .initial 13 (numberedPkt 2), .remove_middle 10 12,
    .remove_end, .remove, .remove, .add_pkt 10 (numberedPkt 5), .del]

theorem linkedList_refines_calls :
    ∃ w, results list_op listCalls ⟨⟨fun _ => none, []⟩, none⟩ =
        some ([none, some 0, some 0, some 0, some (-1), none, some 0, some 0, some (-1), some 0, some 0], w) ∧
      w.list = none ∧ w.mem.nodes = (fun _ => none) ∧
        w.mem.deleted.Perm [numberedPkt 0, numberedPkt 4, numberedPkt 2, numberedPkt 5] := by
  refine linkedList_refines (s := ⟨none, [numberedPkt 0, numberedPkt 4, numberedPkt 2, numberedPkt 5]⟩) ?_
  refine .cons .create (.cons (.add_pkt ⟨rfl, by decide⟩ (by decide)) (.cons (.add ⟨rfl, by decide⟩ (by decide)) ?_))
  refine .cons (.add_increasing ⟨rfl, by decide⟩ (by decide) rfl) (.cons (.duplicate ⟨rfl, by decide⟩ rfl) ?_)
  refine .cons (@Means.remove_middle _ _ _ [] [_] _ _ _ _ _ (List.cons_ne_nil _ _)) ?_
  refine .cons (@Means.remove_end _ _ _ [_] _ _) (.cons .remove (.cons .remove_empty ?_))
  exact .cons (.add_pkt ⟨rfl, by decide⟩ (by decide)) (.cons .del (.nil _))

end Trtp.Heap
