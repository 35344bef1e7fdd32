import Trtp.LinkedList

/-!
# The linked list as a sequence

Each function of the list does to the memory what it is meant to do to the sequence of its packets.
-/

open Trtp.Lib

namespace Trtp.Heap

variable {α : Type}

/-! ## The representation -/

/-- `size` counts the packets of the sequence, and `next` leads from `head` through them to `tail`. -/
structure Listed (nodes : Cells α) (l : LinkedList) (xs : List (Nat × α)) : Prop where
  size : l.size.toNat = xs.length
  nodup : (addrs xs).Nodup
  seg : ∃ q, Seg nodes l.head xs q
  tail : ∀ last ∈ xs.getLast?, l.tail = some last.1

/-- Where `others` was allocated before, the list has its own nodes, and nothing else is allocated. -/
structure Owned (others nodes : Cells α) (xs : List (Nat × α)) : Prop where
  same : ∀ a, a ∉ addrs xs → nodes a = others a
  free : ∀ a ∈ addrs xs, others a = none

structure Held (others : Cells α) (m : Memory α) (l : LinkedList) (xs : List (Nat × α)) : Prop where
  listed : Listed m.nodes l xs
  owned : Owned others m.nodes xs

variable {others : Cells α} {m : Memory α} {l : LinkedList} {xs : List (Nat × α)}

theorem Listed.size_zero (h : Listed m.nodes l xs) : l.size = 0 ↔ xs = [] := by
  rw [← UInt8.toNat_inj, h.size, UInt8.toNat_zero, List.length_eq_zero_iff]

theorem Listed.size_one (h : Listed m.nodes l xs) : l.size = 1 ↔ xs.length = 1 := by
  rw [← UInt8.toNat_inj, h.size, UInt8.toNat_one]

theorem size_succ {size : UInt8} {n : Nat} (h : size.toNat = n) (hn : n < 255) : (size + 1).toNat = n + 1 := by
  rw [UInt8.toNat_add, UInt8.toNat_one, h]
  omega

theorem size_pred {size : UInt8} {n : Nat} (h : size.toNat = n + 1) : (size - 1).toNat = n := by
  have hle : (1 : UInt8) ≤ size := by
    rw [UInt8.le_iff_toNat_le, h, UInt8.toNat_one]
    omega
  rw [UInt8.toNat_sub_of_le _ _ hle, h, UInt8.toNat_one, Nat.add_sub_cancel]

theorem Owned.add {nodes : Cells α} (h : Owned others nodes xs) {ys : List (Nat × α)} {n : Nat} (hn : others n = none)
    (haddr : ∀ a, a ∈ addrs ys ↔ a ∈ addrs xs ∨ a = n) {nodes' : Cells α}
    (hsame : ∀ a, a ∉ addrs ys → nodes' a = nodes a) : Owned others nodes' ys where
  same a ha := (hsame a ha).trans (h.same a fun hin => ha ((haddr a).mpr (Or.inl hin)))
  free a ha := by
    rcases (haddr a).mp ha with hin | rfl
    · exact h.free a hin
    · exact hn

theorem Owned.remove {nodes : Cells α} (h : Owned others nodes xs) {ys : List (Nat × α)} {n : Nat}
    (hn : n ∈ addrs xs) (haddr : ∀ a, a ∈ addrs xs ↔ a ∈ addrs ys ∨ a = n) {nodes' : Cells α} (hfree : nodes' n = none)
    (hsame : ∀ a, a ∉ addrs xs → nodes' a = nodes a) : Owned others nodes' ys where
  same a ha := by
    by_cases heq : a = n
    · rw [heq, hfree, h.free n hn]
    · have hout : a ∉ addrs xs := fun hin => ((haddr a).mp hin).elim ha heq
      exact (hsame a hout).trans (h.same a hout)
  free a ha := h.free a ((haddr a).mpr (Or.inl ha))

/-! ## `linkedList_create` and the insertions -/

theorem linkedList_create_held (others : Cells α) (deleted : List α) :
    Held others ⟨others, deleted⟩ linkedList_create [] where
  listed := ⟨rfl, List.nodup_nil, ⟨_, rfl⟩, fun _ h => absurd h (by simp)⟩
  owned := ⟨fun _ _ => rfl, fun _ h => absurd h List.not_mem_nil⟩

theorem linkedList_add_held (h : Held others m l xs) (hlen : xs.length < 255) {n : Nat} (hn : others n = none)
    (hfresh : n ∉ addrs xs) (pkt : α) (next : Ptr) :
    ∃ m' l', linkedList_add (put_node m n ⟨pkt, next⟩) l n = some (0, m', l') ∧ Held others m' l' (xs ++ [(n, pkt)]) ∧
      m'.deleted = m.deleted := by
  have hnodup : (addrs (xs ++ [(n, pkt)])).Nodup := by
    rw [addrs_append, List.nodup_append]
    refine ⟨h.listed.nodup, List.nodup_singleton _, ?_⟩
    rintro a ha b hb rfl
    have heq : a = n := List.mem_singleton.mp hb
    exact hfresh (heq ▸ ha)
  have haddr : ∀ a, a ∈ addrs (xs ++ [(n, pkt)]) ↔ a ∈ addrs xs ∨ a = n := by
    intro a
    rw [addrs_append, List.mem_append]
    exact or_congr_right List.mem_singleton
  have hlast : ∀ last ∈ (xs ++ [(n, pkt)]).getLast?, some n = some last.1 := by
    intro last hin
    rw [List.getLast?_concat, Option.mem_some_iff] at hin
    rw [← hin]
  unfold linkedList_add
  by_cases hzero : l.size = 0
  · obtain rfl := h.listed.size_zero.mp hzero
    rw [if_pos hzero]
    refine ⟨_, _, rfl, ⟨⟨rfl, hnodup, ⟨next, rfl, next, put_node_self .., rfl⟩, hlast⟩, ?_⟩, rfl⟩
    refine h.owned.add hn haddr fun a ha => put_node_of_ne _ (fun heq => ha ?_) _
    exact (haddr a).mpr (Or.inr heq)
  · rw [if_neg hzero]
    obtain ⟨ys, ⟨t, y⟩, rfl⟩ : ∃ ys last, xs = ys ++ [last] :=
      (List.eq_nil_or_concat' xs).resolve_left fun hnil => hzero (h.listed.size_zero.mpr hnil)
    obtain ⟨q, hseg⟩ := h.listed.seg
    have htail : l.tail = some t := h.listed.tail (t, y) List.getLast?_concat
    obtain ⟨old, hcell⟩ := hseg.mem (x := (t, y)) (by simp)
    have hne : t ≠ n := by
      rintro rfl
      exact hfresh (by simp)
    have hy : t ∉ addrs ys := by
      have hold := h.listed.nodup
      rw [addrs_append, List.nodup_append] at hold
      exact fun hin => hold.2.2 t hin t (by simp) rfl
    have hcell' : (put_node m n ⟨pkt, next⟩).nodes t = some ⟨y, old⟩ := (put_node_of_ne m hne _).trans hcell
    rw [htail, set_next_some hcell']
    refine ⟨_, _, rfl, ⟨⟨?_, hnodup, ?_, hlast⟩, ?_⟩, rfl⟩
    · rw [size_succ h.listed.size hlen]
      simp
    · refine ⟨next, Seg.append_iff.mpr ⟨some n, ?_, rfl, next, ?_, rfl⟩⟩
      · exact (hseg.update hfresh _).relink hy (some n)
      · exact (Function.update_of_ne (Ne.symm hne) _ _).trans (put_node_self m n _)
    · refine h.owned.add hn haddr fun a ha => ?_
      have hat : a ≠ t := fun heq => ha ((haddr a).mpr (Or.inl (by rw [heq]; simp)))
      have han : a ≠ n := fun heq => ha ((haddr a).mpr (Or.inr heq))
      exact (Function.update_of_ne hat _ _).trans (put_node_of_ne m han _)

theorem linkedList_add_pkt_held (h : Held others m l xs) (hlen : xs.length < 255) {n : Nat} (hn : others n = none)
    (hfresh : n ∉ addrs xs) (pkt : α) :
    ∃ m' l', linkedList_add_pkt m l n pkt = some (0, m', l') ∧ Held others m' l' (xs ++ [(n, pkt)]) ∧
      m'.deleted = m.deleted := linkedList_add_held h hlen hn hfresh pkt none

/-! ## The removals -/

theorem remove_last_held {a : Nat} {x : α} (h : Held others m l [(a, x)]) :
    ∃ m' l', remove_last m l = some (0, m', l') ∧ Held others m' l' [] ∧ m'.deleted = m.deleted ++ [x] := by
  obtain ⟨q, hhead, next, hcell, _⟩ := h.listed.seg
  unfold remove_last
  rw [hhead, Cells.access_some, hcell]
  simp only [Option.bind_eq_bind, Option.bind_some]
  rw [free_node_some (m := pkt_del m x) hcell]
  refine ⟨_, _, rfl, ⟨⟨rfl, List.nodup_nil, ⟨_, rfl⟩, by simp⟩, ?_⟩, rfl⟩
  exact h.owned.remove (by simp) (by simp) (Function.update_self ..) fun b hb =>
    Function.update_of_ne (fun heq => hb (by simp [heq])) _ _

theorem linkedList_remove_nil (h : Held others m l []) : linkedList_remove m l = some (-1, m, l) := by
  rw [linkedList_remove, if_pos (h.listed.size_zero.mpr rfl)]

theorem linkedList_remove_held {a : Nat} {x : α} (h : Held others m l ((a, x) :: xs)) :
    ∃ m' l', linkedList_remove m l = some (0, m', l') ∧ Held others m' l' xs ∧ m'.deleted = m.deleted ++ [x] := by
  have hzero : l.size ≠ 0 := fun heq => absurd (h.listed.size_zero.mp heq) (List.cons_ne_nil _ _)
  unfold linkedList_remove
  rw [if_neg hzero]
  by_cases hone : l.size = 1
  · rw [if_pos hone]
    have hlen := h.listed.size_one.mp hone
    rw [List.length_cons, Nat.add_eq_right, List.length_eq_zero_iff] at hlen
    subst hlen
    exact remove_last_held h
  · rw [if_neg hone]
    obtain ⟨q, hhead, next, hcell, hseg⟩ := h.listed.seg
    have hnodup := h.listed.nodup
    rw [addrs_cons, List.nodup_cons] at hnodup
    rw [hhead, Cells.access_some, hcell]
    simp only [Option.bind_eq_bind, Option.bind_some]
    rw [free_node_some (m := pkt_del m x) hcell]
    refine ⟨_, _, rfl, ⟨⟨size_pred h.listed.size, hnodup.2, ⟨q, hseg.update hnodup.1 _⟩, ?_⟩, ?_⟩, rfl⟩
    · intro last hlast
      refine h.listed.tail last ?_
      rw [List.getLast?_cons, Option.mem_def.mp hlast]
      rfl
    · exact h.owned.remove (by simp) (by simp [or_comm]) (Function.update_self ..) fun b hb =>
        Function.update_of_ne (fun heq => hb (by simp [heq])) _ _

/-- The walk ends on the node before `tail`. -/
theorem before_tail_seg {nodes : Cells α} {tail p : Nat} {x : α} {current : Ptr}
    (h : Seg nodes current (xs ++ [(p, x)]) (some tail)) (htail : tail ∉ addrs (xs ++ [(p, x)])) {fuel : Nat}
    (hfuel : xs.length < fuel) : before_tail nodes (some tail) fuel current = some (some p) := by
  induction xs generalizing current fuel with
  | nil =>
    obtain ⟨fuel, rfl⟩ : ∃ k, fuel = k + 1 := ⟨fuel - 1, by omega⟩
    obtain ⟨rfl, next, hcell, rfl⟩ := h
    simp [before_tail, hcell]
  | cons y ys ih =>
    obtain ⟨a, y⟩ := y
    obtain ⟨fuel, rfl⟩ : ∃ k, fuel = k + 1 := ⟨fuel - 1, by omega⟩
    obtain ⟨rfl, next, hcell, hseg⟩ := h
    have hne : next ≠ some tail := by
      rintro rfl
      -- the next node is in the segment
      cases ys with
      | nil =>
        obtain ⟨heq, _⟩ := hseg
        rw [Option.some.injEq] at heq
        exact htail (by simp [heq])
      | cons z zs =>
        obtain ⟨heq, _⟩ := hseg
        rw [Option.some.injEq] at heq
        exact htail (by simp [heq])
    rw [List.length_cons] at hfuel
    simp only [before_tail, Cells.access_some, hcell, Option.bind_eq_bind, Option.bind_some, if_neg hne]
    refine ih hseg (fun hin => htail ?_) (by omega)
    rw [List.cons_append, addrs_cons]
    exact List.mem_cons_of_mem _ hin

theorem linkedList_remove_end_nil (h : Held others m l []) : linkedList_remove_end m l = some (-1, m, l) := by
  rw [linkedList_remove_end, if_pos (h.listed.size_zero.mpr rfl)]

theorem Listed.before_tail {p t : Nat} {x y : α} (h : Listed m.nodes l (xs ++ [(p, x), (t, y)])) :
    before_tail m.nodes l.tail l.size.toNat l.head = some (some p) := by
  obtain ⟨q, hseg⟩ := h.seg
  have hsplit : xs ++ [(p, x), (t, y)] = (xs ++ [(p, x)]) ++ [(t, y)] := by simp
  rw [hsplit] at hseg
  obtain ⟨r, hpre, hr, _⟩ := Seg.append_iff.mp hseg
  have htail : l.tail = some t := h.tail (t, y) (by rw [hsplit, List.getLast?_concat]; rfl)
  have hnodup := h.nodup
  rw [hsplit, addrs_append, List.nodup_append] at hnodup
  rw [htail, h.size]
  rw [hr] at hpre
  exact before_tail_seg hpre (fun hin => hnodup.2.2 t hin t (by simp) rfl) (by simp)

theorem linkedList_remove_end_held {t : Nat} {y : α} (h : Held others m l (xs ++ [(t, y)])) :
    ∃ m' l', linkedList_remove_end m l = some (0, m', l') ∧ Held others m' l' xs ∧ m'.deleted = m.deleted ++ [y] := by
  have hzero : l.size ≠ 0 := fun heq => absurd (h.listed.size_zero.mp heq) (by simp)
  unfold linkedList_remove_end
  rw [if_neg hzero]
  by_cases hone : l.size = 1
  · rw [if_pos hone]
    have hlen := h.listed.size_one.mp hone
    rw [List.length_append, List.length_singleton, Nat.add_eq_right, List.length_eq_zero_iff] at hlen
    subst hlen
    exact remove_last_held h
  · rw [if_neg hone]
    obtain ⟨ys, ⟨p, x⟩, rfl⟩ : ∃ ys last, xs = ys ++ [last] :=
      (List.eq_nil_or_concat' xs).resolve_left fun hnil => hone (h.listed.size_one.mpr (by rw [hnil]; rfl))
    obtain ⟨q, hseg⟩ := h.listed.seg
    obtain ⟨r, hpre, _⟩ := Seg.append_iff.mp hseg
    obtain ⟨next, hcell⟩ := hseg.mem (x := (t, y)) (by simp)
    have htail : l.tail = some t := h.listed.tail (t, y) List.getLast?_concat
    have hnodup := h.listed.nodup
    rw [addrs_append, List.nodup_append] at hnodup
    have ht : t ∉ addrs (ys ++ [(p, x)]) := fun hin => hnodup.2.2 t hin t (by simp) rfl
    have hwalk := Listed.before_tail (p := p) (t := t) (by simpa using h.listed)
    simp only at hcell
    rw [hwalk]
    simp only [htail, Cells.access_some, hcell, Option.bind_eq_bind, Option.bind_some]
    rw [free_node_some (m := pkt_del m y) hcell]
    refine ⟨_, _, rfl, ⟨⟨?_, hnodup.1, ⟨r, hpre.update ht _⟩, ?_⟩, ?_⟩, rfl⟩
    · exact size_pred (by rw [h.listed.size, List.length_append, List.length_singleton])
    · intro last hlast
      rw [List.getLast?_concat, Option.mem_some_iff] at hlast
      rw [← hlast]
    · exact h.owned.remove (by simp) (by simp [or_assoc])
        (Function.update_self ..) fun b hb => Function.update_of_ne (fun heq => hb (by simp [heq])) _ _

theorem linkedList_remove_middle_held {pre rest : List (Nat × α)} {p c : Nat} {x y : α} (hrest : rest ≠ [])
    (h : Held others m l (pre ++ [(p, x), (c, y)] ++ rest)) :
    ∃ m' l', linkedList_remove_middle m l p c = some (m', l') ∧ Held others m' l' (pre ++ [(p, x)] ++ rest) ∧
      m'.deleted = m.deleted ++ [y] := by
  have hsplit : pre ++ [(p, x), (c, y)] ++ rest = (pre ++ [(p, x)]) ++ ([(c, y)] ++ rest) := by simp
  obtain ⟨q, hseg⟩ := h.listed.seg
  rw [hsplit] at hseg
  obtain ⟨r, hpre, hmid⟩ := Seg.append_iff.mp hseg
  obtain ⟨next, hcell, hpost⟩ := hmid.2
  obtain ⟨old, hp⟩ := hpre.mem (x := (p, x)) (by simp)
  simp only at hcell hp
  have hnodup := h.listed.nodup
  rw [hsplit, addrs_append, addrs_append, addrs_append] at hnodup
  simp only [addrs_cons, addrs_nil, List.nodup_append, List.nodup_cons, List.mem_append, List.mem_singleton,
    List.not_mem_nil] at hnodup
  obtain ⟨⟨hpren, _, hpp⟩, ⟨_, hrestn, hcr⟩, hcross⟩ := hnodup
  have hpc : p ≠ c := hcross p (Or.inr rfl) c (Or.inl rfl)
  have hppre : p ∉ addrs pre := fun hin => hpp p hin p rfl rfl
  have hprest : p ∉ addrs rest := fun hin => hcross p (Or.inr rfl) p (Or.inr hin) rfl
  have hcpre : c ∉ addrs (pre ++ [(p, x)]) := by
    intro hin
    rw [addrs_append, List.mem_append] at hin
    exact hcross c (hin.imp_right List.mem_singleton.mp) c (Or.inl rfl) rfl
  have hcrest : c ∉ addrs rest := fun hin => hcr c rfl c hin rfl
  have hcell' : (Function.update m.nodes p (some ⟨x, next⟩)) c = some ⟨y, next⟩ :=
    (Function.update_of_ne (Ne.symm hpc) _ _).trans hcell
  unfold linkedList_remove_middle
  simp only [hcell, Option.bind_eq_bind, Option.bind_some, set_next_some hp]
  rw [free_node_some (m := pkt_del { m with nodes := Function.update m.nodes p (some ⟨x, next⟩) } y) hcell']
  refine ⟨_, _, rfl, ⟨⟨?_, ?_, ⟨q, ?_⟩, ?_⟩, ?_⟩, rfl⟩
  · refine size_pred ?_
    rw [h.listed.size]
    simp
    omega
  · rw [addrs_append, addrs_append]
    simp only [addrs_cons, addrs_nil, List.nodup_append, List.mem_append, List.mem_singleton]
    refine ⟨⟨hpren, List.nodup_singleton _, hpp⟩, hrestn, ?_⟩
    exact fun a ha b hb => hcross a ha b (Or.inr hb)
  · refine Seg.append_iff.mpr ⟨next, ?_, ?_⟩
    · exact (hpre.relink hppre next).update hcpre _
    · exact (hpost.update hprest _).update hcrest _
  · intro last hlast
    refine h.listed.tail last ?_
    rw [List.getLast?_append_of_ne_nil _ hrest] at hlast ⊢
    exact hlast
  · refine h.owned.remove (n := c) (by simp) (fun a => ?_) (Function.update_self ..) fun a ha => ?_
    · simp only [addrs_append, addrs_cons, addrs_nil, List.mem_append, List.mem_cons, List.not_mem_nil, or_false]
      tauto
    · have hac : a ≠ c := fun heq => ha (by simp [heq])
      have hap : a ≠ p := fun heq => ha (by simp [heq])
      exact (Function.update_of_ne hac _ _).trans (Function.update_of_ne hap _ _)

/-! ## `linkedList_del` -/

theorem del_loop_seg {xs : List (Nat × α)} {current q : Ptr} {m : Memory α} (h : Seg m.nodes current xs q)
    (hnodup : (addrs xs).Nodup) :
    ∃ m', del_loop xs.length current m = some m' ∧ m'.deleted = m.deleted ++ xs.map Prod.snd ∧
      (∀ a ∈ addrs xs, m'.nodes a = none) ∧ ∀ a, a ∉ addrs xs → m'.nodes a = m.nodes a := by
  induction xs generalizing current m with
  | nil => exact ⟨m, rfl, by simp, fun _ h => absurd h List.not_mem_nil, fun _ _ => rfl⟩
  | cons x xs ih =>
    obtain ⟨a, x⟩ := x
    obtain ⟨rfl, next, hcell, hseg⟩ := h
    rw [addrs_cons, List.nodup_cons] at hnodup
    obtain ⟨m', hdel, hlog, hgone, hsame⟩ := ih
      (m := { pkt_del m x with nodes := Function.update m.nodes a none }) (hseg.update hnodup.1 none) hnodup.2
    refine ⟨m', ?_, ?_, ?_, ?_⟩
    · rw [List.length_cons, del_loop, Cells.access_some, hcell]
      simp only [Option.bind_eq_bind, Option.bind_some]
      rw [free_node_some (m := pkt_del m x) hcell]
      exact hdel
    · rw [hlog]
      simp
    · intro b hb
      rcases List.mem_cons.mp hb with rfl | hin
      · exact (hsame _ hnodup.1).trans (Function.update_self ..)
      · exact hgone b hin
    · intro b hb
      rw [addrs_cons, List.mem_cons, not_or] at hb
      exact (hsame b hb.2).trans (Function.update_of_ne hb.1 _ _)

/-- Everything is freed, and every packet deleted. -/
theorem linkedList_del_held (h : Held others m l xs) :
    ∃ m', linkedList_del m l = some (0, m') ∧ (∀ a, m'.nodes a = others a) ∧
      m'.deleted = m.deleted ++ xs.map Prod.snd := by
  unfold linkedList_del
  by_cases hzero : l.size = 0
  · obtain rfl := h.listed.size_zero.mp hzero
    rw [if_pos hzero]
    exact ⟨m, rfl, fun a => h.owned.same a List.not_mem_nil, by simp⟩
  rw [if_neg hzero]
  by_cases hone : l.size = 1
  · rw [if_pos hone]
    obtain ⟨⟨a, x⟩, rfl⟩ := List.length_eq_one_iff.mp (h.listed.size_one.mp hone)
    obtain ⟨m', l', heq, hheld, hlog⟩ := remove_last_held h
    refine ⟨m', ?_, fun b => hheld.owned.same b List.not_mem_nil, hlog⟩
    unfold remove_last at heq
    rw [Option.bind_eq_bind, Option.bind_eq_some_iff] at heq
    obtain ⟨head, hhead, heq⟩ := heq
    rw [Option.bind_eq_bind, Option.bind_eq_some_iff] at heq
    obtain ⟨m₁, hfree, heq⟩ := heq
    rw [hhead]
    simp only [Option.bind_eq_bind, Option.bind_some, hfree]
    simp only [Option.some.injEq, Prod.mk.injEq, true_and] at heq
    rw [heq.1]
  · rw [if_neg hone, h.listed.size]
    obtain ⟨q, hseg⟩ := h.listed.seg
    obtain ⟨m', hdel, hlog, hgone, hsame⟩ := del_loop_seg hseg h.listed.nodup
    rw [hdel]
    refine ⟨m', rfl, fun a => ?_, hlog⟩
    by_cases ha : a ∈ addrs xs
    · rw [hgone a ha, h.owned.free a ha]
    · rw [hsame a ha, h.owned.same a ha]

/-! ## `linkedList_add_increasing` -/

section

variable {n : Nat}

theorem insert_front (pkt : α) (h : Held others m l xs) (hne : xs ≠ []) (hlen : xs.length < 255) (hn : others n = none)
    (hfresh : n ∉ addrs xs) :
    ∃ m', set_next (malloc_node m n pkt) (some n) l.head = some m' ∧
      Held others m' { l with head := some n, size := l.size + 1 } ((n, pkt) :: xs) ∧ m'.deleted = m.deleted := by
  rw [set_next_some (malloc_node_self m n pkt)]
  obtain ⟨q, hseg⟩ := h.listed.seg
  refine ⟨_, rfl, ⟨⟨?_, ?_, ⟨q, rfl, l.head, Function.update_self .., ?_⟩, ?_⟩, ?_⟩, rfl⟩
  · rw [size_succ h.listed.size hlen, List.length_cons]
  · rw [addrs_cons, List.nodup_cons]
    exact ⟨hfresh, h.listed.nodup⟩
  · exact (hseg.update hfresh _).update hfresh _
  · intro last hlast
    refine h.listed.tail last ?_
    rw [List.getLast?_cons_of_ne_nil hne] at hlast
    exact hlast
  · refine h.owned.add hn (by simp [or_comm]) fun a ha => ?_
    have han : a ≠ n := fun heq => ha (by simp [heq])
    exact (Function.update_of_ne han _ _).trans (malloc_node_of_ne m han pkt)

theorem insert_middle (pkt : α) {pre post : List (Nat × α)} {p : Nat} {w : α}
    (h : Held others m l (pre ++ [(p, w)] ++ post)) (hne : post ≠ [])
    (hlen : (pre ++ [(p, w)] ++ post).length < 255) (hn : others n = none)
    (hfresh : n ∉ addrs (pre ++ [(p, w)] ++ post)) :
    ∃ before m₁ m₂, m.nodes p = some before ∧ set_next (malloc_node m n pkt) (some n) before.next = some m₁ ∧
      set_next m₁ (some p) (some n) = some m₂ ∧
      Held others m₂ { l with size := l.size + 1 } (pre ++ [(p, w)] ++ (n, pkt) :: post) ∧
      m₂.deleted = m.deleted := by
  obtain ⟨q, hseg⟩ := h.listed.seg
  obtain ⟨r, hpre, hpost⟩ := Seg.append_iff.mp hseg
  obtain ⟨s, _, hp⟩ := Seg.append_iff.mp hpre
  obtain ⟨_, next, hcell, rfl⟩ := hp
  have hnp : p ≠ n := fun heq => hfresh (by simp [heq])
  have hnodup := h.listed.nodup
  rw [addrs_append, List.nodup_append, addrs_append, List.nodup_append] at hnodup
  obtain ⟨⟨_, _, hpp⟩, _, hcross⟩ := hnodup
  have hppre : p ∉ addrs pre := fun hin => hpp p hin p (by simp) rfl
  have hppost : p ∉ addrs post := fun hin => hcross p (by simp) p hin rfl
  have hnpre : n ∉ addrs (pre ++ [(p, w)]) := fun hin => hfresh (by rw [addrs_append]; exact List.mem_append_left _ hin)
  have hnpost : n ∉ addrs post := fun hin => hfresh (by rw [addrs_append]; exact List.mem_append_right _ hin)
  have hcell' : Function.update (malloc_node m n pkt).nodes n (some ⟨pkt, next⟩) p = some ⟨w, next⟩ :=
    ((Function.update_of_ne hnp _ _).trans (malloc_node_of_ne m hnp pkt)).trans hcell
  refine ⟨_, _, _, hcell, set_next_some (malloc_node_self m n pkt) next, set_next_some hcell' (some n), ?_⟩
  refine ⟨⟨⟨?_, ?_, ⟨q, Seg.append_iff.mpr ⟨some n, ?_, rfl, next, ?_, ?_⟩⟩, ?_⟩, ?_⟩, rfl⟩
  · rw [size_succ h.listed.size hlen]
    simp
    omega
  · rw [addrs_append, addrs_cons, List.nodup_middle, List.nodup_cons, ← addrs_append]
    exact ⟨hfresh, h.listed.nodup⟩
  · exact ((hpre.update hnpre _).update hnpre _).relink hppre (some n)
  · exact (Function.update_of_ne (Ne.symm hnp) _ _).trans (Function.update_self ..)
  · exact (((hpost.update hnpost _).update hnpost _).update hppost _)
  · intro last hlast
    refine h.listed.tail last ?_
    rw [List.getLast?_append_of_ne_nil _ (List.cons_ne_nil _ _), List.getLast?_cons_of_ne_nil hne] at hlast
    rw [List.getLast?_append_of_ne_nil _ hne]
    exact hlast
  · refine h.owned.add hn (fun a => ?_) fun a ha => ?_
    · simp only [addrs_append, addrs_cons, addrs_nil, List.mem_append, List.mem_cons, List.not_mem_nil, or_false]
      tauto
    · have hap : a ≠ p := fun heq => ha (by simp [heq])
      have han : a ≠ n := fun heq => ha (by simp [heq])
      exact ((Function.update_of_ne hap _ _).trans (Function.update_of_ne han _ _)).trans (malloc_node_of_ne m han pkt)

variable [Numbered α]

/-- The walk on the sequence. -/
def insert_increasing (window : Window α) (n : Nat) (pkt : α) : List (Nat × α) → Option (List (Nat × α) × Bool)
  | [] => some ([(n, pkt)], true)
  | (a, x) :: next =>
    if seqnumOf pkt = seqnumOf x then none
    else if is_seqnum_greater (seqnumOf x) (seqnumOf pkt) window then some ((n, pkt) :: (a, x) :: next, false)
    else (insert_increasing window n pkt next).map fun (list, atEnd) => ((a, x) :: list, atEnd)

/-- It is the walk of the window's list of packets. -/
theorem insert_increasing_add_loop (window : Window α) (n : Nat) (pkt : α) (xs : List (Nat × α)) :
    (insert_increasing window n pkt xs).map (fun r => (r.1.map Prod.snd, r.2)) =
      add_loop window pkt (xs.map Prod.snd) := by
  induction xs with
  | nil => rfl
  | cons x xs ih =>
    obtain ⟨a, x⟩ := x
    rw [insert_increasing, List.map_cons, add_loop]
    split
    · rfl
    split
    · rfl
    rw [← ih]
    cases insert_increasing window n pkt xs <;> rfl

variable {window : Window α} {pkt : α}

/-- The packet goes before `a`, that is, in front or behind the last packet of `pre`. -/
theorem increasing_loop_insert {pre suf : List (Nat × α)} {a : Nat} {x : α}
    (h : Held others m l (pre ++ (a, x) :: suf)) (hlen : (pre ++ (a, x) :: suf).length < 255) (hn : others n = none)
    (hfresh : n ∉ addrs (pre ++ (a, x) :: suf)) (hseqnum : seqnumOf pkt ≠ seqnumOf x)
    (hgreater : is_seqnum_greater (seqnumOf x) (seqnumOf pkt) window = true) (fuel : Nat) :
    ∃ m' l', increasing_loop m l window n pkt (fuel + 1) (pre.getLast?.map Prod.fst) (some a) =
      some (0, false, m', l') ∧ Held others m' l' (pre ++ (n, pkt) :: (a, x) :: suf) ∧ m'.deleted = m.deleted := by
  obtain ⟨q, hseg⟩ := h.listed.seg
  obtain ⟨next, hcell⟩ := hseg.mem (x := (a, x)) (by simp)
  simp only at hcell
  simp only [increasing_loop, Cells.access_some, hcell, Option.bind_eq_bind, Option.bind_some, if_neg hseqnum, hgreater,
    if_true]
  rcases List.eq_nil_or_concat' pre with rfl | ⟨pre, ⟨p, w⟩, rfl⟩
  · obtain ⟨m', hset, hheld, hlog⟩ := insert_front pkt h (List.cons_ne_nil _ _) hlen hn hfresh
    simp only [List.getLast?_nil, Option.map_none, hset, Option.bind_some]
    exact ⟨_, _, rfl, hheld, hlog⟩
  · obtain ⟨before, m₁, m₂, hbefore, hset₁, hset₂, hheld, hlog⟩ :=
      insert_middle pkt h (List.cons_ne_nil _ _) hlen hn hfresh
    simp only [List.getLast?_concat, Option.map_some, hbefore, hset₁, hset₂, Option.bind_some]
    exact ⟨_, _, rfl, hheld, hlog⟩

/-- The loop from the packet `a`, with those of `pre` behind it. -/
theorem increasing_loop_held (pre : List (Nat × α)) {suf : List (Nat × α)} {a : Nat} {x : α}
    (h : Held others m l (pre ++ (a, x) :: suf))
    (hlen : (insert_increasing window n pkt ((a, x) :: suf)).isSome → (pre ++ (a, x) :: suf).length < 255)
    (hn : others n = none) (hfresh : n ∉ addrs (pre ++ (a, x) :: suf)) {fuel : Nat} (hfuel : suf.length < fuel) :
    match insert_increasing window n pkt ((a, x) :: suf) with
    | none => increasing_loop m l window n pkt fuel (pre.getLast?.map Prod.fst) (some a) = some (-1, false, m, l)
    | some (ys, atEnd) => ∃ m' l', increasing_loop m l window n pkt fuel (pre.getLast?.map Prod.fst) (some a) =
        some (0, atEnd, m', l') ∧ Held others m' l' (pre ++ ys) ∧ m'.deleted = m.deleted := by
  induction fuel generalizing pre a x suf with
  | zero => exact absurd hfuel (Nat.not_lt_zero _)
  | succ fuel ih =>
    obtain ⟨q, hseg⟩ := h.listed.seg
    obtain ⟨r, _, hsuf⟩ := Seg.append_iff.mp hseg
    obtain ⟨_, next, hcell, hrest⟩ := hsuf
    rw [insert_increasing] at hlen ⊢
    by_cases hseqnum : seqnumOf pkt = seqnumOf x
    · simp only [if_pos hseqnum]
      simp only [increasing_loop, Cells.access_some, hcell, Option.bind_eq_bind, Option.bind_some, if_pos hseqnum]
    by_cases hgreater : is_seqnum_greater (seqnumOf x) (seqnumOf pkt) window = true
    · simp only [if_neg hseqnum, if_pos hgreater] at hlen ⊢
      exact increasing_loop_insert h (hlen rfl) hn hfresh hseqnum hgreater fuel
    simp only [if_neg hseqnum, if_neg hgreater, Option.isSome_map] at hlen ⊢
    simp only [increasing_loop, Cells.access_some, hcell, Option.bind_eq_bind, Option.bind_some, if_neg hseqnum,
      if_neg hgreater]
    cases suf with
    | nil =>
      -- the tail is reached
      have htail : l.tail = some a := h.listed.tail (a, x) List.getLast?_concat
      obtain ⟨m', l', hadd, hheld, hlog⟩ := linkedList_add_pkt_held h (hlen rfl) hn hfresh pkt
      rw [if_neg (not_not_intro htail.symm), hadd]
      exact ⟨m', l', rfl, by simpa using hheld, hlog⟩
    | cons y ys =>
      obtain ⟨b, y⟩ := y
      obtain ⟨rfl, _⟩ := hrest
      have hne : some a ≠ l.tail := by
        have hlast := List.getLast?_eq_some_getLast (List.cons_ne_nil (b, y) ys)
        have htail := h.listed.tail _ (by
          rw [List.getLast?_append_of_ne_nil _ (List.cons_ne_nil _ _),
            List.getLast?_cons_of_ne_nil (List.cons_ne_nil _ _)]
          exact hlast)
        have hnodup := h.listed.nodup
        rw [addrs_append, addrs_cons, List.nodup_append, List.nodup_cons] at hnodup
        rw [htail, Ne, Option.some.injEq]
        intro heq
        exact hnodup.2.1.1 (List.mem_map.mpr ⟨_, List.mem_of_getLast? hlast, heq.symm⟩)
      have hsplit : pre ++ (a, x) :: (b, y) :: ys = (pre ++ [(a, x)]) ++ (b, y) :: ys := by simp
      rw [hsplit] at h hlen hfresh
      have hind := ih _ h hlen hfresh (Nat.lt_of_succ_lt_succ hfuel)
      rw [List.getLast?_concat, Option.map_some] at hind
      rw [if_pos hne]
      cases hins : insert_increasing window n pkt ((b, y) :: ys) with
      | none =>
        rw [hins] at hind
        exact hind
      | some inserted =>
        obtain ⟨zs, atEnd⟩ := inserted
        rw [hins] at hind
        obtain ⟨m', l', heq, hheld, hlog⟩ := hind
        exact ⟨m', l', heq, by simpa using hheld, hlog⟩

theorem linkedList_add_increasing_held (window : Window α) (pkt : α) (h : Held others m l xs)
    (hlen : (insert_increasing window n pkt xs).isSome → xs.length < 255) (hn : others n = none)
    (hfresh : n ∉ addrs xs) :
    match insert_increasing window n pkt xs with
    | none => linkedList_add_increasing m l window n pkt = some (-1, false, m, l)
    | some (ys, atEnd) => ∃ m' l', linkedList_add_increasing m l window n pkt = some (0, atEnd, m', l') ∧
        Held others m' l' ys ∧ m'.deleted = m.deleted := by
  unfold linkedList_add_increasing
  cases xs with
  | nil =>
    obtain ⟨m', l', hadd, hheld, hlog⟩ := linkedList_add_pkt_held h (hlen rfl) hn hfresh pkt
    rw [if_pos (h.listed.size_zero.mpr rfl), hadd]
    exact ⟨m', l', rfl, hheld, hlog⟩
  | cons x xs =>
    obtain ⟨a, x⟩ := x
    obtain ⟨q, hhead, _⟩ := h.listed.seg
    have hzero : l.size ≠ 0 := fun heq => absurd (h.listed.size_zero.mp heq) (List.cons_ne_nil _ _)
    rw [if_neg hzero, h.listed.size, hhead]
    exact increasing_loop_held [] h hlen hn hfresh (Nat.lt_succ_self _)

end

end Trtp.Heap
