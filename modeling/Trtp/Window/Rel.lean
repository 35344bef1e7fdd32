import Trtp.Window.Order

/-!
# Two windows over different packets

Two windows that hold packets with the same numbers take the same steps.
-/

open Trtp.Lib

namespace Trtp

variable {α β : Type} {R : α → β → Prop}

/-! ## Related lists -/

theorem exists_of_forall₂ {l : List α} {m : List β} (h : List.Forall₂ R l m) {a : α} (ha : a ∈ l) :
    ∃ b ∈ m, R a b := by
  induction h with
  | nil => contradiction
  | @cons x y xs ys hxy _ ih =>
    rcases List.mem_cons.mp ha with rfl | hmem
    · exact ⟨y, List.mem_cons_self, hxy⟩
    · obtain ⟨b, hb, hab⟩ := ih hmem
      exact ⟨b, List.mem_cons_of_mem y hb, hab⟩

theorem forall₂_of_suffix {l l₁ : List α} {m m₁ : List β} (h : List.Forall₂ R l m)
    (h₁ : List.Forall₂ R l₁ m₁) (hl : l₁ <:+ l) (hm : m₁ <:+ m) :
    ∃ l₀ m₀, l = l₀ ++ l₁ ∧ m = m₀ ++ m₁ ∧ List.Forall₂ R l₀ m₀ := by
  obtain ⟨l₀, rfl⟩ := hl
  obtain ⟨m₀, rfl⟩ := hm
  have hlen := h.length_eq
  have hlen₁ := h₁.length_eq
  rw [List.length_append, List.length_append] at hlen
  refine ⟨l₀, m₀, rfl, rfl, ?_⟩
  have htake := List.forall₂_take l₀.length h
  rwa [List.take_left, List.take_left' (by omega)] at htake

/-- Two lists that are related to a third one. -/
theorem forall₂_join {γ : Type} {Q : α → γ → Prop} {R' : β → γ → Prop} {T : α → β → Prop}
    (hT : ∀ a b c, Q a c → R' b c → T a b) {l : List α} {l' : List β} {m : List γ} (h : List.Forall₂ Q l m)
    (h' : List.Forall₂ R' l' m) : List.Forall₂ T l l' := by
  induction h generalizing l' with
  | nil =>
    cases h'
    exact .nil
  | cons hac _ ih =>
    obtain _ | ⟨hbc, hrest⟩ := h'
    exact .cons (hT _ _ _ hac hbc) (ih hrest)

/-! ## Windows -/

/-- The windows are the same, and the packets of their lists are related. -/
structure Window.Rel (R : α → β → Prop) (w : Window α) (v : Window β) : Prop where
  head : w.seqnumHead = v.seqnumHead
  tail : w.seqnumTail = v.seqnumTail
  size : w.windowsize = v.windowsize
  list : List.Forall₂ R w.linkedList v.linkedList

theorem Window.Rel.initial : Window.Rel R Window.initial Window.initial := ⟨rfl, rfl, rfl, .nil⟩

theorem Window.Rel.length {w : Window α} {v : Window β} (h : Window.Rel R w v) :
    w.linkedList.length = v.linkedList.length := h.list.length_eq

theorem Window.Rel.join {γ : Type} {Q : α → γ → Prop} {R' : β → γ → Prop} {T : α → β → Prop}
    (hT : ∀ a b c, Q a c → R' b c → T a b) {w : Window α} {w' : Window β} {v : Window γ} (h : Window.Rel Q w v)
    (h' : Window.Rel R' w' v) : Window.Rel T w w' :=
  ⟨h.head.trans h'.head.symm, h.tail.trans h'.tail.symm, h.size.trans h'.size.symm, forall₂_join hT h.list h'.list⟩

theorem Window.Rel.isEmpty {w : Window α} {v : Window β} (h : Window.Rel R w v) :
    w.linkedList.isEmpty = v.linkedList.isEmpty := by
  have := h.length
  cases hw : w.linkedList <;> cases hv : v.linkedList <;> simp_all

theorem Window.Rel.is_in_window {w : Window α} {v : Window β} (h : Window.Rel R w v) (seqnum : UInt8) :
    Trtp.is_in_window w seqnum = Trtp.is_in_window v seqnum := by
  unfold Trtp.is_in_window Window.border
  rw [h.head, h.size]

theorem Window.Rel.is_seqnum_greater {w : Window α} {v : Window β} (h : Window.Rel R w v) (a b : UInt8) :
    Trtp.is_seqnum_greater a b w = Trtp.is_seqnum_greater a b v := by
  unfold Trtp.is_seqnum_greater Window.border
  rw [h.head, h.size]

theorem Window.Rel.can_ack_window {w : Window α} {v : Window β} (h : Window.Rel R w v) (seqnum : UInt8) :
    Trtp.can_ack_window w seqnum = Trtp.can_ack_window v seqnum := by
  unfold Trtp.can_ack_window
  rw [h.head, h.tail]

theorem Window.Rel.increase {w : Window α} {v : Window β} (h : Window.Rel R w v) :
    Window.Rel R (increase_window w) (increase_window v) := by
  unfold increase_window
  rw [h.size]
  split
  · exact ⟨h.head, h.tail, rfl, h.list⟩
  · exact h

section Numbered

variable [Numbered α] [Numbered β]

/-- Related packets look alike to the windows. -/
structure Alike (R : α → β → Prop) : Prop where
  seqnum : ∀ {x y}, R x y → seqnumOf x = seqnumOf y
  final : ∀ {x y}, R x y → isFinal x = isFinal y

theorem Alike.getLast?_seqnum (hR : Alike R) {l : List α} {l' : List β} (h : List.Forall₂ R l l') :
    l.getLast?.map seqnumOf = l'.getLast?.map seqnumOf := by
  induction h with
  | nil => rfl
  | cons hxy htl ih =>
    cases htl with
    | nil => simp [hR.seqnum hxy]
    | cons _ _ => simpa using ih

theorem Alike.head?_seqnum (hR : Alike R) {l : List α} {l' : List β} (h : List.Forall₂ R l l') :
    l.head?.map seqnumOf = l'.head?.map seqnumOf := by
  cases h with
  | nil => rfl
  | cons hxy _ => simp [hR.seqnum hxy]

/-! ## The receiver's operations -/

theorem Window.Rel.add_loop (hR : Alike R) {w : Window α} {v : Window β} (h : Window.Rel R w v) {pkt : α} {item : β}
    (hp : R pkt item) {l : List α} {l' : List β} (hl : List.Forall₂ R l l') :
    (add_loop w pkt l = none ∧ add_loop v item l' = none) ∨
      ∃ m m' e, add_loop w pkt l = some (m, e) ∧ add_loop v item l' = some (m', e) ∧ List.Forall₂ R m m' := by
  induction hl with
  | nil => exact Or.inr ⟨[pkt], [item], true, rfl, rfl, .cons hp .nil⟩
  | @cons x y xs ys hxy htl ih =>
    unfold Trtp.add_loop
    rw [hR.seqnum hp, hR.seqnum hxy, h.is_seqnum_greater]
    split
    · exact Or.inl ⟨rfl, rfl⟩
    split
    · exact Or.inr ⟨_, _, false, rfl, rfl, .cons hp (.cons hxy htl)⟩
    · rcases ih with ⟨h1, h2⟩ | ⟨m, m', e, h1, h2, hm⟩
      · exact Or.inl ⟨by rw [h1]; rfl, by rw [h2]; rfl⟩
      · exact Or.inr ⟨x :: m, y :: m', e, by rw [h1]; rfl, by rw [h2]; rfl, .cons hxy hm⟩

theorem Window.Rel.store (hR : Alike R) {w : Window α} {v : Window β} (h : Window.Rel R w v) {pkt : α} {item : β}
    (hp : R pkt item) : Window.Rel R (store w pkt) (store v item) := by
  unfold Trtp.store linkedList_add_increasing
  rcases h.add_loop hR hp h.list with ⟨h1, h2⟩ | ⟨m, m', e, h1, h2, hm⟩
  · rw [h1, h2]
    exact h
  · rw [h1, h2]
    have hnew : Window.Rel R
        { w with linkedList := m, seqnumTail := if e then seqnumOf pkt else w.seqnumTail }
        { v with linkedList := m', seqnumTail := if e then seqnumOf item else v.seqnumTail } := by
      refine ⟨h.head, ?_, h.size, hm⟩
      simp only [hR.seqnum hp, h.tail]
    simp only [Option.map_some, h.head, hR.seqnum hp]
    split
    · rw [← hR.seqnum hp, ← h.head]
      simp only [← h.head, ← hR.seqnum hp] at hnew ⊢
      exact hnew.increase
    · simp only [← h.head, ← hR.seqnum hp] at hnew ⊢
      exact hnew

theorem Window.Rel.decrease (hR : Alike R) {w : Window α} {v : Window β} (h : Window.Rel R w v) :
    Window.Rel R (decrease_window w) (decrease_window v) := by
  unfold decrease_window
  rw [h.size]
  split
  · have htake : List.Forall₂ R (w.linkedList.take (v.windowsize / 2)) (v.linkedList.take (v.windowsize / 2)) :=
      List.forall₂_take _ h.list
    refine ⟨h.head, ?_, rfl, ?_⟩
    · simp only [remove_end_while_eq, h.length, h.tail, hR.getLast?_seqnum htake]
    · simp only [remove_end_while_eq]
      exact htake
  · exact h

omit [Numbered α] [Numbered β] in
theorem Window.Rel.flushed {w : Window α} {v : Window β} (h : Window.Rel R w v) {l : List α} {l' : List β}
    (hl : List.Forall₂ R l l') : Window.Rel R (flushed w l) (flushed v l') := by
  have hempty : l.isEmpty = l'.isEmpty := by
    cases hl <;> rfl
  refine ⟨?_, ?_, h.size, hl⟩
  · simp only [Trtp.flushed, h.head]
  · simp only [Trtp.flushed, h.head, h.tail, hempty]

/-! ## The sender's operations -/

theorem Window.Rel.shrink (hR : Alike R) {w : Window α} {v : Window β} (h : Window.Rel R w v) (size : Nat)
    (stale : UInt8) : Window.Rel R (shrink_window w size stale) (shrink_window v size stale) := by
  have htake : List.Forall₂ R (w.linkedList.take size) (v.linkedList.take size) := List.forall₂_take _ h.list
  refine ⟨h.head, ?_, rfl, ?_⟩
  · simp only [shrink_window, remove_end_while_eq, hR.getLast?_seqnum htake]
  · simp only [shrink_window, remove_end_while_eq]
    exact htake

theorem Window.Rel.remove_acked (hR : Alike R) {w : Window α} {v : Window β} (h : Window.Rel R w v) :
    Window.Rel R (remove_acked w) (remove_acked v) := by
  have htl : List.Forall₂ R w.linkedList.tail v.linkedList.tail := by
    rw [← List.drop_one, ← List.drop_one]
    exact List.forall₂_drop _ h.list
  refine ⟨?_, h.tail, h.size, htl⟩
  simp only [Trtp.remove_acked, linkedList_remove, hR.head?_seqnum htl, h.head]

theorem Window.Rel.ack_loop (hR : Alike R) {w : Window α} {v : Window β} (h : Window.Rel R w v) (a : UInt8)
    {l : List α} {l' : List β} (hl : List.Forall₂ R l l') :
    Window.Rel R (ack_loop_window a l w) (ack_loop_window a l' v) := by
  induction hl generalizing w v with
  | nil => exact h
  | @cons x y xs ys hxy htl ih =>
    have htest : seqnum_in_window w a (seqnumOf x) = seqnum_in_window v a (seqnumOf y) := by
      unfold seqnum_in_window
      rw [hR.head?_seqnum h.list, h.head, hR.seqnum hxy]
    unfold ack_loop_window
    rw [htest]
    split
    · exact ih (h.remove_acked hR)
    · exact h

end Numbered

end Trtp
