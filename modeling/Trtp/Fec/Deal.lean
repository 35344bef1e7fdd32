import Trtp.Fec.Recovery
import Trtp.Receiver
import Trtp.Window.Order

/-!
# What the receiver would do with a FEC packet

`deal_with_fec`, which looks for three packets of the group in the list and restores the fourth. `receive_data` ignores
a FEC packet before it comes to this call.
-/

open Trtp.Lib

namespace Trtp

/-- What the walk over the group comes to. `outside`: it writes `pkts[3]`. -/
inductive FecGroup where
  | useless
  | outside
  | found (missingSeqnum : Option UInt8) (pkt1 pkt2 pkt3 : Pkt)

/-- `if (i != 3)`. Nothing for the `-1` of `missingSeqnum`. -/
def fec_found (missingSeqnum : Option UInt8) : List Pkt → FecGroup
  | [pkt1, pkt2, pkt3] => .found missingSeqnum pkt1 pkt2 pkt3
  | _ => .useless

/-- The loop over `j`, from the node `current` on. `pkts` has the `i` entries that are written. -/
def fec_loop (nSeqnum seqnumTail : UInt8) (list : List Pkt) (j : Nat) (missingSeqnum : Option UInt8)
    (pkts : List Pkt) : FecGroup :=
  match list with
  | [] => .useless
  | current :: next =>
    if j < 4 then
      let expected := nSeqnum + UInt8.ofNat j
      let missing := pkt_get_seqnum current ≠ expected
      let missingSeqnum := if missing then some expected else missingSeqnum
      let j := if missing then j + 1 else j
      if pkts.length ≥ 3 then .outside
      else
        let pkts := pkts ++ [current]
        if next.isEmpty then
          if pkts.length = 3 ∧ missingSeqnum = none then fec_found (some (seqnumTail + 1)) pkts else .useless
        else fec_loop nSeqnum seqnumTail next (j + 1) missingSeqnum pkts
    else fec_found missingSeqnum pkts

/-- The list from the first packet with the number or the one before it. -/
def fec_start (seqnum : UInt8) : List Pkt → List Pkt
  | [] => []
  | current :: next =>
    if pkt_get_seqnum current = seqnum ∨ pkt_get_seqnum current + 1 = seqnum then current :: next
    else fec_start seqnum next

/-- The list from the packet where the walk starts. Nothing where `deal_with_fec` returns before the walk. -/
def fec_from (seqnum : UInt8) (list : List Pkt) : List Pkt :=
  match fec_start seqnum list with
  | current :: next :: rest => if pkt_get_seqnum next = seqnum then next :: rest else current :: next :: rest
  | _ => []

def fec_group (window : Window Pkt) (seqnum : UInt8) : FecGroup :=
  if window.linkedList.length < 3 then .useless
  else
    match fec_from seqnum window.linkedList with
    | [] => .useless
    | current :: next => fec_loop (pkt_get_seqnum current) window.seqnumTail (current :: next) 0 none []

/-- Nothing if it writes outside `pkts`. A packet that is there already is not added. -/
def deal_with_fec (r : Receiver) (fec_pkt : Pkt) : Option (Int × Receiver) :=
  match fec_group r.window (pkt_get_seqnum fec_pkt) with
  | .useless => some (-1, r)
  | .outside => none
  | .found missingSeqnum pkt1 pkt2 pkt3 =>
    let pkt_restored := fec_generation pkt1 pkt2 pkt3 fec_pkt
    let pkt_restored := (pkt_set_seqnum pkt_restored (missingSeqnum.getD 255)).2
    let r :=
      match linkedList_add_increasing r.window pkt_restored with
      | some window => { r with window }
      | none => { r with stats := { r.stats with packet_duplicated := r.stats.packet_duplicated + 1 } }
    some (missingSeqnum.elim (-1) fun seqnum => seqnum.toNat,
      { r with resent_ack := decide (some r.window.seqnumHead ≠ missingSeqnum) })

/-! ## The walk -/

/-- What the walk does, from the numbers of the first three packets. -/
def fec_choice (seqnumTail : UInt8) : List Pkt → FecGroup
  | [pkt1, pkt2, pkt3] =>
    if seqnumOf pkt2 = seqnumOf pkt1 + 1 ∧ seqnumOf pkt3 = seqnumOf pkt1 + 2 then
      .found (some (seqnumTail + 1)) pkt1 pkt2 pkt3
    else .useless
  | pkt1 :: pkt2 :: pkt3 :: _ :: _ =>
    if seqnumOf pkt2 = seqnumOf pkt1 + 1 then
      if seqnumOf pkt3 = seqnumOf pkt1 + 2 then .outside
      else .found (some (seqnumOf pkt1 + 2)) pkt1 pkt2 pkt3
    else if seqnumOf pkt3 = seqnumOf pkt1 + 3 then .found (some (seqnumOf pkt1 + 1)) pkt1 pkt2 pkt3
    else .found (some (seqnumOf pkt1 + 3)) pkt1 pkt2 pkt3
  | _ => .useless

theorem fec_loop_eq (seqnumTail : UInt8) (current : Pkt) (next : List Pkt) :
    fec_loop (pkt_get_seqnum current) seqnumTail (current :: next) 0 none [] =
      fec_choice seqnumTail (current :: next) := by
  have hseq : ∀ pkt : Pkt, seqnumOf pkt = pkt_get_seqnum pkt := fun _ => rfl
  rcases next with _ | ⟨pkt2, _ | ⟨pkt3, _ | ⟨pkt4, rest⟩⟩⟩
  · simp [fec_loop, fec_choice]
  · simp [fec_loop, fec_choice]
  · by_cases h2 : pkt_get_seqnum pkt2 = pkt_get_seqnum current + 1
    · by_cases h3 : pkt_get_seqnum pkt3 = pkt_get_seqnum current + 2
      · simp [fec_loop, fec_choice, hseq, h2, h3, fec_found]
      · simp [fec_loop, fec_choice, hseq, h2, h3]
    · by_cases h3 : pkt_get_seqnum pkt3 = pkt_get_seqnum current + 3
      · simp [fec_loop, fec_choice, hseq, h2, h3]
      · simp [fec_loop, fec_choice, hseq, h2, h3]
  · by_cases h2 : pkt_get_seqnum pkt2 = pkt_get_seqnum current + 1
    · by_cases h3 : pkt_get_seqnum pkt3 = pkt_get_seqnum current + 2
      · simp [fec_loop, fec_choice, hseq, h2, h3]
      · simp [fec_loop, fec_choice, hseq, h2, h3, fec_found]
    · by_cases h3 : pkt_get_seqnum pkt3 = pkt_get_seqnum current + 3
      · simp [fec_loop, fec_choice, hseq, h2, h3, fec_found]
      · simp [fec_loop, fec_choice, hseq, h2, h3, fec_found]

theorem fec_group_eq (window : Window Pkt) (seqnum : UInt8) :
    fec_group window seqnum =
      if window.linkedList.length < 3 then .useless
      else fec_choice window.seqnumTail (fec_from seqnum window.linkedList) := by
  unfold fec_group
  split
  · rfl
  split
  · rename_i hnil
    rw [hnil]
    rfl
  · rename_i current next hfrom
    rw [hfrom, fec_loop_eq]

/-! ## Where the walk starts -/

theorem fec_start_suffix (seqnum : UInt8) (list : List Pkt) : fec_start seqnum list <:+ list := by
  induction list with
  | nil => exact List.suffix_rfl
  | cons current next ih =>
    unfold fec_start
    split
    · exact List.suffix_rfl
    · exact ih.trans (List.suffix_cons current next)

theorem fec_start_head {seqnum : UInt8} {list : List Pkt} {current : Pkt} {next : List Pkt}
    (h : fec_start seqnum list = current :: next) : seqnumOf current = seqnum ∨ seqnumOf current + 1 = seqnum := by
  induction list with
  | nil => contradiction
  | cons x xs ih =>
    unfold fec_start at h
    split at h
    · rename_i hx
      rw [List.cons.injEq] at h
      rw [← h.1]
      exact hx
    · exact ih h

theorem fec_from_suffix (seqnum : UInt8) (list : List Pkt) : fec_from seqnum list <:+ list := by
  have hstart := fec_start_suffix seqnum list
  unfold fec_from
  split
  · rename_i current next rest heq
    rw [heq] at hstart
    split
    · exact (List.suffix_cons current _).trans hstart
    · exact hstart
  · exact List.nil_suffix

/-- It starts with the first packet of the group, or with the packet before that where the first is missing. -/
theorem fec_from_head {seqnum : UInt8} {list : List Pkt} {current : Pkt} {next : List Pkt}
    (h : fec_from seqnum list = current :: next) :
    seqnumOf current = seqnum ∨
      (seqnumOf current + 1 = seqnum ∧ ∀ pkt ∈ next.head?, seqnumOf pkt ≠ seqnum) := by
  unfold fec_from at h
  split at h
  swap
  · contradiction
  rename_i x y rest hstart
  split at h
  · rename_i hy
    rw [List.cons.injEq] at h
    rw [← h.1]
    exact Or.inl hy
  · rename_i hy
    rw [List.cons.injEq] at h
    rw [← h.1, ← h.2]
    refine (fec_start_head hstart).imp_right fun hx => ⟨hx, fun pkt hpkt => ?_⟩
    rw [← Option.some.inj hpkt]
    exact hy

theorem dist_add_one (head seqnum : UInt8) : dist head (seqnum + 1) = (dist head seqnum + 1) % 256 := by
  have hs := seqnum.toNat_lt
  rw [dist_eq, dist_eq, UInt8.toNat_add, UInt8.toNat_one]
  omega

/-- Only the packet just before the number can come before it as the start of the walk. -/
theorem fec_start_ordered {window : Window Pkt} {before after : List Pkt} {pkt : Pkt}
    (hord : (before ++ pkt :: after).Pairwise fun p q => window.ahead p < window.ahead q) :
    fec_start (seqnumOf pkt) (before ++ pkt :: after) = pkt :: after ∨
      ∃ previous, fec_start (seqnumOf pkt) (before ++ pkt :: after) = previous :: pkt :: after := by
  induction before with
  | nil => exact Or.inl (if_pos (Or.inl rfl))
  | cons x rest ih =>
    rw [List.cons_append, List.pairwise_cons] at hord
    obtain ⟨hx, hrest⟩ := hord
    rw [List.cons_append, fec_start]
    split
    swap
    · exact ih hrest
    rename_i hfound
    have hlt := hx pkt (List.mem_append_right rest List.mem_cons_self)
    rcases hfound with hsame | hbefore
    · have heq : window.ahead x = window.ahead pkt := dist_inj.mpr hsame
      omega
    · have heq : window.ahead pkt = (window.ahead x + 1) % 256 := by
        unfold Window.ahead
        rw [← dist_add_one]
        exact dist_inj.mpr hbefore.symm
      -- nothing is between the two
      rcases rest with _ | ⟨y, ys⟩
      · exact Or.inr ⟨x, rfl⟩
      · have hxy := hx y List.mem_cons_self
        have hyp := (List.pairwise_cons.mp hrest).1 pkt (List.mem_append_right ys List.mem_cons_self)
        have hbound := UInt8.toNat_lt (seqnumOf pkt - window.seqnumHead)
        change window.ahead pkt < 256 at hbound
        omega

/-- In a list that is in order, it starts with the first packet of the group if that is there and not the last. -/
theorem fec_from_ordered {window : Window Pkt} (hord : Ordered window) {before after : List Pkt} {pkt : Pkt}
    (hlist : window.linkedList = before ++ pkt :: after) (hafter : after ≠ []) :
    fec_from (seqnumOf pkt) window.linkedList = pkt :: after := by
  unfold Ordered at hord
  rw [hlist] at hord ⊢
  unfold fec_from
  rcases fec_start_ordered hord with hstart | ⟨previous, hstart⟩
  · obtain ⟨next, rest, rfl⟩ := List.exists_cons_of_ne_nil hafter
    rw [hstart]
    have hlt := (List.pairwise_cons.mp (List.pairwise_append.mp hord).2.1).1 next List.mem_cons_self
    have hne : pkt_get_seqnum next ≠ seqnumOf pkt := fun heq => (Nat.ne_of_lt hlt) (dist_inj.mpr heq.symm)
    simp only [hne, if_false]
  · rw [hstart]
    exact if_pos rfl

/-! ## What comes of it -/

/-- Three packets of the list that follow each other, with the numbers from `seqnum` on. -/
structure Consecutive (window : Window Pkt) (seqnum : UInt8) (offset2 offset3 : UInt8) (before : List Pkt)
    (pkt1 pkt2 pkt3 : Pkt) (after : List Pkt) : Prop where
  list : window.linkedList = before ++ pkt1 :: pkt2 :: pkt3 :: after
  first : seqnumOf pkt1 = seqnum
  second : seqnumOf pkt2 = seqnum + offset2
  third : seqnumOf pkt3 = seqnum + offset3

/-- The three packets and the missing one are the four of the group. -/
def WholeGroup (seqnum : UInt8) (missingSeqnum : Option UInt8) (pkt1 pkt2 pkt3 : Pkt) : Prop :=
  [seqnum, seqnum + 1, seqnum + 2, seqnum + 3].map some ⊆
    [missingSeqnum, some (seqnumOf pkt1), some (seqnumOf pkt2), some (seqnumOf pkt3)]

theorem Consecutive.group {window : Window Pkt} (hord : Ordered window) {seqnum offset2 offset3 : UInt8}
    {before after : List Pkt} {pkt1 pkt2 pkt3 : Pkt}
    (h : Consecutive window seqnum offset2 offset3 before pkt1 pkt2 pkt3 after) :
    fec_group window seqnum = fec_choice window.seqnumTail (pkt1 :: pkt2 :: pkt3 :: after) := by
  have hfrom := fec_from_ordered hord h.list (List.cons_ne_nil _ _)
  rw [h.first] at hfrom
  rw [fec_group_eq, if_neg, hfrom]
  rw [h.list, List.length_append, List.length_cons, List.length_cons, List.length_cons]
  omega

/-- What is not given up is decided by three packets that follow each other. -/
theorem fec_group_cases {window : Window Pkt} {seqnum : UInt8} (h : fec_group window seqnum ≠ .useless) :
    ∃ before pkt1 pkt2 pkt3 after, window.linkedList = before ++ pkt1 :: pkt2 :: pkt3 :: after ∧
      fec_group window seqnum = fec_choice window.seqnumTail (pkt1 :: pkt2 :: pkt3 :: after) ∧
      (seqnumOf pkt1 = seqnum ∨ (seqnumOf pkt1 + 1 = seqnum ∧ seqnumOf pkt2 ≠ seqnum)) := by
  have heq := fec_group_eq window seqnum
  rw [heq] at h ⊢
  split at h
  · exact absurd rfl h
  rename_i hlen
  rw [if_neg hlen]
  obtain ⟨before, hbefore⟩ := fec_from_suffix seqnum window.linkedList
  have hhead := @fec_from_head seqnum window.linkedList
  generalize fec_from seqnum window.linkedList = list at hbefore hhead h
  match list with
  | [] | [_] | [_, _] => exact absurd rfl h
  | pkt1 :: pkt2 :: pkt3 :: after =>
    exact ⟨before, pkt1, pkt2, pkt3, after, hbefore.symm, rfl,
      (hhead rfl).imp_right fun hprevious => ⟨hprevious.1, hprevious.2 pkt2 rfl⟩⟩

/-- It writes outside `pkts` as soon as the first three packets of the group are followed by another. -/
theorem fec_outside_iff {window : Window Pkt} (hord : Ordered window) (seqnum : UInt8) :
    fec_group window seqnum = .outside ↔ ∃ before pkt1 pkt2 pkt3 after, after ≠ [] ∧
      Consecutive window seqnum 1 2 before pkt1 pkt2 pkt3 after := by
  constructor
  · intro h
    have huseful : fec_group window seqnum ≠ .useless := by
      rw [h]
      simp
    obtain ⟨before, pkt1, pkt2, pkt3, after, hlist, hchoice, hfirst⟩ := fec_group_cases huseful
    rw [h] at hchoice
    rcases after with _ | ⟨pkt4, rest⟩
    · rw [fec_choice] at hchoice
      split at hchoice <;> contradiction
    rw [fec_choice] at hchoice
    split at hchoice
    swap
    · split at hchoice <;> contradiction
    rename_i h2
    split at hchoice
    swap
    · contradiction
    rename_i h3
    rcases hfirst with hfirst | ⟨hprevious, hnot⟩
    · rw [hfirst] at h2 h3
      exact ⟨before, pkt1, pkt2, pkt3, pkt4 :: rest, List.cons_ne_nil _ _, hlist, hfirst, h2, h3⟩
    · exact absurd (h2.trans hprevious) hnot
  · rintro ⟨before, pkt1, pkt2, pkt3, after, hafter, h⟩
    obtain ⟨pkt4, rest, rfl⟩ := List.exists_cons_of_ne_nil hafter
    rw [h.group hord, fec_choice, h.second, h.third, h.first, if_pos rfl, if_pos rfl]

/-- Three packets of the group, and what comes after them, from which the fourth can be told. -/
def TellsFourth (offset2 offset3 : UInt8) (after : List Pkt) : Prop :=
  if after = [] then offset2 = 1 ∧ offset3 = 2 else (offset2 = 1 ∨ offset2 = 2) ∧ offset3 = 3

/-- The packet before the group is not one of it. -/
theorem WholeGroup.first {seqnum : UInt8} {missingSeqnum : Option UInt8} {pkt1 pkt2 pkt3 : Pkt}
    (h : WholeGroup seqnum missingSeqnum pkt1 pkt2 pkt3) : seqnumOf pkt1 + 1 ≠ seqnum := by
  rintro rfl
  have hnodup : ([seqnumOf pkt1 + 1, seqnumOf pkt1 + 1 + 1, seqnumOf pkt1 + 1 + 2, seqnumOf pkt1 + 1 + 3].map
      some).Nodup := by
    simp [UInt8.add_assoc]
  have hthree : [seqnumOf pkt1 + 1, seqnumOf pkt1 + 1 + 1, seqnumOf pkt1 + 1 + 2, seqnumOf pkt1 + 1 + 3].map some ⊆
      [missingSeqnum, some (seqnumOf pkt2), some (seqnumOf pkt3)] := by
    intro x hx
    have hne : x ≠ some (seqnumOf pkt1) := by
      rintro rfl
      simp [UInt8.add_assoc] at hx
    have hmem := h hx
    simp only [List.mem_cons, hne, false_or] at hmem ⊢
    exact hmem
  have hlen := (hnodup.subperm hthree).length_le
  contradiction

theorem fec_choice_found {seqnumTail : UInt8} {p1 p2 p3 : Pkt} {after : List Pkt} {missingSeqnum : Option UInt8}
    {pkt1 pkt2 pkt3 : Pkt}
    (h : fec_choice seqnumTail (p1 :: p2 :: p3 :: after) = .found missingSeqnum pkt1 pkt2 pkt3) :
    p1 = pkt1 ∧ p2 = pkt2 ∧ p3 = pkt3 := by
  rcases after with _ | ⟨pkt4, rest⟩
  · rw [fec_choice] at h
    split at h
    · rw [FecGroup.found.injEq] at h
      exact h.2
    · contradiction
  · rw [fec_choice] at h
    split_ifs at h
    all_goals
      rw [FecGroup.found.injEq] at h
      exact h.2

/-- The group is put together wrong when the third packet is taken for the fourth one's successor. -/
theorem WholeGroup.tells {window : Window Pkt} (hord : Ordered window) {seqnum : UInt8} {before after : List Pkt}
    {missingSeqnum : Option UInt8} {pkt1 pkt2 pkt3 : Pkt} (hwhole : WholeGroup seqnum missingSeqnum pkt1 pkt2 pkt3)
    (hlist : window.linkedList = before ++ pkt1 :: pkt2 :: pkt3 :: after) (hfirst : seqnumOf pkt1 = seqnum)
    (h : fec_choice window.seqnumTail (pkt1 :: pkt2 :: pkt3 :: after) = .found missingSeqnum pkt1 pkt2 pkt3) :
    ∃ offset2 offset3, TellsFourth offset2 offset3 after ∧ seqnumOf pkt2 = seqnum + offset2 ∧
      seqnumOf pkt3 = seqnum + offset3 := by
  unfold WholeGroup at hwhole
  rw [hfirst] at hwhole
  rcases after with _ | ⟨pkt4, rest⟩
  · rw [fec_choice, hfirst] at h
    split at h
    · rename_i hnext
      exact ⟨1, 2, by rw [TellsFourth, if_pos rfl]; exact ⟨rfl, rfl⟩, hnext⟩
    · contradiction
  have htells : ∀ {offset2}, offset2 = 1 ∨ offset2 = 2 → TellsFourth offset2 3 (pkt4 :: rest) := by
    intro offset2 h2
    rw [TellsFourth, if_neg (List.cons_ne_nil _ _)]
    exact ⟨h2, rfl⟩
  rw [fec_choice, hfirst] at h
  split at h
  · rename_i h2
    split at h
    · contradiction
    rw [FecGroup.found.injEq] at h
    have hfourth := hwhole (List.mem_map_of_mem (by simp : seqnum + 3 ∈ [seqnum, seqnum + 1, seqnum + 2, seqnum + 3]))
    rw [← h.1, h2] at hfourth
    simp at hfourth
    exact ⟨1, 3, htells (Or.inl rfl), h2, hfourth.symm⟩
  rename_i h2
  split at h
  · rename_i h3
    rw [FecGroup.found.injEq] at h
    have hthird := hwhole (List.mem_map_of_mem (by simp : seqnum + 2 ∈ [seqnum, seqnum + 1, seqnum + 2, seqnum + 3]))
    rw [← h.1, h3] at hthird
    simp at hthird
    exact ⟨2, 3, htells (Or.inr rfl), hthird.symm, h3⟩
  · -- the second and the third packet of the list would be the other way round
    rename_i h3
    rw [FecGroup.found.injEq] at h
    have hsecond := hwhole (List.mem_map_of_mem (by simp : seqnum + 1 ∈ [seqnum, seqnum + 1, seqnum + 2, seqnum + 3]))
    rw [← h.1] at hsecond
    simp [Ne.symm h2] at hsecond
    exfalso
    unfold Ordered at hord
    rw [hlist] at hord
    obtain ⟨h12, hrest⟩ := List.pairwise_cons.mp (List.pairwise_append.mp hord).2.1
    have hlt12 := h12 pkt2 List.mem_cons_self
    have hlt23 := (List.pairwise_cons.mp hrest).1 pkt3 List.mem_cons_self
    have hsucc : window.ahead pkt3 = (window.ahead pkt1 + 1) % 256 := by
      unfold Window.ahead
      rw [← hsecond, hfirst, dist_add_one]
    omega

/-- It puts the right group together if the fourth packet is missing and the third is the last of the list, or the
second or the third packet is missing and the fourth is not the last. -/
theorem fec_whole_iff {window : Window Pkt} (hord : Ordered window)
    (htail : ∀ pkt ∈ window.linkedList.getLast?, seqnumOf pkt = window.seqnumTail) (seqnum : UInt8) :
    (∃ missingSeqnum pkt1 pkt2 pkt3, fec_group window seqnum = .found missingSeqnum pkt1 pkt2 pkt3 ∧
        WholeGroup seqnum missingSeqnum pkt1 pkt2 pkt3) ↔
      ∃ offset2 offset3 before pkt1 pkt2 pkt3 after, TellsFourth offset2 offset3 after ∧
        Consecutive window seqnum offset2 offset3 before pkt1 pkt2 pkt3 after := by
  constructor
  · rintro ⟨missingSeqnum, pkt1, pkt2, pkt3, h, hwhole⟩
    have huseful : fec_group window seqnum ≠ .useless := by
      rw [h]
      simp
    obtain ⟨before, p1, p2, p3, after, hlist, hchoice, hfirst⟩ := fec_group_cases huseful
    rw [h] at hchoice
    obtain ⟨rfl, rfl, rfl⟩ := fec_choice_found hchoice.symm
    replace hfirst := hfirst.resolve_right fun hprevious => hwhole.first hprevious.1
    obtain ⟨offset2, offset3, htells, h2, h3⟩ := hwhole.tells hord hlist hfirst hchoice.symm
    exact ⟨offset2, offset3, before, p1, p2, p3, after, htells, hlist, hfirst, h2, h3⟩
  · rintro ⟨offset2, offset3, before, pkt1, pkt2, pkt3, after, htells, h⟩
    have hgroup := h.group hord
    have hsecond := h.second
    have hthird := h.third
    unfold TellsFourth at htells
    split at htells
    · rename_i hnil
      obtain ⟨rfl, rfl⟩ := htells
      subst hnil
      have hlast : window.seqnumTail = seqnum + 2 := by
        rw [← htail pkt3 (by rw [h.list]; simp), hthird]
      rw [fec_choice, hsecond, hthird, h.first, if_pos ⟨rfl, rfl⟩, hlast] at hgroup
      refine ⟨_, _, _, _, hgroup, ?_⟩
      unfold WholeGroup
      rw [h.first, hsecond, hthird]
      simp [UInt8.add_assoc]
    · rename_i hafter
      obtain ⟨pkt4, rest, rfl⟩ := List.exists_cons_of_ne_nil hafter
      obtain ⟨rfl | rfl, rfl⟩ := htells
      · rw [fec_choice, hsecond, hthird, h.first, if_pos rfl, if_neg (by simp)] at hgroup
        refine ⟨_, _, _, _, hgroup, ?_⟩
        unfold WholeGroup
        rw [h.first, hsecond, hthird]
        simp
      · rw [fec_choice, hsecond, hthird, h.first, if_neg (by simp), if_pos rfl] at hgroup
        refine ⟨_, _, _, _, hgroup, ?_⟩
        unfold WholeGroup
        rw [h.first, hsecond, hthird]
        simp

theorem fec_choice_missing {seqnumTail : UInt8} {list : List Pkt} {missingSeqnum : Option UInt8}
    {pkt1 pkt2 pkt3 : Pkt} (h : fec_choice seqnumTail list = .found missingSeqnum pkt1 pkt2 pkt3) :
    missingSeqnum ≠ none := by
  rintro rfl
  match list with
  | [] | [_] | [_, _] => contradiction
  | [p1, p2, p3] =>
    rw [fec_choice] at h
    split at h
    · simp at h
    · contradiction
  | p1 :: p2 :: p3 :: p4 :: rest =>
    rw [fec_choice] at h
    split_ifs at h
    all_goals simp at h

/-- What `deal_with_fec` comes to for any list that is in order: when it writes outside `pkts`, and when it puts the
right group together. Where it returns -1 it has changed nothing. -/
theorem deal_with_fec_outcomes (r : Receiver) (fec_pkt : Pkt) (hord : Ordered r.window)
    (htail : ∀ pkt ∈ r.window.linkedList.getLast?, seqnumOf pkt = r.window.seqnumTail) :
    (deal_with_fec r fec_pkt = none ↔ ∃ before pkt1 pkt2 pkt3 after, after ≠ [] ∧
      Consecutive r.window (pkt_get_seqnum fec_pkt) 1 2 before pkt1 pkt2 pkt3 after) ∧
    ((∃ missingSeqnum pkt1 pkt2 pkt3,
        fec_group r.window (pkt_get_seqnum fec_pkt) = .found missingSeqnum pkt1 pkt2 pkt3 ∧
        WholeGroup (pkt_get_seqnum fec_pkt) missingSeqnum pkt1 pkt2 pkt3) ↔
      ∃ offset2 offset3 before pkt1 pkt2 pkt3 after, TellsFourth offset2 offset3 after ∧
        Consecutive r.window (pkt_get_seqnum fec_pkt) offset2 offset3 before pkt1 pkt2 pkt3 after) ∧
    ∀ r', deal_with_fec r fec_pkt = some (-1, r') → r' = r := by
  refine ⟨?_, fec_whole_iff hord htail _, ?_⟩
  · rw [← fec_outside_iff hord]
    unfold deal_with_fec
    cases fec_group r.window (pkt_get_seqnum fec_pkt) <;> simp
  · intro r' h
    unfold deal_with_fec at h
    split at h
    · simpa using h.symm
    · contradiction
    · rename_i missingSeqnum pkt1 pkt2 pkt3 hfound
      exfalso
      have hsome : missingSeqnum ≠ none := by
        rw [fec_group_eq] at hfound
        split at hfound
        · contradiction
        · exact fec_choice_missing hfound
      obtain ⟨seqnum, rfl⟩ := Option.ne_none_iff_exists'.mp hsome
      simp at h

/-- Packet 0 is missing, and the four packets of the group wait for it. -/
def groupThere : Receiver :=
  { Receiver.initial fun _ => 0 with
    window := ⟨0, 4, 5, [dataPkt 1 [1], dataPkt 2 [2], dataPkt 3 [3], dataPkt 4 [4]]⟩ }

/-- The FEC packet is of no use, and `pkts[3]` is written. -/
theorem deal_with_fec_outcomes_full : deal_with_fec groupThere { pkt_new with seqnum := 1 } = none := by
  have hord : Ordered groupThere.window := by
    unfold Ordered groupThere
    decide
  have htail : ∀ pkt ∈ groupThere.window.linkedList.getLast?, seqnumOf pkt = groupThere.window.seqnumTail := by
    intro pkt hpkt
    rw [← Option.some.inj hpkt]
    rfl
  exact (deal_with_fec_outcomes groupThere { pkt_new with seqnum := 1 } hord htail).1.mpr
    ⟨[], _, _, _, [dataPkt 4 [4]], List.cons_ne_nil _ _, rfl, rfl, rfl, rfl⟩

end Trtp
