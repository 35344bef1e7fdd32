import Trtp.Sender.Loop

/-!
# Giving up

The loop ends without news when packets of length 0 were written again more than `MAX_RESENT_LAST_PKT` times.
-/

open Trtp.Lib

namespace Trtp

variable (crc32 : List UInt8 → UInt32) (file : List UInt8)

/-- The sender, with the packets that `resent_pkt` has written since the last datagram. -/
structure Watch where
  snd : Sender
  resent : List Node

def watched (w : Watch) : SenderAction → List Node
  | .resend time => w.resent ++ resent_nodes (fun k => (time k, true)) w.snd.window.linkedList 0
  | .response _ _ _ => []
  | .fill _ _ | .final _ => w.resent

def watch_step (w : Watch) (a : SenderAction) : Option Watch :=
  (sender_step crc32 file w.snd a).map fun snd => ⟨snd, watched w a⟩

variable {crc32 file}

/-- The packets of length 0. -/
def finals (list : List Node) : List Node := list.filter isFinal

/-- The last packet of the list is the final packet, and packets of length 0 of the list were written again at least
five times: the final packet itself, if it is the only one. -/
structure GaveUp (w : Watch) : Prop where
  lastPkt : w.snd.lastPkt = true
  last : ∃ final ∈ w.snd.window.linkedList.getLast?, isFinal final = true
  times : MAX_RESENT_LAST_PKT + 1 ≤ (finals w.resent).length
  listed : ∀ node ∈ finals w.resent, node.addr ∈ (finals w.snd.window.linkedList).map Node.addr
  final : ∀ final, finals w.snd.window.linkedList = [final] →
    MAX_RESENT_LAST_PKT + 1 ≤ w.resent.countP fun node => node.addr = final.addr

/-! ## The invariant -/

structure Watching (w : Watch) : Prop where
  count : w.snd.lastRst = (finals w.resent).length
  listed : ∀ node ∈ finals w.resent, node.addr ∈ (finals w.snd.window.linkedList).map Node.addr
  last : w.snd.lastPkt = true → w.snd.eof_reached = true ∧
    (w.snd.stopped = some .allAcked ∨ ∃ final ∈ w.snd.window.linkedList.getLast?, isFinal final = true)
  stopped : w.snd.stopped = some .noNews → w.snd.lastPkt = true ∧ MAX_RESENT_LAST_PKT < w.snd.lastRst

theorem Watching.gaveUp {w : Watch} (h : Watching w) (hstop : w.snd.stopped = some .noNews) : GaveUp w := by
  obtain ⟨hlast, hrst⟩ := h.stopped hstop
  have htimes : MAX_RESENT_LAST_PKT + 1 ≤ (finals w.resent).length := by
    rw [← h.count]
    exact hrst
  refine ⟨hlast, (h.last hlast).2.resolve_left ?_, htimes, h.listed, fun final hfinal => htimes.trans ?_⟩
  · rw [hstop]
    decide
  · rw [finals, ← List.countP_eq_length_filter]
    refine List.countP_mono_left fun node hnode htrue => decide_eq_true ?_
    have haddr := h.listed node (List.mem_filter.mpr ⟨hnode, htrue⟩)
    rw [hfinal] at haddr
    exact List.mem_singleton.mp haddr

theorem watching_initial (copybuf : Mem) : Watching ⟨.initial copybuf, []⟩ :=
  ⟨rfl, fun _ hnode => absurd hnode List.not_mem_nil, fun h => absurd h (by decide : ¬ false = true),
    fun h => absurd h (by decide : ¬ (none : Option Stop) = some .noNews)⟩

theorem finals_prefix {list list' : List Node} (h : list <+: list') {addr : Nat}
    (hmem : addr ∈ (finals list).map Node.addr) : addr ∈ (finals list').map Node.addr :=
  ((h.sublist.filter _).map _).subset hmem

theorem Watching.fill {w : Watch} (h : Watching w) {io : Nat → FillIO} {fec_enable : Bool} {s' : Sender}
    (hs : fill_step crc32 w.snd io fec_enable = some s') : Watching ⟨s', w.resent⟩ := by
  obtain ⟨hgo, heof, hfilled⟩ := fill_step_filled hs
  have hlast : w.snd.lastPkt ≠ true := by
    intro hlast
    exact absurd ((h.last hlast).1.symm.trans heof) (by decide)
  refine ⟨hfilled.lastRst.trans h.count, fun node hnode => finals_prefix hfilled.list (h.listed node hnode),
    fun hlast' => absurd (hfilled.lastPkt.symm.trans hlast') hlast, fun hstop => ?_⟩
  rw [hfilled.stopped, hgo] at hstop
  contradiction

theorem Watching.final {w : Watch} (h : Watching w) {time : UInt32} {s' : Sender}
    (hs : final_step crc32 w.snd time true = some s') : Watching ⟨s', w.resent⟩ := by
  obtain ⟨hgo, _, heof, _, copybuf, stats, sent, io_error, allocated, rfl, _⟩ := final_step_eq hs
  simp only [if_true]
  refine ⟨h.count, fun node hnode => finals_prefix (List.prefix_append _ _) (h.listed node hnode), fun _ => ⟨heof, ?_⟩,
    fun hstop => ?_⟩
  · exact Or.inr ⟨final_node w.snd time, List.getLast?_concat, final_node_isFinal w.snd time⟩
  · rw [hgo] at hstop
    contradiction

theorem resent_nodes_listed (io : Nat → UInt32 × Bool) {list : List Node} (k : Nat) {node : Node}
    (h : node ∈ resent_nodes io list k) : ∃ old ∈ list, Retimed old node := by
  induction list generalizing k with
  | nil => exact absurd h List.not_mem_nil
  | cons current next ih =>
    have hnext : node ∈ resent_nodes io next (k + 1) → ∃ old ∈ current :: next, Retimed old node := by
      intro hmem
      obtain ⟨old, hold, hretimed⟩ := ih (k + 1) hmem
      exact ⟨old, List.mem_cons_of_mem _ hold, hretimed⟩
    unfold resent_nodes at h
    split at h
    · split at h
      · rcases List.mem_cons.mp h with rfl | hmem
        · exact ⟨current, List.mem_cons_self, _, rfl⟩
        · exact hnext hmem
      · exact absurd h List.not_mem_nil
    · exact hnext h

theorem finals_addr (list : List Node) :
    (finals list).map Node.addr = ((tags list).filter Prod.snd).map Prod.fst := by
  unfold finals tags
  rw [List.filter_map, List.map_map]
  rfl

theorem finals_retimed {list list' : List Node} (h : List.Forall₂ Retimed list list') :
    (finals list').map Node.addr = (finals list).map Node.addr := by
  rw [finals_addr, finals_addr, Retimed.tags h]

theorem last_retimed {list list' : List Node} (h : List.Forall₂ Retimed list list')
    (hlast : ∃ final ∈ list.getLast?, isFinal final = true) : ∃ final ∈ list'.getLast?, isFinal final = true := by
  obtain ⟨final, hfinal, htrue⟩ := hlast
  have htags := congrArg List.getLast? (Retimed.tags h)
  rw [tags, tags, List.getLast?_map, List.getLast?_map, Option.mem_def.mp hfinal, Option.map_some] at htags
  obtain ⟨final', hfinal', heq⟩ := Option.map_eq_some_iff.mp htags
  exact ⟨final', hfinal', (congrArg Prod.snd heq).trans htrue⟩

theorem Watching.resend {w : Watch} (h : Watching w) {time : Nat → UInt32} {s' : Sender}
    (hs : resent_step crc32 w.snd (fun k => (time k, true)) = some s') :
    Watching ⟨s', w.resent ++ resent_nodes (fun k => (time k, true)) w.snd.window.linkedList 0⟩ := by
  obtain ⟨hgo, _, copybuf, stats, sent, io_error, list, hlist, rfl⟩ := resent_step_eq hs
  have hfinals := finals_retimed hlist
  refine ⟨?_, ?_, fun hlast => ?_, fun hstop => ?_⟩
  · simp only [finals, List.filter_append, List.length_append]
    rw [h.count]
    rfl
  · intro node hnode
    simp only [hfinals]
    simp only [finals, List.filter_append] at hnode
    rcases List.mem_append.mp hnode with hold | hnew
    · exact h.listed node hold
    · obtain ⟨hmem, hfinal⟩ := List.mem_filter.mp hnew
      obtain ⟨old, hin, hretimed⟩ := resent_nodes_listed _ _ hmem
      rw [hretimed.addr]
      exact List.mem_map_of_mem (List.mem_filter.mpr ⟨hin, hretimed.final.symm.trans hfinal⟩)
  · obtain ⟨heof, hall | hend⟩ := h.last hlast
    · rw [hgo] at hall
      contradiction
    · exact ⟨heof, Or.inr (last_retimed hlist hend)⟩
  · simp only at hstop ⊢
    split at hstop
    · assumption
    · contradiction

theorem Watching.response {w : Watch} (h : Watching w) {bytes_read : Option (List UInt8)} {time : UInt32} {stale : Pkt}
    {s' : Sender} (hs : response_step crc32 w.snd bytes_read time stale = some s') : Watching ⟨s', []⟩ := by
  have hnil : ∀ node ∈ finals [], node.addr ∈ (finals s'.window.linkedList).map Node.addr :=
    fun node hnode => absurd hnode List.not_mem_nil
  obtain ⟨hgo, ⟨_, copybuf, stats, rfl⟩ | ⟨pkt, u, fec, stats, _, hu, _, _, _, rfl⟩⟩ := response_step_cases hs
  · refine ⟨rfl, hnil, fun hlast => ?_, fun hstop => ?_⟩
    · obtain ⟨heof, hall | hend⟩ := h.last hlast
      · rw [hgo] at hall
        contradiction
      · exact ⟨heof, Or.inr hend⟩
    · rw [hgo] at hstop
      contradiction
  have hstate : u.lastRst = 0 ∧ u.stopped = none ∧ (u.lastPkt = true → u.eof_reached = true ∧
      ∃ final ∈ u.window.linkedList.getLast?, isFinal final = true) := by
    rcases updated_cases hu with ⟨_, _, heq⟩ | ⟨_, heq⟩
    · rw [heq]
      refine ⟨rfl, hgo, fun hlast => ?_⟩
      obtain ⟨heof, hall | hend⟩ := h.last hlast
      · rw [hgo] at hall
        contradiction
      · exact ⟨heof, hend⟩
    · rw [heq]
      exact ⟨rfl, hgo, fun hlast => absurd hlast (by decide : ¬ false = true)⟩
  obtain ⟨hrst, hrunning, hlast⟩ := hstate
  have hstop : ∀ {p : Prop} [Decidable p], (if p then some Stop.allAcked else u.stopped) ≠ some .noNews := by
    intro p _
    rw [hrunning]
    split <;> decide
  refine ⟨hrst, hnil, fun hl => ?_, fun hnews => absurd hnews hstop⟩
  obtain ⟨heof, final, hfinal, htrue⟩ := hlast hl
  refine ⟨heof, ?_⟩
  obtain ⟨removed, hremoved⟩ := handled_window_suffix u.window pkt
  rcases List.eq_nil_or_concat' (handled_window u.window pkt).linkedList with hempty | ⟨front, last, hlist⟩
  · -- only an `ACK` removes the final packet
    left
    have hack : pkt_get_type pkt = .ACK := by
      by_contra hne
      rw [handled_window, if_neg hne] at hempty
      rw [hempty] at hfinal
      contradiction
    rw [if_pos ⟨hack, hl, by rw [hempty]; rfl⟩]
  · right
    rw [← hremoved, hlist, ← List.append_assoc, List.getLast?_concat, Option.mem_some_iff] at hfinal
    refine ⟨last, ?_, by rw [hfinal]; exact htrue⟩
    simp only [hlist]
    exact List.getLast?_concat

theorem watch_step_watching {w w' : Watch} (h : Watching w) {a : SenderAction}
    (hs : watch_step crc32 file w a = some w') : Watching w' := by
  obtain ⟨s', hs', rfl⟩ := Option.map_eq_some_iff.mp hs
  cases a with
  | fill time fec_enable => exact h.fill (Option.filter_eq_some_iff.mp hs').1
  | final time => exact h.final hs'
  | resend time => exact h.resend hs'
  | response bytes_read time stale => exact h.response hs'

/-! ## A run without news -/

theorem watch_run {ok : Sender → SenderAction → Prop} {s₀ s : Sender} (h : Reach (sender_step crc32 file) ok s₀ s) :
    ∃ resent, Reach (watch_step crc32 file) (fun _ _ => True) ⟨s₀, []⟩ ⟨s, resent⟩ := by
  induction h with
  | start => exact ⟨_, .start⟩
  | next _ _ hs ih =>
    obtain ⟨resent, hreach⟩ := ih
    exact ⟨_, .next hreach trivial (by rw [watch_step, hs]; rfl)⟩

theorem resent_nodes_expired {time : UInt32} {node : Node} {list : List Node} (hmem : node ∈ list)
    (hold : Expired node time) (k : Nat) :
    ∃ node' ∈ resent_nodes (fun _ => (time, true)) list k, Retimed node node' := by
  induction list generalizing k with
  | nil => exact absurd hmem List.not_mem_nil
  | cons current next ih =>
    have hnext : node ∈ next → ∃ node' ∈ resent_nodes (fun _ => (time, true)) next (k + 1), Retimed node node' :=
      fun hin => ih hin (k + 1)
    unfold resent_nodes
    rcases List.mem_cons.mp hmem with rfl | hin
    · rw [if_pos hold, if_pos rfl]
      exact ⟨_, List.mem_cons_self, _, rfl⟩
    · obtain ⟨node', hin', hretimed⟩ := hnext hin
      refine ⟨node', ?_, hretimed⟩
      split
      · rw [if_pos rfl]
        exact List.mem_cons_of_mem _ hin'
      · exact hin'

theorem retimed_mem {list list' : List Node} (h : List.Forall₂ Retimed list list') {final : Bool}
    (hmem : ∃ node ∈ list, isFinal node = final) : ∃ node ∈ list', isFinal node = final := by
  obtain ⟨node, hnode, heq⟩ := hmem
  obtain ⟨node', hnode', hretimed⟩ := exists_of_forall₂ h hnode
  exact ⟨node', hnode', hretimed.final.trans heq⟩

theorem resend_final {w : Watch} (hgo : w.snd.stopped = none) (hlast : w.snd.lastPkt = true)
    (hfinal : ∃ node ∈ w.snd.window.linkedList, isFinal node = true) :
    ∃ a w', watch_step crc32 file w a = some w' ∧ w'.snd.lastPkt = true ∧
      List.Forall₂ Retimed w.snd.window.linkedList w'.snd.window.linkedList ∧ w.snd.lastRst < w'.snd.lastRst ∧
      w'.snd.stopped = (if w'.snd.lastRst > MAX_RESENT_LAST_PKT then some .noNews else none) := by
  obtain ⟨node, hnode, hfinal⟩ := hfinal
  have hold : Expired node (node.pkt.timestamp + UInt32.ofNat (TIMEOUT + 1)) := by
    have hdiff : node.pkt.timestamp + UInt32.ofNat (TIMEOUT + 1) - node.pkt.timestamp = UInt32.ofNat (TIMEOUT + 1) := by
      rw [UInt32.add_comm, UInt32.add_sub_cancel]
    rw [Expired, pkt_get_timestamp, hdiff]
    decide
  obtain ⟨s', hs⟩ : ∃ s', resent_step crc32 w.snd
      (fun _ => (node.pkt.timestamp + UInt32.ofNat (TIMEOUT + 1), true)) = some s' :=
    ⟨_, if_pos ⟨hgo, List.ne_nil_of_mem hnode⟩⟩
  refine ⟨.resend fun _ => node.pkt.timestamp + UInt32.ofNat (TIMEOUT + 1), ⟨s', _⟩,
    by rw [watch_step, sender_step, hs]; rfl, ?_⟩
  obtain ⟨node', hnode', hretimed⟩ := resent_nodes_expired hnode hold 0
  obtain ⟨_, _, copybuf, stats, sent, io_error, list, hlist, rfl⟩ := resent_step_eq hs
  have hpos : 0 < ((resent_nodes (fun _ => (node.pkt.timestamp + UInt32.ofNat (TIMEOUT + 1), true))
      w.snd.window.linkedList 0).filter isFinal).length :=
    List.length_pos_of_mem (List.mem_filter.mpr ⟨hnode', hretimed.final.trans hfinal⟩)
  refine ⟨hlast, hlist, by simp only; omega, ?_⟩
  simp only [hlast, true_and]

theorem resend_until (n : Nat) {w : Watch} (hgo : w.snd.stopped = none) (hlast : w.snd.lastPkt = true)
    (hfinal : ∃ node ∈ w.snd.window.linkedList, isFinal node = true) (hn : MAX_RESENT_LAST_PKT ≤ w.snd.lastRst + n) :
    ∃ w', Reach (watch_step crc32 file) (fun _ _ => True) w w' ∧ w'.snd.stopped = some .noNews ∧
      ((∃ node ∈ w.snd.window.linkedList, isFinal node = false) →
        ∃ node ∈ w'.snd.window.linkedList, isFinal node = false) := by
  induction n generalizing w with
  | zero =>
    obtain ⟨a, w', hs, _, hlist, hlt, hstop⟩ := resend_final hgo hlast hfinal
    exact ⟨w', .next .start trivial hs, by rw [hstop, if_pos (by omega)], retimed_mem hlist⟩
  | succ n ih =>
    obtain ⟨a, w', hs, hlast', hlist, hlt, hstop⟩ := resend_final hgo hlast hfinal
    by_cases henough : w'.snd.lastRst > MAX_RESENT_LAST_PKT
    · exact ⟨w', .next .start trivial hs, by rw [hstop, if_pos henough], retimed_mem hlist⟩
    · obtain ⟨w'', hreach, hstop', hdata⟩ :=
        ih (by rw [hstop, if_neg henough]) hlast' (retimed_mem hlist hfinal) (by omega)
      exact ⟨w'', (Reach.next .start trivial hs).trans hreach, hstop', fun h => hdata (retimed_mem hlist h)⟩

/-- With the window 2, the byte of the file and the final packet are in the list when the loop ends. -/
theorem gives_up (copybuf : Mem) :
    ∃ w, Reach (watch_step crc32 [7]) (fun _ _ => True) ⟨.initial copybuf, []⟩ w ∧ w.snd.stopped = some .noNews ∧
      ∃ node ∈ w.snd.window.linkedList, isFinal node = false := by
  have hrun : (run (Protocol.Sender.step (chunkCount [7])) (fun _ _ => True) [.respond false 0 2 0, .fill, .final]
      .initial).any
        (fun t => decide (t.window.linkedList = [.chunk 0, .final 1 1] ∧ t.lastPkt = true ∧ t.stopped = false)) =
      true := by
    decide
  obtain ⟨t, hreach, ht⟩ := reach_of_run hrun
  obtain ⟨hlist, hlast, hgo⟩ := of_decide_eq_true ht
  obtain ⟨s, hrel, hs⟩ := sender_run_of_protocol (fun _ _ _ _ _ _ _ => trivial) copybuf hreach
  obtain ⟨resent, hw⟩ : ∃ resent, Reach (watch_step crc32 [7]) (fun _ _ => True) ⟨.initial copybuf, []⟩ ⟨s, resent⟩ :=
    watch_run hs
  have hnodes : ∃ chunk final, s.window.linkedList = [chunk, final] ∧ isFinal chunk = false ∧ isFinal final = true := by
    have hwindow := hrel.window.list
    rw [hlist] at hwindow
    obtain ⟨chunk, l, hchunk, hl, heq⟩ := List.forall₂_cons_right_iff.mp hwindow
    obtain ⟨final, l', hfinal, hl', rfl⟩ := List.forall₂_cons_right_iff.mp hl
    rw [List.forall₂_nil_right_iff.mp hl'] at heq
    exact ⟨chunk, final, heq, (nodeCarries_alike _).final hchunk, (nodeCarries_alike _).final hfinal⟩
  obtain ⟨chunk, final, heq, hchunk, hfinal⟩ := hnodes
  have hdata : ∃ node ∈ s.window.linkedList, isFinal node = false := ⟨chunk, by rw [heq]; simp, hchunk⟩
  by_cases hnews : s.stopped = some .noNews
  · exact ⟨_, hw, hnews, hdata⟩
  · obtain ⟨w, hreach', hstop, hkeep⟩ := resend_until (w := ⟨s, resent⟩)
      MAX_RESENT_LAST_PKT (hrel.going_of hgo hnews) (hrel.lastPkt.trans hlast)
      ⟨final, by rw [heq]; simp, hfinal⟩ (Nat.le_add_left _ _)
    exact ⟨w, hw.trans hreach', hstop, hkeep hdata⟩

/-! ## The runs -/

/-- When the loop ends without news, the final packet is the last of the list, and packets of length 0 were written
again five times since the last datagram. -/
theorem give_up {copybuf : Mem} {w : Watch}
    (h : Reach (watch_step crc32 file) (fun _ _ => True) ⟨.initial copybuf, []⟩ w)
    (hstop : w.snd.stopped = some .noNews) : GaveUp w :=
  (h.invariant (watching_initial copybuf) fun _ _ _ hw _ hs => watch_step_watching hw hs).gaveUp hstop

theorem give_up_one_byte :
    ∃ w, Reach (watch_step zlib_crc32 [7]) (fun _ _ => True) ⟨.initial fun _ => 0, []⟩ w ∧
      w.snd.stopped = some .noNews ∧ GaveUp w := by
  generalize zlib_crc32 = crc32
  obtain ⟨w, hw, hstop, _⟩ := gives_up fun _ => 0
  exact ⟨w, hw, hstop, give_up hw hstop⟩

/-- The byte of the file was not acknowledged. -/
theorem data_given_up :
    ∃ w, Reach (watch_step zlib_crc32 [7]) (fun _ _ => True) ⟨.initial fun _ => 0, []⟩ w ∧
      w.snd.stopped = some .noNews ∧ ∃ node ∈ w.snd.window.linkedList, isFinal node = false :=
  gives_up fun _ => 0

/-- The window goes down to 2 and up again, and a second final packet is sent. Three timeouts are enough then. -/
def twiceRun : List SenderAction :=
  [.response (some (pkt_bytes zlib_crc32 (responsePkt false 0 3))) 0 pkt_new, .fill (fun _ => 0) false, .final 0,
    .response (some (pkt_bytes zlib_crc32 (responsePkt false 0 2))) 0 pkt_new,
    .response (some (pkt_bytes zlib_crc32 (responsePkt false 0 3))) 0 pkt_new, .fill (fun _ => 0) false, .final 0,
    .resend fun _ => 3000, .resend fun _ => 6000, .resend fun _ => 9000]

/-- Each of the two final packets was written again three times. -/
theorem twice_given_up :
    ∃ w, Reach (watch_step zlib_crc32 [7]) (fun _ _ => True) ⟨.initial fun _ => 0, []⟩ w ∧
      w.snd.stopped = some .noNews ∧ (finals w.snd.window.linkedList).length = 2 ∧
      ∀ final ∈ finals w.snd.window.linkedList, (w.resent.countP fun node => node.addr = final.addr) = 3 := by
  have hdone : (run (watch_step zlib_crc32 [7]) (fun _ _ => True) twiceRun ⟨.initial fun _ => 0, []⟩).any
      (fun w => w.snd.stopped = some .noNews ∧ (finals w.snd.window.linkedList).length = 2 ∧
        ∀ final ∈ finals w.snd.window.linkedList, (w.resent.countP fun node => node.addr = final.addr) = 3) = true := by
    decide +kernel
  obtain ⟨w, hrun, hw⟩ := (Option.any_eq_true _ _).mp hdone
  exact ⟨w, run_reach hrun, of_decide_eq_true hw⟩

end Trtp
