import Trtp.Sender.Loop

/-!
# The end of the transfer

`lastPkt` against what becomes of the final packets.
-/

open Trtp.Lib

namespace Trtp

variable (crc32 : List UInt8 → UInt32)

/-- The sender, with the final packets that were appended and the packets that `ack_window` removed. -/
structure Finals where
  snd : Sender
  appended : List Nat
  acked : List Nat

def appended_final (s : Sender) : SenderCall → List Nat
  | .final _ write => if write then [s.allocated] else []
  | _ => []

/-- `ack_window` removes from the front what `update_window` has left. -/
def acked_nodes (s : Sender) : SenderCall → List Nat
  | .response bytes_read _ stale =>
    match incoming crc32 s bytes_read with
    | some pkt =>
      let u := (update_window { s with copybuf := readInto bytes_read s.copybuf, lastRst := 0 } (pkt_get_window pkt)
        stale).2
      (u.window.linkedList.take
        (u.window.linkedList.length - (handled_window u.window pkt).linkedList.length)).map Node.addr
    | none => []
  | _ => []

def finals_step (f : Finals) (a : SenderCall) : Option Finals :=
  (call_step crc32 f.snd a).map fun snd =>
    ⟨snd, f.appended ++ appended_final f.snd a, f.acked ++ acked_nodes crc32 f.snd a⟩

/-- A final packet is in the list or was acknowledged there. -/
def FinalSent (f : Finals) : Prop :=
  ∃ addr ∈ f.appended, (∃ node ∈ f.snd.window.linkedList, node.addr = addr) ∨ addr ∈ f.acked

structure FlagRight (f : Finals) : Prop where
  flag : f.snd.lastPkt = true ↔ FinalSent f
  one : (f.snd.window.linkedList.filter isFinal).length ≤ 1

/-- `pread` gives what it was asked for, nothing is stored outside `fec->pkts`, the final packet is written, and a
smaller window leaves no packet of length 0 in the list. -/
def EndSafe (s : Sender) : SenderCall → Prop
  | .fill io fec_enable =>
    (∃ d, io.pread (chunkOffset s.global_pkt) = some d ∧ d.length ≤ MAX_PAYLOAD_SIZE) ∧ ¬ Overruns s io fec_enable
  | .final _ write => write = true
  | .resend _ => True
  | .response bytes_read _ _ => ∀ pkt ∈ incoming crc32 s bytes_read,
      Protocol.Shrinks s.window (pkt_get_window pkt).toNat →
        ∀ node ∈ s.window.linkedList.take (pkt_get_window pkt).toNat, isFinal node = false

variable {crc32}

/-! ## The invariant -/

/-- The list ends with the only final packet, or all is acknowledged. -/
def Closed (list : List (Nat × Bool)) (appended acked : List Nat) (stopped : Option Stop) : Prop :=
  (∃ data addr, list = data ++ [(addr, true)] ∧ (∀ tag ∈ data, tag.2 = false) ∧ ∀ a ∈ appended, a ∉ acked) ∨
    list = [] ∧ stopped ≠ none ∧ ∃ a ∈ appended, a ∈ acked

structure Ending (f : Finals) : Prop where
  appended : ∀ a ∈ f.appended, a < f.snd.allocated
  acked : ∀ a ∈ f.acked, a < f.snd.allocated
  listed : ∀ tag ∈ tags f.snd.window.linkedList, tag.1 < f.snd.allocated
  finals : ∀ tag ∈ tags f.snd.window.linkedList, tag.2 = true ↔ tag.1 ∈ f.appended
  going : f.snd.lastPkt = false →
    (∀ tag ∈ tags f.snd.window.linkedList, tag.2 = false) ∧ ∀ a ∈ f.appended, a ∉ f.acked
  closed : f.snd.lastPkt = true →
    f.snd.eof_reached = true ∧ Closed (tags f.snd.window.linkedList) f.appended f.acked f.snd.stopped

theorem filter_isFinal_length (list : List Node) :
    (list.filter isFinal).length = ((tags list).filter (·.2)).length := by
  unfold tags
  rw [List.filter_map, List.length_map]
  rfl

theorem Ending.flagRight {f : Finals} (h : Ending f) : FlagRight f := by
  have hmem : ∀ node ∈ f.snd.window.linkedList, (node.addr, isFinal node) ∈ tags f.snd.window.linkedList :=
    fun node hnode => List.mem_map_of_mem hnode
  cases hlast : f.snd.lastPkt with
  | false =>
    obtain ⟨hdata, hnone⟩ := h.going hlast
    refine ⟨⟨fun htrue => absurd (hlast.symm.trans htrue) (by decide), ?_⟩, ?_⟩
    · rintro ⟨a, ha, ⟨node, hnode, rfl⟩ | hacked⟩
      · have htag := hmem node hnode
        have hfinal := (h.finals _ htag).mpr ha
        rw [hdata _ htag] at hfinal
        contradiction
      · exact absurd hacked (hnone a ha)
    · rw [filter_isFinal_length, List.filter_eq_nil_iff.mpr fun tag htag => by simp [hdata tag htag]]
      exact Nat.zero_le 1
  | true =>
    rcases (h.closed hlast).2 with ⟨data, addr, hlist, hdata, _⟩ | ⟨hnil, _, a, ha, hacked⟩
    · refine ⟨⟨fun _ => ⟨addr, ?_, Or.inl ?_⟩, fun _ => hlast⟩, ?_⟩
      · exact (h.finals (addr, true) (by rw [hlist]; simp)).mp rfl
      · have haddr : (addr, true) ∈ tags f.snd.window.linkedList := by rw [hlist]; simp
        obtain ⟨node, hnode, heq⟩ := List.mem_map.mp haddr
        exact ⟨node, hnode, congrArg Prod.fst heq⟩
      · rw [filter_isFinal_length, hlist, List.filter_append,
          List.filter_eq_nil_iff.mpr fun tag htag => by simp [hdata tag htag]]
        exact Nat.le_refl 1
    · refine ⟨⟨fun _ => ⟨a, ha, Or.inr hacked⟩, fun _ => hlast⟩, ?_⟩
      rw [filter_isFinal_length, hnil]
      exact Nat.zero_le 1

theorem ending_initial (copybuf : Mem) : Ending ⟨.initial copybuf, [], []⟩ :=
  ⟨by simp, by simp, by simp [tags, Sender.initial, Window.initial], by simp [tags, Sender.initial, Window.initial],
    fun _ => ⟨by simp [tags, Sender.initial, Window.initial], by simp⟩, fun h => absurd h (by decide : ¬ false = true)⟩

/-! ## The calls -/

theorem Ending.push {f : Finals} {s' : Sender} {node : Node} (h : Ending f) (hlast : f.snd.lastPkt = false)
    (hlist : s'.window.linkedList = f.snd.window.linkedList ++ [node]) (haddr : node.addr = f.snd.allocated)
    (hdata : isFinal node = false) (hlast' : s'.lastPkt = false) (halloc : s'.allocated = f.snd.allocated + 1) :
    Ending ⟨s', f.appended, f.acked⟩ := by
  have hmem : ∀ tag, tag ∈ tags s'.window.linkedList ↔
      tag ∈ tags f.snd.window.linkedList ∨ tag = (f.snd.allocated, false) := by
    intro tag
    rw [hlist, tags_append, List.mem_append, ← haddr, ← hdata]
    simp [tags]
  obtain ⟨hall, hnone⟩ := h.going hlast
  refine ⟨?_, ?_, ?_, ?_, fun _ => ⟨?_, hnone⟩, fun htrue => absurd (hlast'.symm.trans htrue) (by decide)⟩
  · intro a ha
    have := h.appended a ha
    simp only [halloc]
    omega
  · intro a ha
    have := h.acked a ha
    simp only [halloc]
    omega
  · intro tag htag
    simp only [halloc]
    rcases (hmem tag).mp htag with hold | rfl
    · have := h.listed tag hold
      omega
    · exact Nat.lt_succ_self _
  · intro tag htag
    rcases (hmem tag).mp htag with hold | rfl
    · exact h.finals tag hold
    · simp only [Bool.false_eq_true, false_iff]
      intro hin
      exact absurd (h.appended _ hin) (Nat.lt_irrefl _)
  · intro tag htag
    rcases (hmem tag).mp htag with hold | rfl
    · exact hall tag hold
    · rfl

theorem Ending.fill {f : Finals} (h : Ending f) {io : FillIO} {fec_enable : Bool} {s' : Sender}
    (hok : EndSafe crc32 f.snd (.fill io fec_enable)) (hs : turn_step crc32 f.snd io fec_enable = some s') :
    Ending ⟨s', f.appended, f.acked⟩ := by
  obtain ⟨⟨d, hd, hle⟩, _⟩ := hok
  obtain ⟨_, heof, _, hcases⟩ := turn_step_cases hs
  have hlast : f.snd.lastPkt = false := by
    cases hlast : f.snd.lastPkt with
    | false => rfl
    | true => exact absurd ((h.closed hlast).1.symm.trans heof) (by decide)
  rcases hcases with ⟨_, rfl⟩ | ⟨hne, copybuf, stats, sent, io_error, rfl⟩
  · exact ⟨h.appended, h.acked, h.listed, h.finals, h.going, fun htrue => absurd (hlast.symm.trans htrue) (by decide)⟩
  · exact h.push hlast rfl rfl (turn_node_isFinal hd (fun hnil => hne (by rw [hd, hnil])) hle) hlast rfl

theorem Ending.final {f : Finals} (h : Ending f) {time : UInt32} {write : Bool} {s' : Sender}
    (hok : EndSafe crc32 f.snd (.final time write)) (hs : final_step crc32 f.snd time write = some s') :
    Ending ⟨s', f.appended ++ appended_final f.snd (.final time write), f.acked⟩ := by
  obtain rfl : write = true := hok
  obtain ⟨_, hlast, heof, _, copybuf, stats, sent, io_error, allocated, rfl, rfl⟩ := final_step_eq hs
  obtain ⟨hall, hnone⟩ := h.going hlast
  have htags : tags (f.snd.window.linkedList ++ [final_node f.snd time]) =
      tags f.snd.window.linkedList ++ [(f.snd.allocated, true)] := by
    rw [tags_append, ← final_node_isFinal f.snd time]
    rfl
  simp only [appended_final, if_true]
  refine ⟨?_, ?_, ?_, ?_, fun hfalse => absurd hfalse (by decide : ¬ true = false),
    fun _ => ⟨heof, Or.inl ⟨_, _, htags, hall, ?_⟩⟩⟩
  · intro a ha
    rcases List.mem_append.mp ha with hold | hnew
    · have := h.appended a hold
      simp only
      omega
    · rw [List.mem_singleton.mp hnew]
      exact Nat.lt_succ_self _
  · intro a ha
    have := h.acked a ha
    simp only
    omega
  · simp only [htags]
    intro tag htag
    rcases List.mem_append.mp htag with hold | hnew
    · have := h.listed tag hold
      omega
    · rw [List.mem_singleton.mp hnew]
      exact Nat.lt_succ_self _
  · simp only [htags]
    intro tag htag
    rcases List.mem_append.mp htag with hold | hnew
    · rw [h.finals tag hold, List.mem_append, List.mem_singleton]
      -- the address of the new packet is new
      have hlt := h.listed tag hold
      exact ⟨Or.inl, fun hin => hin.resolve_right fun heq => by omega⟩
    · rw [List.mem_singleton.mp hnew]
      simp
  · intro a ha hacked
    rcases List.mem_append.mp ha with hold | hnew
    · exact hnone a hold hacked
    · rw [List.mem_singleton.mp hnew] at hacked
      exact absurd (h.acked _ hacked) (Nat.lt_irrefl _)

theorem Ending.resend {f : Finals} (h : Ending f) {io : Nat → UInt32 × Bool} {s' : Sender}
    (hs : resent_step crc32 f.snd io = some s') : Ending ⟨s', f.appended, f.acked⟩ := by
  obtain ⟨hgo, _, copybuf, stats, sent, io_error, list, hlist, rfl⟩ := resent_step_eq hs
  have htags := Retimed.tags hlist
  refine ⟨h.appended, h.acked, ?_, ?_, ?_, ?_⟩
  · simp only [htags]
    exact h.listed
  · simp only [htags]
    exact h.finals
  · simp only [htags]
    exact h.going
  · simp only [htags]
    intro hlast
    obtain ⟨heof, hclosed⟩ := h.closed hlast
    exact ⟨heof, hclosed.imp_right fun hall => absurd hgo hall.2.1⟩

theorem Ending.not_acked {f : Finals} (h : Ending f) (hgo : f.snd.stopped = none) : ∀ a ∈ f.appended, a ∉ f.acked := by
  cases hlast : f.snd.lastPkt with
  | false => exact (h.going hlast).2
  | true =>
    rcases (h.closed hlast).2 with ⟨_, _, _, _, hnone⟩ | ⟨_, hstopped, _⟩
    · exact hnone
    · exact absurd hgo hstopped

/-- A smaller window that leaves no final packet in the list. -/
theorem Ending.shrink {f : Finals} {u : Sender} {size : Nat} (h : Ending f) (hgo : f.snd.stopped = none)
    (hdata : ∀ node ∈ f.snd.window.linkedList.take size, isFinal node = false)
    (hlist : u.window.linkedList = f.snd.window.linkedList.take size) (hlast : u.lastPkt = false)
    (halloc : u.allocated = f.snd.allocated) : Ending ⟨u, f.appended, f.acked⟩ := by
  have hmem : ∀ tag ∈ tags u.window.linkedList, tag ∈ tags f.snd.window.linkedList ∧ tag.2 = false := by
    intro tag htag
    rw [hlist] at htag
    obtain ⟨node, hnode, rfl⟩ := List.mem_map.mp htag
    exact ⟨List.mem_map_of_mem (List.mem_of_mem_take hnode), hdata node hnode⟩
  refine ⟨?_, ?_, ?_, ?_, fun _ => ⟨fun tag htag => (hmem tag htag).2, h.not_acked hgo⟩,
    fun htrue => absurd (hlast.symm.trans htrue) (by decide)⟩
  · simp only [halloc]
    exact h.appended
  · simp only [halloc]
    exact h.acked
  · simp only [halloc]
    exact fun tag htag => h.listed tag (hmem tag htag).1
  · exact fun tag htag => h.finals tag (hmem tag htag).1

/-- No final packet is acknowledged as long as those that are removed have data. -/
theorem Ending.keeps_unacked {f : Finals} (h : Ending f) (hgo : f.snd.stopped = none) {removed : List Node}
    (hold : ∀ tag ∈ tags removed, tag ∈ tags f.snd.window.linkedList) (hdata : ∀ tag ∈ tags removed, tag.2 = false) :
    ∀ a ∈ f.appended, a ∉ f.acked ++ removed.map Node.addr := by
  intro a ha hin
  rcases List.mem_append.mp hin with hacked | hrm
  · exact h.not_acked hgo a ha hacked
  · obtain ⟨node, hnode, rfl⟩ := List.mem_map.mp hrm
    have htag : (node.addr, isFinal node) ∈ tags removed := List.mem_map_of_mem hnode
    have hfinal := (h.finals _ (hold _ htag)).mpr ha
    rw [hdata _ htag] at hfinal
    contradiction

/-- The final packet is removed only with the whole list. -/
theorem Ending.split_closed {f : Finals} (h : Ending f) (hgo : f.snd.stopped = none) (hlast : f.snd.lastPkt = true)
    {removed rest : List Node} (hlist : removed ++ rest = f.snd.window.linkedList) :
    (rest = [] ∧ ∃ a ∈ f.appended, a ∈ removed.map Node.addr) ∨
      (∃ data addr, tags rest = data ++ [(addr, true)] ∧ ∀ tag ∈ data, tag.2 = false) ∧
        ∀ tag ∈ tags removed, tag.2 = false := by
  obtain ⟨data, addr, hclosed, hdata, _⟩ := (h.closed hlast).2.resolve_right fun hall => absurd hgo hall.2.1
  have htags : tags removed ++ tags rest = data ++ [(addr, true)] := by rw [← tags_append, hlist, hclosed]
  rcases List.eq_nil_or_concat' (tags rest) with hnil | ⟨data', last, hconcat⟩
  · left
    rw [hnil, List.append_nil] at htags
    have htag : (addr, true) ∈ tags removed := by
      rw [htags]
      exact List.mem_concat_self
    obtain ⟨node, hnode, heq⟩ := List.mem_map.mp htag
    refine ⟨List.map_eq_nil_iff.mp hnil, addr, (h.finals (addr, true) ?_).mp rfl,
      List.mem_map.mpr ⟨node, hnode, congrArg Prod.fst heq⟩⟩
    rw [hclosed]
    exact List.mem_concat_self
  · right
    rw [hconcat, ← List.append_assoc] at htags
    obtain ⟨hpre, hfinal⟩ := List.append_inj' htags rfl
    rw [hconcat, hfinal]
    refine ⟨⟨data', addr, rfl, fun tag htag => hdata tag ?_⟩, fun tag htag => hdata tag ?_⟩
    · rw [← hpre]
      exact List.mem_append_right _ htag
    · rw [← hpre]
      exact List.mem_append_left _ htag

/-- When the final packet is removed the loop ends. -/
theorem Ending.handled {f : Finals} {s' : Sender} {pkt : Pkt} (h : Ending f) (hgo : f.snd.stopped = none)
    (hwindow : s'.window = handled_window f.snd.window pkt) (hlast : s'.lastPkt = f.snd.lastPkt)
    (heof : s'.eof_reached = f.snd.eof_reached) (halloc : s'.allocated = f.snd.allocated)
    (hstop : s'.stopped =
      if pkt_get_type pkt = .ACK ∧ f.snd.lastPkt ∧ (handled_window f.snd.window pkt).linkedList.isEmpty then
        some .allAcked
      else f.snd.stopped) :
    Ending ⟨s', f.appended, f.acked ++ (f.snd.window.linkedList.take
      (f.snd.window.linkedList.length - (handled_window f.snd.window pkt).linkedList.length)).map Node.addr⟩ := by
  obtain ⟨removed, hremoved⟩ := handled_window_suffix f.snd.window pkt
  have htake : f.snd.window.linkedList.take
      (f.snd.window.linkedList.length - (handled_window f.snd.window pkt).linkedList.length) = removed := by
    rw [← hremoved, List.length_append, Nat.add_sub_cancel, List.take_left']
    rfl
  rw [htake]
  rw [← hwindow] at hremoved hstop
  have htags : tags f.snd.window.linkedList = tags removed ++ tags s'.window.linkedList := by
    rw [← tags_append, hremoved]
  have hold : ∀ tag ∈ tags removed, tag ∈ tags f.snd.window.linkedList := fun tag htag => by
    rw [htags]
    exact List.mem_append_left _ htag
  have hnew : ∀ tag ∈ tags s'.window.linkedList, tag ∈ tags f.snd.window.linkedList := fun tag htag => by
    rw [htags]
    exact List.mem_append_right _ htag
  refine ⟨?_, ?_, ?_, fun tag htag => h.finals tag (hnew tag htag), ?_, ?_⟩
  · simp only [halloc]
    exact h.appended
  · simp only [halloc]
    intro a ha
    rcases List.mem_append.mp ha with hacked | hrm
    · exact h.acked a hacked
    · obtain ⟨node, hnode, rfl⟩ := List.mem_map.mp hrm
      exact h.listed (node.addr, isFinal node) (hold _ (List.mem_map_of_mem hnode))
  · simp only [halloc]
    exact fun tag htag => h.listed tag (hnew tag htag)
  · intro hfalse
    obtain ⟨hdata, _⟩ := h.going (hlast.symm.trans hfalse)
    exact ⟨fun tag htag => hdata tag (hnew tag htag),
      h.keeps_unacked hgo hold fun tag htag => hdata tag (hold tag htag)⟩
  · intro htrue
    have hlast' := hlast.symm.trans htrue
    refine ⟨heof.trans (h.closed hlast').1, ?_⟩
    rcases h.split_closed hgo hlast' hremoved with ⟨hnil, a, ha, hrm⟩ | ⟨⟨data, addr, hrest, hdata⟩, hrm⟩
    · -- only an `ACK` removes packets
      have hack : pkt_get_type pkt = .ACK := by
        by_contra hne
        rw [hwindow, handled_window, if_neg hne] at hnil
        rw [hnil, List.append_eq_nil_iff] at hremoved
        rw [hremoved.1] at hrm
        contradiction
      refine Or.inr ⟨by rw [hnil]; rfl, ?_, a, ha, List.mem_append_right _ hrm⟩
      simp only [hstop]
      rw [if_pos ⟨hack, hlast', by rw [hnil]; rfl⟩]
      simp
    · exact Or.inl ⟨data, addr, hrest, hdata, h.keeps_unacked hgo hold hrm⟩

theorem Ending.response {f : Finals} (h : Ending f) {bytes_read : Option (List UInt8)} {time : UInt32} {stale : Pkt}
    {s' : Sender} (hok : EndSafe crc32 f.snd (.response bytes_read time stale))
    (hs : response_step crc32 f.snd bytes_read time stale = some s') :
    Ending ⟨s', f.appended, f.acked ++ acked_nodes crc32 f.snd (.response bytes_read time stale)⟩ := by
  obtain ⟨hgo, ⟨hi, copybuf, stats, rfl⟩ | ⟨pkt, u, fec, stats, hi, hu, _, _, _, rfl⟩⟩ := response_step_cases hs
  · simp only [acked_nodes, hi, List.append_nil]
    exact ⟨h.appended, h.acked, h.listed, h.finals, h.going, h.closed⟩
  simp only [acked_nodes, hi, hu]
  have hstep : Ending ⟨u, f.appended, f.acked⟩ ∧ u.stopped = none := by
    rcases updated_cases hu with ⟨_, _, heq⟩ | ⟨hshrink, heq⟩
    · rw [heq]
      exact ⟨⟨h.appended, h.acked, h.listed, h.finals, h.going, h.closed⟩, hgo⟩
    · rw [heq]
      exact ⟨h.shrink hgo (hok pkt hi hshrink) (Protocol.shrink_window_linkedList ..) rfl rfl, hgo⟩
  exact hstep.1.handled hstep.2 rfl rfl rfl rfl rfl

theorem finals_step_ending {f f' : Finals} (h : Ending f) {a : SenderCall} (hok : EndSafe crc32 f.snd a)
    (hs : finals_step crc32 f a = some f') : Ending f' := by
  obtain ⟨s', hs', rfl⟩ := Option.map_eq_some_iff.mp hs
  cases a with
  | fill io fec_enable =>
    simp only [appended_final, acked_nodes, List.append_nil]
    exact h.fill hok hs'
  | final time write =>
    simp only [acked_nodes, List.append_nil]
    exact h.final hok hs'
  | resend io =>
    simp only [appended_final, acked_nodes, List.append_nil]
    exact h.resend hs'
  | response bytes_read time stale =>
    simp only [appended_final, List.append_nil]
    exact h.response hok hs'

/-! ## The runs -/

/-- The flag is right as long as no store is outside `fec->pkts`, the final packet is written and no smaller window
leaves it in the list. -/
theorem last_pkt_flag {copybuf : Mem} {f : Finals}
    (h : Reach (finals_step crc32) (fun f a => EndSafe crc32 f.snd a) ⟨.initial copybuf, [], []⟩ f) : FlagRight f :=
  Ending.flagRight <|
    h.invariant (P := Ending) (ending_initial copybuf) fun _ _ _ hf hok hs => finals_step_ending hf hok hs

/-- An empty file: the final packet is sent at once. -/
theorem last_pkt_flag_empty :
    ∃ f, Reach (finals_step zlib_crc32) (fun f a => EndSafe zlib_crc32 f.snd a) ⟨.initial fun _ => 0, [], []⟩ f ∧
      f.snd.lastPkt = true ∧ FlagRight f := by
  generalize zlib_crc32 = crc32
  obtain ⟨s₁, hs₁⟩ : ∃ s₁, turn_step crc32 (.initial fun _ => 0) ⟨fun _ => some [], 0, true, true⟩ false = some s₁ :=
    ⟨_, if_pos ⟨rfl, rfl, by decide⟩⟩
  have h₁ : Reach (finals_step crc32) (fun f a => EndSafe crc32 f.snd a) ⟨.initial fun _ => 0, [], []⟩ ⟨s₁, [], []⟩ :=
    .next .start (a := .fill ⟨fun _ => some [], 0, true, true⟩ false)
      ⟨⟨[], rfl, Nat.zero_le _⟩, fun hover => Bool.false_ne_true hover.1⟩ (by
      rw [finals_step, call_step, hs₁]
      rfl)
  obtain ⟨_, _, _, ⟨_, rfl⟩ | ⟨hne, _⟩⟩ := turn_step_cases hs₁
  swap
  · exact absurd rfl hne
  obtain ⟨s₂, hs₂⟩ : ∃ s₂, final_step crc32 { Sender.initial (fun _ => 0) with eof_reached := true } 0 true = some s₂ :=
    ⟨_, if_pos ⟨rfl, rfl, rfl, by decide⟩⟩
  have h₂ : Reach (finals_step crc32) (fun f a => EndSafe crc32 f.snd a) ⟨.initial fun _ => 0, [], []⟩
      ⟨s₂, [0], []⟩ :=
    .next h₁ (a := .final 0 true) rfl (by
      rw [finals_step, call_step, hs₂]
      rfl)
  refine ⟨_, h₂, ?_, last_pkt_flag h₂⟩
  obtain ⟨_, _, _, _, _, _, _, _, _, rfl, _⟩ := final_step_eq hs₂
  rfl

/-- With the window 2, the byte of the file is sent and the write of the final packet fails. -/
theorem failed_final_flag :
    ∃ f, Reach (finals_step zlib_crc32) (fun _ _ => True) ⟨.initial fun _ => 0, [], []⟩ f ∧
      f.snd.stopped = none ∧ ¬ FlagRight f := by
  generalize zlib_crc32 = crc32
  obtain ⟨_, s₁, hs₁, buf₁, stats₁, heq₁⟩ := nack_grows crc32 (s := .initial fun _ => 0) rfl 2 (by decide) (by decide)
    (by decide : 1 ≤ 2) 0
  obtain ⟨s₂, hs₂⟩ : ∃ s₂, turn_step crc32 s₁ (fileCalls [7] (fun _ => 0) 0) false = some s₂ := by
    rw [heq₁]
    exact ⟨_, if_pos ⟨rfl, rfl, (by decide : 0 < 2)⟩⟩
  obtain ⟨_, _, _, ⟨hend, _⟩ | ⟨_, buf₂, stats₂, sent₂, io₂, heq₂⟩⟩ := turn_step_cases hs₂
  · rw [heq₁] at hend
    exact absurd hend (by decide : filePread [7] (chunkOffset 0) ≠ some [])
  obtain ⟨s₃, hs₃⟩ : ∃ s₃, turn_step crc32 s₂ (fileCalls [7] (fun _ => 0) 1) false = some s₃ := by
    rw [heq₂, heq₁]
    exact ⟨_, if_pos ⟨rfl, rfl, (by decide : 1 < 2)⟩⟩
  obtain ⟨_, _, _, ⟨_, heq₃⟩ | ⟨hne, _⟩⟩ := turn_step_cases hs₃
  swap
  · have hcount : s₂.global_pkt = 1 := by
      rw [heq₂, heq₁]
      rfl
    rw [hcount] at hne
    exact absurd (by decide : filePread [7] (chunkOffset 1) = some []) hne
  obtain ⟨s₄, hs₄⟩ : ∃ s₄, final_step crc32 s₃ 0 false = some s₄ := by
    rw [heq₃, heq₂, heq₁]
    exact ⟨_, if_pos ⟨rfl, rfl, rfl, (by decide : 1 < 2)⟩⟩
  obtain ⟨_, _, _, _, buf₄, stats₄, sent₄, io₄, allocated, heq₄, _⟩ := final_step_eq hs₄
  obtain ⟨s₅, hs₅⟩ : ∃ s₅, resent_step crc32 s₄ (fun _ => (0, true)) = some s₅ := by
    rw [heq₄, heq₃, heq₂, heq₁]
    exact ⟨_, if_pos ⟨rfl, List.cons_ne_nil _ _⟩⟩
  obtain ⟨_, _, _, _, _, _, list, _, heq₅⟩ := resent_step_eq hs₅
  obtain ⟨acked, hrun⟩ : ∃ acked, Reach (finals_step crc32) (fun _ _ => True) ⟨.initial fun _ => 0, [], []⟩
      ⟨s₅, [], acked⟩ :=
    ⟨_, .next (.next (.next (.next (.next .start
      trivial (a := .response _ 0 pkt_new) (by rw [finals_step, call_step, hs₁]; rfl))
      trivial (a := .fill (fileCalls [7] (fun _ => 0) 0) false) (by rw [finals_step, call_step, hs₂]; rfl))
      trivial (a := .fill (fileCalls [7] (fun _ => 0) 1) false) (by rw [finals_step, call_step, hs₃]; rfl))
      trivial (a := .final 0 false) (by rw [finals_step, call_step, hs₄]; rfl))
      trivial (a := .resend fun _ => (0, true)) (by rw [finals_step, call_step, hs₅]; rfl)⟩
  refine ⟨_, hrun, ?_, fun hright => ?_⟩
  · have hlist : s₄.window.linkedList.length = 1 := by
      rw [heq₄, heq₃, heq₂, heq₁]
      rfl
    have hrst : s₄.lastRst = 0 := by
      rw [heq₄, heq₃, heq₂, heq₁]
    have hle := (List.length_filter_le isFinal _).trans
      (resent_nodes_length (fun _ => (0, true)) s₄.window.linkedList 0)
    rw [hlist] at hle
    simp only [heq₅]
    rw [if_neg fun hstop => absurd hstop.2 (by rw [hrst, MAX_RESENT_LAST_PKT]; omega)]
  · obtain ⟨a, ha, _⟩ := hright.flag.mp (by rw [heq₅, heq₄])
    exact absurd ha List.not_mem_nil

end Trtp
