import Trtp.Refine.Network
import Trtp.Protocol.EmptyFile

/-!
# The transfer

What the receiver writes is a beginning of the file, and the file once it is done.
-/

open Trtp.Lib

namespace Trtp

open Protocol (Item EndsInData TransferSafe Numbering Delivered EmptyFile)

variable (crc32 : List UInt8 → UInt32)

/-! ## What is asked of the events -/

/-- The chunk is less than 128 away from what is written. -/
def Near (s : System) (segment : Segment) : Prop :=
  ∀ k ∈ segment.chunk, s.rcv.stdout.length < k + 128 ∧ k < s.rcv.stdout.length + 128

/-- No `DATA` packet is delivered too far from what is written. -/
def Timely (s : System) : Event → Prop
  | .data segment => Near s segment
  | _ => True

/-- The number of a segment. -/
def segmentSeqnum (segment : Segment) : UInt8 := hdrSeqnum (load segment.datagram fun _ => 0)

/-- A `DATA` packet that the receiver stores is not at the border. -/
def InPlace (s : System) : Event → Prop
  | .data segment => segment.chunk ≠ none → is_in_window s.rcv.window (segmentSeqnum segment) = true →
    BorderSafe s.rcv.window (segmentSeqnum segment)
  | _ => True

/-- The window of the sender is ready for the size that a response brings. -/
def Fits (P : Window Node → Nat → Prop) (s : System) (e : Event) : Prop := ∀ a ∈ e.snd, Sized crc32 P s.snd a

variable {crc32} {file : List UInt8}

theorem Fits.mono {P P' : Window Node → Nat → Prop} (hP : ∀ w size, P w size → P' w size) {s : System} {e : Event}
    (h : Fits crc32 P s e) : Fits crc32 P' s e :=
  fun a ha => (h a ha).mono hP

theorem fits_iff {P : Window Node → Nat → Prop} {Q : Window Item → Nat → Prop}
    (hPQ : ∀ {w v}, Window.Rel (NodeCarries file) w v → ∀ size, P w size ↔ Q v size) {s : System} {t : Protocol.State}
    (h : SystemRel crc32 file s t) {e : Event} {b : Protocol.Action} (hm : Matches crc32 file e b) :
    Fits crc32 P s e ↔ ∀ q stale, b = .respond q stale → Q t.snd.window q.window := by
  cases hm with
  | @response response q hc time stale =>
    obtain ⟨pkt, hi, _, _, hwin⟩ := hc.incoming s.snd
    simp only [Fits, Event.snd, forall_eq', Sized, hi, Option.mem_def, Option.some.injEq, hwin,
      hPQ h.snd.window, Protocol.Action.respond.injEq]
    constructor
    · rintro hP _ _ ⟨rfl, _⟩
      exact hP
    · intro hQ
      exact hQ q _ ⟨rfl, rfl⟩
  | fill | final | data | truncated | corrupted | flush | ack => simp [Fits, Event.snd, Sized]

theorem near_iff {s : System} {t : Protocol.State} (h : SystemRel crc32 file s t) {segment : Segment} {x : Item}
    (hx : SegmentCarries crc32 file segment x) :
    Near s segment ↔ t.rcv.output.length < x.index + 128 ∧ x.index < t.rcv.output.length + 128 := by
  simp only [Near, hx.1, Option.mem_def, Option.some.injEq, forall_eq', h.rcv.output, List.length_map]

theorem inPlace_iff {s : System} {t : Protocol.State} (h : SystemRel crc32 file s t) {segment : Segment} {x : Item}
    (hx : SegmentCarries crc32 file segment x) : InPlace s (.data segment) ↔
      (is_in_window t.rcv.window (seqnumOf x) = true → BorderSafe t.rcv.window (seqnumOf x)) := by
  have hseq : segmentSeqnum segment = seqnumOf x := hx.fields.2.1
  have hchunk : segment.chunk ≠ none := by simp [hx.1]
  simp only [InPlace, hseq, h.rcv.window.is_in_window, h.rcv.window.borderSafe (carries_alike file)]
  exact ⟨fun hp => hp hchunk, fun hp _ => hp⟩

theorem transferSafe_iff {s : System} {t : Protocol.State} (h : SystemRel crc32 file s t) {e : Event}
    {b : Protocol.Action} (hm : Matches crc32 file e b) :
    Timely s e ∧ Fits crc32 EndsInData s e ∧ InPlace s e ↔ TransferSafe t b := by
  rw [fits_iff (fun h => h.endsInData (nodeCarries_alike file)) h hm]
  unfold TransferSafe
  cases hm with
  | fill | final | truncated | corrupted | flush | ack =>
    simp [Timely, InPlace, Protocol.Action.snd, Protocol.Action.rcv, Protocol.KeepsNumbers, Protocol.DeliverSafe]
  | @response response q hc time stale =>
    simp only [Timely, InPlace, true_and, and_true, Protocol.Action.snd, Protocol.Action.rcv, Option.some.injEq,
      forall_eq', Protocol.Action.respond.injEq, reduceCtorEq, false_implies, implies_true]
    exact ⟨fun hf => hf q _ ⟨rfl, rfl⟩, fun hk _ _ heq => heq.1 ▸ hk⟩
  | @data segment x hx =>
    rw [inPlace_iff h hx]
    simp only [Timely, near_iff h hx, Protocol.Action.snd, Protocol.Action.rcv, reduceCtorEq, false_implies,
      implies_true, true_and, Option.some.injEq, forall_eq', Protocol.DeliverSafe, and_assoc]

/-! ## The output -/

theorem flatten_output {r : Receiver} {t : Protocol.Receiver} (h : ReceiverRel crc32 file r t) {m : Nat}
    (hout : t.output = Protocol.chunks 0 m) : r.stdout.flatten = file.take (MAX_PAYLOAD_SIZE * m) := by
  rw [h.output, hout, Protocol.chunks, List.map_map, ← flatten_chunks]
  rfl

theorem flatten_delivered {r : Receiver} {t : Protocol.Receiver} (hd : Delivered (chunkCount file) t)
    (h : ReceiverRel crc32 file r t) (hdone : t.done = true) : r.stdout.flatten = file := by
  rw [h.output, hd.finished hdone, Protocol.chunks, List.map_map]
  exact flatten_all_chunks file

/-- The receiver writes a beginning of the file, and the whole file before it leaves its loop, as long as each shrink
leaves a packet with data at the end of the sender's list and no insertion is at the border. -/
theorem transfer_safe {copybuf buffer : Mem} {s : System}
    (h : Reach (system_step crc32 file) (fun s e => Timely s e ∧ Fits crc32 EndsInData s e ∧ InPlace s e)
      (.initial copybuf buffer) s) :
    s.rcv.stdout.flatten <+: file ∧ (s.rcv.eof_wrote = true → s.rcv.stdout.flatten = file) := by
  obtain ⟨t, hrel, hreach⟩ := system_run
    (fun s t e b hrel hok hm => (transferSafe_iff hrel hm).mp hok) h
  rw [hrel.rcv.done]
  rcases Nat.eq_zero_or_pos (chunkCount file) with hn | hn
  · rw [hn] at hreach
    have hempty : EmptyFile t := by
      refine hreach.invariant Protocol.emptyFile_initial fun t b t' he hok hs => Protocol.step_emptyFile he ?_ hs
      rintro q stale rfl
      exact he.not_shrinks (hok.1 _ rfl)
    have hout := hrel.rcv.output
    rw [hempty.output, List.map_nil] at hout
    rw [hout, hempty.going]
    simp
  · obtain ⟨_, hd⟩ : Numbering (chunkCount file) t.snd ∧ Delivered (chunkCount file) t.rcv :=
      hreach.invariant (P := fun t => Numbering (chunkCount file) t.snd ∧ Delivered (chunkCount file) t.rcv)
        ⟨Protocol.numbering_initial hn, Protocol.delivered_initial _⟩ fun _ _ _ => Protocol.step_delivered
    refine ⟨?_, flatten_delivered hd hrel.rcv⟩
    by_cases hdone : t.rcv.done = true
    · rw [flatten_delivered hd hrel.rcv hdone]
    · rw [flatten_output hrel.rcv (hd.going (by simpa using hdone)).2.1]
      exact List.take_prefix _ _

/-- One byte is transferred. -/
theorem transfer_safe_one_byte :
    ∃ s, Reach (system_step zlib_crc32 [7]) (fun s e => Timely s e ∧ Fits zlib_crc32 EndsInData s e ∧ InPlace s e)
      (.initial (fun _ => 0) fun _ => 0) s ∧ s.rcv.eof_wrote = true ∧ s.rcv.stdout.flatten = [7] := by
  generalize zlib_crc32 = crc32
  have hrun : (run (Protocol.step (chunkCount [7])) (fun t b => Uncorrupted b ∧ TransferSafe t b)
      [.fill, .deliver (.chunk 0), .flush, .ack, .respond ⟨true, 1, 2, 1⟩ 0, .fill, .final, .deliver (.final 1 1),
        .flush] .initial).any (fun t => t.rcv.done) = true := by decide
  obtain ⟨t, hreach, ht⟩ := reach_of_run hrun
  obtain ⟨s, hrel, hs⟩ := system_run_of_protocol crc32
    (fun s t e b hrel hb hm => (transferSafe_iff hrel hm).mpr hb)
    (fun _ => 0) (fun _ => 0) hreach
  have hdone : s.rcv.eof_wrote = true := hrel.rcv.done.trans ht
  exact ⟨s, hs, hdone, (transfer_safe hs).2 hdone⟩

/-! ## A chunk that comes twice -/

/-- The chunks from `k` on, `m` of them, arrive one by one. -/
def arrivals (k m : Nat) : List Protocol.Action :=
  (List.range' k m).flatMap fun i => [.deliver (.chunk i), .flush]

/-- They are sent, arrive and are acknowledged, with a window of `size` from then on. -/
def round (k m size : Nat) : List Protocol.Action :=
  .fill :: arrivals k m ++ [.ack, .respond ⟨true, serial (k + m), size, k + m⟩ 0]

/-- In the window 240..270 chunk 256 comes first. A truncated packet makes it 240..254, and chunk 240 goes behind chunk
256. This makes the window 240..255, and chunk 240 comes again and goes before chunk 256. -/
def crossing : List Protocol.Action :=
  [.fill, .deliver (.chunk 256), .truncated (.chunk 241), .deliver (.chunk 240), .deliver (.chunk 240), .flush]

/-- The second chunk 240 is still there when the receiver waits for chunk 496. -/
def longRun : List Protocol.Action :=
  round 0 1 2 ++ round 1 2 4 ++ round 3 4 8 ++ round 7 8 16 ++ round 15 16 31 ++
  (List.range 6).flatMap (fun i => round (31 + 31 * i) 31 31) ++ round 217 23 31 ++
  crossing ++ arrivals 241 15 ++ [.ack, .respond ⟨true, serial 257, 31, 257⟩ 0] ++
  (List.range 7).flatMap (fun i => round (257 + 31 * i) 31 31) ++ .fill :: arrivals 474 22

/-- A packet of which all or the header arrives is less than 128 away from what is written. -/
def NearItem (t : Protocol.State) : Protocol.Action → Prop
  | .deliver x | .truncated x => t.rcv.output.length < x.index + 128 ∧ x.index < t.rcv.output.length + 128
  | _ => True

instance (t : Protocol.State) (b : Protocol.Action) : Decidable (NearItem t b) :=
  match b with
  | .deliver _ | .truncated _ => inferInstanceAs (Decidable (_ ∧ _))
  | .fill | .final | .respond _ _ | .corrupted _ | .flush | .ack => .isTrue trivial

theorem longRun_output :
    (run (Protocol.step 497) (fun t b => Uncorrupted b ∧ NearItem t b) longRun .initial).any
      (fun t => decide (t.rcv.output = Protocol.chunks 0 496 ++ [.chunk 240])) = true := by
  decide +kernel

theorem not_prefix_of_full_chunk {m k : Nat} (hk : k < m) {stdout : List (List UInt8)}
    (hout : stdout = (Protocol.chunks 0 m).map (itemBytes (markedFile m)) ++ [itemBytes (markedFile m) (.chunk k)]) :
    ¬ stdout.flatten <+: markedFile m := by
  intro hpre
  have hlen := hpre.length_le
  have hfirst : ((Protocol.chunks 0 m).map (itemBytes (markedFile m))).flatten =
      (markedFile m).take (MAX_PAYLOAD_SIZE * m) := by
    rw [← flatten_chunks, Protocol.chunks, List.map_map]
    rfl
  have hchunk : (itemBytes (markedFile m) (.chunk k)).length = MAX_PAYLOAD_SIZE := by
    have hmul : MAX_PAYLOAD_SIZE * (k + 1) ≤ MAX_PAYLOAD_SIZE * m := Nat.mul_le_mul_left _ hk
    rw [itemBytes, fileChunk_length, markedFile_length]
    rw [Nat.mul_succ] at hmul
    omega
  rw [hout, List.flatten_append, hfirst, List.flatten_singleton, List.length_append, hchunk, List.length_take,
    markedFile_length, MAX_PAYLOAD_SIZE] at hlen
  omega

/-- Chunk 240 is written in the place of chunk 496. -/
theorem stale_chunk_written :
    ∃ s, Reach (system_step zlib_crc32 (markedFile 496))
      (fun s e => ∀ segment, e = .data segment ∨ e = .truncated segment → Near s segment)
      (.initial (fun _ => 0) fun _ => 0) s ∧ ¬ s.rcv.stdout.flatten <+: markedFile 496 := by
  generalize zlib_crc32 = crc32
  have hcount : chunkCount (markedFile 496) = 497 := markedFile_count 496
  have hrun := longRun_output
  rw [← hcount] at hrun
  obtain ⟨t, hreach, ht⟩ := reach_of_run hrun
  obtain ⟨s, hrel, hs⟩ := system_run_of_protocol crc32
    (fun s t e b hrel hb hm => show ∀ segment, e = .data segment ∨ e = .truncated segment → Near s segment by
      intro segment he
      rcases he with rfl | rfl
      · cases hm with
        | data hx => exact (near_iff hrel hx).mpr hb
      · cases hm with
        | truncated hx => exact (near_iff hrel hx).mpr hb)
    (fun _ => 0) (fun _ => 0) hreach
  have hout := hrel.rcv.output
  rw [of_decide_eq_true ht, List.map_append, List.map_singleton] at hout
  exact ⟨s, hs, not_prefix_of_full_chunk (by omega) hout⟩

end Trtp
