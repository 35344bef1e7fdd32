import Trtp.Lib.Buffers
import Trtp.Packet

/-!
# The payload of a packet as a pointer

`pkt->payload` on the heap. `pkt_set_payload` frees the pointer that `pkt_get_payload` shows, and the setters of the
type, of TR and of the length do not look at it.
-/

open Trtp.Lib

namespace Trtp

/-- `pkt_t` and the heap of its payloads. `pkt` has the fields, with what the payload was last set to. -/
structure HeapPkt where
  pkt : Pkt
  payload : Option Nat
  heap : Buffers

def HeapPkt.pkt_new : HeapPkt := ⟨Trtp.pkt_new, none, .empty⟩

/-- `if (pkt->payload != NULL) free(pkt->payload);` -/
def HeapPkt.pkt_del (s : HeapPkt) : Buffers :=
  match s.payload with
  | some ptr => s.heap.free ptr
  | none => s.heap

def HeapPkt.pkt_get_payload (s : HeapPkt) : Option Nat :=
  if (s.pkt.type = .DATA ∧ s.pkt.tr = 0) ∨ s.pkt.type = .FEC then s.payload else none

/-- `if (pkt_get_payload(pkt) != NULL) free(pkt->payload);` -/
def HeapPkt.free_payload (s : HeapPkt) : HeapPkt :=
  match s.pkt_get_payload with
  | some ptr => { s with heap := s.heap.free ptr }
  | none => s

/-- `malloc` of `n` bytes and the copy. False: `malloc` gives `NULL`. -/
def HeapPkt.malloc_payload (s : HeapPkt) (data : Mem) (n : Nat) (malloc : Bool) : PktStatus × HeapPkt :=
  if malloc then
    let (ptr, heap) := s.heap.malloc n
    (.PKT_OK, ⟨{ s.pkt with payload := some (bytesAt data 0 n) }, some ptr, heap⟩)
  else (.E_NOMEM, ⟨{ s.pkt with payload := none }, none, s.heap⟩)

def HeapPkt.pkt_set_payload (s : HeapPkt) (data : Mem) (length : UInt16) (malloc : Bool) : PktStatus × HeapPkt :=
  if s.pkt.type = .DATA then
    match pkt_set_length s.pkt length with
    | (.PKT_OK, pkt) =>
      let s := HeapPkt.free_payload { s with pkt }
      if length = 0 then (.PKT_OK, s) else s.malloc_payload data length.toNat malloc
    | (_, pkt) => (.E_LENGTH, { s with pkt })
  else
    let s := s.free_payload
    if s.pkt.type = .FEC then s.malloc_payload data MAX_PAYLOAD_SIZE malloc else (.PKT_OK, s)

/-- A call of a setter. -/
inductive SetterCall where
  | type (type : Nat)
  | tr (tr : UInt8)
  | window (window : UInt8)
  | seqnum (seqnum : UInt8)
  | length (length : UInt16)
  | timestamp (timestamp : UInt32)
  | crc1 (crc1 : UInt32)
  | crc2 (crc2 : UInt32)
  | payload (data : Mem) (length : UInt16) (malloc : Bool)

/-- A setter that does not touch the heap. -/
def HeapPkt.set (s : HeapPkt) (result : PktStatus × Pkt) : PktStatus × HeapPkt := (result.1, { s with pkt := result.2 })

def HeapPkt.call (s : HeapPkt) : SetterCall → PktStatus × HeapPkt
  | .type type => s.set (pkt_set_type s.pkt type)
  | .tr tr => s.set (pkt_set_tr s.pkt tr)
  | .window window => s.set (pkt_set_window s.pkt window)
  | .seqnum seqnum => s.set (pkt_set_seqnum s.pkt seqnum)
  | .length length => s.set (pkt_set_length s.pkt length)
  | .timestamp timestamp => s.set (pkt_set_timestamp s.pkt timestamp)
  | .crc1 crc1 => s.set (pkt_set_crc1 s.pkt crc1)
  | .crc2 crc2 => s.set (pkt_set_crc2 s.pkt crc2)
  | .payload data length malloc => s.pkt_set_payload data length malloc

/-- The packet after the calls. -/
def HeapPkt.calls (s : HeapPkt) (calls : List SetterCall) : HeapPkt := calls.foldl (fun s c => (s.call c).2) s

/-! ## The contract -/

/-- What the payload has to hold. -/
def payload_size (pkt : Pkt) : Nat := if pkt.type = .FEC then MAX_PAYLOAD_SIZE else pkt.length.toNat

/-- What `pkt_encode` reads of it. -/
def encode_reads (pkt : Pkt) : Nat :=
  if pkt.type = .DATA ∧ pkt.tr = 0 then pkt.length.toNat else if pkt.type = .FEC then MAX_PAYLOAD_SIZE else 0

/-- `freed` is about the packet after `pkt_del`: each buffer that was allocated, and no other, is freed once. -/
structure PktContract (s : HeapPkt) : Prop where
  tr : s.pkt.tr = 1 → s.pkt.type = .DATA
  window : (pkt_get_window s.pkt).toNat ≤ MAX_WINDOW_SIZE
  length : s.pkt.length.toNat ≤ MAX_PAYLOAD_SIZE
  payload : ∀ ptr, s.payload = some ptr → s.heap.Live ptr ∧ s.heap.Holds ptr (payload_size s.pkt)
  encode : ∀ ptr, s.payload = some ptr → s.heap.Holds ptr (encode_reads s.pkt)
  freed : ∀ ptr, s.pkt_del.freed.count ptr = if ptr < s.pkt_del.sizes.length then 1 else 0

/-- The payload, if there is one, has at least `n` bytes. -/
def HeapPkt.Fits (s : HeapPkt) (n : Nat) : Prop := ∀ ptr, s.payload = some ptr → s.heap.Holds ptr n

/-- The calls that the setters carry out as they should. -/
def Safe (s : HeapPkt) : SetterCall → Prop
  | .type type => ∀ t, PType.ofCode type = some t → (s.pkt.tr = 1 → t = .DATA) ∧ (t = .FEC → s.Fits MAX_PAYLOAD_SIZE)
  | .length length => s.pkt.type = .DATA → length.toNat ≤ MAX_PAYLOAD_SIZE → s.Fits length.toNat
  | .payload _ length _ =>
    s.pkt.type = .DATA → length.toNat ≤ MAX_PAYLOAD_SIZE → s.payload ≠ none → (s.pkt.tr = 0 ↔ length ≠ 0)
  | .tr _ | .window _ | .seqnum _ | .timestamp _ | .crc1 _ | .crc2 _ => True

/-- Each call is safe where it is made. -/
def SafeCalls : HeapPkt → List SetterCall → Prop
  | _, [] => True
  | s, c :: calls => Safe s c ∧ SafeCalls (s.call c).2 calls

/-! ## `pkt_set_payload` -/

/-- The packet with another length. -/
def HeapPkt.resized (s : HeapPkt) (length : UInt16) : HeapPkt := { s with pkt := { s.pkt with length } }

@[simp] theorem resized_pkt (s : HeapPkt) (length : UInt16) : (s.resized length).pkt = { s.pkt with length } := rfl

@[simp] theorem resized_payload (s : HeapPkt) (length : UInt16) : (s.resized length).payload = s.payload := rfl

section SetPayload

variable {s : HeapPkt} {data : Mem} {length : UInt16} {malloc : Bool}

@[simp] theorem free_payload_pkt (s : HeapPkt) : s.free_payload.pkt = s.pkt := by
  unfold HeapPkt.free_payload
  split <;> rfl

@[simp] theorem free_payload_payload (s : HeapPkt) : s.free_payload.payload = s.payload := by
  unfold HeapPkt.free_payload
  split <;> rfl

theorem heap_set_payload_long (ht : s.pkt.type = .DATA) (hlen : length.toNat > MAX_PAYLOAD_SIZE) :
    s.pkt_set_payload data length malloc = (.E_LENGTH, s) := by
  simp [HeapPkt.pkt_set_payload, pkt_set_length, ht, hlen]

theorem heap_set_payload_data (ht : s.pkt.type = .DATA) (hlen : length.toNat ≤ MAX_PAYLOAD_SIZE) :
    s.pkt_set_payload data length malloc =
      if length = 0 then (.PKT_OK, (s.resized length).free_payload)
      else (s.resized length).free_payload.malloc_payload data length.toNat malloc := by
  unfold HeapPkt.pkt_set_payload
  rw [if_pos ht, pkt_set_length_data ht hlen]
  rfl

theorem heap_set_payload_fec (ht : s.pkt.type = .FEC) :
    s.pkt_set_payload data length malloc = s.free_payload.malloc_payload data MAX_PAYLOAD_SIZE malloc := by
  simp [HeapPkt.pkt_set_payload, ht]

theorem heap_set_payload_ack (hd : s.pkt.type ≠ .DATA) (hf : s.pkt.type ≠ .FEC) :
    s.pkt_set_payload data length malloc = (.PKT_OK, s) := by
  simp [HeapPkt.pkt_set_payload, HeapPkt.free_payload, HeapPkt.pkt_get_payload, hd, hf]

/-- As long as `malloc` succeeds, this is the setter of the packet as a value. -/
theorem heap_set_payload_pkt (s : HeapPkt) (data : Mem) (length : UInt16) :
    ((s.pkt_set_payload data length true).1, (s.pkt_set_payload data length true).2.pkt) =
      pkt_set_payload s.pkt data length := by
  cases ht : s.pkt.type with
  | DATA =>
    by_cases hlen : length.toNat ≤ MAX_PAYLOAD_SIZE
    · rw [heap_set_payload_data ht hlen, pkt_set_payload, if_pos ht, pkt_set_length_data ht hlen]
      split
      · simp
      · simp [HeapPkt.malloc_payload]
    · rw [heap_set_payload_long ht (Nat.lt_of_not_le hlen), pkt_set_payload, if_pos ht]
      simp [pkt_set_length, Nat.lt_of_not_le hlen]
  | FEC =>
    rw [heap_set_payload_fec ht, pkt_set_payload]
    simp [HeapPkt.malloc_payload, ht]
  | ACK | NACK =>
    rw [heap_set_payload_ack (by simp [ht]) (by simp [ht]), pkt_set_payload]
    simp [ht]

end SetPayload

/-! ## The invariant -/

/-- The contract without what follows from the rest. -/
structure PktOk (s : HeapPkt) : Prop where
  tr : s.pkt.tr = 1 → s.pkt.type = .DATA
  length : s.pkt.length.toNat ≤ MAX_PAYLOAD_SIZE
  fits : s.Fits (payload_size s.pkt)
  balanced : s.heap.Balanced s.payload.toList

theorem encode_reads_le (pkt : Pkt) : encode_reads pkt ≤ payload_size pkt := by
  unfold encode_reads payload_size
  cases pkt.type with
  | FEC | ACK | NACK => simp
  | DATA =>
    simp only [true_and, reduceCtorEq, if_false]
    split
    · exact Nat.le_refl _
    · exact Nat.zero_le _

theorem pkt_del_freed (s : HeapPkt) :
    (∀ ptr, s.pkt_del.freed.count ptr = if ptr < s.pkt_del.sizes.length then 1 else 0) ↔
      s.heap.Balanced s.payload.toList := by
  unfold HeapPkt.pkt_del
  cases s.payload with
  | none => simp [Buffers.Balanced]
  | some ptr =>
    rw [Option.toList_some, ← Buffers.balanced_free]
    simp [Buffers.Balanced]

theorem PktOk.live {s : HeapPkt} (h : PktOk s) {ptr : Nat} (hptr : s.payload = some ptr) : s.heap.Live ptr := by
  apply h.balanced.live
  rw [hptr]
  exact List.mem_singleton_self ptr

theorem pktContract_iff {s : HeapPkt} : PktContract s ↔ PktOk s := by
  constructor
  · intro h
    exact ⟨h.tr, h.length, fun ptr hptr => (h.payload ptr hptr).2, (pkt_del_freed s).mp h.freed⟩
  · intro h
    exact ⟨h.tr, pkt_get_window_le s.pkt, h.length, fun ptr hptr => ⟨h.live hptr, h.fits ptr hptr⟩,
      fun ptr hptr => (h.fits ptr hptr).mono (encode_reads_le s.pkt), (pkt_del_freed s).mpr h.balanced⟩

theorem pktOk_new : PktOk .pkt_new :=
  ⟨fun h => absurd h (by decide), Nat.zero_le _, fun ptr h => absurd h (by simp [HeapPkt.pkt_new]),
    Buffers.balanced_empty⟩

/-! ## The setters of the fields -/

/-- A call that leaves the heap as it is. -/
theorem PktOk.set_iff {s : HeapPkt} (h : PktOk s) (result : PktStatus × Pkt) :
    PktOk (s.set result).2 ↔
      (result.2.tr = 1 → result.2.type = .DATA) ∧ result.2.length.toNat ≤ MAX_PAYLOAD_SIZE ∧
        s.Fits (payload_size result.2) := by
  constructor
  · intro h'
    exact ⟨h'.tr, h'.length, h'.fits⟩
  · rintro ⟨htr, hlength, hfits⟩
    exact ⟨htr, hlength, hfits, h.balanced⟩

/-- So does one that leaves the type, TR and the length. -/
theorem PktOk.set {s : HeapPkt} (h : PktOk s) {result : PktStatus × Pkt} (htype : result.2.type = s.pkt.type)
    (htr : result.2.tr = s.pkt.tr) (hlength : result.2.length = s.pkt.length) : PktOk (s.set result).2 := by
  apply (h.set_iff result).mpr
  unfold payload_size
  rw [htype, htr, hlength]
  exact ⟨h.tr, h.length, h.fits⟩

theorem PktOk.set_type {s : HeapPkt} (h : PktOk s) (type : Nat) :
    PktOk (s.set (pkt_set_type s.pkt type)).2 ↔ Safe s (.type type) := by
  rw [h.set_iff]
  simp only [Safe, pkt_set_type]
  cases PType.ofCode type with
  | none =>
    simp only [reduceCtorEq, false_implies, implies_true, iff_true]
    exact ⟨h.tr, h.length, h.fits⟩
  | some t =>
    simp only [Option.some.injEq, forall_eq']
    refine and_congr_right fun _ => ?_
    have hdata : s.Fits s.pkt.length.toNat := by
      intro ptr hptr
      apply (h.fits ptr hptr).mono
      unfold payload_size
      split
      · exact h.length
      · exact Nat.le_refl _
    constructor
    · rintro ⟨-, hfits⟩ rfl
      exact hfits
    · intro hfec
      refine ⟨h.length, ?_⟩
      unfold payload_size
      split
      · rename_i ht
        exact hfec ht
      · exact hdata

theorem PktOk.set_tr {s : HeapPkt} (h : PktOk s) (tr : UInt8) : PktOk (s.set (pkt_set_tr s.pkt tr)).2 := by
  apply (h.set_iff _).mpr
  unfold pkt_set_tr
  split
  · exact ⟨h.tr, h.length, h.fits⟩
  rename_i hbit
  split
  · exact ⟨h.tr, h.length, h.fits⟩
  rename_i hdata
  refine ⟨fun hone => ?_, h.length, h.fits⟩
  have htr : tr = 1 := by
    by_contra hne
    have hzero : tr = 0 := by
      by_contra h0
      exact hbit ⟨h0, hne⟩
    rw [hzero] at hone
    exact absurd (id hone : (0 : BitVec 1) = 1) (by decide)
  by_contra hnot
  exact hdata ⟨htr, hnot⟩

theorem PktOk.set_length {s : HeapPkt} (h : PktOk s) (length : UInt16) :
    PktOk (s.set (pkt_set_length s.pkt length)).2 ↔ Safe s (.length length) := by
  rw [h.set_iff]
  unfold pkt_set_length Safe
  split
  · rename_i hno
    apply iff_of_true ⟨h.tr, h.length, h.fits⟩
    intro hdata hle
    rcases hno with ⟨hne, -⟩ | hgt
    · contradiction
    · omega
  · rename_i hyes
    have hle : length.toNat ≤ MAX_PAYLOAD_SIZE := by
      by_contra hgt
      exact hyes (Or.inr (Nat.lt_of_not_le hgt))
    have hdata : s.pkt.type = .DATA ∨ s.pkt.type = .FEC := by tauto
    constructor
    · rintro ⟨-, -, hfits⟩ ht _
      simpa [payload_size, ht] using hfits
    · intro hsafe
      refine ⟨h.tr, hle, ?_⟩
      rcases hdata with ht | ht
      · simpa [payload_size, ht] using hsafe ht hle
      · have hfits := h.fits
        simp only [payload_size, ht, if_true] at hfits ⊢
        exact hfits

/-! ## The setter of the payload -/

theorem malloc_payload_ok {s : HeapPkt} (htr : s.pkt.tr = 1 → s.pkt.type = .DATA)
    (hlength : s.pkt.length.toNat ≤ MAX_PAYLOAD_SIZE) (hb : s.heap.Balanced []) (data : Mem) {n : Nat}
    (hn : payload_size s.pkt ≤ n) (malloc : Bool) : PktOk (s.malloc_payload data n malloc).2 := by
  cases malloc with
  | true =>
    refine ⟨htr, hlength, ?_, hb.malloc n⟩
    intro ptr hptr
    rw [← Option.some.inj hptr]
    exact Buffers.holds_malloc.mpr hn
  | false => exact ⟨htr, hlength, fun ptr hptr => absurd hptr (by simp [HeapPkt.malloc_payload]), hb⟩

/-- The payload that `pkt_get_payload` shows is freed. -/
theorem free_payload_shown {s : HeapPkt} (hb : s.heap.Balanced s.payload.toList)
    (hshown : s.pkt_get_payload = s.payload) : s.free_payload.heap.Balanced [] := by
  unfold HeapPkt.free_payload
  rw [hshown]
  cases hp : s.payload with
  | none =>
    rw [hp] at hb
    exact hb
  | some ptr =>
    rw [hp] at hb
    exact Buffers.balanced_free.mpr hb

theorem free_payload_hidden {s : HeapPkt} (hhidden : s.pkt_get_payload = none) : s.free_payload = s := by
  unfold HeapPkt.free_payload
  rw [hhidden]

/-- TR decides whether the old payload is seen, whatever its new length. -/
theorem resized_shown {s : HeapPkt} (ht : s.pkt.type = .DATA) (htr : s.pkt.tr = 0) (length : UInt16) :
    (s.resized length).pkt_get_payload = (s.resized length).payload := if_pos (Or.inl ⟨ht, htr⟩)

theorem resized_hidden {s : HeapPkt} (ht : s.pkt.type = .DATA) (htr : s.pkt.tr ≠ 0) (length : UInt16) :
    (s.resized length).pkt_get_payload = none := by
  apply if_neg
  rintro (⟨-, hzero⟩ | hfec)
  · exact htr hzero
  · rw [resized_pkt, ht] at hfec
    contradiction

/-- An empty payload: the pointer stays, so the old one must not have been freed. -/
theorem set_payload_empty {s : HeapPkt} (h : PktOk s) (ht : s.pkt.type = .DATA) :
    PktOk (s.resized 0).free_payload ↔ (s.payload ≠ none → s.pkt.tr ≠ 0) := by
  by_cases htr : s.pkt.tr = 0
  · have hfreed := free_payload_shown (s := s.resized 0) h.balanced (resized_shown ht htr 0)
    constructor
    · intro hok hsome _
      obtain ⟨ptr, hptr⟩ := Option.ne_none_iff_exists'.mp hsome
      have hstays : (s.resized 0).free_payload.payload = some ptr := by
        rw [free_payload_payload, resized_payload, hptr]
      exact List.not_mem_nil (hfreed.owned_of_live (hok.live hstays))
    · intro hnone
      have hp : s.payload = none := by
        by_contra hsome
        exact hnone hsome htr
      refine ⟨?_, ?_, ?_, ?_⟩
      · rw [free_payload_pkt]
        exact h.tr
      · rw [free_payload_pkt]
        exact Nat.zero_le _
      · intro ptr hptr
        rw [free_payload_payload, resized_payload, hp] at hptr
        contradiction
      · rw [free_payload_payload, resized_payload, hp]
        exact hfreed
  · rw [free_payload_hidden (resized_hidden ht htr 0)]
    have hfits : (s.resized 0).Fits 0 := fun ptr hptr => (h.fits ptr hptr).mono (Nat.zero_le _)
    have hok : PktOk (s.resized 0) := ⟨h.tr, Nat.zero_le _, by simpa [payload_size, ht] using hfits, h.balanced⟩
    exact iff_of_true hok fun _ => htr

/-- Other bytes: the pointer is overwritten, so the old payload must have been freed. -/
theorem set_payload_bytes {s : HeapPkt} (h : PktOk s) (ht : s.pkt.type = .DATA) {length : UInt16}
    (hlen : length.toNat ≤ MAX_PAYLOAD_SIZE) (data : Mem) (malloc : Bool) :
    PktOk ((s.resized length).free_payload.malloc_payload data length.toNat malloc).2 ↔
      (s.payload ≠ none → s.pkt.tr = 0) := by
  have hok (hb : (s.resized length).free_payload.heap.Balanced []) :
      PktOk ((s.resized length).free_payload.malloc_payload data length.toNat malloc).2 := by
    apply malloc_payload_ok _ _ hb
    · rw [free_payload_pkt]
      simp [payload_size, ht]
    · rw [free_payload_pkt]
      exact h.tr
    · rw [free_payload_pkt]
      exact hlen
  by_cases htr : s.pkt.tr = 0
  · exact iff_of_true (hok (free_payload_shown h.balanced (resized_shown ht htr length))) fun _ => htr
  · rw [free_payload_hidden (resized_hidden ht htr length)] at hok ⊢
    constructor
    · intro hafter hsome
      obtain ⟨ptr, hptr⟩ := Option.ne_none_iff_exists'.mp hsome
      have hlive := h.live hptr
      have hb := hafter.balanced
      cases malloc with
      | true =>
        have howned := hb.owned_of_live (hlive.malloc length.toNat)
        exact absurd (List.mem_singleton.mp howned) (hlive.ne_malloc length.toNat)
      | false => exact absurd (hb.owned_of_live hlive) List.not_mem_nil
    · intro hnone
      apply hok
      have hp : s.payload = none := by
        by_contra hsome
        exact htr (hnone hsome)
      have hb := h.balanced
      rw [hp] at hb
      exact hb

theorem PktOk.set_payload {s : HeapPkt} (h : PktOk s) (data : Mem) (length : UInt16) (malloc : Bool) :
    PktOk (s.pkt_set_payload data length malloc).2 ↔ Safe s (.payload data length malloc) := by
  simp only [Safe]
  by_cases ht : s.pkt.type = .DATA
  swap
  · apply iff_of_true
    swap
    · exact fun hd => absurd hd ht
    by_cases hf : s.pkt.type = .FEC
    · rw [heap_set_payload_fec hf]
      have hshown : s.pkt_get_payload = s.payload := if_pos (Or.inr hf)
      apply malloc_payload_ok _ _ (free_payload_shown h.balanced hshown)
      · simp [payload_size, hf]
      · rw [free_payload_pkt]
        exact h.tr
      · rw [free_payload_pkt]
        exact h.length
    · rw [heap_set_payload_ack ht hf]
      exact h
  by_cases hlen : length.toNat ≤ MAX_PAYLOAD_SIZE
  swap
  · rw [heap_set_payload_long ht (Nat.lt_of_not_le hlen)]
    exact iff_of_true h fun _ hle => absurd hle hlen
  rw [heap_set_payload_data ht hlen]
  split
  · rename_i h0
    simp only [h0]
    rw [set_payload_empty h ht]
    simp [ht]
  · rename_i hne
    rw [set_payload_bytes h ht hlen]
    simp [ht, hlen, hne]

/-! ## Calls one after another -/

theorem PktOk.call {s : HeapPkt} (h : PktOk s) (c : SetterCall) : PktOk (s.call c).2 ↔ Safe s c := by
  cases c with
  | type type => exact h.set_type type
  | tr tr => exact iff_of_true (h.set_tr tr) trivial
  | window window =>
    apply iff_of_true _ trivial
    apply h.set
    all_goals unfold pkt_set_window; split <;> rfl
  | seqnum | timestamp | crc1 => exact iff_of_true (h.set rfl rfl rfl) trivial
  | length length => exact h.set_length length
  | crc2 crc2 =>
    apply iff_of_true _ trivial
    apply h.set
    all_goals unfold pkt_set_crc2; split <;> rfl
  | payload data length malloc => exact h.set_payload data length malloc

theorem PktOk.calls {s : HeapPkt} (h : PktOk s) (calls : List SetterCall) :
    (∀ before, before <+: calls → PktOk (s.calls before)) ↔ SafeCalls s calls := by
  induction calls generalizing s with
  | nil =>
    refine iff_of_true (fun before hprefix => ?_) trivial
    rw [List.prefix_nil.mp hprefix]
    exact h
  | cons c calls ih =>
    rw [SafeCalls, ← h.call c]
    constructor
    · intro hall
      have hc : PktOk (s.call c).2 := hall [c] (by simp)
      refine ⟨hc, (ih hc).mp fun before hprefix => ?_⟩
      exact hall (c :: before) (List.cons_prefix_cons.mpr ⟨rfl, hprefix⟩)
    · rintro ⟨hc, hsafe⟩ before hprefix
      rcases List.prefix_cons_iff.mp hprefix with rfl | ⟨rest, rfl, hrest⟩
      · exact h
      · exact (ih hc).mpr hsafe rest hrest

/-- The contract holds after each call if and only if each call is safe. -/
theorem pkt_setters_iff (calls : List SetterCall) :
    (∀ before, before <+: calls → PktContract (HeapPkt.pkt_new.calls before)) ↔ SafeCalls .pkt_new calls := by
  simp only [pktContract_iff]
  exact pktOk_new.calls calls

/-- A byte and then no byte: the payload is freed, and again by `pkt_del`. -/
theorem not_contract_freed_twice :
    ¬ PktContract (HeapPkt.pkt_new.calls
      [.type PType.DATA.code, .payload (fun _ => 7) 1 true, .payload (fun _ => 7) 0 true]) := by
  intro h
  exact absurd (h.freed 0) (by decide)

end Trtp
