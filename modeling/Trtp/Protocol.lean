import Trtp.Sender
import Trtp.Lib.Transition

/-!
# The protocol

What the two programs are for, without bytes: a sender of `n` chunks and a final packet, a receiver that puts them in
order, and a network that may lose, duplicate, delay and reorder what they send. The windows are those of the code.
-/

open Trtp.Lib

namespace Trtp.Protocol

/-- A packet of the sender: chunk `index` of the file, or the final packet. -/
inductive Item where
  | chunk (index : Nat)
  | final (index : Nat) (seqnum : UInt8)
  deriving DecidableEq

def Item.index : Item → Nat
  | chunk index => index
  | final index _ => index

instance : Numbered Item where
  seqnumOf
    | .chunk index => serial index
    | .final _ seqnum => seqnum
  isFinal
    | .chunk _ => false
    | .final _ _ => true

/-- A response of the receiver, and how many packets it had consumed when it sent it. -/
structure Reply where
  ack : Bool
  seqnum : UInt8
  window : Nat
  consumed : Nat
  deriving DecidableEq

/-! ## The sender -/

structure Sender where
  eof_reached : Bool
  lastPkt : Bool
  global_pkt : UInt64
  window : Window Item
  stopped : Bool
  sent : List Item

def Sender.initial : Sender := ⟨false, false, 0, Window.initial, false, []⟩

/-- A chunk is sent. -/
def Sender.push (s : Sender) : Sender :=
  let item := Item.chunk (chunkIndex s.global_pkt)
  { s with
    global_pkt := s.global_pkt + 1
    sent := item :: s.sent
    window := { s.window with
      seqnumHead := if s.window.linkedList.isEmpty then seqnumOf item else s.window.seqnumHead
      seqnumTail := seqnumOf item
      linkedList := s.window.linkedList ++ [item] } }

/-- `fill_window` on a file of `n` chunks. It is not possible where an offset does not fit an `off_t`. -/
def Sender.fill (n : Nat) : Nat → Sender → Option Sender
  | 0, s => some s
  | room + 1, s =>
    if s.window.linkedList.length < s.window.windowsize ∧ s.eof_reached = false then
      if 2 ^ 54 ≤ chunkIndex s.global_pkt then none
      else if n ≤ chunkIndex s.global_pkt then some { s with eof_reached := true }
      else Sender.fill n room s.push
    else some s

/-- `send_final_pkt` -/
def Sender.final (s : Sender) : Sender :=
  let tail := s.window.seqnumTail + 1
  let item := Item.final (chunkIndex s.global_pkt) tail
  { s with
    lastPkt := true
    sent := item :: s.sent
    window := { s.window with seqnumTail := tail, linkedList := s.window.linkedList ++ [item] } }

/-- `update_window` -/
def Sender.update (s : Sender) (size : Nat) (stale : UInt8) : Sender :=
  if size = 0 then s
  else if s.window.windowsize ≤ size then { s with window := { s.window with windowsize := size } }
  else
    let window := shrink_window s.window size stale
    { s with
      window
      global_pkt := s.global_pkt - UInt64.ofNat (s.window.linkedList.length - window.linkedList.length)
      eof_reached := false
      lastPkt := false }

/-- `ack_window` and the test for the end. -/
def Sender.ack (s : Sender) (seqnum : UInt8) : Sender :=
  let window :=
    if can_ack_window s.window seqnum then ack_loop_window seqnum s.window.linkedList s.window else s.window
  { s with window, stopped := s.stopped || (s.lastPkt && window.linkedList.isEmpty) }

/-- A response that is valid. -/
def Sender.respond (s : Sender) (ack : Bool) (seqnum : UInt8) (size : Nat) (stale : UInt8) : Sender :=
  let s := s.update size stale
  if ack then s.ack seqnum else s

inductive SenderAction where
  | fill
  | final
  | respond (ack : Bool) (seqnum : UInt8) (size : Nat) (stale : UInt8)

/-- The steps of the sender's loop. A window of five bits is at most 31. -/
def Sender.step (n : Nat) (s : Sender) (a : SenderAction) : Option Sender :=
  if s.stopped then none
  else
    match a with
    | .fill =>
      if s.eof_reached = false ∧ s.window.linkedList.length < s.window.windowsize then
        Sender.fill n (s.window.windowsize - s.window.linkedList.length) s
      else none
    | .final =>
      if s.lastPkt = false ∧ s.eof_reached = true ∧ s.window.linkedList.length < s.window.windowsize then
        some s.final
      else none
    | .respond ack seqnum size stale => if size ≤ 31 then some (s.respond ack seqnum size stale) else none

/-! ## The receiver -/

structure Receiver where
  window : Window Item
  output : List Item
  consumed : Nat
  done : Bool
  replies : List Reply

def Receiver.initial : Receiver := ⟨Window.initial, [], 0, false, []⟩

/-- `send_response` -/
def Receiver.reply (r : Receiver) (ack : Bool) (seqnum : UInt8) : Receiver :=
  { r with replies := ⟨ack, seqnum, r.window.windowsize, r.consumed⟩ :: r.replies }

/-- `receive_data` on a whole packet. -/
def Receiver.deliver (r : Receiver) (item : Item) : Receiver :=
  if is_in_window r.window (seqnumOf item) then { r with window := store r.window item } else r

/-- `send_troncated_nack` -/
def Receiver.nack (r : Receiver) (seqnum : UInt8) : Receiver :=
  { r with window := decrease_window r.window }.reply false seqnum

/-- `flush_file`, with the last `ACK` when it comes to the final packet. -/
def Receiver.flush (r : Receiver) : Receiver :=
  let (written, window, eof) := flush_loop_window r.window.linkedList r.window
  let r := { r with
    window
    output := r.output ++ written
    consumed := r.consumed + written.length + if eof then 1 else 0 }
  if eof then { r with done := true }.reply true r.window.seqnumHead else r

inductive ReceiverAction where
  | deliver (item : Item)
  | nack (seqnum : UInt8)
  | flush
  | ack

/-- The steps of the receiver's loop. -/
def Receiver.step (r : Receiver) (a : ReceiverAction) : Option Receiver :=
  if r.done then none
  else
    match a with
    | .deliver item => some (r.deliver item)
    | .nack seqnum => some (r.nack seqnum)
    | .flush => some r.flush
    | .ack => some (r.reply true r.window.seqnumHead)

/-! ## Both, and the network -/

structure State where
  snd : Sender
  rcv : Receiver
  /-- The counts that the `ACK`s which the sender has processed carry. -/
  acked : List Nat

def State.initial : State := ⟨.initial, .initial, []⟩

inductive Action where
  | fill
  | final
  | respond (reply : Reply) (stale : UInt8)
  | deliver (item : Item)
  | truncated (item : Item)
  | corrupted (seqnum : UInt8)
  | flush
  | ack

/-- What the network delivers was sent, whole or truncated. A corrupted header may pass for a truncated packet. -/
def step (n : Nat) (s : State) : Action → Option State
  | .fill => (s.snd.step n .fill).map fun snd => { s with snd }
  | .final => (s.snd.step n .final).map fun snd => { s with snd }
  | .respond reply stale =>
    if reply ∈ s.rcv.replies then
      (s.snd.step n (.respond reply.ack reply.seqnum reply.window stale)).map fun snd =>
        { s with snd, acked := if reply.ack then reply.consumed :: s.acked else s.acked }
    else none
  | .deliver item => if item ∈ s.snd.sent then (s.rcv.step (.deliver item)).map fun rcv => { s with rcv } else none
  | .truncated item =>
    if item ∈ s.snd.sent ∧ (isFinal item = true ∨ is_in_window s.rcv.window (seqnumOf item) = true) then
      (s.rcv.step (.nack (seqnumOf item))).map fun rcv => { s with rcv }
    else none
  | .corrupted seqnum => (s.rcv.step (.nack seqnum)).map fun rcv => { s with rcv }
  | .flush => (s.rcv.step .flush).map fun rcv => { s with rcv }
  | .ack => (s.rcv.step .ack).map fun rcv => { s with rcv }

/-- The sender's part of an action. -/
def Action.snd : Action → Option SenderAction
  | .fill => some .fill
  | .final => some .final
  | .respond reply stale => some (.respond reply.ack reply.seqnum reply.window stale)
  | _ => none

/-- The receiver's part of an action. -/
def Action.rcv : Action → Option ReceiverAction
  | .deliver item => some (.deliver item)
  | .truncated item => some (.nack (seqnumOf item))
  | .corrupted seqnum => some (.nack seqnum)
  | .flush => some .flush
  | .ack => some .ack
  | _ => none

/-- The counts after a step. -/
def Action.acked (a : Action) (acked : List Nat) : List Nat :=
  match a with
  | .respond reply _ => if reply.ack then reply.consumed :: acked else acked
  | _ => acked

theorem step_cases {n : Nat} {s s' : State} {a : Action} (h : step n s a = some s') :
    (∃ b, a.snd = some b ∧ s.snd.step n b = some s'.snd ∧ s'.rcv = s.rcv ∧ s'.acked = a.acked s.acked ∧
        ∀ reply stale, a = .respond reply stale → reply ∈ s.rcv.replies) ∨
      (∃ b, a.rcv = some b ∧ s.rcv.step b = some s'.rcv ∧ s'.snd = s.snd ∧ s'.acked = s.acked ∧
        ∀ item, a = .deliver item → item ∈ s.snd.sent) := by
  cases a with
  | fill | final =>
    obtain ⟨snd, hsnd, rfl⟩ := Option.map_eq_some_iff.mp h
    exact Or.inl ⟨_, rfl, hsnd, rfl, rfl, by simp⟩
  | respond reply stale =>
    simp only [step] at h
    split at h
    · rename_i hmem
      obtain ⟨snd, hsnd, rfl⟩ := Option.map_eq_some_iff.mp h
      refine Or.inl ⟨_, rfl, hsnd, rfl, rfl, ?_⟩
      intro reply' stale' heq
      simp only [Action.respond.injEq] at heq
      rw [← heq.1]
      exact hmem
    · contradiction
  | deliver item =>
    simp only [step] at h
    split at h
    · rename_i hmem
      obtain ⟨rcv, hrcv, rfl⟩ := Option.map_eq_some_iff.mp h
      refine Or.inr ⟨_, rfl, hrcv, rfl, rfl, ?_⟩
      intro item' heq
      simp only [Action.deliver.injEq] at heq
      rw [← heq]
      exact hmem
    · contradiction
  | truncated item =>
    simp only [step] at h
    split at h
    · obtain ⟨rcv, hrcv, rfl⟩ := Option.map_eq_some_iff.mp h
      exact Or.inr ⟨_, rfl, hrcv, rfl, rfl, by simp⟩
    · contradiction
  | corrupted | flush | ack =>
    obtain ⟨rcv, hrcv, rfl⟩ := Option.map_eq_some_iff.mp h
    exact Or.inr ⟨_, rfl, hrcv, rfl, rfl, by simp⟩

end Trtp.Protocol
