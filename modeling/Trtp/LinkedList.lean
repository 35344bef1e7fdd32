import Trtp.Lib.Cells
import Trtp.Window

/-!
# The linked list

`linkedList.c` and `linkedList_add_increasing`, with the memory. `none` is an access to memory that is not allocated,
or a walk that does not end.
-/

open Trtp.Lib

namespace Trtp.Heap

variable {α : Type}

/-- `linkedList_t` -/
structure LinkedList where
  head : Ptr
  tail : Ptr
  size : UInt8

/-- The nodes, and the packets that were given to `pkt_del`. -/
structure Memory (α : Type) where
  nodes : Cells α
  deleted : List α

/-! ## The memory -/

def put_node (m : Memory α) (n : Nat) (node : Cell α) : Memory α :=
  { m with nodes := Function.update m.nodes n (some node) }

/-- `malloc(sizeof(node_t))` gives `n`, and `node->pkt = pkt`. -/
def malloc_node (m : Memory α) (n : Nat) (pkt : α) : Memory α := put_node m n ⟨pkt, none⟩

def pkt_del (m : Memory α) (pkt : α) : Memory α := { m with deleted := m.deleted ++ [pkt] }

/-- `free(node)` -/
def free_node (m : Memory α) (node : Ptr) : Option (Memory α) := do
  let a ← node
  let _ ← m.nodes a
  some { m with nodes := Function.update m.nodes a none }

/-- `node->next = next` -/
def set_next (m : Memory α) (node next : Ptr) : Option (Memory α) := do
  let a ← node
  let cell ← m.nodes a
  some { m with nodes := Function.update m.nodes a (some { cell with next }) }

/-! ## `linkedList.c` -/

/-- Only `size` is set. -/
def linkedList_create : LinkedList := ⟨none, none, 0⟩

/-- `n` is a node that the caller has made. -/
def linkedList_add (m : Memory α) (linkedList : LinkedList) (n : Nat) : Option (Int × Memory α × LinkedList) :=
  if linkedList.size = 0 then some (0, m, ⟨some n, some n, 1⟩)
  else do
    let m ← set_next m linkedList.tail (some n)
    some (0, m, { linkedList with tail := some n, size := linkedList.size + 1 })

def linkedList_add_pkt (m : Memory α) (linkedList : LinkedList) (n : Nat) (pkt : α) :
    Option (Int × Memory α × LinkedList) :=
  linkedList_add (malloc_node m n pkt) linkedList n

/-- `pkt_del(linkedList->head->pkt); free(linkedList->head);` on the last node. -/
def remove_last (m : Memory α) (linkedList : LinkedList) : Option (Int × Memory α × LinkedList) := do
  let head ← m.nodes.access linkedList.head
  let m ← free_node (pkt_del m head.value) linkedList.head
  some (0, m, { linkedList with size := 0 })

def linkedList_remove (m : Memory α) (linkedList : LinkedList) : Option (Int × Memory α × LinkedList) :=
  if linkedList.size = 0 then some (-1, m, linkedList)
  else if linkedList.size = 1 then remove_last m linkedList
  else do
    let head ← m.nodes.access linkedList.head
    let m ← free_node (pkt_del m head.value) linkedList.head
    some (0, m, { linkedList with head := head.next, size := linkedList.size - 1 })

/-- `while (current->next != linkedList->tail) current = current->next;`, at most `fuel` times. -/
def before_tail (nodes : Cells α) (tail : Ptr) : Nat → Ptr → Option Ptr
  | 0, _ => none
  | fuel + 1, current => do
    let cell ← nodes.access current
    if cell.next = tail then some current else before_tail nodes tail fuel cell.next

def linkedList_remove_end (m : Memory α) (linkedList : LinkedList) : Option (Int × Memory α × LinkedList) :=
  if linkedList.size = 0 then some (-1, m, linkedList)
  else if linkedList.size = 1 then remove_last m linkedList
  else do
    let current ← before_tail m.nodes linkedList.tail linkedList.size.toNat linkedList.head
    let tail ← m.nodes.access linkedList.tail
    let m ← free_node (pkt_del m tail.value) linkedList.tail
    some (0, m, { linkedList with tail := current, size := linkedList.size - 1 })

def linkedList_remove_middle (m : Memory α) (linkedList : LinkedList) (previous current : Nat) :
    Option (Memory α × LinkedList) := do
  let cell ← m.nodes current
  let m ← set_next m (some previous) cell.next
  let m ← free_node (pkt_del m cell.value) (some current)
  some (m, { linkedList with size := linkedList.size - 1 })

/-- The loop of `linkedList_del`, which counts `size` down. -/
def del_loop : Nat → Ptr → Memory α → Option (Memory α)
  | 0, _, m => some m
  | size + 1, current, m => do
    let cell ← m.nodes.access current
    let m ← free_node (pkt_del m cell.value) current
    del_loop size cell.next m

def linkedList_del (m : Memory α) (linkedList : LinkedList) : Option (Int × Memory α) :=
  if linkedList.size = 0 then some (0, m)
  else if linkedList.size = 1 then do
    let head ← m.nodes.access linkedList.head
    let m ← free_node (pkt_del m head.value) linkedList.head
    some (0, m)
  else (del_loop linkedList.size.toNat linkedList.head m).map fun m => (0, m)

/-! ## `linkedList_add_increasing` -/

section

variable [Numbered α]

/-- The loop, at most `fuel` times. `previous` is `NULL` at first, and `window` is what `is_seqnum_greater` reads. The
`Bool` tells that the packet went to the end. -/
def increasing_loop (m : Memory α) (list : LinkedList) (window : Window α) (n : Nat) (pkt : α) :
    Nat → Ptr → Ptr → Option (Int × Bool × Memory α × LinkedList)
  | 0, _, _ => none
  | fuel + 1, previous, current => do
    let cell ← m.nodes.access current
    if seqnumOf pkt = seqnumOf cell.value then some (-1, false, m, list)
    else if is_seqnum_greater (seqnumOf cell.value) (seqnumOf pkt) window then
      match previous with
      | none => do
        let m ← set_next (malloc_node m n pkt) (some n) list.head
        some (0, false, m, { list with head := some n, size := list.size + 1 })
      | some previous => do
        let before ← m.nodes previous
        let m ← set_next (malloc_node m n pkt) (some n) before.next
        let m ← set_next m (some previous) (some n)
        some (0, false, m, { list with size := list.size + 1 })
    else if current ≠ list.tail then increasing_loop m list window n pkt fuel current cell.next
    else (linkedList_add_pkt m list n pkt).map fun (retval, m, list) => (retval, true, m, list)

def linkedList_add_increasing (m : Memory α) (list : LinkedList) (window : Window α) (n : Nat) (pkt : α) :
    Option (Int × Bool × Memory α × LinkedList) :=
  if list.size = 0 then
    (linkedList_add_pkt m list n pkt).map fun (_, m, list) => (0, true, m, list)
  else increasing_loop m list window n pkt list.size.toNat none list.head

end

/-! ## What the memory operations do -/

@[simp] theorem put_node_self (m : Memory α) (n : Nat) (node : Cell α) : (put_node m n node).nodes n = some node :=
  Function.update_self ..

theorem put_node_of_ne (m : Memory α) {n a : Nat} (h : a ≠ n) (node : Cell α) :
    (put_node m n node).nodes a = m.nodes a := Function.update_of_ne h ..

@[simp] theorem malloc_node_self (m : Memory α) (n : Nat) (pkt : α) :
    (malloc_node m n pkt).nodes n = some ⟨pkt, none⟩ := put_node_self ..

theorem malloc_node_of_ne (m : Memory α) {n a : Nat} (h : a ≠ n) (pkt : α) :
    (malloc_node m n pkt).nodes a = m.nodes a := put_node_of_ne m h _

@[simp] theorem pkt_del_nodes (m : Memory α) (pkt : α) : (pkt_del m pkt).nodes = m.nodes := rfl

@[simp] theorem pkt_del_deleted (m : Memory α) (pkt : α) : (pkt_del m pkt).deleted = m.deleted ++ [pkt] := rfl

theorem free_node_some {m : Memory α} {a : Nat} {cell : Cell α} (h : m.nodes a = some cell) :
    free_node m (some a) = some { m with nodes := Function.update m.nodes a none } := by
  simp [free_node, h]

theorem set_next_some {m : Memory α} {a : Nat} {cell : Cell α} (h : m.nodes a = some cell) (next : Ptr) :
    set_next m (some a) next = some { m with nodes := Function.update m.nodes a (some { cell with next }) } := by
  simp [set_next, h]

end Trtp.Heap
