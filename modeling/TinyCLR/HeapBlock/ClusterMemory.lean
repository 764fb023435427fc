import TinyCLR.HeapBlock.HeapCluster
import TinyCLR.Library.DoublyLinked

/-!
# The memory of a heap cluster

A cluster is a stretch of memory that heap blocks fill without a gap. Each block starts with a
header that holds its type, its flags and its size; the free blocks are linked through their data.
Addresses are in bytes and sizes in heap blocks.
-/

namespace TinyCLR.ClusterMemory

open HeapCluster (DataType sizeofHeapBlock)
open Word32 (u32)
open DoublyLinked

def hbAlive : BitVec 32 := 0x01
def hbEvent : BitVec 32 := 0x04
def hbPinned : BitVec 32 := 0x08
def hbUnmovable : BitVec 32 := hbPinned ||| hbEvent
def hbInitializeToZero : BitVec 32 := 0x00100

/-- `m_id` -/
structure Header where
  dataType : DataType
  flags : BitVec 8
  size : UInt16
  deriving DecidableEq

namespace Header

/-- `DataSize` -/
def dataSize (h : Header) : ℕ := h.size.toNat

def isFlagSet (h : Header) (flags : BitVec 32) : Bool := h.flags &&& flags.setWidth 8 ≠ 0

def resetFlags (h : Header) (flags : BitVec 32) : Header :=
  { h with flags := h.flags &&& ~~~flags.setWidth 8 }

def isAlive (h : Header) : Bool := h.isFlagSet hbAlive
def isEvent (h : Header) : Bool := h.isFlagSet hbEvent
def markDead (h : Header) : Header := h.resetFlags hbAlive

end Header

/-- `CLR_RT_HEAPBLOCK_RAW_ID` -/
def rawId (dataType : DataType) (flags : BitVec 32) (size : ℕ) : Header where
  dataType := dataType
  flags := flags.setWidth 8
  size := UInt16.ofNat size

/-- The header that every free block gets. -/
def freeId (size : ℕ) : Header := rawId .freeBlock hbPinned size

/-- The heap blocks by address: `m_id`, and `m_data` seen as the links of a node. -/
structure Memory extends Links ℕ where
  id : ℕ → Header

/-- `CLR_RT_HeapCluster`: `Head` and `Tail` of its list, `m_payloadStart` and `m_payloadEnd`. -/
structure Cluster where
  head : ℕ
  tail : ℕ
  payloadStart : ℕ
  payloadEnd : ℕ

/-- No list of the cluster has more nodes. -/
def Cluster.fuel (hc : Cluster) : ℕ := hc.payloadEnd - hc.payloadStart + 1

namespace Memory

def setDataId (m : Memory) (ptr : ℕ) (id : Header) : Memory :=
  { m with id := Function.update m.id ptr id }

def setNext (m : Memory) (ptr : ℕ) (next : Option ℕ) : Memory :=
  { m with next := Function.update m.next ptr next }

def setPrev (m : Memory) (ptr : ℕ) (prev : Option ℕ) : Memory :=
  { m with prev := Function.update m.prev ptr prev }

def clearData (m : Memory) (ptr : ℕ) : Memory := (m.setNext ptr none).setPrev ptr none

/-- `InitializeToZero` -/
def initializeToZero (m : Memory) (ptr : ℕ) : Memory :=
  let finish := ptr + (m.id ptr).dataSize * sizeofHeapBlock
  { next := fun a => if ptr ≤ a ∧ a < finish then none else m.next a
    prev := fun a => if ptr ≤ a ∧ a < finish then none else m.prev a
    id := fun a => if ptr < a ∧ a < finish then ⟨.void, 0, 0⟩ else m.id a }

/-! ## Nodes and lists -/

def removeFromList (m : Memory) (node : ℕ) : Memory :=
  let prev := m.prev node
  let next := m.next node
  let m := prev.elim m fun prev => m.setNext prev next
  next.elim m fun next => m.setPrev next prev

def unlink (m : Memory) (node : ℕ) : Memory := (m.removeFromList node).clearData node

/-- `Insert` -/
def insert (m : Memory) (prev next node : ℕ) : Memory :=
  (((m.setNext node next).setPrev node prev).setPrev next node).setNext prev node

def insertBeforeNode (m : Memory) (node nodeNew : ℕ) : Option Memory :=
  if node ≠ nodeNew then
    let m := m.removeFromList nodeNew
    (m.prev node).map fun prev => m.insert prev node nodeNew
  else some m

/-- `DblLinkedList_Initialize` -/
def dblLinkedListInitialize (m : Memory) (hc : Cluster) : Memory :=
  (((m.setNext hc.head hc.tail).setPrev hc.head none).setNext hc.tail none).setPrev hc.tail hc.head

/-! ## The cluster -/

/-- The block that the list is searched for, from the end for events. -/
def findBlock (m : Memory) (hc : Cluster) (flags : BitVec 32) (length : ℕ) : Option (ℕ × Bool) :=
  let fits := fun ptr => decide (length ≤ (m.id ptr).dataSize)
  if flags &&& hbEvent ≠ 0 then
    (m.prev hc.tail).bind (Links.seek m.prev fits hc.fuel)
  else
    (m.next hc.head).bind (Links.seek m.next fits hc.fuel)

/-- The part of the block that is not asked for stays in the list, in front of it for events and
behind it otherwise. -/
def splitBlock (m : Memory) (flags : BitVec 32) (length res : ℕ) : Option (ℕ × Memory) :=
  let available := (m.id res).dataSize - length
  if available ≠ 0 then
    if flags &&& hbEvent ≠ 0 then
      some (res + available * sizeofHeapBlock, m.setDataId res (freeId available))
    else
      (m.next res).bind fun next => (m.prev res).map fun prev =>
        let ptr := res + length * sizeofHeapBlock
        (res, (m.setDataId ptr (freeId available)).insert prev next ptr)
  else
    (m.next res).bind fun next => (m.prev res).map fun prev =>
      (res, (m.setNext prev next).setPrev next prev)

/-- `ExtractBlocks` -/
def extractBlocks (m : Memory) (hc : Cluster) (dataType : DataType) (flags : BitVec 32)
    (length : ℕ) : Option (Option ℕ × Memory) :=
  (m.findBlock hc flags length).bind fun found =>
    if found.2 then
      (m.splitBlock flags length found.1).map fun r =>
        let m := r.2.setDataId r.1 (rawId dataType flags length)
        (some r.1, if flags &&& hbInitializeToZero ≠ 0 then m.initializeToZero r.1 else m)
    else some (none, m)

/-- The blocks from an address on that are not alive: where they end, and `lenTot`. -/
def deadBlocks (m : Memory) (finish : ℕ) : ℕ → ℕ → ℕ → Option (ℕ × ℕ)
  | 0, _, _ => none
  | fuel + 1, next, lenTot =>
      let len := (m.id next).dataSize
      let next := next + len * sizeofHeapBlock
      if next < finish ∧ (m.id next).isAlive = false then
        deadBlocks m finish fuel next (lenTot + len)
      else some (next, lenTot + len)

/-- The loop of `RecoverFromGC`, with the last free block. -/
def recoverBlocks (finish : ℕ) : ℕ → ℕ → ℕ → Memory → Option (ℕ × Memory)
  | 0, _, _, _ => none
  | fuel + 1, ptr, last, m =>
      if ptr < finish then
        if (m.id ptr).isAlive = false then
          (m.deadBlocks finish (fuel + 1) ptr 0).bind fun dead =>
            let m := m.setDataId ptr (freeId dead.2)
            let m := (m.setNext last ptr).setPrev ptr last
            recoverBlocks finish fuel dead.1 ptr m
        else
          let m := if (m.id ptr).isEvent = false then m.setDataId ptr (m.id ptr).markDead else m
          recoverBlocks finish fuel (ptr + (m.id ptr).dataSize * sizeofHeapBlock) last m
      else some (last, m)

/-- `RecoverFromGC` -/
def recoverFromGC (m : Memory) (hc : Cluster) : Option Memory :=
  let m := m.setPrev hc.head none
  (recoverBlocks hc.payloadEnd hc.fuel hc.payloadStart hc.head m).map fun r =>
    ((r.2.setNext r.1 hc.tail).setPrev hc.tail r.1).setNext hc.tail none

/-- The loop that cuts the payload in free blocks. -/
def cutBlocks (finish : ℕ) : ℕ → ℕ → ℕ → Memory → Option Memory
  | 0, _, _, _ => none
  | fuel + 1, blockSize, ptr, m =>
      if ptr < finish then
        let blockSize := if finish < u32 (ptr + blockSize * sizeofHeapBlock)
          then (finish - ptr) / sizeofHeapBlock else blockSize
        cutBlocks finish fuel blockSize (ptr + blockSize * sizeofHeapBlock)
          (m.setDataId ptr (rawId .freeBlock 0 blockSize))
      else some m

/-- `HeapCluster_Initialize`, where no object is salvaged. -/
def heapClusterInitialize (m : Memory) (hc : Cluster) (blockSize : ℕ) : Option Memory :=
  (cutBlocks hc.payloadEnd hc.fuel blockSize hc.payloadStart (m.dblLinkedListInitialize hc)).bind
    fun m => m.recoverFromGC hc

/-- The block that follows is joined to the node. -/
def coalesceNext (m : Memory) (node size : ℕ) : Option (ℕ × Memory) :=
  (m.next node).map fun ptr =>
    if (m.next ptr).isSome ∧ node + size * sizeofHeapBlock = ptr then
      (size + (m.id ptr).dataSize, m.unlink ptr)
    else (size, m)

/-- The node is joined to the block before it. -/
def coalescePrev (m : Memory) (node size : ℕ) : Option (ℕ × ℕ × Memory) :=
  (m.prev node).map fun ptr =>
    if (m.prev ptr).isSome ∧ ptr + (m.id ptr).dataSize * sizeofHeapBlock = node then
      (ptr, size + (m.id ptr).dataSize, m.unlink node)
    else (node, size, m)

/-- `InsertInOrder` -/
def insertInOrder (m : Memory) (hc : Cluster) (node size : ℕ) : Option (ℕ × Memory) :=
  ((m.next hc.head).bind (Links.seek m.next (fun ptr => decide (node < ptr)) hc.fuel)).bind
    fun found => ((m.clearData node).insertBeforeNode found.1 node).bind
      fun m => (m.coalesceNext node size).bind
        fun r => (r.2.coalescePrev node r.1).map
          fun r => (r.1, r.2.2.setDataId r.1 (freeId r.2.1))

end Memory

end TinyCLR.ClusterMemory
