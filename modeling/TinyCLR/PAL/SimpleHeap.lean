import Mathlib
import TinyCLR.Library.Word32

/-!
# The simple heap

Blocks with a header of five words each, linked both ways in a buffer. The heap is the memory
together with the address of the first header; a null pointer is `0`.
-/

namespace TinyCLR.SimpleHeap

open LittleEndian Word32

/-- `sizeof(struct BlockHeader)` and `sizeof(c_Guard)` -/
def headerSize : Nat := 20

def guardSize : Nat := 4

def cFree : Nat := 0xDEADBEEF

def cBusy : Nat := 0xDEADBE5E

def cGuard : Nat := 0xbab1f00d

section Fields

variable (m : Memory) (blk : Nat)

/-! ## The fields of a header -/

def next : Nat := load m blk

def prev : Nat := load m (blk + 4)

def length : Nat := load m (blk + 8)

def signature : Nat := load m (blk + 12)

def headGuard : Nat := load m (blk + 16)

def setNext (v : Nat) : Memory := store m blk v

def setPrev (v : Nat) : Memory := store m (blk + 4) v

def setLength (v : Nat) : Memory := store m (blk + 8) v

def setSignature (v : Nat) : Memory := store m (blk + 12) v

def setHeadGuard (v : Nat) : Memory := store m (blk + 16) v

/-- Where the tail guard of a block lies. -/
def tailGuardAddr : Nat := sub32 (u32 (blk + length m blk)) guardSize

end Fields

/-- `SimpleHeap_Initialize` -/
def heapInitialize (m : Memory) (buffer len : Nat) : Memory :=
  let m := setLength m buffer len
  let m := setNext m buffer 0
  let m := setPrev m buffer 0
  let m := setSignature m buffer cFree
  setHeadGuard m buffer cGuard

/-- The size of the block for a request, header and tail guard included and rounded up to words. -/
def blockSize (len : Nat) : Nat :=
  let len := u32 (len + headerSize)
  let len := u32 (len + guardSize)
  u32 (len + 3) / 4 * 4

/-- The first free block of the list that is large enough, `0` at the end of the list. The outer
`none` is a list longer than the address space, one that does not end. -/
def findFit (m : Memory) (len : Nat) : Nat → Nat → Option Nat
  | 0, _ => none
  | fuel + 1, ptr =>
      if ptr = 0 then some 0
      else if signature m ptr = cFree ∧ len ≤ length m ptr then some ptr
      else findFit m len fuel (next m ptr)

/-- The split of a block: the new one is its tail. -/
def split (m : Memory) (prev len : Nat) : Nat × Memory :=
  let ptr := sub32 (u32 (prev + length m prev)) len
  let nextBlk := next m prev
  let m := setNext m ptr nextBlk
  let m := setPrev m ptr prev
  let m := setNext m prev ptr
  let m := if nextBlk = 0 then m else setPrev m nextBlk ptr
  let m := setLength m ptr len
  (ptr, setLength m prev (sub32 (length m prev) len))

/-- A block becomes busy, with both of its guards. -/
def markBusy (m : Memory) (ptr : Nat) : Memory :=
  let m := setSignature m ptr cBusy
  let m := setHeadGuard m ptr cGuard
  store m (tailGuardAddr m ptr) cGuard

/-- `SimpleHeap_Allocate` -/
def allocate (m : Memory) (first len : Nat) : Option (Nat × Memory) :=
  let len := blockSize len
  (findFit m len (2 ^ 32) first).map fun ptr =>
    if ptr = 0 then (0, m)
    else
      let fit := if length m ptr ≤ u32 (len + headerSize * 2) then (ptr, m) else split m ptr len
      (u32 (fit.1 + headerSize), markBusy fit.2 fit.1)

/-- The head guard and the tail guard that `SimpleHeap_Release` looks at. -/
def guardsIntact (m : Memory) (blk : Nat) : Bool :=
  headGuard m blk == cGuard && load m (tailGuardAddr m blk) == cGuard

/-- The merge of a block with the following one, if that is free. -/
def mergeNext (m : Memory) (blk : Nat) : Memory :=
  let nextBlk := next m blk
  if nextBlk ≠ 0 ∧ signature m nextBlk = cFree then
    let m := setLength m blk (u32 (length m blk + length m nextBlk))
    let nextNext := next m nextBlk
    let m := setNext m blk nextNext
    if nextNext = 0 then m else setPrev m nextNext blk
  else m

/-- The merge of a block with the preceding one, if that is free. -/
def mergePrev (m : Memory) (blk : Nat) : Memory :=
  let prevBlk := prev m blk
  if prevBlk ≠ 0 ∧ signature m prevBlk = cFree then
    let m := setLength m prevBlk (u32 (length m prevBlk + length m blk))
    let nextBlk := next m blk
    let m := setNext m prevBlk nextBlk
    if nextBlk = 0 then m else setPrev m nextBlk prevBlk
  else m

/-- `SimpleHeap_Release`; `none` stands for its breakpoints on a damaged guard. -/
def release (m : Memory) (ptr : Nat) : Option Memory :=
  if ptr = 0 then some m
  else
    let blk := sub32 ptr headerSize
    if guardsIntact m blk = false then none
    else
      let m := setSignature m blk cFree
      some (mergePrev (mergeNext m blk) blk)

def memcpy (m : Memory) (dst src n : Nat) : Memory :=
  fun i => if dst ≤ i ∧ i < dst + n then m (src + (i - dst)) else m i

/-- How many bytes `SimpleHeap_ReAllocate` copies. -/
def copyLength (m : Memory) (ptr len : Nat) : Nat :=
  let blk := sub32 ptr headerSize
  if length m blk < len then length m blk else len

/-- `SimpleHeap_ReAllocate` -/
def reAllocate (m : Memory) (first ptr len : Nat) : Option (Nat × Memory) :=
  (allocate m first len).bind fun allocated =>
    let p := allocated.1
    let m := allocated.2
    if p = 0 then some (0, m)
    else if ptr = 0 then some (p, m)
    else (release (memcpy m p ptr (copyLength m ptr len)) ptr).map fun m => (p, m)

end TinyCLR.SimpleHeap
