import TinyCLR.Library.Ring

/-!
# The mark stack

`ComputeReachabilityGraphForMultipleBlocks` marks what a range of blocks leads to. Ranges that are
still to be done lie on a stack of several segments, of which the first one is a local buffer of
`Mark` and the others are allocated when they are needed. Where no segment can be allocated a range
is left out, and `MarkSlow` finds it again later.
-/

namespace TinyCLR.GarbageCollector

open Rings

abbrev Address := Nat

/-- What a block holds, as far as marking looks at it. -/
inductive Data where
  /-- `DATATYPE_OBJECT` and `DATATYPE_BYREF` -/
  | object (ref : Option Address)
  /-- `appDomain` is null, or says whether the domain is loaded. -/
  | transparentProxy (appDomain : Option Bool) (ref : Option Address)
  | arrayByref (array : Option Address)
  /-- `DATATYPE_CLASS` and `DATATYPE_VALUETYPE`: `num` is `DataSize() - 1`. -/
  | fields (num : UInt32)
  | szarray (fReference : Bool) (firstElement : Address) (numOfElements : UInt32)
  | delegate (object : Address)
  | delegateList (weak : Bool) (delegates : Address) (length : UInt32)
  | other
  deriving DecidableEq

/-- The nodes of the list of weak delegates: its two ends, which lie in the collector, and blocks.
-/
inductive Node where
  | null
  | head
  | tail
  | block (a : Address)
  deriving DecidableEq

structure MarkStackElement where
  ptr : Address
  num : UInt32
  deriving DecidableEq

/-- A segment: its buffer, with `m_last` and `m_top` as indexes. -/
structure MarkStack where
  elements : List MarkStackElement
  last : Nat
  top : Nat
  deriving DecidableEq

/-- The collector and the heap. `markStack` says which of the segments is the current one. -/
structure Collector where
  data : Address → Data
  alive : Address → Bool
  weakDelegatesReachable : Links Node
  markStackList : List MarkStack
  markStack : Nat
  outOfStackSpaceForGC : Bool

/-- The local variables: `stack` and `stackLast` point into the segment `stackList`. -/
structure Frame where
  stackList : Nat
  stack : Nat
  stackLast : Nat
  lst : Address
  num : UInt32

def c_minimumSpaceForGC : Nat := 128

/-- `MarkStack::Initialize`: the first element is a sentinel. -/
def MarkStack.initialized (num : Nat) : MarkStack where
  elements := List.replicate num ⟨0, 0⟩
  last := num - 1
  top := 0

/-- The sizes that are tried for a segment, and the first one for which there is memory. -/
def segmentSizes : List Nat := (List.range 8).map fun k => c_minimumSpaceForGC / 2 ^ k

def firstFit (allocate : Nat → Bool) : Option Nat := segmentSizes.find? allocate

namespace Collector

variable (c : Collector)

def element (i k : Nat) : Option MarkStackElement := (c.markStackList[i]?).bind (·.elements[k]?)

def setElement (i k : Nat) (e : MarkStackElement) : Collector where
  data := c.data
  alive := c.alive
  weakDelegatesReachable := c.weakDelegatesReachable
  markStackList := c.markStackList.modify i fun m => { m with elements := m.elements.set k e }
  markStack := c.markStack
  outOfStackSpaceForGC := c.outOfStackSpaceForGC

/-- `COMPUTEREACHABILITY_SAVESTATE` -/
def saveState (f : Frame) : Collector where
  data := c.data
  alive := c.alive
  weakDelegatesReachable := c.weakDelegatesReachable
  markStackList := c.markStackList.modify c.markStack fun m =>
    { m with
      last := f.stackLast
      top := f.stack }
  markStack := f.stackList
  outOfStackSpaceForGC := c.outOfStackSpaceForGC

/-- `COMPUTEREACHABILITY_LOADSTATE` -/
def loadState (lst : Address) (num : UInt32) : Frame :=
  match c.markStackList[c.markStack]? with
  | some m => ⟨c.markStack, m.top, m.last, lst, num⟩
  | none => ⟨c.markStack, 0, 0, lst, num⟩

end Collector

/-- Where a turn of the loop leads, before it visits a block. -/
inductive Turn where
  /-- Nothing is left to be done. -/
  | finished (c : Collector)
  /-- An element outside a buffer is accessed. -/
  | outside
  /-- There is no room for a range. -/
  | dropped (c : Collector) (f : Frame)
  | visiting (c : Collector) (f : Frame) (ptr : Address)

/-- The next block of the topmost range. -/
def takeBlock (c : Collector) (f : Frame) : Turn :=
  match c.element f.stackList f.stack with
  | none => .outside
  | some e =>
      let c' := c.setElement f.stackList f.stack ⟨e.ptr + 1, e.num - 1⟩
      if e.num - 1 = 0 then
        match f.stack with
        | 0 => .outside
        | k + 1 => .visiting c' { f with stack := k } e.ptr
      else .visiting c' f e.ptr

/-- No range is at hand: the next block comes from the stack, from an earlier segment where this one
is exhausted. -/
def pop (c : Collector) (f : Frame) : Turn :=
  match c.element f.stackList f.stack with
  | none => .outside
  | some e =>
      if e.num = 0 then
        match f.stackList with
        | 0 => .finished (c.saveState f)
        | previous + 1 =>
            let c' := { c.saveState f with markStack := previous }
            takeBlock c' (c'.loadState f.lst f.num)
      else takeBlock c f

/-- Make room for a range: the state of the locals where it is to be put behind `stack`. -/
def makeRoom (allocate : Nat → Bool) (c : Collector) (f : Frame) : Option (Collector × Frame) :=
  if f.stack = f.stackLast then
    if f.stackList + 1 < c.markStackList.length then
      let c' := c.saveState f
      -- The next segment becomes `stackList`, which is read from `m_markStack` again at once.
      let f' := { f with stackList := f.stackList + 1 }
      some (c', c'.loadState f'.lst f'.num)
    else if c.outOfStackSpaceForGC then none
    else
      match firstFit allocate with
      | some cElement =>
          let c' := c.saveState f
          let c'' := { c' with
            markStackList := c'.markStackList ++ [.initialized cElement]
            markStack := c'.markStackList.length }
          some (c'', c''.loadState f.lst f.num)
      | none => none
  else some (c, f)

/-- All blocks of the range at hand but the first one are put on the stack. -/
def push (allocate : Nat → Bool) (c : Collector) (f : Frame) : Turn :=
  match makeRoom allocate c f with
  | none => .dropped { c with outOfStackSpaceForGC := true } { f with lst := 0, num := 0 }
  | some (c', f') =>
      match c'.element f'.stackList (f'.stack + 1) with
      | none => .outside
      | some _ => .visiting (c'.setElement f'.stackList (f'.stack + 1) ⟨f'.lst + 1, f'.num - 1⟩)
          { f' with stack := f'.stack + 1 } f'.lst

def advance (allocate : Nat → Bool) (c : Collector) (f : Frame) : Turn :=
  if f.num = 0 then pop c f
  else if 1 < f.num then push allocate c f
  else .visiting c f f.lst

/-- `ClearData`, and `LinkAtBack` of a node whose links are null. -/
def linkAtBack (e : Links Node) (node : Node) : Links Node :=
  let cleared : Links Node := ⟨Function.update e.next node .null, Function.update e.prev node .null⟩
  let last := cleared.prev .tail
  { next := Function.update (Function.update cleared.next node .tail) last node
    prev := Function.update (Function.update cleared.prev node last) .tail node }

namespace Collector

variable (c : Collector)

/-- A range of one block, unless it is alive. -/
def sub (ref : Option Address) : Address × UInt32 :=
  match ref with
  | some a => if c.alive a then (0, 0) else (a, 1)
  | none => (0, 0)

def markAlive (ptr : Address) : Collector := { c with alive := Function.update c.alive ptr true }

end Collector

/-- A block is marked, and the range that it leads to is at hand. -/
def visit (c : Collector) (ptr : Address) : Collector × Address × UInt32 :=
  let c := c.markAlive ptr
  match c.data ptr with
  | .object ref => (c, c.sub ref)
  | .transparentProxy none _ => (c, 0, 0)
  | .transparentProxy (some false) _ =>
      ({ c with data := Function.update c.data ptr (.transparentProxy none none) }, 0, 0)
  | .transparentProxy (some true) ref => (c, c.sub ref)
  | .arrayByref array => (c, c.sub array)
  | .fields num => (c, ptr + 1, num)
  | .szarray true firstElement numOfElements => (c, firstElement, numOfElements)
  | .szarray false _ _ => (c, 0, 0)
  | .delegate object => (c, object, 1)
  | .delegateList true _ _ =>
      ({ c with weakDelegatesReachable := linkAtBack c.weakDelegatesReachable (.block ptr) }, 0, 0)
  | .delegateList false delegates length => (c, delegates, length)
  | .other => (c, 0, 0)

inductive Outcome where
  | finished (c : Collector)
  | outside
  | running (c : Collector) (f : Frame)

/-- A turn of the loop. -/
def iterate (allocate : Nat → Bool) (c : Collector) (f : Frame) : Outcome :=
  match advance allocate c f with
  | .finished c => .finished c
  | .outside => .outside
  | .dropped c f => .running c f
  | .visiting c f ptr =>
      let v := visit c ptr
      .running v.1 { f with
        lst := v.2.1
        num := v.2.2 }

/-- The empty list of weak delegates. -/
def noWeakDelegates : Links Node where
  next := fun node => if node = .head then .tail else .null
  prev := fun node => if node = .tail then .head else .null

/-- `Mark` prepares the helper buffers. -/
def Collector.start (data : Address → Data) (alive : Address → Bool) : Collector where
  data := data
  alive := alive
  weakDelegatesReachable := noWeakDelegates
  markStackList := [.initialized c_minimumSpaceForGC]
  markStack := 0
  outOfStackSpaceForGC := false

end TinyCLR.GarbageCollector
