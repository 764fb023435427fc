import TinyCLR.HeapBlock.ArrayCopy
import TinyCLR.Library.Circular

/-!
# Queues

`CLR_RT_HeapBlock_Queue`: a ring in an array of objects, which is replaced by one of twice the
length where an element is added to a full one. The elements are copied to the new array by
`CopyTo`, which has a way of its own for arrays of objects.
-/

namespace TinyCLR.HeapBlock

/-- `System.Object` as the type of the elements of an array. -/
structure ObjectType (T : Types) where
  object : T.Reflection
  ofObject_object : T.ofObject object = true
  kindOf_of_ofObject : ∀ r, T.ofObject r = true → T.kindOf r = .reference
  isInstanceOf_of_ofObject : ∀ value r, T.ofObject r = true → T.isInstanceOf value r = true
  /-- What `StoreToReference` leaves in an array is an element of that array. -/
  kind_of_convert : ∀ value r e, T.convert value r = some e → e.kind = T.kindOf r

structure Queue where
  array : ArrayId
  head : Nat
  tail : Nat
  size : Nat
  deriving DecidableEq

variable {T : Types} (O : ObjectType T)

theorem ObjectType.kindOf_object : T.kindOf O.object = .reference :=
  O.kindOf_of_ofObject _ O.ofObject_object

/-- `Dereference`, of a block that refers to an object. -/
def Element.dereference {Ref Content : Type} : Element Ref Content → Option Ref
  | .direct ref => ref
  | _ => none

/-- What `CreateInstance` makes of objects. -/
def objects (n : Nat) (h : n < 2 ^ 31) : Array T where
  reflection := O.object
  elements := List.replicate n (.direct none)
  typed := fun e he => by
    rw [List.eq_of_mem_replicate he, O.kindOf_object]
    rfl
  length_lt := by rwa [List.length_replicate]

/-- `memcpy` of blocks that are assigned as they are. -/
def memcpy (heap : Heap T) (dst src : ArrayId) (j i n : Nat) : Outcome T :=
  if h : T.kindOf (heap src).reflection = T.kindOf (heap dst).reflection ∧
      i + n ≤ (heap src).elements.length ∧ j + n ≤ (heap dst).elements.length then
    some (.ok (), Function.update heap dst ((heap dst).move j ((heap src).elements.window i n)
      (fun e he => by
        rw [← h.1]
        exact (heap src).typed e (List.mem_of_mem_window he))
      (by
        rw [List.length_window h.2.1]
        exact h.2.2)))
  else none

/-- `ClearElements`, of an array of references. -/
def clearElements (heap : Heap T) (array : ArrayId) (index length : Nat) : Outcome T :=
  if h : T.kindOf (heap array).reflection = .reference ∧
      index + length ≤ (heap array).elements.length then
    some (.ok (), Function.update heap array ((heap array).move index
      (List.replicate length (.direct none))
      (fun e he => by
        rw [List.eq_of_mem_replicate he, h.1]
        rfl)
      (by
        rw [List.length_replicate]
        exact h.2)))
  else none

/-- The next copy, unless one has failed. -/
def andThen (outcome : Outcome T) (next : Heap T → Outcome T) : Outcome T :=
  match outcome with
  | some (.ok (), heap) => next heap
  | outcome => outcome

namespace Queue

/-- What a call returns, the queue, and the heap; `none` where it reaches behind an array. -/
abbrev Reply (T : Types) (α : Type) := Option (Except HResult α × Queue × Heap T)

def capacity (q : Queue) (heap : Heap T) : Nat := (heap q.array).elements.length

/-- `Dequeue` -/
def dequeue (q : Queue) (heap : Heap T) : Reply T (Option T.Ref) :=
  if q.size = 0 then some (.error .invalidOperation, q, heap)
  else
    match (heap q.array).elements[q.head]? with
    | some removed =>
        some (.ok removed.dereference,
          { q with head := (q.head + 1) % q.capacity heap, size := q.size - 1 },
          heap.store q.array q.head (.direct none))
    | none => none

/-- `Peek` -/
def peek (q : Queue) (heap : Heap T) : Reply T (Option T.Ref) :=
  if q.size = 0 then some (.error .invalidOperation, q, heap)
  else
    match (heap q.array).elements[q.head]? with
    | some first => some (.ok first.dereference, q, heap)
    | none => none

/-- `Clear` -/
def clear (q : Queue) (heap : Heap T) : Reply T Unit :=
  let cleared : Outcome T :=
    if q.size = 0 then some (.ok (), heap)
    else if q.head < q.tail then clearElements heap q.array q.head q.size
    else
      andThen (clearElements heap q.array q.head (q.capacity heap - q.head)) fun heap =>
        clearElements heap q.array 0 q.tail
  match cleared with
  | some (.ok (), heap) => some (.ok (), ⟨q.array, 0, 0, 0⟩, heap)
  | some (.error e, heap) => some (.error e, q, heap)
  | none => none

/-- `ObjArrayMemcpy`. The first argument of `memcpy` is the place to which it copies. -/
def objArrayMemcpy (heap : Heap T) (arraySrc : ArrayId) (indexSrc : Int32) (arrayDst : ArrayId)
    (indexDst length : Int32) : Outcome T :=
  if indexSrc < 0 ∨ indexDst < 0 ∨ length < 0 then none
  else
    memcpy heap arraySrc arrayDst indexSrc.toInt.toNat indexDst.toInt.toNat length.toInt.toNat

/-- `CopyTo` -/
def copyTo (q : Queue) (heap : Heap T) (toArray : ArrayId) (index : Int32) : Outcome T :=
  let arrayCopy := if T.ofObject (heap toArray).reflection then objArrayMemcpy else copy
  let size := Int32.ofNat q.size
  let head := Int32.ofNat q.head
  if (heap toArray).numOfElements - index < size then some (.error .invalidParameter, heap)
  else if q.size = 0 then some (.ok (), heap)
  else if q.head < q.tail then arrayCopy heap q.array head toArray index size
  else
    let firstPart := (heap q.array).numOfElements - head
    andThen (arrayCopy heap q.array head toArray index firstPart) fun heap =>
      arrayCopy heap q.array 0 toArray (index + firstPart) (Int32.ofNat q.tail)

/-- The element behind the last one is set. -/
def put (q : Queue) (heap : Heap T) (value : Option T.Ref) : Reply T Unit :=
  if q.tail < q.capacity heap then
    some (.ok (), { q with tail := (q.tail + 1) % q.capacity heap, size := q.size + 1 },
      heap.store q.array q.tail (.direct value))
  else none

/-- `Enqueue`. `fresh` is the array that is allocated, if there is room for one; what `CopyTo`
returns is not looked at. -/
def enqueue (q : Queue) (heap : Heap T) (value : Option T.Ref) (fresh : Option ArrayId) :
    Reply T Unit :=
  if q.size = q.capacity heap then
    if h : q.capacity heap * 2 < 2 ^ 31 then
      match fresh with
      | some array =>
          match q.copyTo (Function.update heap array (objects O (q.capacity heap * 2) h)) array 0
            with
          | some (_, heap) => put ⟨array, 0, q.size, q.size⟩ heap value
          | none => none
      | none => some (.error .outOfMemory, q, heap)
    else some (.error .outOfRange, q, heap)
  else q.put heap value

end Queue

end TinyCLR.HeapBlock
