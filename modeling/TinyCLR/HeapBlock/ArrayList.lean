import TinyCLR.HeapBlock.Array

/-!
# Growing arrays of objects

`CLR_RT_HeapBlock_ArrayList` keeps its elements at the lower end of an array of objects,
`CLR_RT_HeapBlock_Stack` at the upper end, the last one lowest. An array that is full is replaced
by a longer one. The heap gives memory in blocks, whose number is computed in 32 bits.
-/

namespace TinyCLR.HeapBlock

variable {Ref : Type}

/-- The blocks of an array of objects, as `ExtractHeapBlocksForArray` computes them: the header has
20 bytes, a heap block 12. -/
def arrayBlocks (length : ℕ) : ℕ := ((20 + length * 12) % 2 ^ 32 + 11) % 2 ^ 32 / 12

/-- `CLR_RT_HeapBlock::HB_MaxSize` -/
def maxSize : ℕ := 0xFFFF

/-- `CLR_RT_HeapBlock_Array::CreateInstance`, of objects. `allocated` says whether the heap has the
blocks; `none` where `ClearElements` writes behind them. -/
def createInstance (allocated : Bool) (length : ℤ) :
    Option (Except HResult (List (Option Ref))) :=
  if length < 0 then some (.error .outOfRange)
  else if maxSize < arrayBlocks length.toNat ∨ allocated = false then some (.error .outOfMemory)
  else if arrayBlocks length.toNat * 12 < 20 + length.toNat * 12 then none
  else some (.ok (List.replicate length.toNat none))

/-- `SetObjectReference`, of the element at an index. -/
def setElement (items : List (Option Ref)) (index : ℕ) (value : Option Ref) :
    Option (List (Option Ref)) :=
  if index < items.length then some (items.set index value) else none

/-- `ClearElements`, of objects. -/
def clearObjects (items : List (Option Ref)) (index length : ℕ) : Option (List (Option Ref)) :=
  if index + length ≤ items.length then some (items.splice index (List.replicate length none))
  else none

/-- `memcpy` of the first elements to the elements of another array from an index on. -/
def copyObjects (target : List (Option Ref)) (index : ℕ) (source : List (Option Ref)) (n : ℕ) :
    Option (List (Option Ref)) :=
  if n ≤ source.length ∧ index + n ≤ target.length then some (target.splice index (source.take n))
  else none

/-- `c_DefaultCapacity` -/
def defaultCapacity : ℤ := 4

structure ArrayList (Ref : Type) where
  items : List (Option Ref)
  size : ℕ

namespace ArrayList

/-- What a call returns, and the list; `none` where it reaches outside the memory of an array. -/
abbrev Reply (Ref α : Type) := Option (Except HResult α × ArrayList Ref)

variable (l : ArrayList Ref)

/-- `GetItem` -/
def getItem (index : Int32) : Reply Ref (Option Ref) :=
  if index.toInt < 0 ∨ l.size ≤ index.toInt then some (.error .outOfRange, l)
  else l.items[index.toInt.toNat]?.map fun value => (.ok value, l)

/-- `SetItem` -/
def setItem (index : Int32) (value : Option Ref) : Reply Ref Unit :=
  if index.toInt < 0 ∨ l.size ≤ index.toInt then some (.error .outOfRange, l)
  else (setElement l.items index.toInt.toNat value).map fun items => (.ok (), { l with items })

/-- `SetCapacity` -/
def setCapacity (newCapacity : ℤ) (allocated : Bool) : Reply Ref Unit :=
  if newCapacity ≠ l.items.length then
    if newCapacity < l.size then some (.error .outOfRange, l)
    else
      let newCapacity := if newCapacity < defaultCapacity then defaultCapacity else newCapacity
      match createInstance allocated newCapacity with
      | none => none
      | some (.error e) => some (.error e, l)
      | some (.ok newItems) =>
          (copyObjects newItems 0 l.items l.size).map fun items => (.ok (), { l with items })
  else some (.ok (), l)

/-- `EnsureCapacity`. The product has the 32 bits of `CLR_INT32`. -/
def ensureCapacity (min currentCapacity : ℤ) (allocated : Bool) : Reply Ref Unit :=
  if currentCapacity < min then
    let newCapacity := ((currentCapacity * 3).bmod (2 ^ 32)).tdiv 2
    l.setCapacity (if newCapacity < min then min else newCapacity) allocated
  else some (.ok (), l)

/-- The list with room for another element. -/
def withRoom (allocated : Bool) : Reply Ref Unit :=
  if l.size = l.items.length then l.ensureCapacity (l.size + 1) l.items.length allocated
  else some (.ok (), l)

/-- `Add` -/
def add (value : Option Ref) (allocated : Bool) : Reply Ref ℕ :=
  match l.withRoom allocated with
  | none => none
  | some (.error e, l) => some (.error e, l)
  | some (.ok _, l) =>
      (setElement l.items l.size value).map fun items => (.ok l.size, ⟨items, l.size + 1⟩)

/-- `Clear` -/
def clear : Reply Ref Unit :=
  (clearObjects l.items 0 l.size).map fun items => (.ok (), ⟨items, 0⟩)

/-- The elements from `stop` on move up by one, the last one first. -/
def moveUp (stop : ℕ) (items : List (Option Ref)) : ℕ → Option (List (Option Ref))
  | 0 => none
  | previous + 1 =>
      match items[previous]?, setElement items (previous + 1) (items.getD previous none) with
      | some _, some items => if previous = stop then some items else moveUp stop items previous
      | _, _ => none

/-- `Insert` -/
def insert (index : Int32) (value : Option Ref) (allocated : Bool) : Reply Ref Unit :=
  if index.toInt < 0 ∨ l.size < index.toInt then some (.error .outOfRange, l)
  else
    match l.withRoom allocated with
    | none => none
    | some (.error e, l) => some (.error e, l)
    | some (.ok _, l) =>
        let moved := if index.toInt < l.size then moveUp index.toInt.toNat l.items l.size
          else some l.items
        match moved with
        | none => none
        | some items =>
            (setElement items index.toInt.toNat value).map fun items =>
              (.ok (), ⟨items, l.size + 1⟩)

/-- The elements behind `current` move down by one until `stop` is reached. A walk that misses it
leaves the array within as many steps as the array has elements. -/
def moveDown (stop : ℕ) (items : List (Option Ref)) (current : ℕ) : ℕ → Option (List (Option Ref))
  | 0 => none
  | steps + 1 =>
      match items[current + 1]?, setElement items current (items.getD (current + 1) none) with
      | some _, some items =>
          if current + 1 = stop then some items else moveDown stop items (current + 1) steps
      | _, _ => none

/-- `RemoveAt` -/
def removeAt (index : Int32) : Reply Ref Unit :=
  if index.toInt < 0 ∨ l.size ≤ index.toInt then some (.error .outOfRange, l)
  else
    let moved := if index.toInt < (l.size : ℤ) - 1 then
        moveDown (l.size - 1) l.items index.toInt.toNat l.items.length
      else some l.items
    match moved with
    | none => none
    | some items =>
        (setElement items (l.size - 1) none).map fun items => (.ok (), ⟨items, l.size - 1⟩)

end ArrayList

structure Stack (Ref : Type) where
  array : List (Option Ref)
  size : ℕ

namespace Stack

abbrev Reply (Ref α : Type) := Option (Except HResult α × Stack Ref)

variable (s : Stack Ref)

/-- The element that was pushed last. -/
def top : ℕ := s.array.length - s.size

/-- `Pop` -/
def pop : Reply Ref (Option Ref) :=
  if s.size = 0 then some (.error .invalidOperation, s)
  else
    match s.array[s.top]?, setElement s.array s.top none with
    | some removed, some array => some (.ok removed, ⟨array, s.size - 1⟩)
    | _, _ => none

/-- `Peek` -/
def peek : Reply Ref (Option Ref) :=
  if s.size = 0 then some (.error .invalidOperation, s)
  else s.array[s.top]?.map fun value => (.ok value, s)

/-- `Clear` -/
def clear : Reply Ref Unit :=
  (clearObjects s.array s.top s.size).map fun array => (.ok (), ⟨array, 0⟩)

/-- The stack in a longer array, at whose upper end the elements stand. -/
def replaceArray (capacity : ℤ) (allocated : Bool) : Reply Ref Unit :=
  match createInstance allocated capacity with
  | none => none
  | some (.error e) => some (.error e, s)
  | some (.ok newArray) =>
      (copyObjects newArray s.size s.array s.size).map fun array => (.ok (), { s with array })

/-- The stack with room for another element. The product has the 32 bits of `CLR_INT32`. -/
def withRoom (allocated : Bool) : Reply Ref Unit :=
  if s.size = s.array.length then
    s.replaceArray ((s.array.length * 2 : ℤ).bmod (2 ^ 32)) allocated
  else some (.ok (), s)

/-- `Push` -/
def push (value : Option Ref) (allocated : Bool) : Reply Ref Unit :=
  match s.withRoom allocated with
  | none => none
  | some (.error e, s) => some (.error e, s)
  | some (.ok _, s) =>
      (setElement s.array (s.array.length - (s.size + 1)) value).map fun array =>
        (.ok (), ⟨array, s.size + 1⟩)

end Stack

end TinyCLR.HeapBlock
