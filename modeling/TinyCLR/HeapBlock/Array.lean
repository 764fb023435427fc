import TinyCLR.Library.Splice

/-!
# Arrays

`CLR_RT_HeapBlock_Array`: elements of numeric types lie side by side in an array, those of all
other types are heap blocks. `Copy` checks the two ranges in 32-bit arithmetic and moves the
elements by one of four ways, which the headers of the arrays and their positions decide.
-/

namespace TinyCLR.HeapBlock

/-- The results of a call that failed. -/
inductive HResult where
  | outOfRange
  | wrongType
  | invalidCast
  | invalidParameter
  | invalidOperation
  | nullReference
  | outOfMemory
  deriving DecidableEq

/-- How the elements of an array are kept. -/
inductive Kind where
  | numeric
  | reference
  | valueType
  deriving DecidableEq

/-- An element: the bits of a number, a block that is assigned as it is, or one that refers to an
object of a value type, which it owns. -/
inductive Element (Ref Content : Type) where
  | raw (bits : Nat)
  | direct (ref : Option Ref)
  | valueType (content : Content)
  deriving DecidableEq

def Element.kind {Ref Content : Type} : Element Ref Content → Kind
  | .raw _ => .numeric
  | .direct _ => .reference
  | .valueType _ => .valueType

/-- What the type system says of the types of arrays. -/
structure Types where
  Ref : Type
  Content : Type
  Reflection : Type
  [decidableEq : DecidableEq Reflection]
  kindOf : Reflection → Kind
  /-- `m_typeOfElement` is `DATATYPE_OBJECT`. -/
  ofObject : Reflection → Bool
  /-- The fields of a boxed value type. -/
  unbox : Ref → Option Content
  /-- `IsInstanceOf`, for the element type. -/
  isInstanceOf : Element Ref Content → Reflection → Bool
  /-- `LoadFromReference` and `StoreToReference`, where the types match. -/
  convert : Element Ref Content → Reflection → Option (Element Ref Content)

attribute [instance] Types.decidableEq

variable (T : Types)

abbrev Types.Element : Type := HeapBlock.Element T.Ref T.Content

/-- `CLR_RT_HeapBlock_Array`. `CreateInstance` refuses a length that is negative as an integer. -/
structure Array where
  reflection : T.Reflection
  elements : List T.Element
  typed : ∀ e ∈ elements, e.kind = T.kindOf reflection
  length_lt : elements.length < 2 ^ 31

abbrev ArrayId := Nat

abbrev Heap := ArrayId → Array T

variable {T}

/-- `Reassign`, of blocks that lie in an array. -/
def reassign (this value : T.Element) : Except HResult T.Element :=
  match this, value with
  | .valueType _, .valueType content => .ok (.valueType content)
  | .valueType _, .direct (some ref) =>
      match T.unbox ref with
      | some content => .ok (.valueType content)
      | none => .error .wrongType
  | .direct _, .direct ref => .ok (.direct ref)
  | _, _ => .error .wrongType

namespace Array

/-- `m_numOfElements` -/
def numOfElements (a : Array T) : Int32 := Int32.ofNat a.elements.length

def sameHeader (a b : Array T) : Bool := a.reflection = b.reflection

/-- `CheckRange` -/
def checkRange (index length numOfElements : Int32) : Bool :=
  if length < 0 then false
  else if index < 0 ∨ numOfElements < index then false
  else if index + length < 0 ∨ numOfElements < index + length then false
  else true

def set (a : Array T) (j : Nat) (e : T.Element) (h : e.kind = T.kindOf a.reflection) : Array T where
  reflection := a.reflection
  elements := a.elements.set j e
  typed := fun x hx => by
    rcases List.mem_or_eq_of_mem_set hx with hx | rfl
    · exact a.typed x hx
    · exact h
  length_lt := by
    rw [List.length_set]
    exact a.length_lt

/-- Elements are written over those from a position on. -/
def move (a : Array T) (j : Nat) (items : List T.Element)
    (h : ∀ e ∈ items, e.kind = T.kindOf a.reflection) (hroom : j + items.length ≤ a.elements.length) :
    Array T where
  reflection := a.reflection
  elements := a.elements.splice j items
  typed := fun x hx => (List.mem_of_mem_splice hx).elim (a.typed x) (h x)
  length_lt := by
    rw [List.length_splice hroom]
    exact a.length_lt

end Array

/-- What a call returns, and the heap; `none` where it reaches behind an array. -/
abbrev Outcome (T : Types) := Option (Except HResult Unit × Heap T)

/-- A block is written into an array. -/
def Heap.store (heap : Heap T) (dst : ArrayId) (j : Nat) (e : T.Element) : Heap T :=
  if h : e.kind = T.kindOf (heap dst).reflection then
    Function.update heap dst ((heap dst).set j e h)
  else heap

/-- The loops of `Copy`, over the positions from which and to which elements are moved. -/
def copyLoop (turn : T.Element → T.Element → Except HResult T.Element) (src dst : ArrayId) :
    List (Nat × Nat) → Heap T → Outcome T
  | [], heap => some (.ok (), heap)
  | (i, j) :: positions, heap =>
      match (heap src).elements[i]?, (heap dst).elements[j]? with
      | some value, some this =>
          match turn this value with
          | .error e => some (.error e, heap)
          | .ok e => copyLoop turn src dst positions (heap.store dst j e)
      | _, _ => none

/-- The positions of the elements, upwards. -/
def positions (i j n : Nat) : List (Nat × Nat) := (List.range n).map fun k => (i + k, j + k)

/-- The test that an element may be stored in an array of another type. -/
def checkCast (value : T.Element) (reflection : T.Reflection) : Except HResult Unit :=
  match value with
  | .direct none => .ok ()
  | value => if T.isInstanceOf value reflection then .ok () else .error .invalidCast

/-- A value is loaded from an array and stored in one whose elements are kept in another way. -/
def storeConverted (value : T.Element) (reflection : T.Reflection) : Except HResult T.Element :=
  match T.convert value reflection with
  | some e => .ok e
  | none => .error .wrongType

/-- `memmove` of elements. -/
def memmove (heap : Heap T) (src dst : ArrayId) (i j n : Nat)
    (h : (heap src).reflection = (heap dst).reflection) : Outcome T :=
  if hroom : i + n ≤ (heap src).elements.length ∧ j + n ≤ (heap dst).elements.length then
    some (.ok (), Function.update heap dst ((heap dst).move j ((heap src).elements.window i n)
      (fun e he => by
        rw [← h]
        exact (heap src).typed e (List.mem_of_mem_window he))
      (by
        rw [List.length_window hroom.1]
        exact hroom.2)))
  else none

/-- `Copy` -/
def copy (heap : Heap T) (src : ArrayId) (indexSrc : Int32) (dst : ArrayId) (indexDst : Int32)
    (length : Int32) : Outcome T :=
  if length = 0 then some (.ok (), heap)
  else if length < 0 ∨ indexSrc < 0 ∨ indexDst < 0 ∨
      (heap src).numOfElements < length + indexSrc ∨
      (heap dst).numOfElements < length + indexDst then some (.error .outOfRange, heap)
  else if src = dst ∧ indexSrc = indexDst then some (.ok (), heap)
  else
    let i := indexSrc.toInt.toNat
    let j := indexDst.toInt.toNat
    let n := length.toInt.toNat
    if h : (heap src).reflection = (heap dst).reflection then
      if T.kindOf (heap src).reflection = .numeric then memmove heap src dst i j n h
      else if src = dst ∧ i < j then copyLoop reassign src dst (positions i j n).reverse heap
      else copyLoop reassign src dst (positions i j n) heap
    else if T.kindOf (heap src).reflection ≠ .numeric ∧
        T.kindOf (heap dst).reflection ≠ .numeric then
      copyLoop (fun this value => (checkCast value (heap dst).reflection).bind fun _ =>
        reassign this value) src dst (positions i j n) heap
    else
      copyLoop (fun _ value => (checkCast value (heap dst).reflection).bind fun _ =>
        storeConverted value (heap dst).reflection) src dst (positions i j n) heap

end TinyCLR.HeapBlock
