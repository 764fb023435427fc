import Mathlib
import TinyCLR.Library.PackedBits

/-!
# Bit arrays of the fragmentation layer

`BitArray` keeps its elements in words of 32 bits. `Set` and `Get` test an index only from above,
and a count of a shift is taken modulo 32.
-/

namespace TinyCLR.Network

open PackedBits

abbrev Byte := BitVec 8

inductive Exception where
  | argument
  | argumentOutOfRange
  | indexOutOfRange
  deriving DecidableEq, Repr

/-- `ArgumentException` and the exceptions derived from it. -/
def Exception.isArgument : Exception → Bool
  | .argument | .argumentOutOfRange => true
  | .indexOutOfRange => false

def requiredUInt32ArraySize (size : ℕ) : ℕ :=
  if size % 32 = 0 then size / 32 else size / 32 + 1

/-- A bit array; its words suffice for its elements. -/
@[ext] structure BitArray where
  size : ℕ
  array : List (BitVec 32)
  size_pos : 0 < size
  length_array : array.length = requiredUInt32ArraySize size

namespace BitArray

/-- The words of a value. -/
def fill (value : Bool) : BitVec 32 := if value then 0xFFFFFFFF#32 else 0#32

/-- `new BitArray(size, initialValue)`. -/
def new (size : ℤ) (initialValue : Bool) : Except Exception BitArray :=
  if h : size ≤ 0 then .error .argumentOutOfRange
  else .ok
    { size := size.toNat
      array := List.replicate (requiredUInt32ArraySize size.toNat) (fill initialValue)
      size_pos := by omega
      length_array := List.length_replicate }

variable (b : BitArray)

/-- The array with other words. -/
def withArray (array : List (BitVec 32)) (h : array.length = b.array.length) : BitArray :=
  { b with array, length_array := h.trans b.length_array }

/-- `_array[indexInArray]`. -/
def word (indexInArray : ℤ) : Option (BitVec 32) :=
  if indexInArray < 0 then none else b.array[indexInArray.toNat]?

/-- `(UInt32)1 << indexInInteger`. -/
def flag (index : ℤ) : BitVec 32 := 1#32 <<< (index.tmod 32 % 32).toNat

def set (index : ℤ) (value : Bool) : Except Exception BitArray :=
  if b.size ≤ index then .error .argumentOutOfRange
  else
    let indexInArray := index.tdiv 32
    match b.word indexInArray with
    | none => .error .indexOutOfRange
    | some word =>
        let word := if value then word ||| flag index else word &&& ~~~flag index
        .ok (b.withArray (b.array.set indexInArray.toNat word) List.length_set)

def get (index : ℤ) : Except Exception Bool :=
  if b.size ≤ index then .error .argumentOutOfRange
  else
    match b.word (index.tdiv 32) with
    | none => .error .indexOutOfRange
    | some word => .ok (decide (0#32 < word &&& flag index))

def setAll (value : Bool) : BitArray :=
  b.withArray (b.array.map fun _ => fill value) (List.length_map _)

theorem length_eq_of_size {b other : BitArray} (h : other.size = b.size) :
    other.array.length = b.array.length := by
  rw [other.length_array, b.length_array, h]

/-- `for (int i = 0; i < _array.Length; i++) _array[i] = …`, with the words of both arrays. -/
def combine (f : BitVec 32 → BitVec 32 → BitVec 32) (value : BitArray) :
    Except Exception BitArray :=
  if h : value.size ≠ b.size then .error .argument
  else .ok (b.withArray (b.array.zipWith f value.array) (by
    rw [List.length_zipWith, length_eq_of_size (not_not.mp h), Nat.min_self]))

def and (value : BitArray) : Except Exception BitArray := b.combine (· &&& ·) value

def or (value : BitArray) : Except Exception BitArray := b.combine (· ||| ·) value

def not : BitArray := b.withArray (b.array.map fun x => ~~~x) (List.length_map _)

/-- `0xFFFFFFFF >> (32 - nbElts)`. -/
def mask : BitVec 32 := 0xFFFFFFFF#32 >>> ((32 - b.size % 32) % 32)

/-- `_array[_array.Length - 1]`. -/
def last : BitVec 32 := b.array.getLastD 0

def checkAllSet (value : Bool) : Bool :=
  b.array.dropLast.all (· == fill value) && (fill value &&& b.mask) == (b.mask &&& b.last)

def hasSameContent (other : BitArray) : Bool :=
  b.size == other.size &&
    ((b.array.dropLast.zip other.array.dropLast).all (fun p => p.1 == p.2) &&
      (b.mask &&& b.last) == (b.mask &&& other.last))

/-- `Clone`: a new array, and `Array.Copy` of the words. -/
def clone : BitArray := b.withArray b.array rfl

/-- The inner loop of `ToByteArray`, with the number of bytes left of the word and of the array. -/
def wordBytes : ℕ → ℕ → BitVec 32 → List Byte
  | 0, _, _ => []
  | _, 0, _ => []
  | j + 1, left + 1, val => (val &&& 0x000000FF#32).setWidth 8 :: wordBytes j left (val >>> 8)

/-- The outer loop of `ToByteArray`. -/
def arrayBytes : List (BitVec 32) → ℕ → List Byte
  | _, 0 => []
  | [], _ + 1 => []
  | val :: array, left + 1 => wordBytes 4 (left + 1) val ++ arrayBytes array (left + 1 - 4)

def byteArrayLength : ℕ := if b.size % 8 = 0 then b.size / 8 else 1 + b.size / 8

def toByteArray : List Byte := arrayBytes b.array b.byteArrayLength

/-- The loops of `FromByteArray`: byte `index` goes to place `index % 4` of word `index / 4`. -/
def orBytes : List Byte → ℕ → List (BitVec 32) → Except Exception (List (BitVec 32))
  | [], _, array => .ok array
  | byte :: bytes, index, array =>
      match array[index / 4]? with
      | none => .error .indexOutOfRange
      | some word => orBytes bytes (index + 1)
          (array.set (index / 4) (word ||| byte.setWidth 32 <<< (index % 4 * 8)))

theorem length_orBytes {bytes : List Byte} {index : ℕ} {array array' : List (BitVec 32)}
    (h : orBytes bytes index array = .ok array') : array'.length = array.length := by
  induction bytes generalizing index array with
  | nil =>
      cases h
      rfl
  | cons byte bytes ih =>
      rw [orBytes] at h
      cases hword : array[index / 4]? with
      | none =>
          rw [hword] at h
          cases h
      | some word =>
          rw [hword] at h
          rw [ih h, List.length_set]

def fromByteArray (nbElements : ℤ) (array : List Byte) : Except Exception BitArray :=
  if array.length * 8 < nbElements then .error .argument
  else
    match new nbElements false with
    | .error e => .error e
    | .ok b =>
        match h : orBytes array 0 b.array with
        | .error e => .error e
        | .ok words => .ok (b.withArray words (length_orBytes h))

/-- The elements. -/
def toList : List Bool := (unpack b.array).take b.size

end BitArray

end TinyCLR.Network
