import Mathlib
import TinyCLR.Library.Splice

/-!
# Memory streams

`System.IO.MemoryStream`, and the array with a position that it stands for. The arrays that
callers pass are not the buffer of the stream. An operation that may allocate is told whether
there is memory.
-/

namespace TinyCLR.Framework.IO

section Source

inductive Exception where
  | objectDisposed
  | argumentNull
  | argumentOutOfRange
  | argument
  | io
  | notSupported
  | outOfMemory
  | indexOutOfRange
  /-- Memory outside of an array is read or written. -/
  | outsideArray
  deriving DecidableEq, Repr

/-- The value of an `int` after a calculation. -/
def int32 (x : ℤ) : ℤ := (x + 2 ^ 31) % 2 ^ 32 - 2 ^ 31

/-- `Array.Copy`, for bytes. -/
def arrayCopy (src : List UInt8) (indexSrc : ℤ) (dst : List UInt8) (indexDst length : ℤ) :
    Except Exception (List UInt8) :=
  if length = 0 then .ok dst
  else if length < 0 ∨ indexSrc < 0 ∨ indexDst < 0 ∨ src.length < int32 (length + indexSrc) ∨
      dst.length < int32 (length + indexDst) then .error .indexOutOfRange
  else if src.length < length + indexSrc ∨ dst.length < length + indexDst then .error .outsideArray
  else .ok (dst.splice indexDst.toNat (src.window indexSrc.toNat length.toNat))

/-- `Array.Clear`, for bytes. -/
def arrayClear (array : List UInt8) (index length : ℤ) : Except Exception (List UInt8) :=
  let length : ℤ := if length = -1 then array.length else length
  if length < 0 ∨ index < 0 ∨ array.length < int32 (length + index) then .error .indexOutOfRange
  else if array.length < length + index then .error .outsideArray
  else .ok (array.splice index.toNat (List.replicate length.toNat 0))

structure MemoryStream where
  buffer : List UInt8
  position : ℤ
  length : ℤ
  capacity : ℤ
  expandable : Bool
  isOpen : Bool
  deriving DecidableEq, Repr

/-- The origin, which both constructors set to 0. -/
def origin : ℤ := 0

def memStreamMaxLength : ℤ := 0xFFFF

/-- `MemoryStream()` -/
def MemoryStream.new : MemoryStream := ⟨List.replicate 256 0, origin, 0, 256, true, true⟩

/-- `MemoryStream( byte[] )` -/
def MemoryStream.ofBuffer (buffer : List UInt8) : MemoryStream :=
  ⟨buffer, origin, buffer.length, buffer.length, false, true⟩

inductive SeekOrigin where
  | fromBegin | fromCurrent | fromEnd | undefined
  deriving DecidableEq, Repr

/-- What an operation returns. -/
inductive Value where
  | done
  | number (n : ℤ)
  /-- The bytes read and the array they were read into. -/
  | read (n : ℤ) (buffer : List UInt8)
  | contents (bytes : List UInt8)
  deriving DecidableEq, Repr

abbrev Result := Except Exception Value

namespace MemoryStream

def ensureCapacity (s : MemoryStream) (memory : Bool) (value : ℤ) :
    Except Exception (Bool × MemoryStream) :=
  if s.capacity < value then
    let newCapacity := if value < 256 then 256 else value
    let newCapacity :=
      if newCapacity < int32 (s.capacity * 2) then int32 (s.capacity * 2) else newCapacity
    if s.expandable = false ∧ s.capacity < newCapacity then .error .notSupported
    else if 0 < newCapacity then
      if memory then
        let newBuffer := List.replicate newCapacity.toNat 0
        (if 0 < s.length then arrayCopy s.buffer 0 newBuffer 0 s.length else .ok newBuffer).map
          fun newBuffer => (true, { s with buffer := newBuffer, capacity := newCapacity })
      else .error .outOfMemory
    else .ok (true, { s with buffer := [], capacity := newCapacity })
  else .ok (false, s)

def getLength (s : MemoryStream) : Result :=
  if s.isOpen then .ok (.number (s.length - origin)) else .error .objectDisposed

def getPosition (s : MemoryStream) : Result :=
  if s.isOpen then .ok (.number (s.position - origin)) else .error .objectDisposed

def setPosition (s : MemoryStream) (value : Int64) : Result × MemoryStream :=
  if s.isOpen = false then (.error .objectDisposed, s)
  else if value.toInt < 0 ∨ memStreamMaxLength < value.toInt then (.error .argumentOutOfRange, s)
  else (.ok .done, { s with position := origin + value.toInt })

/-- The checks of `Read` and `Write` on the array of the caller. -/
def checkArray (buffer : Option (List UInt8)) (offset count : ℤ) : Except Exception (List UInt8) :=
  match buffer with
  | none => .error .argumentNull
  | some buffer =>
      if offset < 0 ∨ count < 0 then .error .argumentOutOfRange
      else if buffer.length - offset < count then .error .argument
      else .ok buffer

def read (s : MemoryStream) (buffer : Option (List UInt8)) (offset count : Int32) :
    Result × MemoryStream :=
  if s.isOpen = false then (.error .objectDisposed, s)
  else
    match checkArray buffer offset.toInt count.toInt with
    | .error e => (.error e, s)
    | .ok buffer =>
        let n := int32 (s.length - s.position)
        let n := if count.toInt < n then count.toInt else n
        if n ≤ 0 then (.ok (.read 0 buffer), s)
        else
          match arrayCopy s.buffer s.position buffer offset.toInt n with
          | .error e => (.error e, s)
          | .ok buffer => (.ok (.read n buffer), { s with position := int32 (s.position + n) })

def readByte (s : MemoryStream) : Result × MemoryStream :=
  if s.isOpen = false then (.error .objectDisposed, s)
  else if s.length ≤ s.position then (.ok (.number (-1)), s)
  else
    let next := { s with position := int32 (s.position + 1) }
    if s.position < 0 then (.error .indexOutOfRange, next)
    else
      match s.buffer[s.position.toNat]? with
      | none => (.error .indexOutOfRange, next)
      | some b => (.ok (.number b.toNat), next)

def seek (s : MemoryStream) (offset : Int64) (seekOrigin : SeekOrigin) : Result × MemoryStream :=
  if s.isOpen = false then (.error .objectDisposed, s)
  else if memStreamMaxLength < offset.toInt then (.error .argumentOutOfRange, s)
  else
    let moved := fun position : ℤ =>
      ((.ok (.number position), { s with position := position }) : Result × MemoryStream)
    match seekOrigin with
    | .fromBegin =>
        if offset.toInt < 0 then (.error .io, s) else moved (origin + int32 offset.toInt)
    | .fromCurrent =>
        if offset.toInt + s.position < origin then (.error .io, s)
        else moved (int32 (s.position + int32 offset.toInt))
    | .fromEnd =>
        if s.length + offset.toInt < origin then (.error .io, s)
        else moved (int32 (s.length + int32 offset.toInt))
    | .undefined => (.error .argument, s)

def setLength (s : MemoryStream) (value : Int64) (memory : Bool) : Result × MemoryStream :=
  if s.isOpen = false then (.error .objectDisposed, s)
  else if memStreamMaxLength < value.toInt ∨ value.toInt < 0 then (.error .argumentOutOfRange, s)
  else
    let newLength := origin + value.toInt
    match s.ensureCapacity memory newLength with
    | .error e => (.error e, s)
    | .ok (allocatedNewArray, s) =>
        match
          if allocatedNewArray = false ∧ s.length < newLength then
            arrayClear s.buffer s.length (newLength - s.length)
          else .ok s.buffer with
        | .error e => (.error e, s)
        | .ok buffer =>
            let s := { s with buffer := buffer, length := newLength }
            (.ok .done, if newLength < s.position then { s with position := newLength } else s)

def toArray (s : MemoryStream) (memory : Bool) : Result :=
  if memory then
    (arrayCopy s.buffer origin (List.replicate (s.length - origin).toNat 0) 0
      (s.length - origin)).map .contents
  else .error .outOfMemory

def write (s : MemoryStream) (buffer : Option (List UInt8)) (offset count : Int32)
    (memory : Bool) : Result × MemoryStream :=
  if s.isOpen = false then (.error .objectDisposed, s)
  else
    match checkArray buffer offset.toInt count.toInt with
    | .error e => (.error e, s)
    | .ok buffer =>
        let i := int32 (s.position + count.toInt)
        let grown :=
          if s.length < i then
            (if s.capacity < i then (s.ensureCapacity memory i).map Prod.snd else .ok s).map
              fun s => { s with length := i }
          else .ok s
        match grown with
        | .error e => (.error e, s)
        | .ok s =>
            match arrayCopy buffer offset.toInt s.buffer s.position count.toInt with
            | .error e => (.error e, s)
            | .ok target => (.ok .done, { s with buffer := target, position := i })

def writeByte (s : MemoryStream) (value : UInt8) (memory : Bool) : Result × MemoryStream :=
  if s.isOpen = false then (.error .objectDisposed, s)
  else
    let grown :=
      if s.capacity ≤ s.position then
        (s.ensureCapacity memory (int32 (s.position + 1))).map Prod.snd
      else .ok s
    match grown with
    | .error e => (.error e, s)
    | .ok s =>
        let next := int32 (s.position + 1)
        if s.position < 0 ∨ s.buffer.length ≤ s.position then
          (.error .indexOutOfRange, { s with position := next })
        else
          let buffer := s.buffer.set s.position.toNat value
          let length := if s.length < next then next else s.length
          (.ok .done, { s with buffer := buffer, position := next, length := length })

/-- The bytes that `WriteTo` hands to `Write` of another stream. -/
def writeTo (s : MemoryStream) (stream : Bool) : Result :=
  if s.isOpen = false then .error .objectDisposed
  else if stream = false then .error .argumentNull
  else .ok (.contents (s.buffer.window origin.toNat (s.length - origin).toNat))

end MemoryStream

/-- A call on a stream. `memory` says whether an array could be allocated. -/
inductive Operation where
  | write (buffer : Option (List UInt8)) (offset count : Int32) (memory : Bool)
  | writeByte (value : UInt8) (memory : Bool)
  | read (buffer : Option (List UInt8)) (offset count : Int32)
  | readByte
  | seek (offset : Int64) (seekOrigin : SeekOrigin)
  | setPosition (value : Int64)
  | getPosition
  | getLength
  | setLength (value : Int64) (memory : Bool)
  | toArray (memory : Bool)
  | writeTo (stream : Bool)
  | dispose
  deriving DecidableEq, Repr

/-- Whether a closed stream refuses the call. -/
def Operation.needsOpen : Operation → Bool
  | .toArray _ | .dispose => false
  | _ => true

def MemoryStream.step (s : MemoryStream) : Operation → Result × MemoryStream
  | .write buffer offset count memory => s.write buffer offset count memory
  | .writeByte value memory => s.writeByte value memory
  | .read buffer offset count => s.read buffer offset count
  | .readByte => s.readByte
  | .seek offset seekOrigin => s.seek offset seekOrigin
  | .setPosition value => s.setPosition value
  | .getPosition => (s.getPosition, s)
  | .getLength => (s.getLength, s)
  | .setLength value memory => s.setLength value memory
  | .toArray memory => (s.toArray memory, s)
  | .writeTo stream => (s.writeTo stream, s)
  | .dispose => (.ok .done, { s with isOpen := false })

end Source

section Abstract

/-- An array with a position. `limit` is the size of a buffer that cannot grow. -/
structure ArrayStream where
  contents : List UInt8
  position : ℕ
  limit : Option ℕ
  isOpen : Bool
  deriving DecidableEq, Repr

namespace ArrayStream

/-- Bytes from a position on, and zeros in front of them behind the old end. -/
def overwrite (contents : List UInt8) (p : ℕ) (bytes : List UInt8) : List UInt8 :=
  (contents ++ List.replicate (p - contents.length) 0).take p ++
    (bytes ++ contents.drop (p + bytes.length))

def put (a : ArrayStream) (bytes : List UInt8) : Result × ArrayStream :=
  let next := a.position + bytes.length
  if 2 ^ 31 ≤ next then (.error .io, a)
  else if a.limit.any (· < next) then (.error .notSupported, a)
  else (.ok .done,
    { a with contents := overwrite a.contents a.position bytes, position := next })

def get (a : ArrayStream) (count : ℕ) : List UInt8 := a.contents.window a.position count

def resize (a : ArrayStream) (n : ℕ) : Result × ArrayStream :=
  if a.limit.any (· < n) then (.error .notSupported, a)
  else (.ok .done, { a with
    contents := a.contents.take n ++ List.replicate (n - a.contents.length) 0
    position := min a.position n })

def moveTo (a : ArrayStream) (position : ℤ) : Result × ArrayStream :=
  if position < 0 then (.error .io, a)
  else (.ok (.number position), { a with position := position.toNat })

def step (a : ArrayStream) (op : Operation) : Result × ArrayStream :=
  if op.needsOpen = true ∧ a.isOpen = false then (.error .objectDisposed, a)
  else
    match op with
    | .write buffer offset count _ =>
        match MemoryStream.checkArray buffer offset.toInt count.toInt with
        | .error e => (.error e, a)
        | .ok buffer => a.put (buffer.window offset.toInt.toNat count.toInt.toNat)
    | .writeByte value _ => a.put [value]
    | .read buffer offset count =>
        match MemoryStream.checkArray buffer offset.toInt count.toInt with
        | .error e => (.error e, a)
        | .ok buffer =>
            let bytes := a.get count.toInt.toNat
            (.ok (.read bytes.length (buffer.splice offset.toInt.toNat bytes)),
              { a with position := a.position + bytes.length })
    | .readByte =>
        match a.contents[a.position]? with
        | none => (.ok (.number (-1)), a)
        | some b => (.ok (.number b.toNat), { a with position := a.position + 1 })
    | .seek offset seekOrigin =>
        if memStreamMaxLength < offset.toInt then (.error .argumentOutOfRange, a)
        else
          match seekOrigin with
          | .fromBegin => a.moveTo offset.toInt
          | .fromCurrent => a.moveTo (a.position + offset.toInt)
          | .fromEnd => a.moveTo (a.contents.length + offset.toInt)
          | .undefined => (.error .argument, a)
    | .setPosition value =>
        if value.toInt < 0 ∨ memStreamMaxLength < value.toInt then (.error .argumentOutOfRange, a)
        else (.ok .done, { a with position := value.toInt.toNat })
    | .getPosition => (.ok (.number a.position), a)
    | .getLength => (.ok (.number a.contents.length), a)
    | .setLength value _ =>
        if memStreamMaxLength < value.toInt ∨ value.toInt < 0 then (.error .argumentOutOfRange, a)
        else a.resize value.toInt.toNat
    | .toArray _ => (.ok (.contents a.contents), a)
    | .writeTo stream =>
        if stream = false then (.error .argumentNull, a) else (.ok (.contents a.contents), a)
    | .dispose => (.ok .done, { a with isOpen := false })

end ArrayStream

end Abstract

section Refinement

theorem int32_of_bounds {x : ℤ} (h : -2 ^ 31 ≤ x) (h' : x < 2 ^ 31) : int32 x = x := by
  unfold int32
  omega

theorem int32_le {x : ℤ} (h : -2 ^ 31 ≤ x) : int32 x ≤ x := by
  unfold int32
  omega

theorem arrayCopy_inside {src dst : List UInt8} {i j n : ℤ} (hn : 0 ≤ n) (hi : 0 ≤ i)
    (hj : 0 ≤ j) (hsrc : n + i ≤ src.length) (hdst : n + j ≤ dst.length) :
    arrayCopy src i dst j n = .ok (dst.splice j.toNat (src.window i.toNat n.toNat)) := by
  by_cases hzero : n = 0
  · rw [arrayCopy, if_pos hzero, hzero]
    change _ = Except.ok (dst.splice j.toNat (src.window i.toNat 0))
    rw [List.window_zero, List.splice_nil]
  · have hwrapSrc := int32_le (show -2 ^ 31 ≤ n + i by omega)
    have hwrapDst := int32_le (show -2 ^ 31 ≤ n + j by omega)
    rw [arrayCopy, if_neg hzero, if_neg (by omega), if_neg (by omega)]

theorem arrayCopy_nothing (src dst : List UInt8) (i j : ℤ) : arrayCopy src i dst j 0 = .ok dst :=
  if_pos rfl

namespace MemoryStream

/-- The capacity is the size of the buffer, and length and position are numbers of bytes. -/
structure Inv (s : MemoryStream) : Prop where
  capacity : s.capacity = s.buffer.length
  length_nonneg : 0 ≤ s.length
  length_le : s.length ≤ s.capacity
  length_lt : s.length < 2 ^ 31
  position_nonneg : 0 ≤ s.position
  position_lt : s.position < 2 ^ 31

/-- What a stream stands for. -/
def toArrayStream (s : MemoryStream) : ArrayStream :=
  ⟨s.buffer.take s.length.toNat, s.position.toNat,
    if s.expandable then none else some s.capacity.toNat, s.isOpen⟩

variable {s : MemoryStream} {memory : Bool} {value : ℤ}

theorem Inv.length_contents (h : s.Inv) :
    (s.toArrayStream.contents.length : ℤ) = s.length := by
  have := h.capacity
  have := h.length_le
  have := h.length_nonneg
  rw [toArrayStream, List.length_take]
  omega

theorem ensureCapacity_fits (h : value ≤ s.capacity) :
    s.ensureCapacity memory value = .ok (false, s) := if_neg (by omega)

theorem ensureCapacity_fixed (h : s.capacity < value) (hfixed : s.expandable = false) :
    s.ensureCapacity memory value = .error .notSupported := by
  rw [ensureCapacity, if_pos h]
  dsimp only
  rw [if_pos ⟨hfixed, by split_ifs <;> omega⟩]

theorem ensureCapacity_full (hinv : s.Inv) (h : s.capacity < value)
    (hexpandable : s.expandable = true) :
    s.ensureCapacity false value = .error .outOfMemory := by
  have hlow := hinv.length_nonneg.trans hinv.length_le
  rw [ensureCapacity, if_pos h]
  dsimp only
  rw [if_neg (by simp [hexpandable]), if_pos (by split_ifs <;> omega)]
  rfl

/-- A new buffer has the old contents and zeros behind them. -/
theorem ensureCapacity_grows (hinv : s.Inv) (h : s.capacity < value)
    (hexpandable : s.expandable = true) :
    ∃ k : ℕ, value ≤ s.length + k ∧ s.ensureCapacity true value =
      .ok (true, { s with
        buffer := s.buffer.take s.length.toNat ++ List.replicate k 0
        capacity := s.length + k }) := by
  have hlow := hinv.length_nonneg
  have hle := hinv.length_le
  have hcapacity := hinv.capacity
  obtain ⟨size, hsize, hdef⟩ : ∃ size : ℕ, value ≤ size ∧
      (if (if value < 256 then 256 else value) < int32 (s.capacity * 2) then
        int32 (s.capacity * 2) else if value < 256 then 256 else value) = (size : ℤ) := by
    refine ⟨Int.toNat _, ?_, (Int.toNat_of_nonneg ?_).symm⟩
    · split_ifs <;> omega
    · split_ifs <;> omega
  refine ⟨size - s.length.toNat, by omega, ?_⟩
  rw [ensureCapacity, if_pos h]
  dsimp only
  rw [hdef, if_neg (by simp [hexpandable]), if_pos (by omega)]
  simp only [if_true, Int.toNat_natCast]
  have hbuffer : (if 0 < s.length then
      arrayCopy s.buffer 0 (List.replicate size 0) 0 s.length
      else .ok (List.replicate size 0)) =
      .ok (s.buffer.take s.length.toNat ++ List.replicate (size - s.length.toNat) 0) := by
    split_ifs with hpos
    · rw [arrayCopy_inside hlow le_rfl le_rfl (by omega) (by rw [List.length_replicate]; omega)]
      change Except.ok ((List.replicate size (0 : UInt8)).splice 0 (s.buffer.window 0 _)) = _
      rw [List.splice, List.window, List.drop_zero, List.take_zero, List.nil_append,
        List.length_take, List.drop_replicate, Nat.zero_add, min_eq_left (by omega)]
    · rw [show s.length.toNat = 0 by omega, List.take_zero, List.nil_append, Nat.sub_zero]
  rw [hbuffer]
  change Except.ok _ = _
  rw [show (size : ℤ) = s.length + ((size - s.length.toNat : ℕ) : ℤ) by omega]

/-- The bytes that a buffer without new memory still holds between the end and the position are
zero. -/
def GapClear (s : MemoryStream) (next : ℤ) : Prop :=
  s.position ≤ s.length ∨ s.capacity < next ∨
    ∀ i : ℕ, s.length ≤ i → i < s.position → s.buffer[i]? = some 0

end MemoryStream

theorem take_splice_eq_overwrite {buffer bytes : List UInt8} {l p : ℕ} (hl : l ≤ buffer.length)
    (hp : p + bytes.length ≤ buffer.length)
    (hgap : ∀ i, l ≤ i → i < p → buffer[i]? = some 0) :
    (buffer.splice p bytes).take (max l (p + bytes.length)) =
      ArrayStream.overwrite (buffer.take l) p bytes := by
  apply List.ext_getElem?
  intro i
  rw [List.getElem?_take, List.getElem?_splice hp, ArrayStream.overwrite, List.getElem?_append]
  simp only [List.length_take, List.length_append, List.length_replicate, List.getElem?_take,
    List.getElem?_append, List.getElem?_drop, List.getElem?_replicate]
  grind

end Refinement

end TinyCLR.Framework.IO
