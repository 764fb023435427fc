import TinyCLR.HeapBlock.Array
import TinyCLR.Library.Bits

/-!
# Bit streams

`CLR_RT_HeapBlock_MemoryStream`: bits are packed into bytes, the highest first, and the bytes lie in
a list of buffers. A stream is written into buffers of its own, or reads from one that it is given.
-/

namespace TinyCLR.HeapBlock

/-- `c_PayloadSize`, with blocks of 12 bytes and pointers of 4. -/
def payloadSize : Nat := 32 * 12 - 4 - 4

namespace MemoryStream

/-- `CLR_RT_HeapBlock_MemoryStream::Buffer`: `m_data` is the buffer a stream was given, or the
payload. -/
structure Buffer where
  data : Option (List Nat)
  length : Nat
  payload : Nat → Nat

/-- A byte of `m_data`; `none` behind its end. -/
def Buffer.read (b : Buffer) (i : Nat) : Option Nat :=
  match b.data with
  | none => if i < payloadSize then some (b.payload i) else none
  | some data => data[i]?

/-- What the event cache gives: whether there is another buffer, and what lies in it. -/
structure Cache where
  room : Nat → Bool
  payload : Nat → Nat → Nat

end MemoryStream

open MemoryStream

/-- `CLR_RT_HeapBlock_MemoryStream`. The buffers are numbered, and `current` may be the end of the
list, which is not a buffer. -/
structure MemoryStream where
  buffers : List Buffer
  current : Nat
  pos : Int
  avail : Nat

namespace MemoryStream

/-- A stream with bits available in the byte where it stands. -/
structure Standing extends MemoryStream where
  avail_pos : 0 < avail

/-- What a call does, and where it leaves the stream. -/
abbrev Result (α : Type) := Except (HResult × MemoryStream) (α × MemoryStream)

variable (C : Cache)

/-- `NewBuffer` -/
def newBuffer (s : MemoryStream) : Option MemoryStream :=
  if C.room s.buffers.length then
    some
      { buffers := s.buffers ++
          [{ data := none, length := 0, payload := C.payload s.buffers.length }]
        current := s.buffers.length
        pos := -1
        avail := 0 }
  else none

/-- `CreateInstance`, over a buffer or with none. -/
def createInstance (buf : Option (List Nat)) : Except HResult MemoryStream :=
  match newBuffer C { buffers := [], current := 0, pos := -1, avail := 0 } with
  | none => .error .outOfMemory
  | some s =>
      match buf with
      | none => .ok s
      | some buf =>
          .ok { s with
            buffers := s.buffers.modify s.current fun b =>
              { b with data := some buf, length := buf.length } }

/-- `Rewind` -/
def rewind (s : MemoryStream) : MemoryStream := { s with current := 0, pos := -1, avail := 0 }

/-- The bytes that `ToArray` copies. -/
def toArray (s : MemoryStream) : List Nat :=
  s.buffers.flatMap fun b => (List.range b.length).map b.payload

/-- `BitsAvailable` -/
def bitsAvailable (s : MemoryStream) : Int32 :=
  Int32.ofInt (s.avail - 8 * s.pos - 8 +
    ((s.buffers.drop s.current).map fun b => (8 * b.length : Int)).sum)

/-! ## Reading -/

/-- The search for the next buffer that holds a byte at the position, from the current one on; the
end of the list is not one. -/
def nextBuffer : List Buffer → Nat → Nat → Option (Except HResult Unit × Nat × Nat)
  | [], _, _ => none
  | b :: rest, current, pos =>
      if b.length ≤ pos then
        match rest with
        | [] => some (.error .outOfRange, current + 1, pos)
        | next :: rest => nextBuffer (next :: rest) (current + 1) 0
      else some (.ok (), current, pos)

/-- A turn of `ReadBits` starts with bits available; `none` where the current node is not a
buffer. -/
def toReadable (s : MemoryStream) : Option (Except (HResult × MemoryStream) Standing) :=
  if h : 0 < s.avail then some (.ok ⟨s, h⟩)
  else
    match nextBuffer (s.buffers.drop s.current) s.current (s.pos + 1).toNat with
    | none => none
    | some (.error e, current, pos) =>
        some (.error (e, { s with current := current, pos := pos, avail := 8 }))
    | some (.ok (), current, pos) =>
        some (.ok ⟨{ s with current := current, pos := pos, avail := 8 }, Nat.succ_pos 7⟩)

/-- The byte where the stream stands. -/
def byte (s : MemoryStream) : Option Nat :=
  s.buffers[s.current]?.bind fun b => b.read s.pos.toNat

/-- The loop of `ReadBits` for at most 32 bits. -/
def readLoop (s : MemoryStream) (val bits : Nat) : Option (Result Nat) :=
  if bits = 0 then some (.ok (val, s))
  else
    match s.toReadable with
    | none => none
    | some (.error e) => some (.error e)
    | some (.ok s) =>
        match s.byte with
        | none => none
        | some byte =>
            let insert := min bits s.avail
            let mask := 2 ^ insert - 1
            let pos := bits - insert
            readLoop { s.toMemoryStream with avail := s.avail - insert }
              (val ||| (((byte >>> (s.avail - insert)) &&& mask) <<< pos)) pos
  termination_by bits
  decreasing_by
    have := s.avail_pos
    omega

/-- `ReadBits` for at most 64 bits. -/
def readBits (s : MemoryStream) (bits : Nat) : Option (Result Nat) :=
  if 32 < bits then
    match readLoop s 0 (bits - 32) with
    | none => none
    | some (.error e) => some (.error e)
    | some (.ok (high, s)) =>
        match readLoop s 0 32 with
        | none => none
        | some (.error e) => some (.error e)
        | some (.ok (low, s)) => some (.ok (high <<< 32 ||| low, s))
  else readLoop s 0 bits

/-- `ReadArray` -/
def readArray (s : MemoryStream) : Nat → Option (Result (List Nat))
  | 0 => some (.ok ([], s))
  | bytes + 1 =>
      match readLoop s 0 8 with
      | none => none
      | some (.error e) => some (.error e)
      | some (.ok (data, s)) =>
          match readArray s bytes with
          | none => none
          | some (.error e) => some (.error e)
          | some (.ok (buf, s)) => some (.ok (data % 2 ^ 8 :: buf, s))

/-! ## Writing -/

/-- A byte is appended to the current buffer. -/
def appendByte (s : MemoryStream) : Standing where
  buffers := s.buffers.modify s.current fun b =>
    { b with length := b.length + 1, payload := Function.update b.payload s.pos.toNat 0 }
  current := s.current
  pos := s.pos
  avail := 8
  avail_pos := Nat.succ_pos 7

/-- A turn of `WriteBits` starts with bits available, behind the end in a new buffer. -/
def toWritable (s : MemoryStream) : Except (HResult × MemoryStream) Standing :=
  if h : 0 < s.avail then .ok ⟨s, h⟩
  else
    let s := { s with pos := s.pos + 1 }
    if s.pos < (payloadSize : Int) then .ok s.appendByte
    else
      match s.newBuffer C with
      | none => .error (.outOfMemory, s)
      | some s => .ok (appendByte { s with pos := s.pos + 1 })

/-- Bits are put into the byte where the stream stands. -/
def putBits (s : MemoryStream) (bits insert : Nat) : MemoryStream :=
  { s with
    buffers := s.buffers.modify s.current fun b =>
      { b with
        payload := Function.update b.payload s.pos.toNat
          (b.payload s.pos.toNat ||| (bits <<< (s.avail - insert)) % 2 ^ 8) }
    avail := s.avail - insert }

/-- The loop of `WriteBits` for at most 32 bits. -/
def writeLoop (s : MemoryStream) (val bits : Nat) : Result Unit :=
  if bits = 0 then .ok ((), s)
  else
    match s.toWritable C with
    | .error e => .error e
    | .ok s =>
        let insert := min bits s.avail
        let mask := 2 ^ insert - 1
        let pos := bits - insert
        writeLoop (s.toMemoryStream.putBits ((val >>> pos) &&& mask) insert) val pos
  termination_by bits
  decreasing_by
    have := s.avail_pos
    omega

/-- `WriteBits` for at most 64 bits. -/
def writeBits (s : MemoryStream) (res bits : Nat) : Result Unit :=
  if 32 < bits then
    match s.writeLoop C ((res >>> 32) % 2 ^ 32) (bits - 32) with
    | .error e => .error e
    | .ok (_, s) => s.writeLoop C (res % 2 ^ 32) 32
  else s.writeLoop C (res % 2 ^ 32) bits

/-- `WriteArray` -/
def writeArray (s : MemoryStream) : List Nat → Result Unit
  | [] => .ok ((), s)
  | data :: buf =>
      match s.writeLoop C data 8 with
      | .error e => .error e
      | .ok (_, s) => s.writeArray buf

end MemoryStream

end TinyCLR.HeapBlock
