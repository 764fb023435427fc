import TinyCLR.Library.Pieces
import TinyCLR.Text.UnicodeHelper

/-!
# The stream of an HTTP body

`InputNetworkStreamWrapper` hands out the body of a message. It reads ahead into a buffer of its
own, decodes chunks where that is enabled, and counts down the content length where one is set.
-/

namespace TinyCLR.HTTP

open Text

/-- The exceptions, with the texts of those that the parser of chunk headers throws. -/
inductive Error where
  | protocolViolation (message : String)
  | connectionAborted
  | argument
  | indexOutOfRange
  | wrongType
  deriving DecidableEq

/-! ## The size of a chunk -/

def toUpper (c : Nat) : Nat := if 97 ≤ c ∧ c ≤ 122 then c - 32 else c

def hexDigit (c : Nat) : Option Nat :=
  if 48 ≤ c ∧ c ≤ 57 then some (c - 48)
  else if 65 ≤ c ∧ c ≤ 70 then some (c - 55)
  else none

def trim (text : List Nat) : List Nat :=
  (text.dropWhile (· == 32)).rdropWhile (· == 32)

/-- The digits behind a `0X`. -/
def trimSentinel : List Nat → List Nat
  | 48 :: 88 :: digits => digits
  | digits => digits

/-- `Convert.ToInt32(text, 16)`, as the unsigned number that its bits are. -/
def toInt32 (text : List Nat) : Option Nat :=
  let digits := trimSentinel ((trim text).map toUpper)
  if 8 < digits.length then none
  else (digits.mapM hexDigit).map (·.foldl (fun result digit => result * 16 + digit) 0)

/-- The size that the bytes of a header stand for. -/
def parseSize (data : List UInt8) : Except Error Nat :=
  match countNumberOfCharacters data with
  | none => .error .wrongType
  | some length =>
      -- a string ends at the first zero
      match toInt32 ((convertFromUTF8 data length).1.takeWhile (· ≠ 0)) with
      | none => .error .argument
      | some size => .ok size

/-! ## The parser of chunk headers -/

inductive ChunkState where
  | size | name | value | lf | initialLF
  deriving DecidableEq

/-- The variables of `GetChunk`; of the buffer the bytes that are counted. -/
structure ChunkParser where
  state : ChunkState
  buffer : List UInt8
  chunkSize : Nat

namespace ChunkParser

def start : ChunkParser := ⟨.initialLF, [], 0⟩

variable (p : ChunkParser)

def store (readByte : UInt8) : Except Error ChunkParser :=
  if p.buffer.length < 1024 then .ok { p with buffer := p.buffer ++ [readByte] }
  else .error .indexOutOfRange

/-- The body of the loop, and whether it goes on. -/
def next (readByte : UInt8) : Except Error (ChunkParser × Bool) :=
  if readByte = 13 then
    match p.state with
    | .initialLF => .ok (p, true)
    | .size => (parseSize p.buffer).map fun size => (⟨.lf, [], size⟩, true)
    | .value => .ok ({ p with buffer := [], state := .lf }, true)
    | _ => .error (.protocolViolation "Wrong state for CR")
  else if readByte = 10 then
    match p.state with
    | .lf => .ok (p, false)
    | .initialLF => .ok ({ p with state := .size }, true)
    | _ => .error (.protocolViolation "Incorrectly formated Chunk - Unexpected Line Feed")
  else if readByte = 59 then
    match p.state with
    | .size => (parseSize p.buffer).map fun size => (⟨.name, [], size⟩, true)
    | _ => .error (.protocolViolation "Incorrectly formated Chunk")
  else if readByte = 61 then
    match p.state with
    | .name => .ok ({ p with buffer := [], state := .value }, true)
    | _ => .error (.protocolViolation "Incorrectly formated Chunk")
  else
    match p.state with
    | .initialLF => ({ p with state := .size }.store readByte).map (·, true)
    | .lf => (p.store readByte).bind fun _ =>
        .error (.protocolViolation "Unexpected data after Line Feed")
    | _ => (p.store readByte).map (·, true)

end ChunkParser

/-! ## The stream -/

structure Chunk where
  size : Nat
  offsetIntoChunk : Nat
  deriving DecidableEq

/-- The fields that a read uses. Of the internal buffer there are the bytes between `m_dataStart`
and `m_dataEnd`. -/
structure InputNetworkStreamWrapper where
  stream : Pieces UInt8
  buffered : List UInt8
  enableChunkedDecoding : Bool
  chunk : Option Chunk
  bytesLeftInResponse : Int

namespace InputNetworkStreamWrapper

variable (s : InputNetworkStreamWrapper)

/-- `read_buffer_size` -/
def readBufferSize : Nat := 256

/-- `RefillInternalBuffer` -/
def refillInternalBuffer : Nat × InputNetworkStreamWrapper :=
  let available := s.stream.available
  let readCount :=
    if readBufferSize < available then readBufferSize
    else if available = 0 then 1
    else available
  let (bytes, stream) := s.stream.read readCount
  (bytes.length, { s with stream := stream, buffered := bytes })

/-- `ReadByte` -/
def readByte : Except Error (UInt8 × InputNetworkStreamWrapper) :=
  match s.buffered with
  | b :: rest => .ok (b, { s with buffered := rest })
  | [] =>
      let s := s.refillInternalBuffer.2
      match s.buffered with
      | b :: rest => .ok (b, { s with buffered := rest })
      | [] => .error .connectionAborted

/-- The loop of `GetChunk`: the size of the chunk. -/
def getChunkLoop : Nat → ChunkParser → InputNetworkStreamWrapper →
    Except Error (Nat × InputNetworkStreamWrapper)
  | 0, _, _ => .error .connectionAborted
  | fuel + 1, p, s =>
      s.readByte.bind fun (readByte, s) =>
        (p.next readByte).bind fun (p, parsing) =>
          if parsing then getChunkLoop fuel p s else .ok (p.chunkSize, s)

/-- `GetChunk`; each turn of its loop takes a byte. -/
def getChunk : Except Error (Nat × InputNetworkStreamWrapper) :=
  getChunkLoop (s.buffered.length + s.stream.rest.length + 1) .start s

/-- Bytes are copied from the internal buffer. -/
def copyBuffered (size : Nat) : List UInt8 × InputNetworkStreamWrapper :=
  (s.buffered.take size, { s with buffered := s.buffered.drop size })

/-- The bytes that are left in the response after so many more. -/
def updateBytesLeft (retVal : Nat) : InputNetworkStreamWrapper :=
  if 0 < s.bytesLeftInResponse then
    { s with bytesLeftInResponse := max 0 (s.bytesLeftInResponse - retVal) }
  else s

/-- `ReadInternal` -/
def readInternal (size : Nat) : List UInt8 × InputNetworkStreamWrapper :=
  let (copied, s) := s.copyBuffered size
  let retVal := copied.length
  let size := size - retVal
  if 0 < size ∧ (s.bytesLeftInResponse = -1 ∨ (retVal : Int) < s.bytesLeftInResponse) then
    if size < readBufferSize then
      let (refilled, s) := s.refillInternalBuffer
      if refilled = 0 then ([], s)
      else
        let (more, s) := s.copyBuffered size
        (copied ++ more, s.updateBytesLeft (retVal + more.length))
    else
      let (more, stream) := s.stream.read size
      (copied ++ more, { s with stream := stream }.updateBytesLeft (retVal + more.length))
  else (copied, s.updateBytesLeft retVal)

/-- The part of `Read` that reads within a chunk. -/
def readChunk (chunk : Chunk) (size : Nat) : List UInt8 × InputNetworkStreamWrapper :=
  if chunk.size = 0 then ([], { s with chunk := some chunk })
  else
    let size := min size (chunk.size - chunk.offsetIntoChunk)
    let (bytes, s) := s.readInternal size
    let offset := chunk.offsetIntoChunk + bytes.length
    (bytes, { s with chunk := if offset = chunk.size then none else some ⟨chunk.size, offset⟩ })

/-- `Read` -/
def read (size : Nat) : Except Error (List UInt8 × InputNetworkStreamWrapper) :=
  if !s.enableChunkedDecoding then .ok (s.readInternal size)
  else
    match s.chunk with
    | some chunk => .ok (s.readChunk chunk size)
    | none => s.getChunk.map fun (chunkSize, s) => s.readChunk ⟨chunkSize, 0⟩ size

end InputNetworkStreamWrapper

/-! ## Runs -/

/-- A stream, what its reads gave, whether one that asked for bytes gave none, and whether one
threw. -/
structure Reader where
  wrapper : InputNetworkStreamWrapper
  delivered : List UInt8
  ended : Bool
  failed : Bool

inductive Action where
  | read (size : Nat)

/-- A read. There is none after one that threw. -/
def step (r : Reader) : Action → Option Reader
  | .read size =>
      if r.failed then none
      else
        match r.wrapper.read size with
        | .error _ => some { r with failed := true }
        | .ok (bytes, wrapper) => some
            { wrapper := wrapper
              delivered := r.delivered ++ bytes
              ended := r.ended || (decide (0 < size) && bytes.isEmpty)
              failed := false }

end TinyCLR.HTTP
