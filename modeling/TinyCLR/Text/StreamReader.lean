import TinyCLR.Library.Pieces
import TinyCLR.Text.UnicodeHelper

/-!
# The stream reader

`StreamReader` decodes the bytes of a stream, which it keeps in a buffer of 512 bytes. A character
is a UTF-16 unit; the -1 that stands for the end of the text is `none`.
-/

namespace TinyCLR.Text

/-- What may be thrown. -/
inductive Error where
  | indexOutOfRange
  | invalidParameter
  | argument
  | lineTooLong
  deriving DecidableEq

/-- A stream, with the length that it says it has where it can seek. -/
structure Stream where
  pieces : Pieces UInt8
  canSeek : Bool
  total : Nat

/-- `Length`; of a stream that cannot seek it may be anything at each time. -/
def Stream.length (s : Stream) : Nat :=
  if s.canSeek then s.total
  else
    match s.pieces.plan with
    | [] => s.pieces.rest.length
    | (n, _) :: _ => n

/-- The fields of `StreamReader` that reading uses. -/
structure StreamReader where
  stream : Stream
  buffer : List UInt8
  curBufPos : Nat
  curBufLen : Nat

/-- `c_BufferSize` -/
def bufferSize : Nat := 512

/-- The elements of an array from a position on are replaced. -/
def overwrite {α : Type*} (array : List α) (position : Nat) (items : List α) : List α :=
  array.take position ++ (items ++ array.drop (position + items.length))

namespace StreamReader

variable (r : StreamReader)

/-- The bytes in the buffer that were not decoded. -/
def available : List UInt8 := (r.buffer.take r.curBufLen).drop r.curBufPos

/-- A call of `m_decoder.Convert` with room for so many characters, and the new position. -/
def convert (room : Nat) : Except Error (List Nat × StreamReader) :=
  if r.curBufLen < r.curBufPos then .error .invalidParameter
  else
    let (chars, used) := convertFromUTF8 r.available room
    .ok (chars, { r with curBufPos := r.curBufPos + used })

/-- `Reset` -/
def reset : Except Error StreamReader :=
  if r.curBufLen < r.curBufPos then .error .argument
  else .ok { r with
    buffer := overwrite r.buffer 0 r.available, curBufPos := 0, curBufLen := r.available.length }

/-- Bytes of the stream are read into the buffer, from a position on. -/
def readInto (position count : Nat) : List UInt8 × StreamReader :=
  let (bytes, pieces) := r.stream.pieces.read count
  (bytes, { r with
    stream := { r.stream with pieces := pieces }
    buffer := overwrite r.buffer position bytes })

/-- The loop of `FillBufferAndReset`. -/
def fillLoop : Nat → Nat → Nat → StreamReader → Nat × StreamReader
  | 0, _, totalRead, r => (totalRead, r)
  | fuel + 1, count, totalRead, r =>
      if 0 < count ∧ r.curBufLen < bufferSize then
        let count := min count (bufferSize - r.curBufLen)
        let (bytes, r) := r.readInto r.curBufLen count
        if bytes.length = 0 then (totalRead, r)
        else
          let r := { r with curBufLen := r.curBufLen + bytes.length }
          fillLoop fuel (count - bytes.length) (totalRead + bytes.length) r
      else (totalRead, r)

/-- `FillBufferAndReset`; each turn of its loop reads something. -/
def fillBufferAndReset (count : Nat) : Except Error (Nat × StreamReader) :=
  (if r.curBufPos ≠ 0 then r.reset else .ok r).map fun r => fillLoop count count 0 r

/-- The loop of `Read()`. -/
def readLoop : Nat → StreamReader → Except Error (Option Nat × StreamReader)
  | 0, r => .ok (none, r)
  | fuel + 1, r =>
      (r.convert 1).bind fun (chars, r) =>
        match chars with
        | c :: _ => .ok (some c, r)
        | [] =>
            let readCount := min bufferSize r.stream.length
            let readCount := if readCount = 0 then 1 else readCount
            (r.fillBufferAndReset readCount).bind fun (totalRead, r) =>
              if totalRead = 0 then .ok (none, r) else readLoop fuel r

/-- `Read()`; each turn of its loop but the last reads something. -/
def read : Except Error (Option Nat × StreamReader) :=
  readLoop (r.stream.pieces.rest.length + 1) r

/-- The loop of `Peek` that gets the new buffer. -/
def peekLoop : Nat → Nat → StreamReader → Nat × StreamReader
  | 0, totRead, r => (totRead, r)
  | fuel + 1, totRead, r =>
      if 0 < r.stream.length ∧ totRead < bufferSize then
        let (bytes, r) := r.readInto totRead (min (bufferSize - totRead) r.stream.length)
        if bytes.length = 0 then (totRead, r) else peekLoop fuel (totRead + bytes.length) r
      else (totRead, r)

/-- The part of `Peek` that moves the bytes read for this character and gets the new buffer. -/
def peekRefill : StreamReader :=
  let moved := r.available.take (r.curBufLen - r.curBufPos - 1)
  let (totRead, r) :=
    peekLoop bufferSize moved.length { r with buffer := overwrite r.buffer 0 moved }
  { r with curBufPos := 0, curBufLen := totRead }

/-- The test of `Peek` for a buffer that needs to be refreshed. -/
def peekNeedsRefill : Except Error Bool :=
  if r.curBufPos + 1 = r.curBufLen then .ok true
  else
    match r.buffer[r.curBufPos + 1]? with
    | none => .error .indexOutOfRange
    | some b => .ok (0x80 ≤ b && r.curBufLen ≤ r.curBufPos + 3)

/-- `Peek` -/
def peek : Except Error (Option Nat × StreamReader) :=
  r.peekNeedsRefill.bind fun needsRefill =>
    let (tempPos, r) := if needsRefill then (0, r.peekRefill) else (r.curBufPos, r)
    r.read.map fun (nextChar, r) => (nextChar, { r with curBufPos := tempPos })

/-- The loop of `Read(buffer, index, count)`: what it returns, and the array. The zero that the
decoder writes behind the characters, where there is room, is left out. -/
def readBufferLoop : Nat → Nat → Nat → List Nat → StreamReader →
    Except Error (Nat × List Nat × StreamReader)
  | 0, _, _, chars, r => .ok (0, chars, r)
  | fuel + 1, offset, count, buffer, r =>
      (r.convert count).bind fun (chars, r) =>
        let buffer := overwrite buffer offset chars
        let count := count - chars.length
        if count = 0 then .ok (chars.length, buffer, r)
        else
          (r.fillBufferAndReset count).bind fun (totalRead, r) =>
            if totalRead = 0 then .ok (chars.length, buffer, r)
            else readBufferLoop fuel (offset + chars.length) count buffer r

/-- `Read(buffer, index, count)` behind the checks of its arguments. The index is not used. -/
def readBuffer (buffer : List Nat) (count : Nat) : Except Error (Nat × List Nat × StreamReader) :=
  (if r.curBufLen = 0 then (r.fillBufferAndReset count).map Prod.snd else .ok r).bind fun r =>
    readBufferLoop (r.stream.pieces.rest.length + 1) 0 count buffer r

/-- `c_MaxReadLineLen` -/
def maxReadLineLen : Nat := 0xFFFF

/-- The loop of `ReadLine`, with the line so far and the size of its buffer. -/
def readLineLoop : Nat → List Nat → Nat → StreamReader →
    Except Error (Option (List Nat) × StreamReader)
  | 0, _, _, r => .ok (none, r)
  | fuel + 1, line, bufLen, r =>
      r.read.bind fun (newChar, r) =>
        match newChar with
        | none => .ok (if line.length = 0 then none else some line, r)
        | some c =>
            if line.length = bufLen ∧ maxReadLineLen < bufLen + bufferSize then .error .lineTooLong
            else if c = 10 then .ok (some line, r)
            else if c = 13 then
              r.peek.bind fun (next, r) =>
                if next = some 10 then r.read.map fun (_, r) => (some line, r)
                else .ok (some line, r)
            else
              readLineLoop fuel (line ++ [c])
                (if line.length = bufLen then bufLen + bufferSize else bufLen) r

/-- `ReadLine`; each turn of its loop but the last decodes a character. -/
def readLine : Except Error (Option (List Nat) × StreamReader) :=
  readLineLoop (r.available.length + r.stream.pieces.rest.length + 1) [] bufferSize r

/-- `new string(chars)`: a string ends at the first zero. -/
def newString (chars : List Nat) : List Nat := chars.takeWhile (· ≠ 0)

/-- `ReadSeekableStream` -/
def readSeekableStream : Except Error (List Nat × StreamReader) :=
  (r.readBuffer (List.replicate r.stream.length 0) r.stream.length).map fun (_, chars, r) =>
    (chars, r)

/-- The buffers that `ReadNonSeekableStream` gathered are put together. -/
def joinBuffers (buffers : List (List Nat)) (totalRead : Nat) : Except Error (List Nat) :=
  if 1 < buffers.length then
    if totalRead < buffers.flatten.length then .error .argument
    else .ok (overwrite (List.replicate totalRead 0) 0 buffers.flatten)
  else .ok buffers.flatten

/-- The loop of `ReadNonSeekableStream`. A buffer that is null has no characters. -/
def readNonSeekableLoop : Nat → List (List Nat) → List Nat → Nat → StreamReader →
    Except Error (List Nat × StreamReader)
  | 0, _, _, _, r => .ok ([], r)
  | fuel + 1, buffers, lastBuffer, totalRead, r =>
      (r.readBuffer (List.replicate bufferSize 0) bufferSize).bind fun (read, chars, r) =>
        let totalRead := totalRead + read
        if read < bufferSize then
          let lastBuffer := if 0 < read then chars.take read else lastBuffer
          (joinBuffers (buffers ++ [lastBuffer]) totalRead).map fun text => (text, r)
        else readNonSeekableLoop fuel (buffers ++ [chars]) chars totalRead r

/-- `ReadNonSeekableStream`; each turn of its loop but the last decodes characters. -/
def readNonSeekableStream : Except Error (List Nat × StreamReader) :=
  readNonSeekableLoop (r.available.length + r.stream.pieces.rest.length + 1) [] [] 0 r

/-- `ReadToEnd` -/
def readToEnd : Except Error (List Nat × StreamReader) :=
  (if r.stream.canSeek then r.readSeekableStream else r.readNonSeekableStream).map
    fun (chars, r) => (newString chars, r)

end StreamReader

/-! ## Runs -/

inductive Call where
  | read
  | readBuffer (buffer : List Nat) (index count : Nat)
  | peek
  | readLine
  | readToEnd
  deriving DecidableEq

/-- What a call gives; of an array what lies where it was to be stored, as far as the call says
that it stored. -/
inductive Outcome where
  | char (c : Option Nat)
  | chars (returned : Nat) (stored : List Nat)
  | line (line : Option (List Nat))
  | text (text : List Nat)
  | threw
  deriving DecidableEq

/-- A call. Negative arguments are refused as those that are too large are. -/
def StreamReader.call (r : StreamReader) : Call → Except Error (Outcome × StreamReader)
  | .read => r.read.map fun (c, r) => (.char c, r)
  | .readBuffer buffer index count =>
      if buffer.length < index + count then .ok (.threw, r)
      else (r.readBuffer buffer count).map fun (returned, buffer, r) =>
        (.chars returned ((buffer.drop index).take returned), r)
  | .peek => r.peek.map fun (c, r) => (.char c, r)
  | .readLine => r.readLine.map fun (line, r) => (.line line, r)
  | .readToEnd => r.readToEnd.map fun (text, r) => (.text text, r)

/-- A reader, and its calls with what they gave. -/
structure Session where
  reader : StreamReader
  history : List (Call × Outcome)
  failed : Bool

/-- A call. There is none after one that failed. -/
def step (s : Session) (call : Call) : Option Session :=
  if s.failed then none
  else
    match s.reader.call call with
    | .error _ => some { s with history := s.history ++ [(call, .threw)], failed := true }
    | .ok (outcome, reader) => some
        { reader := reader, history := s.history ++ [(call, outcome)], failed := false }

end TinyCLR.Text
