import Mathlib

/-!
# LZ77 compression

The compressor reads ahead into the circular window in which it searches, and puts back what it
has overwritten. The decompressor checks every access to its two buffers.
-/

namespace TinyCLR.Support.LZ77

abbrev Byte := BitVec 8

/-- `WINSIZE` -/
def winSize : Nat := 4096

/-- `MAXLEN` -/
def maxLen : Nat := 18

/-- The blanks that fill a new window. -/
def blank : Byte := 0x20

/-- `LENGTH` -/
def lengthOf (x : Byte) : Nat := (x &&& 0x0F).toNat + 3

/-- `OFFSET` -/
def offsetOf (x1 x2 : Byte) : Nat :=
  ((((x2 &&& 0xF0) >>> 4).toNat * 0x0100 + x1.toNat) &&& 0x0FFF) + 0x0010

/-- `FAKE2REAL_POS` -/
def fake2RealPos (x : Nat) : Nat := x &&& (winSize - 1)

/-- `COMP_CODE` -/
def compCode (x y : BitVec 32) : BitVec 32 :=
  (((x - 3) &&& 0x0F) <<< 8) + (((y - 0x10) &&& 0x0F00) <<< 4) + ((y - 0x10) &&& 0x00FF)

/-- `COMP_CODE_LOBYTE` -/
def compCodeLobyte (x : BitVec 32) : Byte := x.setWidth 8

/-- `COMP_CODE_HIBYTE` -/
def compCodeHibyte (x : BitVec 32) : Byte := (x.setWidth 16 >>> 8).setWidth 8

/-- `DROP_INDEX` -/
def dropIndex (x : Nat) : Nat := if x = 0 then winSize - 1 else x - 1

/-- `ADD_INDEX` -/
def addIndex (x : Nat) : Nat := if x + 1 = winSize then 0 else x + 1

/-! ## The decompressor -/

/-- The buffers of `LZ77_Decompress`, with the places of the input buffer that it has read. What it
has written stands in `outBuf`, from the beginning of the output buffer on. -/
structure Decoder where
  window : Nat → Byte
  currPos : Nat
  inBuf : Nat
  outBuf : List Byte
  reads : List Nat
  writes : List Nat

namespace Decoder

variable (input : List Byte) (outSize : Nat) (d : Decoder)

/-- `CHECKEDREAD`; the function returns -1 at the end of the buffer. -/
def checkedRead : Except Decoder (Byte × Decoder) :=
  if input.length ≤ d.inBuf then .error d
  else .ok (input.getD d.inBuf 0, { d with inBuf := d.inBuf + 1, reads := d.reads ++ [d.inBuf] })

/-- `CHECKEDWRITE` -/
def checkedWrite (byte : Byte) : Except Decoder Decoder :=
  if outSize ≤ d.outBuf.length then .error d
  else .ok { d with outBuf := d.outBuf ++ [byte], writes := d.writes ++ [d.outBuf.length] }

/-- A byte goes into the window and into the output buffer. -/
def putByte (byte : Byte) : Except Decoder Decoder := do
  let d' ← checkedWrite outSize
    { d with window := Function.update d.window (fake2RealPos d.currPos) byte } byte
  pure { d' with currPos := d'.currPos + 1 }

/-- The data of a code is copied from the window. -/
def copyData (offset : Nat) : Nat → Decoder → Except Decoder Decoder
  | 0, d => .ok d
  | length + 1, d => do
      let d' ← d.putByte outSize (d.window (fake2RealPos offset))
      copyData (offset + 1) length d'

/-- `BITSET` -/
def bitSet (byte : Byte) (bit : Nat) : Bool := byte.getLsbD bit

/-- One item behind a bit map. -/
def decodeItem (bitMap : Byte) (counter : Nat) : Except Decoder Decoder :=
  if bitSet bitMap counter then do
    let (byte1, d) ← d.checkedRead input
    d.putByte outSize byte1
  else do
    let (byte1, d) ← d.checkedRead input
    let (byte2, d) ← d.checkedRead input
    d.copyData outSize (offsetOf byte1 byte2) (lengthOf byte2)

/-- The items behind a bit map, of which `left` may still come. -/
def decodeItems (bitMap : Byte) : (left : Nat) → Decoder → Except Decoder Decoder
  | 0, d => .ok d
  | left + 1, d =>
      if d.outBuf.length < outSize then do
        let d' ← d.decodeItem input outSize bitMap (7 - left)
        decodeItems bitMap left d'
      else .ok d

/-- A bit map and its items. -/
def decodeBlock : Except Decoder Decoder := do
  let (bitMap, d) ← d.checkedRead input
  decodeItems input outSize bitMap 8 d

/-- A property that the accesses to the buffers keep. -/
structure Kept (P : Decoder → Prop) : Prop where
  read : ∀ d, P d → d.inBuf < input.length →
    P { d with inBuf := d.inBuf + 1, reads := d.reads ++ [d.inBuf] }
  write : ∀ d byte, P d → d.outBuf.length < outSize →
    P { d with outBuf := d.outBuf ++ [byte], writes := d.writes ++ [d.outBuf.length] }
  window : ∀ d window currPos, P d → P { d with window := window, currPos := currPos }

/-- A property of the buffers, whichever way a function ends. -/
def Everywhere (P : Decoder → Prop) : Except Decoder Decoder → Prop
  | .ok d => P d
  | .error d => P d

namespace Kept

variable {input outSize} {P : Decoder → Prop}

theorem bind {x : Except Decoder Decoder} {f : Decoder → Except Decoder Decoder}
    (hx : Everywhere P x) (hf : ∀ d, P d → Everywhere P (f d)) : Everywhere P (x >>= f) := by
  cases x with
  | error d => exact hx
  | ok d => exact hf d hx

variable (h : Kept input outSize P)

include h

/-- A checked read goes on with the byte and the next place, or ends. -/
theorem checkedRead_bind {d : Decoder} (hd : P d) {f : Byte × Decoder → Except Decoder Decoder}
    (hf : ∀ byte d', P d' → d'.inBuf = d.inBuf + 1 → Everywhere P (f (byte, d'))) :
    Everywhere P (d.checkedRead input >>= f) := by
  rw [checkedRead]
  split
  · exact hd
  · next hlt => exact hf _ _ (h.read d hd (Nat.lt_of_not_le hlt)) rfl

theorem putByte {d : Decoder} (hd : P d) (byte : Byte) :
    Everywhere P (d.putByte outSize byte) := by
  have hwindow := h.window d (Function.update d.window (fake2RealPos d.currPos) byte) d.currPos hd
  rw [Decoder.putByte, checkedWrite]
  split
  · exact hwindow
  · next hlt =>
      have hwritten := h.write _ byte hwindow (Nat.lt_of_not_le hlt)
      exact h.window _ _ _ hwritten

theorem copyData {d : Decoder} (hd : P d) (offset length : Nat) :
    Everywhere P (Decoder.copyData outSize offset length d) := by
  induction length generalizing offset d with
  | zero => exact hd
  | succ length ih => exact bind (h.putByte hd _) fun d' hd' => ih hd' _

theorem decodeItem {d : Decoder} (hd : P d) (bitMap : Byte) (counter : Nat) :
    Everywhere P (d.decodeItem input outSize bitMap counter) := by
  rw [Decoder.decodeItem]
  split
  · exact h.checkedRead_bind hd fun byte d' hd' _ => h.putByte hd' byte
  · exact h.checkedRead_bind hd fun byte1 d' hd' _ =>
      h.checkedRead_bind hd' fun byte2 d'' hd'' _ => h.copyData hd'' _ _

theorem decodeItems {d : Decoder} (hd : P d) (bitMap : Byte) (left : Nat) :
    Everywhere P (Decoder.decodeItems input outSize bitMap left d) := by
  induction left generalizing d with
  | zero => exact hd
  | succ left ih =>
      rw [Decoder.decodeItems]
      split
      · exact bind (h.decodeItem hd bitMap _) fun d' hd' => ih hd'
      · exact hd

theorem decodeBlock {d : Decoder} (hd : P d) : Everywhere P (d.decodeBlock input outSize) :=
  h.checkedRead_bind hd fun bitMap _ hd' _ => h.decodeItems hd' bitMap 8

end Kept

/-- The place in the input only moves forward. -/
theorem kept_inBuf (k : Nat) : Kept input outSize fun d => k ≤ d.inBuf where
  read := fun _ h _ => Nat.le_succ_of_le h
  write := fun _ _ h _ => h
  window := fun _ _ _ h => h

/-- Every block takes at least its bit map from the input. -/
theorem inBuf_decodeBlock {d' : Decoder} (h : d.decodeBlock input outSize = .ok d') :
    d.inBuf < d'.inBuf := by
  rw [decodeBlock, checkedRead] at h
  split at h
  · cases h
  · have hitems := (kept_inBuf input outSize (d.inBuf + 1)).decodeItems (d := {
      d with inBuf := d.inBuf + 1, reads := d.reads ++ [d.inBuf] }) (Nat.le_refl _)
      (input.getD d.inBuf 0) 8
    exact (congrArg (Everywhere fun d => d.inBuf ≥ _) h).mp hitems

/-- The loop over the blocks. -/
def decodeBlocks (d : Decoder) : Except Decoder Decoder :=
  if d.inBuf < input.length then
    match _h : d.decodeBlock input outSize with
    | .error e => .error e
    | .ok d' => decodeBlocks d'
  else .ok d
termination_by input.length - d.inBuf
decreasing_by
  have := inBuf_decodeBlock input outSize d _h
  omega

end Decoder

/-- `LZ77_Decompress`: it returns 1 where the result is `ok`, and -1 elsewhere. -/
def decompress (input : List Byte) (outSize : Nat) : Except Decoder Decoder :=
  Decoder.decodeBlocks input outSize ⟨fun _ => blank, 0, 0, [], [], []⟩

/-! ## The compressor -/

/-- What the compressor reads with. -/
structure Reader where
  window : Nat → Byte
  currPos : Nat
  infilePos : Nat

namespace Reader

variable (r : Reader)

/-- `GetNextChar`; the end of the file is `none`. -/
def getNextChar (infile : List Byte) : Option Byte × Reader :=
  if r.infilePos < infile.length then
    let ch := infile.getD r.infilePos 0
    let currPos := addIndex r.currPos
    (some ch,
      { window := Function.update r.window currPos ch
        currPos := currPos
        infilePos := r.infilePos + 1 })
  else (none, r)

/-- `UnreadChar` -/
def unreadChar (ch : Byte) : Reader where
  window := Function.update r.window r.currPos ch
  currPos := dropIndex r.currPos
  infilePos := r.infilePos - 1

end Reader

/-- The data that are not yet in the output file. -/
structure Writer where
  flagByte : Byte
  dataBytes : List Byte
  flagCount : Nat
  outfile : List Byte

namespace Writer

variable (w : Writer)

/-- `WriteFlagByte` -/
def writeFlagByte : Writer :=
  if 0 < w.flagCount then ⟨0, [], 0, w.outfile ++ w.flagByte :: w.dataBytes⟩ else w

/-- `CheckFlagByte`, when the data bytes are already stored. -/
def checkFlagByte : Writer :=
  let counted := { w with flagCount := w.flagCount + 1 }
  if counted.flagCount = 8 then counted.writeFlagByte else counted

/-- `SaveUncompByte` -/
def saveUncompByte (ch : Byte) : Writer :=
  checkFlagByte
    { w with
      flagByte := w.flagByte ||| (1 : Byte) <<< w.flagCount
      dataBytes := w.dataBytes ++ [ch] }

/-- The code of a match is saved. -/
def saveCode (count offset : Nat) : Writer :=
  let iCompCode := compCode (BitVec.ofNat 32 count) (BitVec.ofNat 32 offset)
  checkFlagByte
    { w with
      dataBytes := w.dataBytes ++ [compCodeLobyte iCompCode, compCodeHibyte iCompCode] }

end Writer

/-- `InBetween` -/
def inBetween (lower higher target : Nat) : Bool :=
  let higher := if higher < lower then higher + winSize else higher
  decide (lower ≤ target ∧ target ≤ higher)

/-- The variables of `Execute` while it looks for the best match. -/
structure Search where
  reader : Reader
  ch : Option Byte
  oldchar0 : Byte
  oldchar1 : Byte
  oldchar2 : Byte
  count : Nat
  shifter : Nat
  newPos : Nat
  bestcount : Nat
  bestoffset : Nat

/-- The previous occurrence of the current character in the window, of which `left` cells are left
to be looked at. -/
def findPrevious (window : Nat → Byte) (currPos : Nat) : (left shifter : Nat) → Option Nat
  | 0, _ => none
  | left + 1, shifter =>
      if window shifter = window currPos then some shifter
      else findPrevious window currPos left (dropIndex shifter)

/-- The match at the previous occurrence is followed as far as it goes; the loop is left after
`MAXLEN` characters at the latest. -/
def followMatch (infile : List Byte) : (left : Nat) → Search → Search
  | 0, s => s
  | left + 1, s =>
      let (ch, reader) := s.reader.getNextChar infile
      if ch = some (reader.window s.shifter) ∧ s.count < maxLen then
        let old := reader.window (addIndex reader.currPos)
        followMatch infile left
          { s with
            reader := reader
            ch := ch
            count := s.count + 1
            oldchar1 := if s.count + 1 = 2 then old else s.oldchar1
            oldchar2 := old
            shifter := addIndex s.shifter }
      else { s with reader := reader, ch := ch }

/-- The first match, from `shifter` on, before the search for a better one. -/
def firstMatch (infile : List Byte) (reader : Reader) (oldchar1 : Byte) (shifter : Nat) : Search :=
  let old := reader.window (addIndex reader.currPos)
  let s := followMatch infile maxLen
    { reader := reader
      ch := none
      oldchar0 := old
      oldchar1 := oldchar1
      oldchar2 := old
      count := 1
      shifter := addIndex shifter
      newPos := 0
      bestcount := 1
      bestoffset := shifter }
  let unread := s.ch ≠ none ∧ (s.ch ≠ some (s.reader.window s.shifter) ∨ s.count = maxLen)
  { s with
    reader := if unread then s.reader.unreadChar s.oldchar2 else s.reader
    bestcount := s.count
    shifter := dropIndex shifter }

namespace Search

variable (s : Search)

/-- The condition of the search for the best match. -/
def goesOn (savePos : Nat) : Bool :=
  s.shifter ≠ s.reader.currPos ∧ s.bestcount < maxLen ∧
    inBetween savePos s.reader.currPos s.shifter = false

/-- The next place where a match may start, or the place where the search ends. -/
def nextStart (window : Nat → Byte) (currPos savePos : Nat) : (left shifter : Nat) → Nat
  | 0, shifter => shifter
  | left + 1, shifter =>
      if shifter ≠ currPos ∧ window shifter ≠ window savePos then
        nextStart window currPos savePos left (dropIndex shifter)
      else shifter

/-- A match is compared; from the length of the best one on it needs further characters. -/
def compareMatch (infile : List Byte) : (left : Nat) → Search → Search
  | 0, s => s
  | left + 1, s =>
      if s.ch ≠ none ∧ s.reader.window s.shifter = s.reader.window s.newPos ∧
          s.count < maxLen then
        let old := s.reader.window (addIndex s.reader.currPos)
        let s' : Search :=
          if s.bestcount - 1 ≤ s.count then
            { s with
              oldchar1 := if s.count = 1 then old else s.oldchar1
              oldchar2 := old
              ch := (s.reader.getNextChar infile).1
              reader := (s.reader.getNextChar infile).2 }
          else s
        compareMatch infile left
          { s' with
            shifter := addIndex s.shifter
            newPos := addIndex s.newPos
            count := s.count + 1 }
      else s

/-- The match that starts at `offset`, and what is unread behind it. -/
def tryMatch (infile : List Byte) (savePos offset : Nat) : Search :=
  let t := compareMatch infile maxLen { s with count := 0, shifter := offset, newPos := savePos }
  let unread := t.ch ≠ none ∧ (maxLen ≤ t.count ∨
    (t.reader.window t.shifter ≠ t.reader.window t.newPos ∧ t.bestcount ≤ t.count))
  { t with
    reader := if unread then t.reader.unreadChar t.oldchar2 else t.reader
    bestcount := if t.bestcount < t.count then t.count else t.bestcount
    bestoffset := if t.bestcount < t.count then offset else t.bestoffset
    shifter := dropIndex offset }

/-- One pass of the search; `none` when no place is left. -/
def tryNext (infile : List Byte) (savePos : Nat) : Option Search :=
  let offset := nextStart s.reader.window s.reader.currPos savePos winSize s.shifter
  if offset = s.reader.currPos then none else some (s.tryMatch infile savePos offset)

/-- The search for the best match. -/
def findBest (infile : List Byte) (savePos : Nat) : (fuel : Nat) → Search → Option Search
  | 0, _ => none
  | fuel + 1, s =>
      if s.goesOn savePos then
        match s.tryNext infile savePos with
        | none => some s
        | some s' => findBest infile savePos fuel s'
      else some s

end Search

/-- `LZ77_Compressor`, with the variables that live through the passes of `Execute`. -/
structure Compressor where
  reader : Reader
  writer : Writer
  ch : Option Byte
  oldchar1 : Byte

namespace Compressor

variable (infile : List Byte) (c : Compressor)

def nextChar : Compressor :=
  let (ch, reader) := c.reader.getNextChar infile
  { c with ch := ch, reader := reader }

/-- The end of a pass that has found no match. -/
def passSingle (ch : Byte) : Compressor :=
  nextChar infile { c with writer := c.writer.saveUncompByte ch }

/-- There are not enough characters to compress: the first one is saved, and the window cells of
the others are restored. -/
def giveUpMatch (savePos : Nat) (s : Search) (ch : Option Byte) (reader : Reader) : Compressor :=
  let savePos1 := addIndex savePos
  let restored := Function.update reader.window savePos1 s.oldchar0
  { ch := ch
    oldchar1 := s.oldchar1
    writer := c.writer.saveUncompByte (reader.window savePos)
    reader :=
      { infilePos := reader.infilePos - s.bestcount
        window :=
          if s.bestcount = 2 then Function.update restored (addIndex savePos1) s.oldchar1
          else restored
        currPos :=
          if s.bestcount = 2 then dropIndex (dropIndex reader.currPos)
          else dropIndex reader.currPos } }

/-- The code of the match is saved. -/
def saveMatch (s : Search) (ch : Option Byte) (reader : Reader) : Compressor where
  ch := ch
  oldchar1 := s.oldchar1
  writer := c.writer.saveCode s.bestcount s.bestoffset
  reader := if ch ≠ none then reader.unreadChar s.oldchar2 else reader

/-- The end of a pass behind the search for the best match. -/
def finishMatch (savePos : Nat) (s : Search) : Compressor :=
  let (ch, reader) := if s.ch ≠ none then s.reader.getNextChar infile else (s.ch, s.reader)
  let finished :=
    if s.bestcount < 3 then c.giveUpMatch savePos s ch reader else c.saveMatch s ch reader
  if ch ≠ none ∧ s.bestcount ≤ maxLen then finished.nextChar infile else finished

/-- One pass of `Execute`, with the character that it has read. -/
def pass (fuel : Nat) (ch : Byte) : Option Compressor :=
  if infile.length - c.reader.infilePos < 2 then some (c.passSingle infile ch)
  else
    match findPrevious c.reader.window c.reader.currPos (winSize - 1)
        (dropIndex c.reader.currPos) with
    | none => some (c.passSingle infile ch)
    | some shifter =>
        (Search.findBest infile c.reader.currPos fuel
          (firstMatch infile c.reader c.oldchar1 shifter)).map
            (c.finishMatch infile c.reader.currPos)

/-- The loop of `Execute`. -/
def passes : (fuel : Nat) → Compressor → Option Compressor
  | 0, _ => none
  | fuel + 1, c =>
      match c.ch with
      | none => some c
      | some ch => (c.pass infile fuel ch).bind (passes fuel)

/-- The compressor before the first pass. The contents of `oldchars` are not initialised. -/
def start (oldchar1 : Byte) : Compressor :=
  nextChar infile
    { reader := ⟨fun _ => blank, dropIndex 0, 0⟩
      writer := ⟨0, [], 0, []⟩
      ch := none
      oldchar1 := oldchar1 }

/-- `Execute`, with what it writes; `none` when the fuel does not last. -/
def execute (fuel : Nat) (oldchar1 : Byte) : Option (List Byte) :=
  (passes infile fuel (start infile oldchar1)).map fun c => c.writer.writeFlagByte.outfile

end Compressor

end TinyCLR.Support.LZ77
