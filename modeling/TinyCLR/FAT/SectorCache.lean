import Mathlib
import TinyCLR.Library.Word32

/-!
# The cache of sectors

`FAT_SectorCache`: lines of several sectors between the file system and the device, which a miss
fills, an eviction writes back, and two orders of eviction choose among.
-/

namespace TinyCLR.FAT


/-- `FAT_CacheLine` with a buffer; its flags are kept apart. -/
structure CacheLine where
  buffer : Nat → UInt8
  begin : Nat
  bsByteAddress : Nat
  dirty : Bool
  readWrite : Bool
  lruCounter : Nat

/-- `SetDirty` -/
def CacheLine.setDirty (l : CacheLine) (dirty : Bool) : CacheLine :=
  if dirty then { l with dirty := true, readWrite := true } else { l with dirty := false }

/-- `SetLRUCOunter`, which keeps 30 bits. -/
def CacheLine.setLRUCounter (l : CacheLine) (counter : Nat) : CacheLine :=
  { l with lruCounter := counter % 2 ^ 30 }

/-- The cache with the device below it; a line without a buffer is `none`. -/
structure SectorCache where
  cacheLines : List (Option CacheLine)
  lruCounter : Nat
  device : Nat → UInt8

/-- The values that `Initialize` is given, and the size of a line. -/
structure CacheGeometry where
  bytesPerSector : Nat
  sectorCount : Nat
  baseByteAddress : Nat
  lineSize : Nat

namespace CacheGeometry

variable (g : CacheGeometry)

def sectorsPerLine : Nat := g.lineSize / g.bytesPerSector

/-- The first sector of the line that a sector is in, and its address on the device. -/
def lineBegin (sector : Nat) : Nat := sector - sector % g.sectorsPerLine

def lineAddress (first : Nat) : Nat := Word32.u32 (g.baseByteAddress + first * g.bytesPerSector)

def initialized (size : Nat) (device : Nat → UInt8) : SectorCache where
  cacheLines := List.replicate size none
  lruCounter := 1
  device := device

/-- Whether a line holds a sector. -/
def covers (sector : Nat) (line : Option CacheLine) : Bool :=
  line.any fun l => l.begin ≤ sector && sector < l.begin + g.sectorsPerLine

/-- `GetCacheLine`: the place of the first line that holds the sector. -/
def getCacheLine (s : SectorCache) (sector : Nat) : Option Nat :=
  s.cacheLines.findIdx? (g.covers sector)

/-- The candidates of `GetUnusedCacheLine` with their counters. -/
structure Candidates where
  top : Option Nat
  topReadOnly : Option Nat
  minCounter : Nat
  minReadOnlyCounter : Nat

/-- The look of the loop at a line with a buffer. -/
def Candidates.look (c : Candidates) (useLRU : Bool) (i : Nat) (l : CacheLine) : Candidates :=
  if (useLRU ∧ l.lruCounter < c.minCounter) ∨ (¬useLRU ∧ c.minCounter < l.lruCounter) then
    if useLRU ∧ ¬l.readWrite then ⟨some i, some i, l.lruCounter, l.lruCounter⟩
    else { c with top := some i, minCounter := l.lruCounter }
  else if useLRU ∧ ¬l.readWrite ∧ l.lruCounter < c.minReadOnlyCounter then
    { c with topReadOnly := some i, minReadOnlyCounter := l.lruCounter }
  else c

/-- The loop of `GetUnusedCacheLine`: the first line without a buffer, or the candidates. -/
def scanLines (useLRU : Bool) : List (Option CacheLine) → Nat → Candidates → Nat ⊕ Candidates
  | [], _, c => .inr c
  | none :: _, i, _ => .inl i
  | some l :: lines, i, c => scanLines useLRU lines (i + 1) (c.look useLRU i l)

def firstCandidates (useLRU : Bool) : Candidates where
  top := none
  topReadOnly := none
  minCounter := if useLRU then 0x7FFFFFFF else 0
  minReadOnlyCounter := if useLRU then 0x7FFFFFFF else 0

/-- A write of a whole line to the device. -/
def writeLine (device : Nat → UInt8) (l : CacheLine) : Nat → UInt8 := fun a =>
  if l.bsByteAddress ≤ a ∧ a < l.bsByteAddress + g.lineSize then l.buffer (a - l.bsByteAddress)
  else device a

/-- `FlushSector( FAT_CacheLine*, BOOL )` for the line in a place. -/
def flushLine (s : SectorCache) (i : Nat) (fClearDirtyBit : Bool) : SectorCache :=
  match s.cacheLines[i]? with
  | some (some l) =>
      if l.dirty then
        { s with
          device := g.writeLine s.device l
          cacheLines := if fClearDirtyBit then s.cacheLines.set i (some (l.setDirty false))
            else s.cacheLines }
      else s
  | _ => s

/-- `GetUnusedCacheLine`: a place and the cache after the line there has been flushed; `none` is
the flush of no line, which reads through a null pointer. -/
def getUnusedCacheLine (s : SectorCache) (useLRU : Bool) : Option (Nat × SectorCache) :=
  match scanLines useLRU s.cacheLines 0 (firstCandidates useLRU) with
  | .inl i => some (i, s)
  | .inr c =>
      let candidate :=
        if c.topReadOnly.isSome ∧ c.minReadOnlyCounter ≠ s.lruCounter then c.topReadOnly else c.top
      candidate.map fun i => (i, g.flushLine s i true)

/-- The line that a miss reads from the device. -/
def readLine (s : SectorCache) (sector : Nat) : CacheLine where
  buffer k := s.device (g.lineAddress (g.lineBegin sector) + k)
  begin := g.lineBegin sector
  bsByteAddress := g.lineAddress (g.lineBegin sector)
  dirty := false
  readWrite := false
  lruCounter := Word32.u32 (s.lruCounter + 1) % 2 ^ 30

/-- The place of a sector in the cache after a hit or a miss. -/
def fetchLine (s : SectorCache) (sector : Nat) (useLRU : Bool) : Option (Nat × SectorCache) :=
  match g.getCacheLine s sector with
  | some i => some (i, s)
  | none =>
      (g.getUnusedCacheLine s useLRU).map fun r =>
        (r.1, { r.2 with
          cacheLines := r.2.cacheLines.set r.1 (some (g.readLine r.2 sector))
          lruCounter := Word32.u32 (r.2.lruCounter + 1) })

/-- A change of the line in a place. -/
def changeLine (s : SectorCache) (i : Nat) (f : CacheLine → CacheLine) : SectorCache :=
  { s with cacheLines := s.cacheLines.modify i (Option.map f) }

/-- A line that was not the last one to be used is marked with a new count. -/
def touchLine (s : SectorCache) (i : Nat) : SectorCache :=
  match s.cacheLines[i]? with
  | some (some l) =>
      if l.lruCounter ≠ s.lruCounter then
        changeLine { s with lruCounter := Word32.u32 (s.lruCounter + 1) } i
          (·.setLRUCounter (Word32.u32 (s.lruCounter + 1)))
      else s
  | _ => s

/-- `GetSector` where memory for the buffers is there: the place of the line that holds the
sector. -/
def getSector (s : SectorCache) (sector : Nat) (useLRU forWrite : Bool) :
    Option (Option Nat × SectorCache) :=
  if g.sectorCount < sector then some (none, s)
  else
    (g.fetchLine s sector useLRU).map fun r =>
      (some r.1, touchLine (if forWrite then changeLine r.2 r.1 (·.setDirty true) else r.2) r.1)

def markSectorDirty (s : SectorCache) (sector : Nat) : SectorCache :=
  match g.getCacheLine s sector with
  | some i => changeLine s i (·.setDirty true)
  | none => s

/-- `FlushSector( UINT32 )` -/
def flushSector (s : SectorCache) (sector : Nat) : SectorCache :=
  match g.getCacheLine s sector with
  | some i => g.flushLine s i true
  | none => s

def flushAll (s : SectorCache) : SectorCache :=
  (List.range s.cacheLines.length).foldl (fun s i => g.flushLine s i false) s

/-- `Uninitialize` flushes each line and gives its buffer back. -/
def uninitializeCache (s : SectorCache) : SectorCache :=
  (List.range s.cacheLines.length).foldl
    (fun s i => { g.flushLine s i true with
      cacheLines := (g.flushLine s i true).cacheLines.set i none }) s

/-- The bytes that the pointer to a sector shows, and a store through it. -/
def shown (s : SectorCache) (i sector k : Nat) : Option UInt8 :=
  (s.cacheLines[i]?.join).map fun l => l.buffer ((sector - l.begin) * g.bytesPerSector + k)

def storeBytes (l : CacheLine) (sector : Nat) (bytes : Nat → UInt8) : CacheLine :=
  let offset := (sector - l.begin) * g.bytesPerSector
  { l with buffer := fun k =>
      if offset ≤ k ∧ k < offset + g.bytesPerSector then bytes (k - offset) else l.buffer k }

def updateSector (s : SectorCache) (i sector : Nat) (bytes : Nat → UInt8) : SectorCache :=
  changeLine s i (g.storeBytes · sector bytes)

def eraseSector (s : SectorCache) (sector : Nat) : Option SectorCache :=
  (g.getSector s sector true true).map fun r =>
    match r.1 with
    | some i => g.updateSector r.2 i sector fun _ => 0
    | none => r.2

end CacheGeometry

end TinyCLR.FAT
