import Mathlib
import TinyCLR.FAT.Initialize

/-!
# A mounted disk

The FAT, its clusters and the sectors of files and directories, as the rest of the driver sees
them through the sector cache: a sector that can be read has contents, and what is written to it
is read back. Each operation gives its result together with the disk after it.
-/

namespace TinyCLR.FAT

open LittleEndian

/-- `CLUST_EOF` -/
def clustEof : Nat := 0x0fffffff

/-- What `GetClusType` tells apart. -/
inductive ClusType where
  | data
  | eos
  | bad
  | error
  deriving DecidableEq

/-- A logic disk with what its sector cache shows of the device. -/
structure MountedDisk extends LogicDisk where
  readable : Nat → Bool
  sectors : Nat → Sector

namespace MountedDisk

variable (d : MountedDisk)

def getSector (sectorIndex : Nat) : Option Sector :=
  if d.volume.sectorCount < sectorIndex ∨ d.readable sectorIndex = false then none
  else some (d.sectors sectorIndex)

/-- The disk after a sector has been changed in the cache. -/
def setSector (sectorIndex : Nat) (sector : Sector) : MountedDisk :=
  { d with sectors := Function.update d.sectors sectorIndex sector }

def eraseSector (sectorIndex : Nat) : MountedDisk :=
  match d.getSector sectorIndex with
  | none => d
  | some _ => d.setSector sectorIndex fun _ => 0

def clusToSect (clusIndex : Nat) : Nat :=
  FAT.clusToSect d.volume.rootSectorStart d.volume.firstDataSector d.volume.sectorsPerCluster
    clusIndex

def getClusType (data : Nat) : ClusType :=
  if data = clustError then .error
  else if d.volume.isFAT16 then
    if 0xfff8 ≤ data then .eos else if data = 0xfff7 then .bad else .data
  else if 0x0ffffff8 ≤ data then .eos else if data = 0x0ffffff7 then .bad else .data

def readFAT (clusIndex : Nat) : Nat :=
  if d.volume.totalClusterCount + clusterStart ≤ clusIndex then clustError
  else
    match d.getSector (d.volume.fatBaseSector.1 + clusIndex / d.volume.entriesPerSector) with
    | none => clustError
    | some fat =>
        let data := d.volume.fatEntry fat (clusIndex % d.volume.entriesPerSector)
        if d.volume.isFAT16 then data else fat32Mask data

/-- The sector of the FAT with a new entry; the reserved bits of FAT32 stay. -/
def setEntry (fat : Sector) (dataOffset value : Nat) : Sector :=
  if d.volume.isFAT16 then put fat (2 * dataOffset) 2 value
  else
    let oldValue := get fat (4 * dataOffset) 4
    put fat (4 * dataOffset) 4 (fat32Mask value + (oldValue - fat32Mask oldValue))

/-- `WriteFAT` in one copy of the FAT, with the value that was there. -/
def writeEntry (fatBaseSector clusIndex value : Nat) : Option (Nat × MountedDisk) :=
  let sectorIndex := fatBaseSector + clusIndex / d.volume.entriesPerSector
  let dataOffset := clusIndex % d.volume.entriesPerSector
  (d.getSector sectorIndex).map fun fat =>
    let oldValue := d.volume.fatEntry fat dataOffset
    (if d.volume.isFAT16 then oldValue else fat32Mask oldValue,
      d.setSector sectorIndex (d.setEntry fat dataOffset value))

/-- The end mark is written in the form of the volume's type. -/
def fatValue (value : Nat) : Nat :=
  if value = clustEof then if d.volume.isFAT16 then 0xffff else 0x0fffffff else value

/-- `WriteFAT` once both copies are written: the free count and the hint. -/
def updateFree (clusIndex oldValue value : Nat) : MountedDisk :=
  let d := if oldValue = 0 then { d with freeCount := sub32 d.freeCount 1 } else d
  if value = 0 then
    { d with
      nextFree := if clusIndex < d.nextFree then clusIndex else d.nextFree
      freeCount := u32 (d.freeCount + 1) }
  else d

/-- `WriteFAT`: the old value of the entry, or `CLUST_ERROR`. -/
def writeFAT (clusIndex value : Nat) : Nat × MountedDisk :=
  if d.volume.totalClusterCount + clusterStart ≤ clusIndex then (clustError, d)
  else
    let value := d.fatValue value
    match d.writeEntry d.volume.fatBaseSector.1 clusIndex value with
    | none => (clustError, d)
    | some (_, d) =>
        match d.writeEntry d.volume.fatBaseSector.2 clusIndex value with
        | none => (clustError, d)
        | some (oldValue, d) =>
            let d := d.updateFree clusIndex oldValue value
            if d.volume.isFAT16 then (oldValue, d)
            else
              match d.getSector d.volume.sectorFSInfo with
              | none => (clustError, d)
              | some fsInfo =>
                  (oldValue, d.setSector d.volume.sectorFSInfo (put fsInfo 488 4 d.freeCount))

def eraseCluster (clusIndex : Nat) : MountedDisk :=
  (List.range d.volume.sectorsPerCluster).foldl
    (fun d i => d.eraseSector (u32 (d.clusToSect clusIndex + i))) d

/-- `GetNextFreeClusHelper`: the first of the clusters from `clusIndex` on whose entry is zero in
all of its bits. -/
def getNextFreeClusHelper : Nat → Nat → Option Nat
  | 0, _ => none
  | todo + 1, clusIndex =>
      match d.getSector (d.volume.fatBaseSector.1 + clusIndex / d.volume.entriesPerSector) with
      | none => none
      | some fat =>
          if d.volume.fatEntry fat (clusIndex % d.volume.entriesPerSector) = 0 then some clusIndex
          else getNextFreeClusHelper todo (clusIndex + 1)

/-- `GetNextFreeClus`, with `none` for `CLUST_ERROR`. -/
def getNextFreeClus (clear : Bool) : Option Nat × MountedDisk :=
  let maxCluster := d.volume.totalClusterCount + clusterStart
  let start := if maxCluster ≤ d.nextFree then clusterStart else d.nextFree
  let found := (d.getNextFreeClusHelper (maxCluster - start) start).or
    (d.getNextFreeClusHelper (start - clusterStart) clusterStart)
  match found with
  | none => (none, d)
  | some clusIndex =>
      let d := { d with nextFree := clusIndex + 1 }
      if d.volume.isFAT16 then
        (some clusIndex, if clear then d.eraseCluster clusIndex else d)
      else
        match d.getSector d.volume.sectorFSInfo with
        | none => (none, d)
        | some fsInfo =>
            let d := d.setSector d.volume.sectorFSInfo (put fsInfo 492 4 d.nextFree)
            (some clusIndex, if clear then d.eraseCluster clusIndex else d)

/-- `GetNextSect`: cluster and sector behind the given ones; with `create` a chain that ends is
made longer, by a cluster that is erased when `clear` is given. -/
def getNextSect (clusIndex sectIndex : Nat) (create clear : Bool) :
    Option (Nat × Nat) × MountedDisk :=
  let sect := u32 (sectIndex + 1)
  if clusIndex < clusterStart then
    (if sect < d.volume.firstDataSector then some (d.volume.sectToClus sect, sect) else none, d)
  else if d.volume.sectToClus sect = clusIndex then (some (clusIndex, sect), d)
  else
    let clus := d.readFAT clusIndex
    if d.getClusType clus ≠ .data then
      if create then
        match d.getNextFreeClus clear with
        | (none, d) => (none, d)
        | (some clus, d) =>
            let d := (d.writeFAT clusIndex clus).2
            let d := (d.writeFAT clus clustEof).2
            (if clus < clusterStart then none else some (clus, d.clusToSect clus), d)
      else (none, d)
    else (if clus < clusterStart then none else some (clus, d.clusToSect clus), d)

end MountedDisk

/-! ## Directory entries one after the other -/

/-- `FAT_EntryEnumerator`, with its flags. -/
structure EntryEnumerator where
  clusIndex : Nat
  sectIndex : Nat
  dataIndex : Nat
  isFirst : Bool
  isDone : Bool
  extend : Bool

/-- Where a directory entry lies: its sector and its offset there. -/
abbrev EntryIndex := Nat × Nat

namespace EntryEnumerator

/-- `Initialize` -/
def start (d : MountedDisk) (sectIndex dataIndex : Nat) (extend : Bool) : EntryEnumerator :=
  ⟨d.volume.sectToClus sectIndex, sectIndex, dataIndex, true, false, extend⟩

def getIndices (e : EntryEnumerator) : EntryIndex := (e.sectIndex, e.dataIndex)

/-- The entry that the enumerator stands on, when its sector can be read. -/
def current (e : EntryEnumerator) (d : MountedDisk) : Option EntryIndex :=
  (d.getSector e.sectIndex).map fun _ => e.getIndices

def getNext (e : EntryEnumerator) (d : MountedDisk) :
    Option EntryIndex × EntryEnumerator × MountedDisk :=
  if e.isFirst then
    let e := { e with isFirst := false }
    (e.current d, e, d)
  else if e.isDone then (none, e, d)
  else if e.dataIndex + 32 < d.volume.bytesPerSector then
    let e := { e with dataIndex := e.dataIndex + 32 }
    (e.current d, e, d)
  else
    match d.getNextSect e.clusIndex e.sectIndex e.extend e.extend with
    | (none, d) => (none, { e with dataIndex := e.dataIndex + 32, isDone := true }, d)
    | (some (clusIndex, sectIndex), d) =>
        let e := { e with clusIndex := clusIndex, sectIndex := sectIndex, dataIndex := 0 }
        (e.current d, e, d)

end EntryEnumerator

namespace MountedDisk

/-- The bytes of a directory entry. -/
def entry (d : MountedDisk) (index : EntryIndex) (i : Nat) : BitVec 8 :=
  d.sectors index.1 (index.2 + i)

/-- The disk after bytes of a directory entry have been written. -/
def setEntryBytes (d : MountedDisk) (index : EntryIndex) (i : Nat) (bytes : List (BitVec 8)) :
    MountedDisk :=
  d.setSector index.1 (putBytes (d.sectors index.1) (index.2 + i) bytes)

/-- `GetNextFreeEntry`: the first of `count` free entries that follow each other, in a directory
that is made longer as far as that is needed. The outer `none` is a search that `fuel` entries do
not end. -/
def getNextFreeEntry (count : Nat) :
    Nat → EntryEnumerator → Nat → EntryIndex → MountedDisk → Option (Option EntryIndex × MountedDisk)
  | 0, _, _, _, _ => none
  | fuel + 1, e, num, found, d =>
      match e.getNext d with
      | (none, _, d) => some (none, d)
      | (some index, e, d) =>
          if d.entry index 0 = 0xE5 ∨ d.entry index 0 = 0 then
            let found := if num = 0 then e.getIndices else found
            if count ≤ num + 1 then some (some found, d)
            else getNextFreeEntry count fuel e (num + 1) found d
          else getNextFreeEntry count fuel e 0 found d

end MountedDisk

end TinyCLR.FAT
