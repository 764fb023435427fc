import TinyCLR.FAT.File

/-!
# Open files

`FAT_FileHandle`: a position in a file together with the cluster, the sector and the offset where
it lies, and what reading, writing, seeking and a new length make of it.
-/

namespace TinyCLR.FAT

open LittleEndian

structure FileHandle where
  file : FATFile
  clusIndex : Nat
  sectIndex : Nat
  dataIndex : Nat
  position : Int

/-- A handle together with the disk that it belongs to. -/
structure OpenFile where
  handle : FileHandle
  disk : MountedDisk

/-- The types of work that `ReadWriteSeekHelper` does. -/
inductive Helper where
  | read
  | write
  | seek
  | flush
  deriving DecidableEq

/-- `CLR_E_FILE_IO`, `CLR_E_OUT_OF_RANGE` and `CLR_E_INVALID_PARAMETER` -/
inductive HandleError where
  | fileError
  | outOfRange
  | invalidParameter
  deriving DecidableEq

/-- What an operation of a handle returns, with the file after it. -/
structure Attempt (α : Type) where
  result : Except HandleError α
  file : OpenFile

/-- A number as an `int`. -/
def toInt32 (n : Int) : Int := (n + 2 ^ 31) % 2 ^ 32 - 2 ^ 31

namespace OpenFile

variable (f : OpenFile)

/-- The bytes of a cluster, in 32 bits. -/
def clusterSize : Nat := u32 (f.disk.volume.bytesPerSector * f.disk.volume.sectorsPerCluster)

/-- `GetDirectoryEntry`: whether the sector with the file's entry can be read. -/
def hasEntry : Bool := (f.disk.getSector f.handle.file.dirIndex.1).isSome

def fstClus : Nat := f.disk.getFstClus f.handle.file.dirIndex

def dirFileSize : Nat := f.disk.dirFileSize f.handle.file.dirIndex

/-- The handle on the first byte of a cluster, as the start of its file. -/
def restart (clusIndex : Nat) : OpenFile :=
  { f with
    handle := ⟨f.handle.file, clusIndex, f.disk.clusToSect clusIndex, 0, 0⟩ }

/-- The handle some bytes further on in its sector. -/
def advance (count : Nat) : OpenFile :=
  { f with
    handle := { f.handle with
      dataIndex := f.handle.dataIndex + count
      position := f.handle.position + count } }

/-- At the end of a sector the next one is paged in; only writing makes the file longer. -/
def pageIn (type : Helper) : Attempt Unit :=
  if f.handle.dataIndex = f.disk.volume.bytesPerSector then
    match f.disk.getNextSect f.handle.clusIndex f.handle.sectIndex (type = .write) false with
    | (none, d) => ⟨.error .fileError, { f with disk := d }⟩
    | (some (clusIndex, sectIndex), d) =>
        ⟨.ok (),
          ⟨{ f.handle with
              clusIndex := clusIndex
              sectIndex := sectIndex
              dataIndex := 0 }, d⟩⟩
  else ⟨.ok (), f⟩

/-- What is done with `count` bytes of a sector; zeros are written where there is no buffer.
Reading gives the bytes. -/
def transfer (type : Helper) (buffer : Option (List (BitVec 8))) (count : Nat) :
    Attempt (List (BitVec 8)) :=
  match type with
  | .seek | .flush => ⟨.ok [], f⟩
  | .read =>
      match f.disk.getSector f.handle.sectIndex with
      | none => ⟨.error .fileError, f⟩
      | some sector => ⟨.ok ((List.range count).map fun i => sector (f.handle.dataIndex + i)), f⟩
  | .write =>
      match f.disk.getSector f.handle.sectIndex with
      | none => ⟨.error .fileError, f⟩
      | some sector =>
          let bytes := match buffer with
            | none => List.replicate count 0
            | some buffer => buffer.take count
          ⟨.ok [], { f with
            disk := f.disk.setSector f.handle.sectIndex (putBytes sector f.handle.dataIndex bytes) }⟩

/-- `ReadWriteSeekHelper` for `size` bytes, with what has been read. A sector takes a step of
`fuel`. -/
def readWriteSeekHelper (type : Helper) :
    Nat → Option (List (BitVec 8)) → Nat → List (BitVec 8) → OpenFile →
      Option (Attempt (List (BitVec 8)))
  | 0, _, _, _, _ => none
  | fuel + 1, buffer, size, done, f =>
      if size = 0 then some ⟨.ok done, f⟩
      else
        match f.pageIn type with
        | ⟨.error e, f⟩ => some ⟨.error e, f⟩
        | ⟨.ok _, f⟩ =>
            let count := min size (f.disk.volume.bytesPerSector - f.handle.dataIndex)
            match f.transfer type buffer count with
            | ⟨.error e, f⟩ => some ⟨.error e, f⟩
            | ⟨.ok bytes, f⟩ =>
                readWriteSeekHelper type fuel (buffer.map (List.drop count)) (size - count)
                  (done ++ bytes) (f.advance count)

/-- `ReadWriteSeekHelper` with as many steps as it can need. -/
def readWriteSeek (type : Helper) (buffer : Option (List (BitVec 8))) (size : Int) :
    Option (Attempt (List (BitVec 8))) :=
  readWriteSeekHelper type (size.toNat + 1) buffer size.toNat [] f

/-- Before `Write`: a file without clusters gets one. -/
def firstCluster : Attempt Unit :=
  if f.fstClus = 0 then
    match f.disk.getNextFreeClus false with
    | (none, d) => ⟨.error .fileError, { f with disk := d }⟩
    | (some clusIndex, d) =>
        let f := { f with disk := d }
        if f.hasEntry then
          let d := d.setFstClus f.handle.file.dirIndex clusIndex
          ⟨.ok (), { f with disk := (d.writeFAT clusIndex clustEof).2 }.restart clusIndex⟩
        else ⟨.error .fileError, f⟩
  else if f.handle.clusIndex = 0 then ⟨.ok (), f.restart f.fstClus⟩
  else ⟨.ok (), f⟩

/-- The end of `Write`: the entry gets the size and the time. -/
def updateEntry (now : FATTime) : Attempt Unit :=
  if f.hasEntry then
    let index := f.handle.file.dirIndex
    let d := if (f.dirFileSize : Int) < f.handle.position then
        f.disk.setField index 28 4 (u32 f.handle.position.toNat) else f.disk
    ⟨.ok (), { f with disk := (d.setWriteTime index now).setLstAccDate index now }⟩
  else ⟨.error .fileError, f⟩

/-- `Write` -/
def write (now : FATTime) (buffer : Option (List (BitVec 8))) (size : Int) :
    Option (Attempt Unit) :=
  if size < 0 then some ⟨.error .invalidParameter, f⟩
  else if f.hasEntry then
    match f.firstCluster with
    | ⟨.error e, f⟩ => some ⟨.error e, f⟩
    | ⟨.ok _, f⟩ =>
        (f.readWriteSeek .write buffer size).map fun written =>
          match written with
          | ⟨.error e, f⟩ => ⟨.error e, f⟩
          | ⟨.ok _, f⟩ => f.updateEntry now
  else some ⟨.error .fileError, f⟩

/-- `SEEKORIGIN_BEGIN`, `SEEKORIGIN_CURRENT` and `SEEKORIGIN_END` -/
def newPosition (offset : Int) (origin : Nat) : Option Int :=
  if origin = 0 then some offset
  else if origin = 1 then some (f.handle.position + offset)
  else if origin = 2 then some (f.dirFileSize + offset)
  else none

/-- A position behind the end of the file becomes the end. -/
def clip : OpenFile :=
  { f with handle := { f.handle with position := min f.handle.position f.dirFileSize } }

/-- The second half of `Seek`: the handle goes to a position inside the file. -/
def seekTo (newPosition : Int) : Option (Attempt Unit) :=
  let finish (f : OpenFile) (offset : Int) : Option (Attempt Unit) :=
    (f.readWriteSeek .seek none (toInt32 offset)).map fun found =>
      ⟨found.result.map fun _ => (), found.file⟩
  let offset := newPosition - f.handle.position
  if offset < 0 then
    -- a step back inside the sector needs no walk from the start
    if -offset ≤ f.handle.dataIndex then
      some ⟨.ok (), { f with
        handle := { f.handle with
          dataIndex := (f.handle.dataIndex + offset).toNat
          position := f.handle.position + offset } }⟩
    else if f.hasEntry then finish (f.restart f.fstClus) newPosition
    else some ⟨.error .fileError, f⟩
  else finish f offset

/-- `Seek`, in a file that `setLength` makes longer. -/
def seek (setLength : Int → OpenFile → Option (Attempt Unit)) (offset : Int) (origin : Nat) :
    Option (Attempt Unit) :=
  if f.hasEntry then
    let f := f.clip
    match f.newPosition offset origin with
    | none => some ⟨.error .invalidParameter, f⟩
    | some newPosition =>
        if (f.dirFileSize : Int) < newPosition then
          (setLength newPosition f).bind fun grown =>
            match grown with
            | ⟨.error e, f⟩ => some ⟨.error e, f⟩
            | ⟨.ok _, f⟩ => f.seekTo newPosition
        else if newPosition < 0 then some ⟨.error .fileError, f⟩
        else f.seekTo newPosition
  else some ⟨.error .fileError, f⟩

/-- The loop of `SetLength` that shortens a chain, from `clus` with `clusNum` clusters behind it. -/
def cutChain (newClusCount : Nat) : Nat → Nat → Nat → MountedDisk → MountedDisk
  | 0, _, _, d => d
  | todo + 1, clusNum, clus, d =>
      let step := if clusNum + 1 = newClusCount then d.writeFAT clus clustEof
        else if newClusCount < clusNum + 1 then d.writeFAT clus 0
        else (clus, d)
      if step.2.getClusType step.1 ≠ .data then step.2
      else cutChain newClusCount todo (clusNum + 1) step.1 step.2

/-- The clusters of so many bytes, where the sum is taken in 32 bits. -/
def clusCount (size : Nat) : Nat := u32 (size + f.clusterSize - 1) / f.clusterSize

/-- The last step of `SetLength` for a shorter file. -/
def setFileSize (length startClus : Nat) : Attempt Unit :=
  if f.hasEntry then
    let index := f.handle.file.dirIndex
    let d := f.disk.setField index 28 4 length
    let d := if length = 0 then ((d.setFstClus index 0).writeFAT startClus 0).2 else d
    ⟨.ok (), { f with disk := d }⟩
  else ⟨.error .fileError, f⟩

/-- `SetLength` for a shorter file, after its loop. -/
def afterLoop (length : Nat) : OpenFile :=
  { f with disk := cutChain (f.clusCount length) (f.clusCount f.dirFileSize) 0 f.fstClus f.disk }

/-- `SetLength` for a shorter file. -/
def shrink (setLength : Int → OpenFile → Option (Attempt Unit)) (length : Nat) :
    Option (Attempt Unit) :=
  let startClus := f.fstClus
  let f := f.afterLoop length
  if (length : Int) ≤ f.handle.position then
    (f.seek setLength length 0).map fun found =>
      match found with
      | ⟨.error e, f⟩ => ⟨.error e, f⟩
      | ⟨.ok _, f⟩ => f.setFileSize length startClus
  else some (f.setFileSize length startClus)

/-- `SetLength` for a longer file. -/
def grow (setLength : Int → OpenFile → Option (Attempt Unit)) (now : FATTime) (length : Nat) :
    Option (Attempt Unit) :=
  let v := f.disk.volume
  if u32 (f.disk.freeCount * v.sectorsPerCluster * v.bytesPerSector) < sub32 length f.dirFileSize then
    some ⟨.error .fileError, f⟩
  else
    let oldPosition := f.handle.position
    (f.seek setLength 0 2).bind fun atEnd =>
      match atEnd with
      | ⟨.error e, f⟩ => some ⟨.error e, f⟩
      | ⟨.ok _, f⟩ =>
          (f.write now none (toInt32 (length - f.handle.position))).bind fun written =>
            match written with
            | ⟨.error e, f⟩ => some ⟨.error e, f⟩
            | ⟨.ok _, f⟩ => f.seek setLength oldPosition 0

/-- `SetLength`; `Seek` calls it again, so many levels deep. -/
def setLength (now : FATTime) : Nat → Int → OpenFile → Option (Attempt Unit)
  | 0, _, _ => none
  | depth + 1, length, f =>
      if length < 0 ∨ 0xFFFFFFFF < length then some ⟨.error .outOfRange, f⟩
      else if f.hasEntry then
        let length32 := length.toNat
        if length32 = f.dirFileSize ∨ length32 = 0 ∧ f.fstClus = 0 then some ⟨.ok (), f⟩
        else if length32 ≤ f.dirFileSize then f.shrink (setLength now depth) length32
        else f.grow (setLength now depth) now length32
      else some ⟨.error .fileError, f⟩

end OpenFile

end TinyCLR.FAT
