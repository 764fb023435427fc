import Mathlib
import TinyCLR.FAT.LogicDisk
import TinyCLR.FAT.FileName

/-!
# Files in a directory

`FAT_FILE`: a short entry with the long entries before it, how it is found in a directory and how
it is created and deleted. Walks through a directory take a bound on the number of entries they
look at; `none` is a walk that has not come to its end by then.
-/

namespace TinyCLR.FAT

open LittleEndian

/-- `ATTR_VOLUME_ID`, `ATTR_DIRECTORY`, `ATTR_ARCHIVE`, `ATTR_LONG_NAME` -/
def attrVolumeId : Nat := 0x08

def attrDirectory : Nat := 0x10

def attrArchive : Nat := 0x20

def attrLongName : Nat := 0x0F

/-- What `GetCurrentFATTime` gives. -/
structure FATTime where
  date : Nat
  time : Nat
  timeTenth : Nat

/-- `FAT_FILE`: where the entries of a file lie, and the length of its name. -/
structure FATFile where
  dirIndex : EntryIndex
  lDirIndex : EntryIndex
  lDirCount : Nat
  fileNameLength : Nat

namespace MountedDisk

variable (d : MountedDisk) (index : EntryIndex)

/-! ## The fields of an entry -/

/-- The field of a short entry at some offset, by its width. -/
def field (i width : Nat) : Nat := get (d.sectors index.1) (index.2 + i) width

def dirName : ShortName := (List.range 11).map fun i => (d.entry index i).toNat

def dirAttr : Nat := d.field index 11 1

def getFstClus : Nat := d.field index 20 2 * 2 ^ 16 + d.field index 26 2

def dirFileSize : Nat := d.field index 28 4

/-- The characters of a long entry. -/
def longChars : List Nat :=
  [1, 3, 5, 7, 9, 14, 16, 18, 20, 22, 24, 28, 30].map fun i => d.field index i 2

def setField (i width value : Nat) : MountedDisk :=
  d.setSector index.1 (put (d.sectors index.1) (index.2 + i) width value)

def setFstClus (clus : Nat) : MountedDisk :=
  (d.setField index 20 2 (clus / 2 ^ 16)).setField index 26 2 clus

def setCreationTime (now : FATTime) : MountedDisk :=
  ((d.setField index 16 2 now.date).setField index 14 2 now.time).setField index 13 1 now.timeTenth

def setWriteTime (now : FATTime) : MountedDisk :=
  (d.setField index 24 2 now.date).setField index 22 2 now.time

def setLstAccDate (now : FATTime) : MountedDisk := d.setField index 18 2 now.date

end MountedDisk

/-! ## Reading a directory -/

namespace EntryEnumerator

/-- `GetNext` of an enumerator that does not extend its directory. -/
def next (e : EntryEnumerator) (d : MountedDisk) : Option EntryIndex × EntryEnumerator :=
  let found := e.getNext d
  (found.1, found.2.1)

end EntryEnumerator

namespace FATFile

variable (d : MountedDisk)

/-- The first entry that is not deleted. -/
def skipDeleted : Nat → EntryEnumerator → Option (Option EntryIndex × EntryEnumerator)
  | 0, _ => none
  | fuel + 1, e =>
      match e.next d with
      | (none, e) => some (none, e)
      | (some index, e) =>
          if d.entry index 0 = 0xE5 then skipDeleted fuel e else some (some index, e)

/-- The long entries behind the first one: whether they have its checksum and follow in order. -/
def readLong (checksum : BitVec 8) : Nat → EntryEnumerator → Option (Bool × EntryEnumerator)
  | 0, e => some (true, e)
  | i + 1, e =>
      match e.next d with
      | (none, _) => none
      | (some index, e) =>
          (readLong checksum i e).map fun rest =>
            (d.entry index 13 == checksum && d.field index 0 1 == i + 1 && rest.1, rest.2)

/-- `Parse` from an entry that is not deleted. -/
def parseEntry (index : EntryIndex) (e : EntryEnumerator) :
    Option FATFile × EntryEnumerator :=
  if d.entry index 0 = 0 then (none, e)
  else
    let short (index' : EntryIndex) (e : EntryEnumerator) : Option FATFile × EntryEnumerator :=
      (some ⟨index', index, 0, DIR.getNameLength (d.dirName index')⟩, e)
    if d.field index 0 1 &&& 0x40 = 0x40 ∧ d.dirAttr index &&& 0x3F = attrLongName then
      let lDirCount := d.field index 0 1 &&& 0x3F
      if 20 < lDirCount then (none, e)
      else
        let checksum := d.entry index 13
        match readLong d checksum (lDirCount - 1) e with
        | none => (none, e)
        | some (inOrder, e) =>
            match e.next d with
            | (none, e) => (none, e)
            | (some index', e) =>
                if inOrder ∧ 0 < lDirCount ∧
                    checksum.toNat = getShortNameChksum (d.dirName index') then
                  (some ⟨index', index, lDirCount,
                    LDIR.getNameLength (d.longChars index) + (lDirCount - 1) * 13⟩, e)
                else short index' e
    else short index e

/-- `Parse` -/
def parse (fuel : Nat) (e : EntryEnumerator) : Option (Option FATFile × EntryEnumerator) :=
  match skipDeleted d fuel e with
  | none => none
  | some (none, e) => some (none, e)
  | some (some index, e) => some (parseEntry d index e)

/-- The comparison of the long entries from order `i` down; `none` is an entry that is missing. -/
def isLongName (count : Nat) (name : WString) : Nat → EntryEnumerator → Option Bool
  | 0, _ => some true
  | i + 1, e =>
      match e.next d with
      | (none, _) => none
      | (some index, e) =>
          if LDIR.isName (d.longChars index) (namePortion name count (i + 1)) then
            isLongName count name i e
          else some false

/-- `IsFileName`, the comparison of the short name. -/
def isShortName (file : FATFile) (name : WString) : Bool :=
  decide (name.length ≤ 12 ∧ name.length = file.fileNameLength) &&
    (d.getSector file.dirIndex.1).isSome && DIR.isName (d.dirName file.dirIndex) name

/-- `IsFileName` -/
def isFileName (file : FATFile) (name : WString) : Bool :=
  if 0 < file.lDirCount ∧ name.length = file.fileNameLength then
    match isLongName d file.lDirCount name file.lDirCount
        (EntryEnumerator.start d file.lDirIndex.1 file.lDirIndex.2 false) with
    | none => false
    | some true => true
    | some false => isShortName d file name
  else isShortName d file name

/-- The loop of `CopyFileName` over the long entries from order `i` down. -/
def copyLong : Nat → EntryEnumerator → WString → Option WString
  | 0, _, buffer => some buffer
  | i + 1, e, buffer =>
      match e.next d with
      | (none, _) => none
      | (some index, e) =>
          copyLong i e (overwrite buffer (13 * i) (LDIR.copyName (d.longChars index)))

/-- `CopyFileName`: the buffer behind it, or `none` for a failure. -/
def copyFileName (file : FATFile) (buffer : WString) : Option WString :=
  if buffer.length ≤ file.fileNameLength then none
  else if 0 < file.lDirCount then
    (copyLong d file.lDirCount (EntryEnumerator.start d file.lDirIndex.1 file.lDirIndex.2 false)
      buffer).map fun buffer =>
        -- a name that fills its last entry has no terminator there
        if file.fileNameLength % 13 = 0 then buffer.set file.fileNameLength 0 else buffer
  else
    (d.getSector file.dirIndex.1).map fun _ =>
      overwrite buffer 0 (DIR.copyName (d.dirName file.dirIndex))

/-- The files of a directory up to its end, from an enumerator on. -/
def entries : Nat → EntryEnumerator → Option (List FATFile)
  | 0, _ => none
  | fuel + 1, e =>
      match parse d (fuel + 1) e with
      | none => none
      | some (none, _) => some []
      | some (some file, e) => (entries fuel e).map (file :: ·)

/-- The short names in a directory, but for its volume label. -/
def dirNames (fuel clusIndex : Nat) : Option (List ShortName) :=
  (entries d fuel (EntryEnumerator.start d (d.clusToSect clusIndex) 0 false)).map fun files =>
    (files.filter fun file => d.dirAttr file.dirIndex != attrVolumeId).map fun file =>
      d.dirName file.dirIndex

end FATFile

/-! ## Creating and deleting files -/

namespace MountedDisk

variable (d : MountedDisk)

/-- `CreateNewDirectory`: the first cluster of the directory, with its two dot entries. -/
def createNewDirectory (parentClusIndex : Nat) : Option Nat × MountedDisk :=
  match d.getNextFreeClus true with
  | (none, d) => (none, d)
  | (some clusIndex, d) =>
      let d := (d.writeFAT clusIndex clustEof).2
      let sect := d.clusToSect clusIndex
      match d.getSector sect with
      | none => (none, d)
      | some _ =>
          let dot (d : MountedDisk) (dataIndex clus : Nat) (second : BitVec 8) : MountedDisk :=
            ((d.setEntryBytes (sect, dataIndex) 0 (0x2E :: second :: List.replicate 9 0x20)).setField
              (sect, dataIndex) 11 1 attrDirectory).setFstClus (sect, dataIndex) clus
          (some clusIndex, dot (dot d 0 clusIndex 0x20) 32 parentClusIndex 0x2E)

/-- The long entries from order `i` down, and the enumerator behind them. -/
def writeLong (name : WString) (count chksum : Nat) :
    Nat → EntryEnumerator → MountedDisk → Option EntryEnumerator × MountedDisk
  | 0, e, d => (some e, d)
  | i + 1, e, d =>
      match e.next d with
      | (none, _) => (none, d)
      | (some index, e) =>
          let chars := LDIR.setName (namePortion name count (i + 1))
          let word (c : Nat) : List (BitVec 8) := [BitVec.ofNat 8 c, BitVec.ofNat 8 (c / 256)]
          let ord := if i + 1 = count then (i + 1) ||| 0x40 else i + 1
          let d := d.setEntryBytes index 0
            ([BitVec.ofNat 8 ord] ++ (chars.take 5).flatMap word ++
              [BitVec.ofNat 8 attrLongName, 0, BitVec.ofNat 8 chksum] ++
              ((chars.drop 5).take 6).flatMap word ++ [0, 0] ++ (chars.drop 11).flatMap word)
          writeLong name count chksum i e d

/-- The short entry of a new file. -/
def writeShort (index : EntryIndex) (dirName : ShortName) (attributes fstClus : Nat)
    (now : FATTime) : MountedDisk :=
  let d := d.setEntryBytes index 0 (List.replicate 32 0)
  let d := (d.setField index 11 1 attributes).setFstClus index fstClus
  let d := d.setEntryBytes index 0 (dirName.map fun c => BitVec.ofNat 8 c)
  ((d.setCreationTime index now).setWriteTime index now).setLstAccDate index now

/-- `FAT_FILE::Create`. `next` is the character behind the name; the inner `none` is a failure,
with the disk as it has been left. -/
def create (fuel clusIndex : Nat) (fileName : WString) (next attributes : Nat) (now : FATTime) :
    Option (Option FATFile × MountedDisk) :=
  if isFileNameValid fileName next = false then some (none, d)
  else
    let needsLongName := isFileLongName fileName
    let entryCount := if needsLongName then 1 + (fileName.length + 12) / 13 else 1
    let shortName := if needsLongName then
      (FATFile.dirNames d fuel clusIndex).map (longToShortName fileName)
      else some (DIR.setName fileName)
    shortName.bind fun shortName =>
      let e := EntryEnumerator.start d (d.clusToSect clusIndex) 0 true
      (d.getNextFreeEntry entryCount fuel e 0 (0, 0)).map fun found =>
        match found with
        | (none, d) => (none, d)
        | (some first, d) =>
            let directory := if attributes &&& attrDirectory = attrDirectory then
              d.createNewDirectory clusIndex else (some 0, d)
            match directory with
            | (none, d) => (none, d)
            | (some fstClus, d) =>
                let e := EntryEnumerator.start d first.1 first.2 false
                match d.writeLong fileName (entryCount - 1) (getShortNameChksum shortName)
                    (entryCount - 1) e with
                | (none, d) => (none, d)
                | (some e, d) =>
                    match e.next d with
                    | (none, _) => (none, d)
                    | (some index, _) =>
                        (some ⟨index, first, entryCount - 1, fileName.length⟩,
                          d.writeShort index shortName attributes fstClus now)

end MountedDisk

end TinyCLR.FAT
