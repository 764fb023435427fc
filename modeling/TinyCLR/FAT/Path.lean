import Mathlib
import TinyCLR.FAT.File

/-!
# Paths

`GetFile` walks through the components of a path and creates missing ones where its flags say so.
All operations on paths go through it, queries and creating operations alike. Besides its result
and the disk after it, a walk reports what it has created.
-/

namespace TinyCLR.FAT

/-- The flags of `GetFile`. -/
def getFileNone : Nat := 0

def getFileCreateFile : Nat := 0x01

def getFileCreateDirectory : Nat := 0x02

def getFileCreatePath : Nat := 0x04

def getFileFailIfExists : Nat := 0x08

def getFileGetDirectoryOnly : Nat := 0x16

/-- The separator of the components, and the character at the end of a path. -/
def separator : Nat := 92

def terminator : Nat := 0

def splitPath : WString → List WString
  | [] => [[]]
  | c :: cs =>
      if c = separator then [] :: splitPath cs
      else
        match splitPath cs with
        | [] => [[c]]
        | name :: names => (c :: name) :: names

/-- The components of a path behind its first separator. -/
def components : WString → List WString
  | [] => []
  | _ :: path => splitPath path

/-- What `Create` made: the directory, the name and the attributes, with the disk before. -/
structure Creation where
  before : MountedDisk
  clusIndex : Nat
  fileName : WString
  attributes : Nat

namespace MountedDisk

variable (d : MountedDisk)

/-- `SearchCurDir`: the outer `none` is a directory that does not end. -/
def searchCurDir (name : WString) : Nat → EntryEnumerator → Option (Option FATFile)
  | 0, _ => none
  | fuel + 1, e =>
      match FATFile.parse d (fuel + 1) e with
      | none => none
      | some (none, _) => some none
      | some (some file, e) =>
          if FATFile.isFileName d file name ∧ d.dirAttr file.dirIndex ≠ attrVolumeId then
            some (some file)
          else searchCurDir name fuel e

/-- The attributes with which a missing component is created, if it is. -/
def creationAttributes (flags : Nat) (isLast : Bool) : Option Nat :=
  if (isLast = false ∧ flags &&& getFileCreatePath ≠ 0) ∨
      (isLast = true ∧ flags &&& getFileCreateDirectory ≠ 0) then some attrDirectory
  else if isLast = true ∧ flags &&& getFileCreateFile ≠ 0 then some attrArchive
  else none

/-- The times that `GetFile` updates in the entry of each component. -/
def touch (index : EntryIndex) (flags : Nat) (now : FATTime) : MountedDisk :=
  if flags = 0 then d
  else if flags &&& (getFileCreateFile ||| getFileCreateDirectory ||| getFileCreatePath) ≠ 0 then
    ((d.setCreationTime index now).setWriteTime index now).setLstAccDate index now
  else if flags &&& getFileGetDirectoryOnly ≠ 0 then d.setLstAccDate index now
  else d

/-- One component of a path: the file that is found or created, the disk after it and what was
created. -/
def getComponent (fuel clusIndex : Nat) (name : WString) (isLast : Bool) (flags : Nat)
    (now : FATTime) : Option (Option FATFile × MountedDisk × List Creation) :=
  (d.searchCurDir name fuel (EntryEnumerator.start d (d.clusToSect clusIndex) 0 false)).bind
    fun found =>
      match found with
      | some file =>
          some (if isLast ∧ flags &&& getFileFailIfExists ≠ 0 then none else some file, d, [])
      | none =>
          match creationAttributes flags isLast with
          | none => some (none, d, [])
          | some attributes =>
              (d.create fuel clusIndex name (if isLast then terminator else separator) attributes
                now).map fun created =>
                  (created.1, created.2,
                    if created.1.isSome then [⟨d, clusIndex, name, attributes⟩] else [])

/-- The loop of `GetFile`. -/
def getFileLoop (fuel flags : Nat) (now : FATTime) :
    List WString → Nat → Option FATFile → MountedDisk →
      Option (Option FATFile × MountedDisk × List Creation)
  | [], _, file, d => some (file, d, [])
  | name :: names, clusIndex, _, d =>
      (d.getComponent fuel clusIndex name names.isEmpty flags now).bind fun step =>
        match step with
        | (none, d, created) => some (none, d, created)
        | (some file, d, created) =>
            match d.getSector file.dirIndex.1 with
            | none => some (none, d, created)
            | some _ =>
                let d := d.touch file.dirIndex flags now
                if (names.isEmpty = false ∨ flags &&& getFileGetDirectoryOnly ≠ 0) ∧
                    d.dirAttr file.dirIndex &&& attrDirectory ≠ attrDirectory then
                  some (none, d, created)
                else
                  (getFileLoop fuel flags now names (d.getFstClus file.dirIndex) (some file) d).map
                    fun rest => (rest.1, rest.2.1, created ++ rest.2.2)

/-- `GetFile`: the file, the disk after the walk and what was created on it. -/
def getFile (fuel : Nat) (path : WString) (flags : Nat) (now : FATTime) :
    Option (Option FATFile × MountedDisk × List Creation) :=
  if path = [separator] then some (none, d, [])
  else getFileLoop fuel flags now (components path)
    (d.volume.sectToClus d.volume.rootSectorStart) none d

/-- `FS_MAX_PATH_LENGTH` and `FS_MAX_DIRECTORY_LENGTH` -/
def maxPathLength : Nat := 260 - 2

def maxDirectoryLength : Nat := maxPathLength - 12

inductive Error where
  | pathTooLong
  | directoryNotFound
  | fileNotFound
  | tooManyOpenHandles
  | pathAlreadyExists
  | fileError
  deriving DecidableEq

/-- What an operation returns, the disk after it and what it created. -/
structure Outcome (α : Type) where
  result : Except Error α
  disk : MountedDisk
  created : List Creation

/-- `FS_FILEINFO` without the name, with the times as they are stored. -/
structure FileInfo where
  attributes : Nat
  size : Nat
  creation : FATTime
  lastAccessDate : Nat
  lastWrite : Nat × Nat

def fileInfoOf (index : EntryIndex) : FileInfo where
  attributes := d.dirAttr index
  size := d.dirFileSize index
  creation := ⟨d.field index 16 2, d.field index 14 2, d.field index 13 1⟩
  lastAccessDate := d.field index 18 2
  lastWrite := (d.field index 24 2, d.field index 22 2)

/-! ## Queries -/

/-- `FindOpen`; `hasHandle` says whether there is a handle left. -/
def findOpen (fuel : Nat) (path : WString) (now : FATTime) (hasHandle : Bool) :
    Option (Outcome EntryEnumerator) :=
  let openAt (d : MountedDisk) (created : List Creation) (clusIndex : Nat) :
      Outcome EntryEnumerator :=
    ⟨if hasHandle then .ok (EntryEnumerator.start d (d.clusToSect clusIndex) 0 false)
      else .error .tooManyOpenHandles, d, created⟩
  if maxPathLength ≤ path.length then some ⟨.error .pathTooLong, d, []⟩
  else if path = [separator] then some (openAt d [] clusterNotACluster)
  else
    (d.getFile fuel path getFileGetDirectoryOnly now).map fun found =>
      match found with
      | (none, d, created) => ⟨.error .directoryNotFound, d, created⟩
      | (some file, d, created) => openAt d created (d.getFstClus file.dirIndex)

/-- `FindNext`: the file it finds, if there is one, and the enumerator behind it. -/
def findNext : Nat → EntryEnumerator →
    Option (Outcome (Option (FATFile × FileInfo)) × EntryEnumerator)
  | 0, _ => none
  | fuel + 1, e =>
      match FATFile.parse d (fuel + 1) e with
      | none => none
      | some (none, e) => some (⟨.ok none, d, []⟩, e)
      | some (some file, e) =>
          if d.entry file.dirIndex 0 = 0x2E ∨ d.dirAttr file.dirIndex = attrVolumeId then
            findNext fuel e
          else some (⟨.ok (some (file, d.fileInfoOf file.dirIndex)), d, []⟩, e)

/-- `GetFileInfo`: `none` for a file that is not found. -/
def getFileInfo (fuel : Nat) (path : WString) (now : FATTime) : Option (Outcome (Option FileInfo)) :=
  if maxPathLength ≤ path.length then some ⟨.error .pathTooLong, d, []⟩
  else if path = [separator] then some ⟨.ok (some ⟨attrDirectory, 0, ⟨0, 0, 0⟩, 0, (0, 0)⟩), d, []⟩
  else
    (d.getFile fuel path getFileNone now).map fun found =>
      ⟨.ok (found.1.map fun file => found.2.1.fileInfoOf file.dirIndex), found.2.1, found.2.2⟩

/-- `GetAttributes` -/
def getAttributes (fuel : Nat) (path : WString) (now : FATTime) : Option (Outcome Nat) :=
  if maxPathLength ≤ path.length then some ⟨.error .pathTooLong, d, []⟩
  else if path = [separator] then some ⟨.ok attrDirectory, d, []⟩
  else
    (d.getFile fuel path getFileNone now).map fun found =>
      ⟨.ok ((found.1.map fun file => found.2.1.dirAttr file.dirIndex).getD 0xFFFFFFFF), found.2.1,
        found.2.2⟩

/-! ## Operations that create -/

/-- `Open`, up to the file handle: the file and its first cluster. -/
def openFile (fuel : Nat) (path : WString) (now : FATTime) : Option (Outcome (FATFile × Nat)) :=
  if maxPathLength ≤ path.length then some ⟨.error .pathTooLong, d, []⟩
  else
    (d.getFile fuel path getFileCreateFile now).map fun found =>
      match found with
      | (none, d, created) => ⟨.error .fileError, d, created⟩
      | (some file, d, created) => ⟨.ok (file, d.getFstClus file.dirIndex), d, created⟩

def createDirectory (fuel : Nat) (path : WString) (now : FATTime) : Option (Outcome Unit) :=
  if maxDirectoryLength ≤ path.length then some ⟨.error .pathTooLong, d, []⟩
  else if path = [separator] then some ⟨.ok (), d, []⟩
  else
    (d.getFile fuel path (getFileCreatePath ||| getFileCreateDirectory) now).map fun found =>
      match found with
      | (none, d, created) => ⟨.error .fileError, d, created⟩
      | (some _, d, created) => ⟨.ok (), d, created⟩

/-- `DeleteDirectoryEntry` from an enumerator on. -/
def deleteEntries : Nat → EntryEnumerator → MountedDisk → Bool × MountedDisk
  | 0, _, d => (true, d)
  | count + 1, e, d =>
      match e.next d with
      | (none, _) => (false, d)
      | (some index, e) => deleteEntries count e (d.setEntryBytes index 0 [0xE5])

def deleteDirectoryEntry (file : FATFile) : Bool × MountedDisk :=
  deleteEntries (file.lDirCount + 1)
    (EntryEnumerator.start d file.lDirIndex.1 file.lDirIndex.2 false) d

/-- `Move`: a new entry takes over everything but the name. -/
def move (fuel : Nat) (oldPath newPath : WString) (now : FATTime) : Option (Outcome Unit) :=
  if maxPathLength ≤ oldPath.length ∨ maxPathLength ≤ newPath.length then
    some ⟨.error .pathTooLong, d, []⟩
  else
    (d.getFile fuel oldPath getFileNone now).bind fun source =>
      match source with
      | (none, d, created) => some ⟨.error .fileNotFound, d, created⟩
      | (some srcFile, d, _) =>
          let bytData := (List.range 21).map fun i => d.entry srcFile.dirIndex (11 + i)
          (d.getFile fuel newPath (getFileCreateFile ||| getFileFailIfExists) now).map fun dest =>
            match dest with
            | (none, d, created) => ⟨.error .pathAlreadyExists, d, created⟩
            | (some destFile, d, created) =>
                let index := destFile.dirIndex
                let d := d.setEntryBytes index 11 bytData
                let d := ((d.setCreationTime index now).setWriteTime index now).setLstAccDate
                  index now
                let deleted := d.deleteDirectoryEntry srcFile
                ⟨if deleted.1 then .ok () else .error .fileError, deleted.2, created⟩

end MountedDisk

end TinyCLR.FAT
