import Mathlib
import TinyCLR.FAT.Mount

/-!
# Initializing a volume

After the disk is mounted the number of free clusters comes from the FSINFO sector of FAT32, or
is found by `PopulateFreeCount`, which takes a short cut when the root directory is empty and
otherwise walks through the FAT.
-/

namespace TinyCLR.FAT

open LittleEndian

/-- `CLUST_ERROR` -/
def clustError : Nat := 0xFFFFFFFF

/-- `CLUSTER_NOT_A_CLUSTER` -/
def clusterNotACluster : Nat := 0

/-- `FAT32_MASK` keeps the low 28 bits of an entry. -/
def fat32Mask (entry : Nat) : Nat := entry % 2 ^ 28

/-- `CLUST_FAT32_EOFE` has no reserved bits. -/
theorem fat32Mask_eof : fat32Mask 0x0FFFFFFF = 0x0FFFFFFF :=
  Nat.mod_eq_of_lt (by norm_num)

namespace Volume

variable (v : Volume)

def sectToClus (sectIndex : Nat) : Nat :=
  if sectIndex < v.firstDataSector then clusterNotACluster
  else (sectIndex - v.firstDataSector) / v.sectorsPerCluster + clusterStart

/-- The sector of the device at a sector index of the volume. -/
def readSector (d : Disk) (sectIndex : Nat) : Option Sector :=
  d.read (u32 (v.baseAddress + sectIndex * v.bytesPerSector))

/-- An entry of the FAT in the sector that holds it, all its bits. -/
def fatEntry (fat : Sector) (dataOffset : Nat) : Nat :=
  if v.isFAT16 then get fat (2 * dataOffset) 2 else get fat (4 * dataOffset) 4

def readFAT (d : Disk) (clusIndex : Nat) : Nat :=
  if v.totalClusterCount + clusterStart ≤ clusIndex then clustError
  else
    match v.readSector d (v.fatBaseSector.1 + clusIndex / v.entriesPerSector) with
    | none => clustError
    | some fat =>
        let data := v.fatEntry fat (clusIndex % v.entriesPerSector)
        if v.isFAT16 then data else fat32Mask data

/-- An entry of a sector that can be read. -/
theorem readFAT_of_readSector {d : Disk} {clusIndex : Nat} {fat : Sector}
    (hlt : clusIndex < v.totalClusterCount + clusterStart)
    (hread : v.readSector d (v.fatBaseSector.1 + clusIndex / v.entriesPerSector) = some fat) :
    v.readFAT d clusIndex =
      if v.isFAT16 then get fat (2 * (clusIndex % v.entriesPerSector)) 2
      else fat32Mask (get fat (4 * (clusIndex % v.entriesPerSector)) 4) := by
  unfold readFAT fatEntry
  rw [if_neg (Nat.not_le.mpr hlt), hread]
  dsimp only
  split <;> rfl

/-- The loops of `PopulateFreeCount` over the entries from `c` on, with what has been counted
and the first free entry so far; `0` stands for none. -/
def countFree (d : Disk) : Nat → Nat → Nat × Nat → Option (Nat × Nat)
  | 0, _, found => some found
  | todo + 1, c, (freeCount, nextFree) =>
      (v.readSector d (v.fatBaseSector.1 + c / v.entriesPerSector)).bind fun fat =>
        countFree d todo (c + 1)
          (if v.fatEntry fat (c % v.entriesPerSector) = 0 then
            (freeCount + 1, if nextFree = 0 then c else nextFree)
          else (freeCount, nextFree))

/-- `PopulateFreeCount`: `m_freeCount` and `m_nextFree`. -/
def populateFreeCount (d : Disk) : Nat × Nat :=
  match v.readSector d v.rootSectorStart with
  | none => (0xFFFFFFFF, 0)
  | some buffer =>
      if buffer 0 = 0 then
        if v.isFAT16 then (v.totalClusterCount, clusterStart)
        else (sub32 v.totalClusterCount 1, v.sectToClus v.rootSectorStart + 1)
      else (v.countFree d (v.totalClusterCount + clusterStart) 0 (0, 0)).getD (0xFFFFFFFF, 0)

/-- An empty root directory is taken to say that everything else is free. -/
theorem populateFreeCount_of_empty {d : Disk} {buffer : Sector}
    (hread : v.readSector d v.rootSectorStart = some buffer) (hempty : buffer 0 = 0) :
    v.populateFreeCount d =
      if v.isFAT16 then (v.totalClusterCount, clusterStart)
      else (sub32 v.totalClusterCount 1, v.sectToClus v.rootSectorStart + 1) := by
  unfold populateFreeCount
  rw [hread]
  exact if_pos hempty

/-- The number of free entries of the FAT. -/
def freeEntries (d : Disk) : Nat :=
  (List.range v.totalClusterCount).countP fun k => v.readFAT d (k + clusterStart) == 0

end Volume

namespace FSINFO

variable (s : Sector)

def freeCount : Nat := get s 488 4
def nxtFree : Nat := get s 492 4

def isValid : Bool :=
  get s 0 4 == 0x41615252 && get s 484 4 == 0x61417272 && get s 508 4 == 0xAA550000

/-- `Initialize` clears the whole sector first. -/
def initializeInfo (freeCount nxtFree : Nat) : Sector :=
  put (put (put (put (put (fun _ => 0) 0 4 0x41615252) 484 4 0x61417272) 488 4 freeCount)
    492 4 nxtFree) 508 4 0xAA550000

variable (count next : Nat)

theorem isValid_initializeInfo : isValid (initializeInfo count next) = true := by
  unfold isValid initializeInfo
  simp (disch := decide) only [get_put_disjoint, get_put_same]
  decide

theorem freeCount_initializeInfo :
    FSINFO.freeCount (initializeInfo count next) = count % 2 ^ 32 := by
  unfold FSINFO.freeCount initializeInfo
  simp (disch := decide) only [get_put_disjoint, get_put_same]
  rfl

theorem nxtFree_initializeInfo :
    FSINFO.nxtFree (initializeInfo count next) = next % 2 ^ 32 := by
  unfold FSINFO.nxtFree initializeInfo
  simp (disch := decide) only [get_put_disjoint, get_put_same]
  rfl

end FSINFO

/-- A logic disk that is ready for use. -/
structure LogicDisk where
  volume : Volume
  freeCount : Nat
  nextFree : Nat

/-- `Initialize`. The device may refuse to take the corrected FSINFO sector. -/
def initializeDisk (d : Disk) (writesFSInfo : Bool) : Option LogicDisk :=
  (mountDisk d).bind fun v =>
    let ready (found : Nat × Nat) : Option LogicDisk :=
      if found.1 = 0xFFFFFFFF then none else some ⟨v, found.1, found.2⟩
    if v.isFAT16 then ready (v.populateFreeCount d)
    else
      (v.readSector d v.sectorFSInfo).bind fun fsInfo =>
        if FSINFO.isValid fsInfo = false then none
        else if FSINFO.freeCount fsInfo = 0xFFFFFFFF ∨
            v.totalClusterCount < FSINFO.freeCount fsInfo then
          if writesFSInfo then ready (v.populateFreeCount d) else none
        else ready (FSINFO.freeCount fsInfo, FSINFO.nxtFree fsInfo)

end TinyCLR.FAT
