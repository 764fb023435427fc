import Mathlib
import TinyCLR.FAT.BootSector

/-!
# Mounting a volume

`MountDisk` finds the boot sector, at the start of the disk or of the first partition, computes
the geometry of the volume from it and checks that geometry against the disk. The geometry is
sound when it holds up in exact arithmetic: everything the driver will address from it lies where
it belongs.
-/

namespace TinyCLR.FAT

open LittleEndian

/-- The block device as `MountDisk` sees it: reads of one sector, the address and size of the
file system blocks, and `BytesPerBlock` of its regions. -/
structure Disk where
  read : Nat → Option Sector
  baseAddress : Nat
  diskSize : Nat
  bytesPerBlock : List Nat

/-- A boot sector that was accepted: its bytes and type, the disk area it is taken to describe,
and the first partition in sectors when it was found through a master boot record. -/
structure Boot where
  dbr : Sector
  isFAT16 : Bool
  baseAddress : Nat
  diskSize : Nat
  partition : Option (Nat × Nat)

/-- The loop of `MountDisk` that looks for a boot sector. -/
def findBootSector (d : Disk) : Option Boot :=
  (d.read d.baseAddress).bind fun sector =>
    match DBR.isValid sector with
    | some isFAT16 => some ⟨sector, isFAT16, d.baseAddress, d.diskSize, none⟩
    | none =>
        if MBR.isValid sector = false then none
        else
          let offset := u32 (MBR.relativeSector sector * defaultSectorSize)
          let size := u32 (MBR.totalSector sector * defaultSectorSize)
          if d.diskSize < u32 (offset + size) then none
          else
            let baseAddress := u32 (d.baseAddress + offset)
            (d.read baseAddress).bind fun dbr =>
              (DBR.isValid dbr).map fun isFAT16 =>
                ⟨dbr, isFAT16, baseAddress, size,
                  some (MBR.relativeSector sector, MBR.totalSector sector)⟩

/-- The fields of `FAT_LogicDisk` that `InitMount` sets. -/
structure Volume where
  baseAddress : Nat
  diskSize : Nat
  isFAT16 : Bool
  bytesPerSector : Nat
  sectorsPerCluster : Nat
  entriesPerSector : Nat
  sectorCount : Nat
  fatBaseSector : Nat × Nat
  firstDataSector : Nat
  totalClusterCount : Nat
  totalSectorCount : Nat
  sectorFSInfo : Nat
  rootSectorStart : Nat

/-- `ClusToSect`, with the sector it gives for what is no cluster. -/
def clusToSect (rootSectorStart firstDataSector sectorsPerCluster clusIndex : Nat) : Nat :=
  if clusIndex < clusterStart then rootSectorStart
  else u32 (firstDataSector + (clusIndex - clusterStart) * sectorsPerCluster)

namespace Boot

variable (b : Boot)

def fatSz : Nat := if b.isFAT16 then DBR.fatSz16 b.dbr else DBR.fatSz32 b.dbr

def totSec : Nat :=
  if DBR.totSec16 b.dbr = 0 then DBR.totSec32 b.dbr else DBR.totSec16 b.dbr

def entryBytes : Nat := if b.isFAT16 then 2 else 4

def initMount : Volume :=
  let bytesPerSector := DBR.bytsPerSec b.dbr
  let sectorsPerCluster := DBR.secPerClus b.dbr
  let rootDirSectors := DBR.rootDirSectors b.dbr
  let fatBaseSector0 := DBR.rsvdSecCnt b.dbr
  let firstDataSector :=
    u32 (DBR.rsvdSecCnt b.dbr + b.fatSz * DBR.numFATs b.dbr + rootDirSectors)
  { baseAddress := b.baseAddress
    diskSize := b.diskSize
    isFAT16 := b.isFAT16
    bytesPerSector := bytesPerSector
    sectorsPerCluster := sectorsPerCluster
    entriesPerSector := bytesPerSector / b.entryBytes
    sectorCount := u32 (b.diskSize / bytesPerSector)
    fatBaseSector := (fatBaseSector0, u32 (fatBaseSector0 + b.fatSz))
    firstDataSector := firstDataSector
    totalClusterCount :=
      u32 (sub32 b.totSec firstDataSector + (sectorsPerCluster - 1)) / sectorsPerCluster
    totalSectorCount := b.totSec
    sectorFSInfo := if b.isFAT16 then 0 else DBR.fsInfo b.dbr
    rootSectorStart :=
      if b.isFAT16 then sub32 firstDataSector rootDirSectors
      else clusToSect 0 firstDataSector sectorsPerCluster (DBR.rootClus b.dbr) }

/-- The second half of `MountDisk`: the sanity checks on the sizes. -/
def mount (bytesPerBlock : List Nat) : Option Volume :=
  let v := b.initMount
  let fatEntriesCount := u32 (b.fatSz * v.bytesPerSector) / b.entryBytes
  if v.diskSize < u32 (v.totalSectorCount * v.bytesPerSector) then none
  else if fatEntriesCount < u32 (v.totalClusterCount + clusterStart - 1) then none
  else if bytesPerBlock.any fun bytes => decide (bytes < v.bytesPerSector) then none
  else some v

end Boot

def mountDisk (d : Disk) : Option Volume :=
  (findBootSector d).bind fun b => b.mount d.bytesPerBlock

/-! ## Soundness of the geometry -/

/-- The geometry holds up in exact arithmetic. -/
structure Sound (d : Disk) (b : Boot) (v : Volume) : Prop where
  partition : ∀ rel tot, b.partition = some (rel, tot) →
    rel * 512 + tot * 512 ≤ d.diskSize ∧ v.totalSectorCount ≤ tot
  disk : b.partition = none → v.totalSectorCount * 512 ≤ d.diskSize
  /-- Reserved sectors, the two copies of the FAT, the root directory, the data. -/
  copies : 0 < v.fatBaseSector.1 ∧ v.fatBaseSector.1 + b.fatSz ≤ v.fatBaseSector.2
  rootFAT16 : v.isFAT16 = true → v.fatBaseSector.2 + b.fatSz ≤ v.rootSectorStart ∧
    v.rootSectorStart + DBR.rootDirSectors b.dbr ≤ v.firstDataSector
  rootFAT32 : v.isFAT16 = false → v.fatBaseSector.2 + b.fatSz ≤ v.firstDataSector ∧
    clusterStart ≤ DBR.rootClus b.dbr ∧
    v.rootSectorStart =
      v.firstDataSector + (DBR.rootClus b.dbr - clusterStart) * v.sectorsPerCluster ∧
    v.rootSectorStart + v.sectorsPerCluster ≤ v.totalSectorCount
  data : v.firstDataSector ≤ v.totalSectorCount
  fatEntry : ∀ clusIndex < v.totalClusterCount + clusterStart,
    (clusIndex + 1) * b.entryBytes ≤ b.fatSz * 512
  cluster : ∀ clusIndex, clusterStart ≤ clusIndex →
    clusIndex < v.totalClusterCount + clusterStart →
      v.firstDataSector + (clusIndex - clusterStart) * v.sectorsPerCluster + v.sectorsPerCluster ≤
        v.totalSectorCount
  /-- None of the products and sums in the checks wraps. -/
  noWrap : (∀ rel tot, b.partition = some (rel, tot) → rel * 512 + tot * 512 < 2 ^ 32) ∧
    b.totSec * 512 < 2 ^ 32 ∧ b.fatSz * 512 < 2 ^ 32 ∧
    DBR.rsvdSecCnt b.dbr + 2 * b.fatSz + DBR.rootDirSectors b.dbr < 2 ^ 32

theorem Boot.rootSectorStart_fat16 {b : Boot} (h : b.isFAT16 = true) :
    b.initMount.rootSectorStart =
      sub32 b.initMount.firstDataSector (DBR.rootDirSectors b.dbr) :=
  if_pos h

theorem Boot.rootSectorStart_fat32 {b : Boot} (h : b.isFAT16 = false) :
    b.initMount.rootSectorStart =
      clusToSect 0 b.initMount.firstDataSector (DBR.secPerClus b.dbr) (DBR.rootClus b.dbr) :=
  if_neg (by simp [h])

/-- Where the data area starts, in exact arithmetic. -/
def Boot.dataStart (b : Boot) : Nat :=
  DBR.rsvdSecCnt b.dbr + 2 * b.fatSz + DBR.rootDirSectors b.dbr

/-- The boot sectors for which the checks of `MountDisk` are enough: everything is below 4 GB,
the data area starts inside the volume and is a whole number of clusters, the FAT has an entry
for the last of them, and the root cluster of FAT32 is one of them. -/
structure Fits (b : Boot) : Prop where
  partition : ∀ rel tot, b.partition = some (rel, tot) → rel + tot < 2 ^ 23
  totSec : b.totSec < 2 ^ 23
  fatSz : b.fatSz < 2 ^ 23
  data : b.dataStart ≤ b.totSec
  wholeClusters : DBR.secPerClus b.dbr ∣ b.totSec - b.dataStart
  entries : (b.totSec - b.dataStart) / DBR.secPerClus b.dbr + 2 ≤ b.fatSz * (512 / b.entryBytes)
  root : b.isFAT16 = false → 2 ≤ DBR.rootClus b.dbr ∧
    DBR.rootClus b.dbr < (b.totSec - b.dataStart) / DBR.secPerClus b.dbr + 2

/-- What the validity of the boot sector says about its fields. -/
structure Accepted (b : Boot) : Prop where
  bytsPerSec : DBR.bytsPerSec b.dbr = 512
  secPerClus : 0 < DBR.secPerClus b.dbr ∧ DBR.secPerClus b.dbr < 2 ^ 8
  rsvdSecCnt : 0 < DBR.rsvdSecCnt b.dbr ∧ DBR.rsvdSecCnt b.dbr < 2 ^ 16
  numFATs : DBR.numFATs b.dbr = 2
  rootDirSectors : DBR.rootDirSectors b.dbr = if b.isFAT16 then 32 else 0
  fatSz : b.fatSz < 2 ^ 32
  totSec : b.totSec < 2 ^ 32

theorem DBR.wellFormed_of_isValid {s : Sector} {isFAT16 : Bool}
    (h : DBR.isValid s = some isFAT16) :
    DBR.bytsPerSec s = 512 ∧ 0 < DBR.secPerClus s ∧ 0 < DBR.rsvdSecCnt s ∧ DBR.numFATs s = 2 := by
  have hwell : DBR.wellFormed s = true := by
    by_contra hnot
    simp [DBR.isValid, hnot] at h
  simp only [DBR.wellFormed, Bool.and_eq_true, beq_iff_eq, bne_iff_ne, decide_eq_true_eq] at hwell
  obtain ⟨⟨⟨⟨-, hbps⟩, hspc, -⟩, hrsvd⟩, hnum⟩ := hwell
  exact ⟨hbps, by omega, hrsvd, hnum⟩

/-- The number of root directory entries goes with the type. -/
theorem DBR.rootEntCnt_of_isValid {s : Sector} {isFAT16 : Bool}
    (h : DBR.isValid s = some isFAT16) :
    DBR.rootEntCnt s = if isFAT16 then 512 else 0 := by
  unfold DBR.isValid at h
  split at h
  · cases h
  · split at h
    · cases h
    · split at h
      · split at h
        case isTrue hroot =>
          obtain rfl := Option.some.inj h
          exact hroot.1
        case isFalse => cases h
      · split at h
        case isTrue hroot =>
          obtain rfl := Option.some.inj h
          exact hroot.1
        case isFalse => cases h

theorem accepted_of_isValid {b : Boot} (h : DBR.isValid b.dbr = some b.isFAT16) :
    Accepted b := by
  obtain ⟨hbps, hspc, hrsvd, hnum⟩ := DBR.wellFormed_of_isValid h
  have hspc' := get_lt b.dbr 13 1
  have hrsvd' := get_lt b.dbr 14 2
  have hfat16 := get_lt b.dbr 22 2
  have hfat32 := get_lt b.dbr 36 4
  have htot16 := get_lt b.dbr 19 2
  have htot32 := get_lt b.dbr 32 4
  refine ⟨hbps, ⟨hspc, hspc'⟩, ⟨hrsvd, hrsvd'⟩, hnum, ?_, ?_, ?_⟩
  · have hroot := DBR.rootEntCnt_of_isValid h
    unfold DBR.rootDirSectors
    rw [hroot, hbps]
    split <;> rfl
  · unfold Boot.fatSz
    split
    · exact lt_trans hfat16 (by decide)
    · exact hfat32
  · unfold Boot.totSec
    split
    · exact htot32
    · exact lt_trans htot16 (by decide)

/-- A valid boot sector at the start of the disk is found there. -/
theorem findBootSector_of_isValid {d : Disk} {sector : Sector} {isFAT16 : Bool}
    (hread : d.read d.baseAddress = some sector) (hvalid : DBR.isValid sector = some isFAT16) :
    findBootSector d = some ⟨sector, isFAT16, d.baseAddress, d.diskSize, none⟩ := by
  unfold findBootSector
  rw [hread, Option.bind_some, hvalid]

/-- Without a valid boot sector and partition nothing is found. -/
theorem findBootSector_eq_none {d : Disk} {sector : Sector}
    (hread : d.read d.baseAddress = some sector) (hvalid : DBR.isValid sector = none)
    (hmbr : MBR.isValid sector = false) : findBootSector d = none := by
  unfold findBootSector
  rw [hread, Option.bind_some, hvalid]
  dsimp only
  rw [if_pos hmbr]

/-- Every boot sector that is found has been accepted. -/
theorem findBootSector_isValid {d : Disk} {b : Boot} (h : findBootSector d = some b) :
    DBR.isValid b.dbr = some b.isFAT16 := by
  obtain ⟨sector, -, h⟩ := Option.bind_eq_some_iff.mp h
  split at h
  case h_1 isFAT16 hvalid =>
    obtain rfl := Option.some.inj h
    exact hvalid
  case h_2 =>
    split at h
    · cases h
    · dsimp only at h
      split at h
      · cases h
      · obtain ⟨dbr, -, h⟩ := Option.bind_eq_some_iff.mp h
        obtain ⟨isFAT16, hvalid, rfl⟩ := Option.map_eq_some_iff.mp h
        exact hvalid

/-- The disk area of a boot sector: the disk, or the partition that passed the check. -/
theorem findBootSector_area {d : Disk} {b : Boot} (h : findBootSector d = some b) :
    b.partition = none ∧ b.diskSize = d.diskSize ∨
      ∃ rel tot, b.partition = some (rel, tot) ∧ b.diskSize = u32 (tot * 512) ∧
        u32 (u32 (rel * 512) + u32 (tot * 512)) ≤ d.diskSize := by
  obtain ⟨sector, -, h⟩ := Option.bind_eq_some_iff.mp h
  split at h
  case h_1 isFAT16 hvalid =>
    obtain rfl := Option.some.inj h
    exact Or.inl ⟨rfl, rfl⟩
  case h_2 =>
    split at h
    · cases h
    · dsimp only at h
      split at h
      · cases h
      case isFalse hsize =>
        obtain ⟨dbr, -, h⟩ := Option.bind_eq_some_iff.mp h
        obtain ⟨isFAT16, -, rfl⟩ := Option.map_eq_some_iff.mp h
        exact Or.inr ⟨_, _, rfl, rfl, Nat.not_lt.mp hsize⟩

/-- The disk is mounted when all of the sanity checks pass. -/
theorem Boot.mount_eq_some_iff {b : Boot} {bytesPerBlock : List Nat} {v : Volume} :
    b.mount bytesPerBlock = some v ↔ v = b.initMount ∧
      u32 (b.initMount.totalSectorCount * b.initMount.bytesPerSector) ≤ b.diskSize ∧
      u32 (b.initMount.totalClusterCount + clusterStart - 1) ≤
        u32 (b.fatSz * b.initMount.bytesPerSector) / b.entryBytes ∧
      ∀ bytes ∈ bytesPerBlock, b.initMount.bytesPerSector ≤ bytes := by
  have hdisk : b.initMount.diskSize = b.diskSize := rfl
  have hany : (bytesPerBlock.any fun bytes => decide (bytes < b.initMount.bytesPerSector)) = true ↔
      ¬ ∀ bytes ∈ bytesPerBlock, b.initMount.bytesPerSector ≤ bytes := by
    simp only [List.any_eq_true, decide_eq_true_eq, not_forall, not_le, exists_prop]
  unfold Boot.mount
  dsimp only
  rw [hdisk]
  split
  case isTrue hsize =>
    exact ⟨fun h => absurd h.symm (Option.some_ne_none v), fun h => absurd h.2.1 (by omega)⟩
  case isFalse hsize =>
    split
    case isTrue hfat =>
      exact ⟨fun h => absurd h.symm (Option.some_ne_none v), fun h => absurd h.2.2.1 (by omega)⟩
    case isFalse hfat =>
      split
      case isTrue hblock =>
        exact ⟨fun h => absurd h.symm (Option.some_ne_none v),
          fun h => absurd h.2.2.2 (hany.mp hblock)⟩
      case isFalse hblock =>
        have hblocks := not_not.mp (mt hany.mpr hblock)
        constructor
        · intro h
          exact ⟨(Option.some.inj h).symm, Nat.not_lt.mp hsize, Nat.not_lt.mp hfat, hblocks⟩
        · rintro ⟨rfl, -⟩
          rfl

/-- The start of the data area does not wrap when it is below 2^32. -/
theorem firstDataSector_exact {b : Boot} (ha : Accepted b) (h : b.dataStart < 2 ^ 32) :
    b.initMount.firstDataSector = b.dataStart := by
  simp only [Boot.initMount, ha.numFATs, u32]
  unfold Boot.dataStart at h ⊢
  rw [Nat.mod_eq_of_lt (by omega)]
  omega

theorem rootDirSectors_le {b : Boot} (ha : Accepted b) : DBR.rootDirSectors b.dbr ≤ 32 := by
  rw [ha.rootDirSectors]
  split <;> decide

/-- The cluster count rounds up. -/
theorem totalClusterCount_exact {b : Boot} (ha : Accepted b) (htot : b.totSec < 2 ^ 32 - 2 ^ 8)
    (hdata : b.dataStart ≤ b.totSec) :
    b.initMount.totalClusterCount =
      (b.totSec - b.dataStart + (DBR.secPerClus b.dbr - 1)) / DBR.secPerClus b.dbr := by
  have hspc := ha.secPerClus
  have hsub : sub32 b.totSec b.dataStart = b.totSec - b.dataStart := by
    unfold sub32
    omega
  have hcount : b.initMount.totalClusterCount =
      u32 (sub32 b.totSec b.initMount.firstDataSector + (DBR.secPerClus b.dbr - 1)) /
        DBR.secPerClus b.dbr := rfl
  rw [hcount, firstDataSector_exact ha (by omega), hsub, u32, Nat.mod_eq_of_lt (by omega)]

theorem le_ceil_mul (n : Nat) {s : Nat} (hs : 0 < s) : n ≤ (n + (s - 1)) / s * s := by
  have hdiv := Nat.div_add_mod (n + (s - 1)) s
  have hmod := Nat.mod_lt (n + (s - 1)) hs
  rw [Nat.mul_comm] at hdiv
  omega

theorem ceil_of_dvd {n s : Nat} (hs : 0 < s) (h : s ∣ n) : (n + (s - 1)) / s = n / s := by
  obtain ⟨k, rfl⟩ := h
  rw [Nat.mul_add_div hs, Nat.div_eq_of_lt (by omega), Nat.mul_div_cancel_left k hs, Nat.add_zero]

theorem entryBytes_cases (b : Boot) : b.entryBytes = 2 ∨ b.entryBytes = 4 := by
  unfold Boot.entryBytes
  split
  · exact Or.inl rfl
  · exact Or.inr rfl

/-- A sound geometry fits. -/
theorem fits_of_sound {d : Disk} {b : Boot} (ha : Accepted b) (h : Sound d b b.initMount) :
    Fits b := by
  obtain ⟨hpart, htot, hfat, hstart⟩ := h.noWrap
  have hspc := ha.secPerClus.1
  have htot' : b.totSec < 2 ^ 23 := by omega
  have hfirst := firstDataSector_exact ha hstart
  have hdata : b.dataStart ≤ b.totSec := hfirst ▸ h.data
  have hcount := totalClusterCount_exact ha (by omega) hdata
  have hceil := le_ceil_mul (b.totSec - b.dataStart) hspc
  rw [← hcount] at hceil
  -- the last cluster ends inside the volume, so the count did not round up
  have hfloor : b.initMount.totalClusterCount * DBR.secPerClus b.dbr ≤ b.totSec - b.dataStart := by
    cases hn : b.initMount.totalClusterCount with
    | zero => rw [Nat.zero_mul]; exact Nat.zero_le _
    | succ n =>
        have hlast := h.cluster (n + 2) (by unfold clusterStart; omega)
          (by rw [hn]; unfold clusterStart; omega)
        have hsectors : b.initMount.firstDataSector + n * DBR.secPerClus b.dbr +
            DBR.secPerClus b.dbr ≤ b.totSec := hlast
        rw [hfirst] at hsectors
        rw [Nat.succ_mul]
        omega
  have hexact : b.totSec - b.dataStart = b.initMount.totalClusterCount * DBR.secPerClus b.dbr :=
    Nat.le_antisymm hceil hfloor
  have hdiv : (b.totSec - b.dataStart) / DBR.secPerClus b.dbr = b.initMount.totalClusterCount := by
    rw [hexact, Nat.mul_div_cancel _ hspc]
  refine ⟨fun rel tot hp => ?_, htot', by omega, hdata, Dvd.intro_left _ hexact.symm, ?_, ?_⟩
  · have := hpart rel tot hp
    omega
  · have hlast := h.fatEntry (b.initMount.totalClusterCount + 1) (by unfold clusterStart; omega)
    rw [hdiv]
    rcases entryBytes_cases b with heb | heb <;> rw [heb] at hlast ⊢ <;> omega
  · intro htype
    obtain ⟨-, hclus, hroot, hinside⟩ := h.rootFAT32 htype
    refine ⟨hclus, ?_⟩
    rw [hroot, hfirst] at hinside
    have hsectors : b.dataStart + (DBR.rootClus b.dbr - 2) * DBR.secPerClus b.dbr +
        DBR.secPerClus b.dbr ≤ b.totSec := hinside
    have hmul : (DBR.rootClus b.dbr - 2 + 1) * DBR.secPerClus b.dbr ≤ b.totSec - b.dataStart := by
      rw [Nat.succ_mul]
      omega
    have hle := (Nat.le_div_iff_mul_le hspc).mpr hmul
    unfold clusterStart at hclus
    omega

/-- A cluster of the exact count lies inside the volume. -/
theorem cluster_inside {n spc k : Nat} (h : spc ∣ n) (hk : k < n / spc) :
    k * spc + spc ≤ n := by
  have hmul := Nat.div_mul_cancel h
  have hle : (k + 1) * spc ≤ n / spc * spc := Nat.mul_le_mul_right spc hk
  rw [Nat.succ_mul] at hle
  omega

/-- A geometry that fits is sound, given the checks that `MountDisk` makes. -/
theorem sound_of_fits {d : Disk} {b : Boot} (ha : Accepted b) (hb : findBootSector d = some b)
    (hsize : u32 (b.initMount.totalSectorCount * b.initMount.bytesPerSector) ≤ b.diskSize)
    (h : Fits b) : Sound d b b.initMount := by
  have hspc := ha.secPerClus
  have hrsvd := ha.rsvdSecCnt
  have hroot := rootDirSectors_le ha
  have htot := h.totSec
  have hfat := h.fatSz
  have hdata := h.data
  have hstart : b.dataStart < 2 ^ 32 := by omega
  have hfirst := firstDataSector_exact ha hstart
  have hcount := totalClusterCount_exact ha (by omega) hdata
  rw [ceil_of_dvd hspc.1 h.wholeClusters] at hcount
  have hbytes : u32 (b.totSec * 512) ≤ b.diskSize := ha.bytsPerSec ▸ hsize
  rw [u32, Nat.mod_eq_of_lt (by omega)] at hbytes
  have hbase2 : b.initMount.fatBaseSector.2 = DBR.rsvdSecCnt b.dbr + b.fatSz :=
    Nat.mod_eq_of_lt (by omega)
  have hds : b.dataStart = DBR.rsvdSecCnt b.dbr + 2 * b.fatSz + DBR.rootDirSectors b.dbr := rfl
  refine ⟨fun rel tot hp => ?_, fun hp => ?_, ⟨hrsvd.1, hbase2.ge⟩, fun htype => ?_,
    fun htype => ?_, hfirst ▸ hdata, fun clusIndex hlt => ?_, fun clusIndex hge hlt => ?_,
    ⟨fun rel tot hp => ?_, by omega, by omega, by omega⟩⟩
  · -- the partition passed the check with sums that do not wrap
    have hsum := h.partition rel tot hp
    rcases findBootSector_area hb with ⟨hnone, -⟩ | ⟨rel', tot', hp', harea, hcheck⟩
    · rw [hnone] at hp
      cases hp
    · obtain ⟨rfl, rfl⟩ := Prod.mk.inj (Option.some.inj (hp'.symm.trans hp))
      have hrel : u32 (rel' * 512) = rel' * 512 := Nat.mod_eq_of_lt (by omega)
      have htot' : u32 (tot' * 512) = tot' * 512 := Nat.mod_eq_of_lt (by omega)
      rw [hrel, htot', u32, Nat.mod_eq_of_lt (by omega)] at hcheck
      rw [harea, htot'] at hbytes
      exact ⟨hcheck, show b.totSec ≤ tot' by omega⟩
  · rcases findBootSector_area hb with ⟨-, harea⟩ | ⟨rel, tot, hsome, -⟩
    · exact harea ▸ hbytes
    · rw [hp] at hsome
      cases hsome
  · rw [Boot.rootSectorStart_fat16 htype, hfirst, hbase2]
    unfold sub32
    omega
  · have hzero : DBR.rootDirSectors b.dbr = 0 := by
      rw [ha.rootDirSectors, if_neg (by simpa [Boot.initMount] using htype)]
    obtain ⟨hclus, hlast⟩ := h.root htype
    have hinside := cluster_inside h.wholeClusters (k := DBR.rootClus b.dbr - 2) (by omega)
    have hstart32 : b.initMount.rootSectorStart =
        b.dataStart + (DBR.rootClus b.dbr - 2) * DBR.secPerClus b.dbr := by
      rw [Boot.rootSectorStart_fat32 htype, hfirst, clusToSect,
        if_neg (by unfold clusterStart; omega)]
      exact Nat.mod_eq_of_lt (by unfold clusterStart; omega)
    rw [hbase2, hfirst]
    refine ⟨by omega, hclus, hstart32, ?_⟩
    rw [hstart32]
    show b.dataStart + _ + DBR.secPerClus b.dbr ≤ b.totSec
    omega
  · have hentries := h.entries
    rw [hcount] at hlt
    unfold clusterStart at hlt
    rcases entryBytes_cases b with heb | heb <;> rw [heb] at hentries ⊢ <;> omega
  · rw [hcount] at hlt
    unfold clusterStart at hlt hge
    have hinside := cluster_inside h.wholeClusters (k := clusIndex - 2) (by omega)
    rw [hfirst]
    show b.dataStart + (clusIndex - 2) * DBR.secPerClus b.dbr + DBR.secPerClus b.dbr ≤ b.totSec
    omega
  · have := h.partition rel tot hp
    omega

/-- The geometry of a mounted volume is sound exactly when its boot sector fits. -/
theorem mount_sound_iff {d : Disk} {v : Volume} (h : mountDisk d = some v) :
    ∃ b, findBootSector d = some b ∧ (Sound d b v ↔ Fits b) := by
  obtain ⟨b, hb, hv⟩ := Option.bind_eq_some_iff.mp h
  have ha := accepted_of_isValid (findBootSector_isValid hb)
  obtain ⟨rfl, hsize, -⟩ := Boot.mount_eq_some_iff.mp hv
  exact ⟨b, hb, fits_of_sound ha, sound_of_fits ha hb hsize⟩

/-- A FAT16 boot sector with clusters of four sectors and two FAT copies of twenty sectors. -/
def sampleSector (totSec : Nat) : Sector :=
  put (put (put (put (put (put (put (put (put (fun _ => 0) 0 1 0xeb) 11 2 512) 13 1 4) 14 2 1)
    16 1 2) 17 2 512) 19 2 totSec) 22 2 20) 510 2 0xaa55

/-- The disk that has this sector, and no more sectors than it says. -/
def sampleDisk (totSec : Nat) : Disk :=
  { read := fun _ => some (sampleSector totSec)
    baseAddress := 0
    diskSize := totSec * 512
    bytesPerBlock := [65536] }

def sampleBoot (totSec : Nat) : Boot :=
  ⟨sampleSector totSec, true, 0, totSec * 512, none⟩

theorem findBootSector_sample {totSec : Nat}
    (hvalid : DBR.isValid (sampleSector totSec) = some true) :
    findBootSector (sampleDisk totSec) = some (sampleBoot totSec) :=
  findBootSector_of_isValid rfl hvalid

theorem mountDisk_sample {totSec : Nat} (hvalid : DBR.isValid (sampleSector totSec) = some true)
    (hmount : (sampleBoot totSec).mount [65536] = some (sampleBoot totSec).initMount) :
    mountDisk (sampleDisk totSec) = some (sampleBoot totSec).initMount :=
  Option.bind_eq_some_iff.mpr ⟨_, findBootSector_sample hvalid, hmount⟩

theorem mount_sample_20073 :
    (sampleBoot 20073).mount [65536] = some (sampleBoot 20073).initMount :=
  Boot.mount_eq_some_iff.mpr
    ⟨rfl, by decide +kernel, by decide +kernel, by decide +kernel⟩

theorem mount_sample_20074 :
    (sampleBoot 20074).mount [65536] = some (sampleBoot 20074).initMount :=
  Boot.mount_eq_some_iff.mpr
    ⟨rfl, by decide +kernel, by decide +kernel, by decide +kernel⟩

/-- A disk whose data area is five thousand clusters. -/
theorem mount_sound_sample :
    ∃ b, findBootSector (sampleDisk 20073) = some b ∧
      (Sound (sampleDisk 20073) b (sampleBoot 20073).initMount ↔ Fits b) :=
  mount_sound_iff (mountDisk_sample (by decide +kernel) mount_sample_20073)

/-- With one sector more there is a cluster that ends behind the volume. -/
theorem not_sound_sample :
    ¬ ∀ (d : Disk) (b : Boot) (v : Volume), findBootSector d = some b → mountDisk d = some v →
      Sound d b v := by
  intro h
  have hvalid : DBR.isValid (sampleSector 20074) = some true := by decide +kernel
  have hsound := h _ _ _ (findBootSector_sample hvalid) (mountDisk_sample hvalid mount_sample_20074)
  have hcluster := hsound.cluster 5002 (by decide) (by decide +kernel)
  exact absurd hcluster (by decide +kernel)

end TinyCLR.FAT
