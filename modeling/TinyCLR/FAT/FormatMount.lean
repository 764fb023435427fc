import Mathlib
import TinyCLR.FAT.Format

/-!
# Mounting what has been formatted

What `MountDisk` and `Initialize` make of a freshly formatted device, for every layout that
`FormatHelper` chooses.
-/

namespace TinyCLR.FAT

open LittleEndian

namespace Layout

/-! ## The type of the FAT -/

variable (r : FormatRequest) {l : Layout}

theorem Chosen.secPerClus_pow2 (h : l.Chosen) :
    0 < l.secPerClus ∧ l.secPerClus < 2 ^ 8 ∧ (l.secPerClus - 1) &&& l.secPerClus = 0 := by
  cases htype : l.useFAT16 with
  | true =>
      rcases h.fat16 htype with ⟨-, -, heq⟩ | ⟨-, -, heq⟩ | ⟨-, -, heq⟩ | ⟨-, -, heq⟩ |
        ⟨-, -, heq⟩ | ⟨-, -, heq⟩ <;> rw [heq] <;> decide
  | false =>
      rcases h.fat32 htype with ⟨-, -, heq⟩ | ⟨-, -, heq⟩ | ⟨-, -, heq⟩ | ⟨-, -, heq⟩ |
        ⟨-, heq⟩ <;> rw [heq] <;> decide

theorem Chosen.totSec_pos (h : l.Chosen) : 8400 < l.totSec := by
  cases htype : l.useFAT16 with
  | true =>
      have hrow := h.fat16 htype
      unfold RowFAT16 at hrow
      omega
  | false =>
      have hrow := h.fat32 htype
      unfold RowFAT32 at hrow
      omega

theorem Chosen.secPerClus_dbr (h : l.Chosen) : DBR.secPerClus (l.dbr r) = l.secPerClus := by
  rw [dbr_secPerClus, Nat.mod_eq_of_lt h.secPerClus_pow2.2.1]

theorem Chosen.wellFormed (h : l.Chosen) : DBR.wellFormed (l.dbr r) = true := by
  obtain ⟨hpos, -, hpow⟩ := h.secPerClus_pow2
  have hrsvd : 0 < l.rsvdSecCnt := by
    unfold rsvdSecCnt
    split <;> decide
  simp only [DBR.wellFormed, endingFlag, jmpBoot, bytsPerSec, h.secPerClus_dbr, dbr_rsvdSecCnt,
    numFATs, hpow]
  simp [hpos.ne', hrsvd]

theorem dbr_rootDirSectors : DBR.rootDirSectors (l.dbr r) = l.rootDirSectors := by
  unfold DBR.rootDirSectors rootDirSectors
  rw [rootEntCnt, bytsPerSec]
  split <;> rfl

/-- Either field gives the sector count. -/
theorem Chosen.totSec_dbr (h : l.Chosen) :
    (if DBR.totSec16 (l.dbr r) ≠ 0 then DBR.totSec16 (l.dbr r) else DBR.totSec32 (l.dbr r)) =
      l.totSec := by
  have hpos := h.totSec_pos
  rw [dbr_totSec16, dbr_totSec32 l r h.totSec]
  by_cases hsmall : l.totSec < 0x10000
  · rw [if_pos hsmall, if_pos (by omega)]
  · rw [if_neg hsmall, if_neg (by simp), if_neg hsmall]

/-- The size of the FAT as the boot sector gives it. -/
theorem Chosen.fatSz_dbr (h : l.Chosen) :
    (if l.useFAT16 then DBR.fatSz16 (l.dbr r) else DBR.fatSz32 (l.dbr r)) = l.fatSz := by
  cases htype : l.useFAT16 with
  | true =>
      have hle := (fat16_numbers h htype).2.1
      exact fatSz16_fat16 l r htype (by omega)
  | false =>
      have hlt : l.fatSz < 2 ^ 32 := by
        unfold fatSz
        exact lt_of_le_of_lt (Nat.div_le_self _ _) (Nat.mod_lt _ (by decide))
      exact fatSz32_fat32 l r htype hlt

theorem dataStart_fat16 (htype : l.useFAT16 = true) : l.dataStart = 33 + 2 * l.fatSz := by
  unfold dataStart rsvdSecCnt rootDirSectors
  rw [if_pos htype, if_pos htype]
  omega

theorem dataStart_fat32 (htype : l.useFAT16 = false) : l.dataStart = 32 + 2 * l.fatSz := by
  unfold dataStart rsvdSecCnt rootDirSectors
  rw [if_neg (by simp [htype]), if_neg (by simp [htype])]
  omega

theorem Chosen.dataStart_lt (h : l.Chosen) : l.dataStart < l.totSec := by
  cases htype : l.useFAT16 with
  | true =>
      rw [dataStart_fat16 htype]
      exact (fat16_numbers h htype).2.2.1
  | false =>
      rw [dataStart_fat32 htype]
      by_cases hlt : l.totSec < 2 ^ 32 - 8160
      · exact (fat32_numbers h htype hlt).2.2.1
      · have hpos := h.totSec_pos
        rw [fatSz_fat32 h htype, if_neg hlt]
        omega

theorem Chosen.getCountOfClusters (h : l.Chosen) :
    DBR.getCountOfClusters (l.dbr r) = (l.totSec - l.dataStart) / l.secPerClus := by
  have hlt := h.dataStart_lt
  have htot := h.totSec
  have hfat : (if DBR.fatSz16 (l.dbr r) ≠ 0 then DBR.fatSz16 (l.dbr r)
      else DBR.fatSz32 (l.dbr r)) = l.fatSz := by
    have hdbr := h.fatSz_dbr r
    cases htype : l.useFAT16 with
    | true =>
        have hpos := (fat16_numbers h htype).1
        rw [htype, if_pos rfl] at hdbr
        rw [hdbr, if_pos hpos.ne']
    | false =>
        rw [htype, if_neg Bool.false_ne_true] at hdbr
        rw [fatSz16_fat32 l r htype, if_neg (by simp), hdbr]
  unfold DBR.getCountOfClusters
  dsimp only
  rw [hfat, h.totSec_dbr, dbr_rsvdSecCnt, numFATs, dbr_rootDirSectors, h.secPerClus_dbr]
  show sub32 l.totSec l.dataStart / l.secPerClus = _
  congr 1
  unfold sub32
  omega

theorem isValid_fat16 (h : l.Chosen) (htype : l.useFAT16 = true) :
    DBR.isValid (l.dbr r) =
      if l.secPerClus = 64 → l.totSec ≤ 4194144 then some true else none := by
  obtain ⟨hfat, -, -, hlow, hhigh⟩ := fat16_numbers h htype
  have hcount := h.getCountOfClusters r
  rw [dataStart_fat16 htype] at hcount
  have hroot : DBR.rootEntCnt (l.dbr r) = 512 := by rw [rootEntCnt, if_pos htype]
  have hfatSz := h.fatSz_dbr r
  rw [if_pos htype] at hfatSz
  have htot : DBR.totSec16 (l.dbr r) = 0 ∨ DBR.totSec32 (l.dbr r) = 0 := by
    rw [dbr_totSec16, dbr_totSec32 l r h.totSec]
    by_cases hsmall : l.totSec < 0x10000
    · exact Or.inr (if_pos hsmall)
    · exact Or.inl (if_neg hsmall)
  unfold DBR.isValid
  rw [h.wellFormed, hcount, if_neg (by simp), if_neg (by omega)]
  by_cases hlt : (l.totSec - (33 + 2 * l.fatSz)) / l.secPerClus < 65525
  · rw [if_pos hlt, if_pos (hhigh.mp hlt), if_pos ⟨hroot, hfatSz ▸ hfat, htot⟩]
  · rw [if_neg hlt, if_neg fun hle => hlt (hhigh.mpr hle), if_neg (by rw [hroot]; simp)]

theorem isValid_fat32 (h : l.Chosen) (htype : l.useFAT16 = false) :
    DBR.isValid (l.dbr r) = if l.totSec < 2 ^ 32 - 8160 then some false else none := by
  have hrow := h.fat32 htype
  have hcount := h.getCountOfClusters r
  rw [dataStart_fat32 htype] at hcount
  have hfatSz := h.fatSz_dbr r
  rw [htype, if_neg Bool.false_ne_true] at hfatSz
  have hbig : ¬ l.totSec < 0x10000 := by
    unfold RowFAT32 at hrow
    omega
  have hroot : DBR.rootEntCnt (l.dbr r) = 0 := by rw [rootEntCnt, htype]; rfl
  have htot16 : DBR.totSec16 (l.dbr r) = 0 := by rw [dbr_totSec16, if_neg hbig]
  have htot32 : 0 < DBR.totSec32 (l.dbr r) := by
    rw [dbr_totSec32 l r h.totSec, if_neg hbig]
    omega
  have hmany : 65525 ≤ (l.totSec - (32 + 2 * l.fatSz)) / l.secPerClus := by
    by_cases hlt : l.totSec < 2 ^ 32 - 8160
    · exact (fat32_numbers h htype hlt).2.2.2.1
    · have hzero := fatSz_fat32 h htype
      rw [if_neg hlt] at hzero
      rw [hzero]
      unfold RowFAT32 at hrow
      obtain heq : l.secPerClus = 64 := by omega
      rw [heq]
      omega
  unfold DBR.isValid
  rw [h.wellFormed, hcount, if_neg (by simp), if_neg (by omega), if_neg (by omega)]
  by_cases hlt : l.totSec < 2 ^ 32 - 8160
  · have hpos := (fat32_numbers h htype hlt).1
    rw [if_pos hlt, if_pos ⟨hroot, htot16, fatSz16_fat32 l r htype, htot32, hfatSz ▸ hpos⟩]
  · have hzero := fatSz_fat32 h htype
    rw [if_neg hlt] at hzero
    rw [if_neg hlt, if_neg fun hall => absurd hall.2.2.2.2 (by rw [hfatSz, hzero]; decide)]

end Layout

namespace Device

variable {dev : Device} {l : Layout} {r : FormatRequest} {sectors : Sectors}

/-- The driver reads back the sectors by their distance from the base address. -/
theorem readSector_disk {v : Volume} (hbase : v.baseAddress = dev.baseAddress)
    (hbytes : v.bytesPerSector = 512) {sectIndex : Nat} (hlt : sectIndex < 2 ^ 23) :
    v.readSector (dev.disk sectors) sectIndex = some (sectors sectIndex) := by
  have hindex : sub32 (u32 (dev.baseAddress + sectIndex * 512)) dev.baseAddress / 512 =
      sectIndex := by
    unfold sub32 u32
    omega
  show some (sectors (sub32 (u32 (v.baseAddress + sectIndex * v.bytesPerSector))
    dev.baseAddress / 512)) = _
  rw [hbase, hbytes, hindex]

theorem read_baseAddress : (dev.disk sectors).read (dev.disk sectors).baseAddress =
    some (sectors 0) := by
  have hindex : sub32 dev.baseAddress dev.baseAddress / 512 = 0 := by
    unfold sub32
    omega
  show some (sectors (sub32 dev.baseAddress dev.baseAddress / 512)) = _
  rw [hindex]

/-- A sector that no write touches keeps its contents. -/
theorem writeAll_other {writes : List (Nat × Sector)} {before after : Sectors} {sectIndex : Nat}
    (h : dev.writeAll writes before = some after) (hne : ∀ k ∈ writes.map Prod.fst, k ≠ sectIndex) :
    after sectIndex = before sectIndex := by
  induction writes generalizing before with
  | nil => exact congrFun (Option.some.inj h).symm sectIndex
  | cons write rest ih =>
      have hhead : write.1 ≠ sectIndex := hne _ List.mem_cons_self
      have hrest : ∀ k ∈ rest.map Prod.fst, k ≠ sectIndex := fun k hk =>
        hne k (List.mem_cons_of_mem _ hk)
      unfold writeAll at h
      split at h
      · exact (ih h hrest).trans (Function.update_of_ne hhead.symm _ _)
      · cases h

/-- The last write to a sector decides its contents. -/
theorem writeAll_last (first : List (Nat × Sector)) {rest : List (Nat × Sector)}
    {before after : Sectors} {sectIndex : Nat} {buffer : Sector}
    (h : dev.writeAll (first ++ (sectIndex, buffer) :: rest) before = some after)
    (hne : ∀ k ∈ rest.map Prod.fst, k ≠ sectIndex) : after sectIndex = buffer := by
  induction first generalizing before with
  | nil =>
      rw [List.nil_append, writeAll] at h
      split at h
      · exact (writeAll_other h hne).trans (Function.update_self _ _ _)
      · cases h
  | cons write first ih =>
      rw [List.cons_append, writeAll] at h
      split at h
      · exact ih h
      · cases h

/-! ## The volume that both sides compute -/

section Boot

variable (dev : Device) (r : FormatRequest)

theorem boot_fatSz (h : l.Chosen) : (dev.boot l r).fatSz = l.fatSz := h.fatSz_dbr r

theorem boot_totSec (h : l.Chosen) : (dev.boot l r).totSec = l.totSec := by
  have htot := h.totSec_dbr r
  unfold Boot.totSec
  by_cases hzero : DBR.totSec16 (l.dbr r) = 0
  · rw [if_neg (not_not.mpr hzero)] at htot
    exact (if_pos hzero).trans htot
  · rw [if_pos hzero] at htot
    exact (if_neg hzero).trans htot

theorem boot_dataStart (h : l.Chosen) : (dev.boot l r).dataStart = l.dataStart := by
  have hrsvd : DBR.rsvdSecCnt (dev.boot l r).dbr = l.rsvdSecCnt := Layout.dbr_rsvdSecCnt l r
  have hroot : DBR.rootDirSectors (dev.boot l r).dbr = l.rootDirSectors :=
    Layout.dbr_rootDirSectors r
  unfold Boot.dataStart Layout.dataStart
  rw [hrsvd, hroot, boot_fatSz dev r h]

theorem fatSz_lt (h : l.Chosen) : l.fatSz < 2 ^ 20 := by
  cases htype : l.useFAT16 with
  | true =>
      have := (Layout.fat16_numbers h htype).2.1
      omega
  | false =>
      by_cases hlt : l.totSec < 2 ^ 32 - 8160
      · exact (Layout.fat32_numbers h htype hlt).2.1
      · rw [Layout.fatSz_fat32 h htype, if_neg hlt]
        decide

theorem boot_fatBaseSector (h : l.Chosen) :
    (dev.boot l r).initMount.fatBaseSector = (l.rsvdSecCnt, l.rsvdSecCnt + l.fatSz) := by
  have hlt := fatSz_lt h
  have hrsvd : DBR.rsvdSecCnt (dev.boot l r).dbr = l.rsvdSecCnt := Layout.dbr_rsvdSecCnt l r
  have hrsvd' : l.rsvdSecCnt ≤ 32 := by
    unfold Layout.rsvdSecCnt
    split <;> decide
  have hdef : (dev.boot l r).initMount.fatBaseSector = (DBR.rsvdSecCnt (dev.boot l r).dbr,
    u32 (DBR.rsvdSecCnt (dev.boot l r).dbr + (dev.boot l r).fatSz)) := rfl
  rw [hdef, hrsvd, boot_fatSz dev r h, u32, Nat.mod_eq_of_lt (by omega)]

end Boot

/-- What `FormatHelper` leaves on the device. -/
structure Formatted (dev : Device) (l : Layout) (r : FormatRequest) (sectors : Sectors) :
    Prop where
  dbr : sectors 0 = l.dbr r
  fsInfo : l.useFAT16 = false →
    sectors 1 = FSINFO.initializeInfo (sub32 (dev.boot l r).initMount.totalClusterCount 1) 3
  fat : sectors l.rsvdSecCnt = l.firstEntries
  fatCopy : sectors (l.rsvdSecCnt + l.fatSz) = l.firstEntries
  cleared : ∀ sectIndex < l.sectorsNeeded, l.rsvdSecCnt < sectIndex →
    sectIndex ≠ l.rsvdSecCnt + l.fatSz → sectors sectIndex = fun _ => 0

/-- The entries behind the first ones are free. -/
theorem fat_cleared (hformat : Formatted dev l r sectors) {j : Nat} (hj : 0 < j)
    (hlt : j < l.fatSz) : sectors (l.rsvdSecCnt + j) = fun _ => 0 := by
  apply hformat.cleared
  · unfold Layout.sectorsNeeded
    omega
  · omega
  · omega

theorem formatWrites_fat16 (h : l.Chosen) (htype : l.useFAT16 = true) :
    dev.formatWrites l r =
      [(0, l.dbr r), (1, l.firstEntries), (1 + l.fatSz, l.firstEntries)] := by
  have hrsvd : l.rsvdSecCnt = 1 := if_pos htype
  unfold formatWrites
  dsimp only
  rw [boot_fatBaseSector dev r h, hrsvd, if_pos htype]
  rfl

theorem formatWrites_fat32 (h : l.Chosen) (htype : l.useFAT16 = false) :
    dev.formatWrites l r =
      let fsInfo :=
        FSINFO.initializeInfo (sub32 (dev.boot l r).initMount.totalClusterCount 1) 3
      [(0, l.dbr r), (6, l.dbr r), (1, fsInfo), (7, fsInfo), (32, l.firstEntries),
        (32 + l.fatSz, l.firstEntries)] := by
  have hrsvd : l.rsvdSecCnt = 32 := if_neg (by simp [htype])
  unfold formatWrites
  dsimp only
  rw [boot_fatBaseSector dev r h, hrsvd, if_neg (by simp [htype])]
  rfl

/-- The writes do not touch each other, and leave the root directory cleared. -/
theorem formatted_fat16 (h : l.Chosen) (htype : l.useFAT16 = true) {before : Sectors}
    (hbefore : ∀ sectIndex < l.sectorsNeeded, before sectIndex = fun _ => 0)
    (hwrites : dev.writeAll (dev.formatWrites l r) before = some sectors) :
    Formatted dev l r sectors := by
  have hpos := (Layout.fat16_numbers h htype).1
  have hrsvd : l.rsvdSecCnt = 1 := if_pos htype
  rw [formatWrites_fat16 h htype] at hwrites
  constructor
  · apply writeAll_last [] hwrites
    simp
  · intro hfalse
    rw [htype] at hfalse
    cases hfalse
  · rw [hrsvd]
    apply writeAll_last [_] hwrites
    simp
    omega
  · rw [hrsvd]
    apply writeAll_last [_, _] hwrites
    simp
  · intro sectIndex hlt hgt hne
    rw [hrsvd] at hgt hne
    rw [← hbefore sectIndex hlt]
    apply writeAll_other hwrites
    simp
    omega

theorem dbr_written_fat32 (h : l.Chosen) (htype : l.useFAT16 = false) {before : Sectors}
    (hwrites : dev.writeAll (dev.formatWrites l r) before = some sectors) :
    sectors 0 = l.dbr r := by
  rw [formatWrites_fat32 h htype] at hwrites
  apply writeAll_last [] hwrites
  simp

theorem formatted_fat32 (h : l.Chosen) (htype : l.useFAT16 = false) (hpos : 0 < l.fatSz)
    {before : Sectors}
    (hbefore : ∀ sectIndex < l.sectorsNeeded, before sectIndex = fun _ => 0)
    (hwrites : dev.writeAll (dev.formatWrites l r) before = some sectors) :
    Formatted dev l r sectors := by
  have hrsvd : l.rsvdSecCnt = 32 := if_neg (by simp [htype])
  rw [formatWrites_fat32 h htype] at hwrites
  constructor
  · apply writeAll_last [] hwrites
    simp
  · intro _
    apply writeAll_last [_, _] hwrites
    simp
    omega
  · rw [hrsvd]
    apply writeAll_last [_, _, _, _] hwrites
    simp
    omega
  · rw [hrsvd]
    apply writeAll_last [_, _, _, _, _] hwrites
    simp
  · intro sectIndex hlt hgt hne
    rw [hrsvd] at hgt hne
    rw [← hbefore sectIndex hlt]
    apply writeAll_other hwrites
    simp
    omega

/-! ## The volume of a formatted device -/

/-- A layout whose boot sector is valid, with its type. -/
structure Valid (l : Layout) (r : FormatRequest) : Prop where
  chosen : l.Chosen
  isValid : DBR.isValid (l.dbr r) = some l.useFAT16
  totSec : l.totSec < 2 ^ 32 - 2 ^ 8

/-- The number of clusters. -/
def clusters (l : Layout) : Nat :=
  (l.totSec - l.dataStart + (l.secPerClus - 1)) / l.secPerClus

section Volume

variable (h : Valid l r)
include h

theorem boot_accepted : Accepted (dev.boot l r) := accepted_of_isValid h.isValid

theorem volume_firstDataSector : (dev.boot l r).initMount.firstDataSector = l.dataStart := by
  have hlt := h.chosen.dataStart_lt
  have htot := h.totSec
  have hstart := boot_dataStart dev r h.chosen
  rw [firstDataSector_exact (boot_accepted h) (by omega), hstart]

theorem volume_secPerClus : (dev.boot l r).initMount.sectorsPerCluster = l.secPerClus :=
  h.chosen.secPerClus_dbr r

theorem volume_totalClusterCount :
    (dev.boot l r).initMount.totalClusterCount = clusters l := by
  have hlt := h.chosen.dataStart_lt
  have htot := boot_totSec dev r h.chosen
  have hstart := boot_dataStart dev r h.chosen
  have hspc : DBR.secPerClus (dev.boot l r).dbr = l.secPerClus := h.chosen.secPerClus_dbr r
  rw [totalClusterCount_exact (boot_accepted h) (by rw [htot]; exact h.totSec)
    (by rw [htot, hstart]; exact hlt.le), htot, hstart, hspc, clusters]

theorem volume_bytesPerSector : (dev.boot l r).initMount.bytesPerSector = 512 :=
  (boot_accepted h).bytsPerSec

/-- The entries that fit in a sector of the FAT. -/
theorem volume_entriesPerSector :
    (dev.boot l r).initMount.entriesPerSector = if l.useFAT16 then 256 else 128 := by
  have hdef : (dev.boot l r).initMount.entriesPerSector =
      (dev.boot l r).initMount.bytesPerSector / (if l.useFAT16 then 2 else 4) := rfl
  rw [hdef, volume_bytesPerSector h]
  split <;> rfl

theorem volume_rootSectorStart :
    (dev.boot l r).initMount.rootSectorStart = l.rsvdSecCnt + 2 * l.fatSz := by
  have hlt := h.chosen.dataStart_lt
  have htot := h.chosen.totSec
  have hfirst : (dev.boot l r).initMount.firstDataSector = l.dataStart :=
    volume_firstDataSector h
  have hdbr : (dev.boot l r).dbr = l.dbr r := rfl
  cases htype : l.useFAT16 with
  | true =>
      have hroot : DBR.rootDirSectors (l.dbr r) = 32 := by
        rw [Layout.dbr_rootDirSectors, Layout.rootDirSectors, if_pos htype]
      have hrsvd : l.rsvdSecCnt = 1 := if_pos htype
      have hstart := Layout.dataStart_fat16 htype
      rw [Boot.rootSectorStart_fat16 htype, hdbr, hfirst, hroot, hrsvd]
      unfold sub32
      omega
  | false =>
      have hrsvd : l.rsvdSecCnt = 32 := if_neg (by simp [htype])
      have hstart := Layout.dataStart_fat32 htype
      rw [Boot.rootSectorStart_fat32 htype, hdbr, hfirst, Layout.rootClus l r htype, hrsvd,
        clusToSect, if_neg (by decide), show 2 - clusterStart = 0 from rfl, Nat.zero_mul, u32]
      omega

theorem clusters_le : clusters l ≤ l.totSec := by
  have hpos := h.chosen.secPerClus_pow2.1
  have hmul : l.totSec - l.dataStart ≤ l.secPerClus * (l.totSec - l.dataStart) :=
    Nat.le_mul_of_pos_left _ hpos
  have hle : clusters l ≤ l.totSec - l.dataStart := by
    apply (Nat.div_le_iff_le_mul_add_pred hpos).mpr
    omega
  omega

theorem clusters_pos : 0 < clusters l := by
  have hpos := h.chosen.secPerClus_pow2.1
  have hlt := h.chosen.dataStart_lt
  apply Nat.div_pos
  · omega
  · exact hpos

/-- The checks of `MountDisk` on a formatted device, but for the sizes of its blocks, come down
to the number of entries in the FAT. -/
theorem mountDisk_formatted_iff (hformat : Formatted dev l r sectors)
    (hsize : l.totSec * 512 ≤ dev.diskSize) {v : Volume} :
    mountDisk (dev.disk sectors) = some v ↔ v = (dev.boot l r).initMount ∧
      clusters l + 1 ≤ l.fatSz * (if l.useFAT16 then 256 else 128) ∧
      ∀ bytes ∈ dev.bytesPerBlock, 512 ≤ bytes := by
  have hread : (dev.disk sectors).read (dev.disk sectors).baseAddress = some (l.dbr r) := by
    rw [read_baseAddress, hformat.dbr]
  have hfound : findBootSector (dev.disk sectors) = some (dev.boot l r) :=
    findBootSector_of_isValid hread h.isValid
  have htot : (dev.boot l r).initMount.totalSectorCount = l.totSec := boot_totSec dev r h.chosen
  have hfat := fatSz_lt h.chosen
  have hcount := clusters_le h
  have htotSec := h.totSec
  have hbytes : u32 (l.totSec * 512) ≤ dev.diskSize := le_trans (Nat.mod_le _ _) hsize
  have hentries : u32 (clusters l + clusterStart - 1) ≤
      u32 (l.fatSz * 512) / (dev.boot l r).entryBytes ↔
        clusters l + 1 ≤ l.fatSz * (if l.useFAT16 then 256 else 128) := by
    have hdef : (dev.boot l r).entryBytes = if l.useFAT16 then 2 else 4 := rfl
    rw [hdef, u32, u32, Nat.mod_eq_of_lt (by unfold clusterStart; omega), Nat.mod_eq_of_lt (by omega)]
    unfold clusterStart
    cases l.useFAT16
    · simp only [Bool.false_eq_true, if_false]
      omega
    · simp only [if_true]
      omega
  unfold mountDisk
  rw [hfound, Option.bind_some, Boot.mount_eq_some_iff, volume_bytesPerSector h, htot,
    volume_totalClusterCount h, boot_fatSz dev r h.chosen, hentries]
  constructor
  · rintro ⟨rfl, -, hfat, hblocks⟩
    exact ⟨rfl, hfat, hblocks⟩
  · rintro ⟨rfl, hfat, hblocks⟩
    exact ⟨rfl, hbytes, hfat, hblocks⟩

theorem mounts_fat32 (htype : l.useFAT16 = false) (hlt : l.totSec < 2 ^ 32 - 8160) :
    clusters l + 1 ≤ l.fatSz * (if l.useFAT16 then 256 else 128) := by
  have hroom := (Layout.fat32_numbers h.chosen htype hlt).2.2.2.2
  rw [if_neg (by simp [htype])]
  unfold clusters
  rw [Layout.dataStart_fat32 htype]
  omega

/-! ## The FAT and the root directory of a formatted device -/

theorem readSector_formatted {sectIndex : Nat} (hlt : sectIndex < 2 ^ 23) :
    (dev.boot l r).initMount.readSector (dev.disk sectors) sectIndex = some (sectors sectIndex) :=
  readSector_disk rfl (volume_bytesPerSector h) hlt

/-- The root directory is cleared. -/
theorem root_cleared (hformat : Formatted dev l r sectors) (hpos : 0 < l.fatSz) {k : Nat}
    (hk : k < if l.useFAT16 then 32 else l.secPerClus) :
    (dev.boot l r).initMount.readSector (dev.disk sectors)
      ((dev.boot l r).initMount.rootSectorStart + k) = some fun _ => 0 := by
  have hfat := fatSz_lt h.chosen
  have hspc := h.chosen.secPerClus_pow2.2.1
  have hrsvd : l.rsvdSecCnt ≤ 32 := by
    unfold Layout.rsvdSecCnt
    split <;> decide
  have hneeded : l.rsvdSecCnt + 2 * l.fatSz + k < l.sectorsNeeded := by
    unfold Layout.sectorsNeeded Layout.rootDirSectors
    split at hk
    case isTrue htype => rw [if_pos htype, if_pos htype]; omega
    case isFalse htype => rw [if_neg htype, if_neg htype]; omega
  have hsmall : k < 2 ^ 8 := by split at hk <;> omega
  rw [volume_rootSectorStart h, readSector_formatted h (by omega),
    hformat.cleared _ hneeded (by omega) (by omega)]

theorem readFAT_formatted
    (hmount : clusters l + 1 ≤ l.fatSz * (if l.useFAT16 then 256 else 128)) {c : Nat}
    (hc : c < clusters l + 2) :
    (dev.boot l r).initMount.readFAT (dev.disk sectors) c =
      if l.useFAT16 then get (sectors (l.rsvdSecCnt + c / 256)) (2 * (c % 256)) 2
      else fat32Mask (get (sectors (l.rsvdSecCnt + c / 128)) (4 * (c % 128)) 4) := by
  have hfat := fatSz_lt h.chosen
  have hrsvd : l.rsvdSecCnt ≤ 32 := by
    unfold Layout.rsvdSecCnt
    split <;> decide
  have hbase : (dev.boot l r).initMount.fatBaseSector.1 = l.rsvdSecCnt := by
    rw [boot_fatBaseSector dev r h.chosen]
  have hentries : (dev.boot l r).initMount.entriesPerSector = if l.useFAT16 then 256 else 128 :=
    volume_entriesPerSector h
  have hcount : (dev.boot l r).initMount.totalClusterCount = clusters l :=
    volume_totalClusterCount h
  have htype : (dev.boot l r).initMount.isFAT16 = l.useFAT16 := rfl
  have hsmall : l.rsvdSecCnt + c / (if l.useFAT16 then 256 else 128) < 2 ^ 23 := by
    split at hmount <;> split <;> omega
  have hread : (dev.boot l r).initMount.readSector (dev.disk sectors)
      (l.rsvdSecCnt + c / (if l.useFAT16 then 256 else 128)) = some (sectors _) :=
    readSector_formatted h hsmall
  rw [← hbase, ← hentries] at hread
  rw [Volume.readFAT_of_readSector _ (by rw [hcount]; exact hc) hread, hbase, hentries, htype]
  split <;> rfl

end Volume

/-- What a formatted device presents: the volume of the given type, an empty root directory, whose
chain ends after its first cluster, and a free count that is the number of free entries. -/
def Presents (d : Disk) (useFAT16 : Bool) : Prop :=
  ∃ v, mountDisk d = some v ∧ v.isFAT16 = useFAT16 ∧
    (∀ k < if useFAT16 then 32 else v.sectorsPerCluster, ∃ s,
      v.readSector d (v.rootSectorStart + k) = some s ∧ ∀ slot < 16, s (32 * slot) = 0) ∧
    (useFAT16 = false → 0x0FFFFFF8 ≤ v.readFAT d (v.sectToClus v.rootSectorStart)) ∧
    ∀ writesFSInfo, ∃ disk, initializeDisk d writesFSInfo = some disk ∧
      disk.freeCount = v.freeEntries d

theorem countP_range_of_head {p : Nat → Bool} {n : Nat} (hhead : p 0 = false)
    (htail : ∀ k, k + 1 < n → p (k + 1) = true) : (List.range n).countP p = n - 1 := by
  cases n with
  | zero => rfl
  | succ n =>
      have hall : (List.range n).countP (p ∘ Nat.succ) = n := by
        rw [List.countP_eq_length.mpr, List.length_range]
        intro k hk
        exact htail k (Nat.succ_lt_succ (List.mem_range.mp hk))
      rw [List.range_succ_eq_map, List.countP_cons_of_neg (by simp [hhead]), List.countP_map, hall,
        Nat.add_sub_cancel]

section Count

variable (h : Valid l r) (hformat : Formatted dev l r sectors)
include h hformat

theorem freeCount_fat16 (htype : l.useFAT16 = true)
    (hmount : mountDisk (dev.disk sectors) = some (dev.boot l r).initMount)
    (writesFSInfo : Bool) :
    initializeDisk (dev.disk sectors) writesFSInfo =
      some ⟨(dev.boot l r).initMount, clusters l, clusterStart⟩ := by
  have hpos := (Layout.fat16_numbers h.chosen htype).1
  have hcount : (dev.boot l r).initMount.totalClusterCount = clusters l :=
    volume_totalClusterCount h
  have hle := clusters_le h
  have htot := h.totSec
  have hkind : (dev.boot l r).initMount.isFAT16 = true := htype
  have hroot : (dev.boot l r).initMount.readSector (dev.disk sectors)
      (dev.boot l r).initMount.rootSectorStart = some fun _ => 0 := by
    have hzero : 0 < if l.useFAT16 then 32 else l.secPerClus := by
      rw [if_pos htype]
      decide
    have hcleared := root_cleared h hformat hpos hzero
    rwa [Nat.add_zero] at hcleared
  unfold initializeDisk
  rw [hmount, Option.bind_some]
  dsimp only
  rw [if_pos hkind, Volume.populateFreeCount_of_empty _ hroot rfl, if_pos hkind, hcount,
    if_neg (by omega)]

/-- Every cluster of a FAT16 layout that agrees is free. -/
theorem freeEntries_fat16 (htype : l.useFAT16 = true) (hroom : clusters l + 2 ≤ 256 * l.fatSz) :
    (dev.boot l r).initMount.freeEntries (dev.disk sectors) = clusters l := by
  have hcount : (dev.boot l r).initMount.totalClusterCount = clusters l :=
    volume_totalClusterCount h
  have hmount : clusters l + 1 ≤ l.fatSz * (if l.useFAT16 then 256 else 128) := by
    rw [if_pos htype]
    omega
  unfold Volume.freeEntries
  rw [hcount, List.countP_eq_length.mpr, List.length_range]
  intro k hk
  have hlt := List.mem_range.mp hk
  have hzero : get (sectors (l.rsvdSecCnt + (k + 2) / 256)) (2 * ((k + 2) % 256)) 2 = 0 := by
    by_cases hfirst : (k + 2) / 256 = 0
    · rw [hfirst, Nat.add_zero, hformat.fat]
      exact Layout.firstEntries_fat16 htype (by omega)
    · rw [fat_cleared hformat (by omega) (by omega)]
      exact Layout.get_zero _ _
  rw [readFAT_formatted h hmount (show k + clusterStart < _ by unfold clusterStart; omega),
    if_pos htype]
  exact beq_iff_eq.mpr hzero

/-- The entry of the last cluster is the first one of the other copy when the FAT is too small. -/
theorem freeEntries_fat16_lt (htype : l.useFAT16 = true) (hsmall : clusters l + 1 = 256 * l.fatSz) :
    (dev.boot l r).initMount.freeEntries (dev.disk sectors) < clusters l := by
  have hpos := (Layout.fat16_numbers h.chosen htype).1
  have hcount : (dev.boot l r).initMount.totalClusterCount = clusters l :=
    volume_totalClusterCount h
  have hmount : clusters l + 1 ≤ l.fatSz * (if l.useFAT16 then 256 else 128) := by
    rw [if_pos htype]
    omega
  unfold Volume.freeEntries
  rw [hcount]
  refine lt_of_lt_of_eq (List.countP_lt_length_iff.mpr ⟨clusters l - 1, ?_, ?_⟩) List.length_range
  · exact List.mem_range.mpr (by omega)
  · have hindex : clusters l - 1 + clusterStart = 256 * l.fatSz := by
      unfold clusterStart
      omega
    have hentry : get (sectors (l.rsvdSecCnt + 256 * l.fatSz / 256))
        (2 * (256 * l.fatSz % 256)) 2 ≠ 0 := by
      rw [Nat.mul_div_cancel_left _ (by decide), Nat.mul_mod_right, hformat.fatCopy]
      exact Layout.firstEntries_fat16_zero htype
    rw [hindex, readFAT_formatted h hmount (by omega), if_pos htype]
    simpa using hentry

/-- The free count of FAT32 is the one in the FSINFO sector. -/
theorem freeCount_fat32 (htype : l.useFAT16 = false)
    (hmount : mountDisk (dev.disk sectors) = some (dev.boot l r).initMount)
    (writesFSInfo : Bool) :
    initializeDisk (dev.disk sectors) writesFSInfo =
      some ⟨(dev.boot l r).initMount, clusters l - 1, 3⟩ := by
  have hcount : (dev.boot l r).initMount.totalClusterCount = clusters l :=
    volume_totalClusterCount h
  have hle := clusters_le h
  have hpos := clusters_pos h
  have htot := h.totSec
  have hkind : ¬ (dev.boot l r).initMount.isFAT16 = true := by
    show ¬ l.useFAT16 = true
    simp [htype]
  have hsector : (dev.boot l r).initMount.sectorFSInfo = 1 :=
    (if_neg hkind).trans (Layout.dbr_fsInfo l r htype)
  have hsub : sub32 (clusters l) 1 = clusters l - 1 := by
    unfold sub32
    omega
  have hinfo : (dev.boot l r).initMount.readSector (dev.disk sectors)
      (dev.boot l r).initMount.sectorFSInfo =
        some (FSINFO.initializeInfo (clusters l - 1) 3) := by
    rw [hsector, readSector_formatted h (by decide), hformat.fsInfo htype, hcount, hsub]
  have hfree : FSINFO.freeCount (FSINFO.initializeInfo (clusters l - 1) 3) = clusters l - 1 := by
    rw [FSINFO.freeCount_initializeInfo]
    exact Nat.mod_eq_of_lt (by omega)
  have hnext : FSINFO.nxtFree (FSINFO.initializeInfo (clusters l - 1) 3) = 3 := by
    rw [FSINFO.nxtFree_initializeInfo]
    rfl
  unfold initializeDisk
  rw [hmount, Option.bind_some]
  dsimp only
  rw [if_neg hkind, hinfo, Option.bind_some, FSINFO.isValid_initializeInfo,
    if_neg (by simp), hfree, hnext, hcount, if_neg (by omega), if_neg (by omega)]

/-- The root directory has the first cluster; all others are free. -/
theorem freeEntries_fat32 (htype : l.useFAT16 = false) (hlt : l.totSec < 2 ^ 32 - 8160) :
    (dev.boot l r).initMount.freeEntries (dev.disk sectors) = clusters l - 1 := by
  have hroom := (Layout.fat32_numbers h.chosen htype hlt).2.2.2.2
  rw [← Layout.dataStart_fat32 htype] at hroom
  have hsmall : clusters l + 2 ≤ 128 * l.fatSz := hroom
  have hmount := mounts_fat32 h htype hlt
  have hcount : (dev.boot l r).initMount.totalClusterCount = clusters l :=
    volume_totalClusterCount h
  have hpos := clusters_pos h
  have hkind : ¬ l.useFAT16 = true := by simp [htype]
  have hread (c : Nat) (hc : c < clusters l + 2) :
      (dev.boot l r).initMount.readFAT (dev.disk sectors) c =
        fat32Mask (get (sectors (l.rsvdSecCnt + c / 128)) (4 * (c % 128)) 4) := by
    rw [readFAT_formatted h hmount hc, if_neg hkind]
  have hhead : (dev.boot l r).initMount.readFAT (dev.disk sectors) 2 ≠ 0 := by
    rw [hread 2 (by omega), show 2 / 128 = 0 from rfl, Nat.add_zero, hformat.fat,
      show 4 * (2 % 128) = 8 from rfl, Layout.firstEntries_fat32_root htype, fat32Mask_eof]
    decide
  have htail (k : Nat) (hk : k + 1 < clusters l) :
      (dev.boot l r).initMount.readFAT (dev.disk sectors) (k + 3) = 0 := by
    have hzero : get (sectors (l.rsvdSecCnt + (k + 3) / 128)) (4 * ((k + 3) % 128)) 4 = 0 := by
      by_cases hfirst : (k + 3) / 128 = 0
      · rw [hfirst, Nat.add_zero, hformat.fat]
        exact Layout.firstEntries_fat32 htype (by omega)
      · rw [fat_cleared hformat (by omega) (by omega)]
        exact Layout.get_zero _ _
    rw [hread (k + 3) (by omega), hzero]
    rfl
  generalize (dev.boot l r).initMount = v at hcount hhead htail
  unfold Volume.freeEntries
  rw [hcount]
  apply countP_range_of_head
  · exact beq_eq_false_iff_ne.mpr hhead
  · intro k hk
    exact beq_iff_eq.mpr (htail k hk)

theorem root_chain_ends (htype : l.useFAT16 = false) (hlt : l.totSec < 2 ^ 32 - 8160) :
    0x0FFFFFF8 ≤ (dev.boot l r).initMount.readFAT (dev.disk sectors)
      ((dev.boot l r).initMount.sectToClus (dev.boot l r).initMount.rootSectorStart) := by
  have hmount := mounts_fat32 h htype hlt
  have hpos := clusters_pos h
  have hrsvd : l.rsvdSecCnt = 32 := if_neg (by simp [htype])
  have hfirst : (dev.boot l r).initMount.firstDataSector = l.dataStart :=
    volume_firstDataSector h
  have hclus : (dev.boot l r).initMount.sectToClus (dev.boot l r).initMount.rootSectorStart =
      2 := by
    unfold Volume.sectToClus
    rw [volume_rootSectorStart h, hfirst, hrsvd, ← Layout.dataStart_fat32 htype,
      if_neg (lt_irrefl _), Nat.sub_self, Nat.zero_div]
    rfl
  rw [hclus, readFAT_formatted h hmount (by omega), if_neg (by simp [htype]),
    show 2 / 128 = 0 from rfl, Nat.add_zero, hformat.fat, show 4 * (2 % 128) = 8 from rfl,
    Layout.firstEntries_fat32_root htype, fat32Mask_eof]
  decide

end Count

/-! ## Formatting and mounting agree -/

/-- The layout of a successful `FormatHelper` and what it wrote. -/
theorem formatHelper_ok (h : dev.formatHelper r = .ok sectors) :
    ∃ l : Layout, l.totSec = dev.totSec ∧
      chooseType dev.totSec r.parameters = some (l.useFAT16, l.secPerClus) ∧
      ∃ before : Sectors, (∀ sectIndex < l.sectorsNeeded, before sectIndex = fun _ => 0) ∧
        dev.writeAll (dev.formatWrites l r) before = some sectors := by
  unfold formatHelper at h
  split at h
  · cases h
  case h_2 useFAT16 secPerClus hchosen =>
    dsimp only at h
    split at h
    · cases h
    · split at h
      · cases h
      case h_2 after hwrites =>
        cases h
        refine ⟨⟨useFAT16, secPerClus, dev.totSec⟩, rfl, hchosen, _, ?_, hwrites⟩
        intro sectIndex hlt
        exact if_pos hlt

theorem totSec_lt : dev.totSec < 2 ^ 32 := Nat.mod_lt _ (by norm_num)

theorem totSec_size : dev.totSec * 512 ≤ dev.diskSize := by
  have hle : dev.totSec ≤ dev.diskSize / 512 := Nat.mod_le _ _
  omega

/-- Without a valid boot sector nothing is mounted. -/
theorem not_presents (hdbr : sectors 0 = l.dbr r) (hvalid : DBR.isValid (l.dbr r) = none)
    (useFAT16 : Bool) : ¬ Presents (dev.disk sectors) useFAT16 := by
  rintro ⟨v, hmount, -⟩
  have hread : (dev.disk sectors).read (dev.disk sectors).baseAddress = some (l.dbr r) := by
    rw [read_baseAddress, hdbr]
  have hnone := findBootSector_eq_none hread hvalid (Layout.mbr_isValid l r)
  unfold mountDisk at hmount
  rw [hnone] at hmount
  cases hmount

theorem presents_fat16_iff (h : l.Chosen) (htype : l.useFAT16 = true)
    (hsize : l.totSec * 512 ≤ dev.diskSize) (hformat : Formatted dev l r sectors) :
    Presents (dev.disk sectors) true ↔
      l.Agrees ∧ ∀ bytes ∈ dev.bytesPerBlock, 512 ≤ bytes := by
  obtain ⟨hpos, -, hdata, -, -⟩ := Layout.fat16_numbers h htype
  have hspc := h.secPerClus_pow2.1
  have hvalid := Layout.isValid_fat16 r h htype
  have hroom : clusters l + 2 ≤ 256 * l.fatSz ↔
      0 < (l.totSec - 33) % (256 * l.secPerClus + 2) ∧
        (l.totSec - 33) % (256 * l.secPerClus + 2) ≤ 254 * l.secPerClus + 2 := by
    have hentries := Layout.entries_iff (x := l.totSec - 33) hspc hpos (by omega)
    have hceil := Layout.ceil_room_iff (x := l.totSec - 33) (m := 256 * l.secPerClus + 2)
      (k := 2 * l.secPerClus) (by omega) (by omega)
    rw [show 256 * l.secPerClus + 2 - 1 = 256 * l.secPerClus + 1 by omega,
      ← Layout.fatSz_fat16 h htype,
      show 256 * l.secPerClus + 2 - 2 * l.secPerClus = 254 * l.secPerClus + 2 by omega] at hceil
    unfold clusters
    rw [Layout.dataStart_fat16 htype,
      show l.totSec - (33 + 2 * l.fatSz) = l.totSec - 33 - 2 * l.fatSz by omega]
    exact hentries.trans hceil
  have hagrees : l.Agrees ↔ (l.secPerClus = 64 → l.totSec ≤ 4194144) ∧
      clusters l + 2 ≤ 256 * l.fatSz := by
    unfold Layout.Agrees
    rw [if_pos htype, hroom]
  by_cases hfew : l.secPerClus = 64 → l.totSec ≤ 4194144
  · rw [if_pos hfew] at hvalid
    have hv : Valid l r := ⟨h, hvalid.trans (congrArg some htype.symm), by
      have hrow := h.fat16 htype
      unfold RowFAT16 at hrow
      omega⟩
    have hiff (v : Volume) := mountDisk_formatted_iff hv hformat hsize (v := v)
    rw [if_pos htype] at hiff
    rw [hagrees]
    constructor
    · rintro ⟨v, hmount, -, -, -, hfree⟩
      obtain ⟨rfl, hfits, hblocks⟩ := (hiff v).mp hmount
      obtain ⟨disk, hdisk, hcount⟩ := hfree true
      rw [freeCount_fat16 hv hformat htype hmount] at hdisk
      obtain rfl := Option.some.inj hdisk
      refine ⟨⟨hfew, ?_⟩, hblocks⟩
      -- with one entry less the count of free entries would be one less
      by_contra hnot
      have hlt := freeEntries_fat16_lt hv hformat htype (by omega)
      have hcount' : clusters l = (dev.boot l r).initMount.freeEntries (dev.disk sectors) := hcount
      omega
    · rintro ⟨⟨-, hfits⟩, hblocks⟩
      have hmount := (hiff _).mpr ⟨rfl, by omega, hblocks⟩
      refine ⟨_, hmount, htype, ?_, fun hfalse => absurd hfalse (by decide), ?_⟩
      · intro k hk
        refine ⟨_, root_cleared hv hformat hpos ?_, fun _ _ => rfl⟩
        rw [if_pos htype]
        exact hk
      · intro writesFSInfo
        refine ⟨_, freeCount_fat16 hv hformat htype hmount writesFSInfo, ?_⟩
        exact (freeEntries_fat16 hv hformat htype hfits).symm
  · rw [if_neg hfew] at hvalid
    exact ⟨fun hp => absurd hp (not_presents hformat.dbr hvalid true),
      fun ha => absurd (hagrees.mp ha.1).1 hfew⟩

theorem presents_fat32_iff (h : l.Chosen) (htype : l.useFAT16 = false)
    (hsize : l.totSec * 512 ≤ dev.diskSize) (hdbr : sectors 0 = l.dbr r)
    (hformat : 0 < l.fatSz → Formatted dev l r sectors) :
    Presents (dev.disk sectors) false ↔
      l.Agrees ∧ ∀ bytes ∈ dev.bytesPerBlock, 512 ≤ bytes := by
  have hvalid := Layout.isValid_fat32 r h htype
  have hagrees : l.Agrees ↔ l.totSec < 2 ^ 32 - 8160 := by
    unfold Layout.Agrees
    rw [if_neg (by simp [htype])]
  rw [hagrees]
  by_cases hlt : l.totSec < 2 ^ 32 - 8160
  · rw [if_pos hlt] at hvalid
    have hpos := (Layout.fat32_numbers h htype hlt).1
    have hformat := hformat hpos
    have hv : Valid l r := ⟨h, hvalid.trans (congrArg some htype.symm), by omega⟩
    have hfits := mounts_fat32 hv htype hlt
    have hiff (v : Volume) := mountDisk_formatted_iff hv hformat hsize (v := v)
    constructor
    · rintro ⟨v, hmount, -⟩
      exact ⟨hlt, ((hiff v).mp hmount).2.2⟩
    · rintro ⟨-, hblocks⟩
      have hmount := (hiff _).mpr ⟨rfl, hfits, hblocks⟩
      refine ⟨_, hmount, htype, ?_, fun _ => root_chain_ends hv hformat htype hlt, ?_⟩
      · intro k hk
        refine ⟨_, root_cleared hv hformat hpos ?_, fun _ _ => rfl⟩
        rw [volume_secPerClus hv] at hk
        rw [if_neg (by simp [htype])]
        exact hk
      · intro writesFSInfo
        refine ⟨_, freeCount_fat32 hv hformat htype hmount writesFSInfo, ?_⟩
        exact (freeEntries_fat32 hv hformat htype hlt).symm
  · rw [if_neg hlt] at hvalid
    exact ⟨fun hp => absurd hp (not_presents hdbr hvalid false), fun ha => absurd ha.1 hlt⟩

/-- The device presents what was formatted precisely when the layout agrees with what is computed
from it. -/
theorem presents_iff_agrees {useFAT16 : Bool} {secPerClus : Nat}
    (h : dev.formatHelper r = .ok sectors)
    (hchosen : chooseType dev.totSec r.parameters = some (useFAT16, secPerClus)) :
    Presents (dev.disk sectors) useFAT16 ↔
      (⟨useFAT16, secPerClus, dev.totSec⟩ : Layout).Agrees ∧
        ∀ bytes ∈ dev.bytesPerBlock, 512 ≤ bytes := by
  obtain ⟨l, htot, hchosen', before, hbefore, hwrites⟩ := formatHelper_ok h
  obtain ⟨rfl, rfl⟩ := Prod.mk.inj (Option.some.inj (hchosen.symm.trans hchosen'))
  rw [← htot] at hchosen ⊢
  have hl : l.Chosen := Layout.chosen_of_chooseType (htot ▸ totSec_lt) hchosen
  have hsize : l.totSec * 512 ≤ dev.diskSize := htot ▸ totSec_size
  show Presents (dev.disk sectors) l.useFAT16 ↔ l.Agrees ∧ _
  cases htype : l.useFAT16 with
  | true =>
      have hformat := formatted_fat16 hl htype hbefore hwrites
      exact presents_fat16_iff hl htype hsize hformat
  | false =>
      have hdbr := dbr_written_fat32 hl htype hwrites
      exact presents_fat32_iff hl htype hsize hdbr
        fun hpos => formatted_fat32 hl htype hpos hbefore hwrites

/-- Mounting recognises what has been formatted, empty and with an exact free count, precisely
for the layouts that agree, on devices whose blocks hold a sector. -/
theorem format_presents_iff (h : dev.formatHelper r = .ok sectors) :
    ∃ useFAT16 secPerClus, chooseType dev.totSec r.parameters = some (useFAT16, secPerClus) ∧
      (Presents (dev.disk sectors) useFAT16 ↔
        (⟨useFAT16, secPerClus, dev.totSec⟩ : Layout).Agrees ∧
          ∀ bytes ∈ dev.bytesPerBlock, 512 ≤ bytes) := by
  obtain ⟨l, -, hchosen, -⟩ := formatHelper_ok h
  exact ⟨_, _, hchosen, presents_iff_agrees h hchosen⟩

theorem writeAll_isSome (hwrites : ∀ sectIndex, dev.writes sectIndex = true)
    (writes : List (Nat × Sector)) (before : Sectors) :
    ∃ after, dev.writeAll writes before = some after := by
  induction writes generalizing before with
  | nil => exact ⟨before, rfl⟩
  | cons write rest ih =>
      obtain ⟨after, hafter⟩ := ih (Function.update before write.1 write.2)
      exact ⟨after, (if_pos (hwrites write.1)).trans hafter⟩

/-- A device that takes everything is formatted whenever there is a layout for it. -/
theorem formatHelper_succeeds {useFAT16 : Bool} {secPerClus : Nat}
    (hchosen : chooseType dev.totSec r.parameters = some (useFAT16, secPerClus))
    (hmemset : dev.memset = true) (hwrites : ∀ sectIndex, dev.writes sectIndex = true) :
    ∃ sectors, dev.formatHelper r = .ok sectors := by
  unfold formatHelper
  rw [hchosen]
  dsimp only
  rw [if_neg (by simp [hmemset])]
  obtain ⟨after, hafter⟩ := writeAll_isSome hwrites
    (dev.formatWrites ⟨useFAT16, secPerClus, dev.totSec⟩ r) _
  exact ⟨after, by rw [hafter]⟩

end Device

/-- An erased device of blocks of 64 KB. -/
def sampleDevice (totSec : Nat) : Device where
  baseAddress := 0
  diskSize := totSec * 512
  bytesPerBlock := [65536]
  sectors := fun _ _ => 0xFF
  erase := fun _ _ _ => 0xFF
  memset := true
  writes := fun _ => true

/-- The default parameters. -/
def sampleRequest : FormatRequest := ⟨0, none, 0, 0⟩

theorem format_presents_sample : ∃ sectors,
    (sampleDevice 24576).formatHelper sampleRequest = .ok sectors ∧
      Device.Presents ((sampleDevice 24576).disk sectors) true := by
  have hchosen : chooseType (sampleDevice 24576).totSec sampleRequest.parameters =
      some (true, 2) := by decide +kernel
  obtain ⟨sectors, hsectors⟩ := Device.formatHelper_succeeds hchosen rfl fun _ => rfl
  obtain ⟨useFAT16, secPerClus, hchosen', hiff⟩ := Device.format_presents_iff hsectors
  obtain ⟨rfl, rfl⟩ := Prod.mk.inj (Option.some.inj (hchosen.symm.trans hchosen'))
  refine ⟨sectors, hsectors, hiff.mpr ⟨?_, by decide⟩⟩
  exact ⟨by decide, by decide +kernel, by decide +kernel⟩

/-- On 193 blocks of 64 KB the FAT comes out too small by one entry. -/
theorem not_presents_sample : ¬ ∀ (dev : Device) (r : FormatRequest) (sectors : Sectors)
    (useFAT16 : Bool) (secPerClus : Nat), dev.formatHelper r = .ok sectors →
      chooseType dev.totSec r.parameters = some (useFAT16, secPerClus) →
      (∀ bytes ∈ dev.bytesPerBlock, 512 ≤ bytes) →
      Device.Presents (dev.disk sectors) useFAT16 := by
  intro h
  have hchosen : chooseType (sampleDevice 24704).totSec sampleRequest.parameters =
      some (true, 2) := by decide +kernel
  obtain ⟨sectors, hsectors⟩ := Device.formatHelper_succeeds hchosen rfl fun _ => rfl
  have hpresents := h _ _ _ _ _ hsectors hchosen (by decide)
  have hagrees := ((Device.presents_iff_agrees hsectors hchosen).mp hpresents).1
  exact absurd hagrees.2.2 (by decide +kernel)

end TinyCLR.FAT
