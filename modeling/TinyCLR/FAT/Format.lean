import Mathlib
import TinyCLR.FAT.Initialize

/-!
# Formatting a volume

`FormatHelper` takes the cluster size from a table and the size of the FAT from an
approximate formula, and writes a boot sector from which `MountDisk` computes everything again. The sectors of the device are counted from `m_baseAddress`.
-/

namespace TinyCLR.FAT

open LittleEndian

/-- `FORMAT_PARAMETER_FORCE_FAT16` -/
def forceFAT16 : Nat := 0x1

/-- `FORMAT_PARAMETER_FORCE_FAT32` -/
def forceFAT32 : Nat := 0x2

/-- The largest sector counts of `DskTableFAT16` with their cluster sizes. -/
def dskTableFAT16 : List (Nat × Nat) :=
  [(8400, 0), (32680, 2), (262144, 4), (524288, 8), (1048576, 16), (2097152, 32), (4194304, 64),
    (0xFFFFFFFF, 0)]

def dskTableFAT32 : List (Nat × Nat) :=
  [(66600, 0), (532480, 1), (16777216, 8), (33554432, 16), (67108864, 32), (0xFFFFFFFF, 64)]

/-- The cluster size in the first row of a table that the disk fits in. -/
def secPerClusOf (totSec : Nat) : List (Nat × Nat) → Nat
  | [] => 0
  | (bound, secPerClus) :: rows =>
      if totSec ≤ bound then secPerClus else secPerClusOf totSec rows

/-- The type of the FAT and the cluster size, or `none` for `CLR_E_NOT_SUPPORTED`. -/
def chooseType (totSec parameters : Nat) : Option (Bool × Nat) :=
  let fat16SecPerClus := secPerClusOf totSec dskTableFAT16
  let fat32SecPerClus := secPerClusOf totSec dskTableFAT32
  if fat16SecPerClus = 0 ∧ fat32SecPerClus = 0 then none
  else if parameters &&& forceFAT16 ≠ 0 then
    if fat16SecPerClus = 0 then none else some (true, fat16SecPerClus)
  else if parameters &&& forceFAT32 ≠ 0 then
    if fat32SecPerClus = 0 then none else some (false, fat32SecPerClus)
  else if 0 < fat16SecPerClus ∧ fat16SecPerClus < 32 then some (true, fat16SecPerClus)
  else some (false, fat32SecPerClus)

/-- `BS_VolLab` has eleven bytes. -/
abbrev VolumeLabel := { label : List (BitVec 8) // label.length ≤ 11 }

def asciiBytes (text : String) : List (BitVec 8) :=
  text.toList.map fun c => BitVec.ofNat 8 c.toNat

/-- What `FormatHelper` is asked for, and the time at which it is asked. -/
structure FormatRequest where
  parameters : Nat
  volumeLabel : Option VolumeLabel
  date : Nat
  time : Nat

def FormatRequest.label (r : FormatRequest) : List (BitVec 8) :=
  match r.volumeLabel with
  | some label => label.val
  | none => asciiBytes "MFDISK     "

/-- The layout that `FormatHelper` decides on. -/
structure Layout where
  useFAT16 : Bool
  secPerClus : Nat
  totSec : Nat

namespace Layout

variable (l : Layout)

def rsvdSecCnt : Nat := if l.useFAT16 then 1 else 32

def rootDirSectors : Nat := if l.useFAT16 then 32 else 0

def fatSz : Nat :=
  let tmpVal1 := sub32 l.totSec (l.rsvdSecCnt + l.rootDirSectors)
  let tmpVal2 := if l.useFAT16 then 256 * l.secPerClus + 2 else (256 * l.secPerClus + 2) / 2
  u32 (tmpVal1 + (tmpVal2 - 1)) / tmpVal2

/-- The fields of the boot sector that both types have. -/
def commonFields : Sector :=
  let s : Sector := fun _ => 0
  let s := put (put (put s 0 1 0xEB) 1 1 0x3C) 2 1 0x90
  let s := putBytes s 3 (asciiBytes "MSWIN4.1")
  let s := put s 11 2 512
  let s := put s 13 1 l.secPerClus
  let s := if l.totSec < 0x10000 then put s 19 2 l.totSec else put s 32 4 l.totSec
  let s := put s 14 2 l.rsvdSecCnt
  let s := put s 16 1 2
  let s := if l.useFAT16 then put s 17 2 512 else s
  let s := put s 21 1 0xF8
  put (put (put s 24 2 63) 26 2 32) 28 4 0

def fat16Fields (r : FormatRequest) (s : Sector) : Sector :=
  let s := put s 22 2 l.fatSz
  let s := put (put s 36 1 0x80) 38 1 0x29
  let s := put (put s 39 2 r.time) 41 2 r.date
  putBytes (putBytes s 43 r.label) 54 (asciiBytes "FAT16   ")

def fat32Fields (r : FormatRequest) (s : Sector) : Sector :=
  let s := put s 36 4 l.fatSz
  let s := put (put (put (put (put s 40 2 0) 42 2 0) 44 4 2) 48 2 1) 50 2 6
  let s := put (put s 64 1 0x80) 66 1 0x29
  let s := put (put s 67 2 r.time) 69 2 r.date
  putBytes (putBytes s 71 r.label) 82 (asciiBytes "FAT32   ")

def dbr (r : FormatRequest) : Sector :=
  let s := if l.useFAT16 then l.fat16Fields r l.commonFields else l.fat32Fields r l.commonFields
  put s 510 2 0xAA55

/-- The sectors that are cleared: also the root directory of FAT32. -/
def sectorsNeeded : Nat :=
  l.rsvdSecCnt + 2 * l.fatSz + l.rootDirSectors + if l.useFAT16 then 0 else l.secPerClus

/-- The sector with the first entries of the FAT. -/
def firstEntries : Sector :=
  let s : Sector := fun _ => 0
  if l.useFAT16 then put (put (put (put s 0 1 0xF8) 1 1 0xFF) 2 1 0xFF) 3 1 0xFF
  else put (put (put s 0 4 0x0FFFFFF8) 4 4 0x0FFFFFFF) 8 4 0x0FFFFFFF

end Layout

/-- The contents of the file system blocks. -/
abbrev Sectors := Nat → Sector

/-- The device under `FormatHelper`: what erasing all of the blocks does, where it is called for,
and whether the device reports success for the `Memset` and for the write of a sector. -/
structure Device where
  baseAddress : Nat
  diskSize : Nat
  bytesPerBlock : List Nat
  sectors : Sectors
  erase : Sectors → Sectors
  memset : Bool
  writes : Nat → Bool

inductive FormatError where
  | notSupported
  | fileIo

namespace Device

variable (dev : Device)

/-- The disk that the driver mounts, with the given contents. -/
def disk (sectors : Sectors) : Disk where
  read address := some (sectors (sub32 address dev.baseAddress / defaultSectorSize))
  baseAddress := dev.baseAddress
  diskSize := dev.diskSize
  bytesPerBlock := dev.bytesPerBlock

def writeAll : List (Nat × Sector) → Sectors → Option Sectors
  | [], sectors => some sectors
  | (sectIndex, buffer) :: rest, sectors =>
      if dev.writes sectIndex then writeAll rest (Function.update sectors sectIndex buffer)
      else none

/-- The volume that `FormatHelper` initializes from its boot sector. -/
def boot (l : Layout) (r : FormatRequest) : Boot :=
  ⟨l.dbr r, l.useFAT16, dev.baseAddress, dev.diskSize, none⟩

/-- The sectors that are written once the rest is cleared. -/
def formatWrites (l : Layout) (r : FormatRequest) : List (Nat × Sector) :=
  let v := (dev.boot l r).initMount
  let fsInfo := FSINFO.initializeInfo (sub32 v.totalClusterCount 1) 3
  (0, l.dbr r) :: (if l.useFAT16 then [] else [(6, l.dbr r), (1, fsInfo), (7, fsInfo)]) ++
    [(v.fatBaseSector.1, l.firstEntries), (v.fatBaseSector.2, l.firstEntries)]

def totSec : Nat := u32 (dev.diskSize / defaultSectorSize)

def formatHelper (r : FormatRequest) : Except FormatError Sectors :=
  match chooseType dev.totSec r.parameters with
  | none => .error .notSupported
  | some (useFAT16, secPerClus) =>
      let l : Layout := ⟨useFAT16, secPerClus, dev.totSec⟩
      if dev.memset = false then .error .fileIo
      else
        let cleared : Sectors := fun sectIndex =>
          if sectIndex < l.sectorsNeeded then fun _ => 0 else dev.erase dev.sectors sectIndex
        match dev.writeAll (dev.formatWrites l r) cleared with
        | none => .error .fileIo
        | some sectors => .ok sectors

end Device

/-! ## The layouts that are chosen -/

/-- The rows of `DskTableFAT16` that are no error. -/
def RowFAT16 (totSec secPerClus : Nat) : Prop :=
  (8400 < totSec ∧ totSec ≤ 32680 ∧ secPerClus = 2) ∨
  (32680 < totSec ∧ totSec ≤ 262144 ∧ secPerClus = 4) ∨
  (262144 < totSec ∧ totSec ≤ 524288 ∧ secPerClus = 8) ∨
  (524288 < totSec ∧ totSec ≤ 1048576 ∧ secPerClus = 16) ∨
  (1048576 < totSec ∧ totSec ≤ 2097152 ∧ secPerClus = 32) ∨
  (2097152 < totSec ∧ totSec ≤ 4194304 ∧ secPerClus = 64)

def RowFAT32 (totSec secPerClus : Nat) : Prop :=
  (66600 < totSec ∧ totSec ≤ 532480 ∧ secPerClus = 1) ∨
  (532480 < totSec ∧ totSec ≤ 16777216 ∧ secPerClus = 8) ∨
  (16777216 < totSec ∧ totSec ≤ 33554432 ∧ secPerClus = 16) ∨
  (33554432 < totSec ∧ totSec ≤ 67108864 ∧ secPerClus = 32) ∨
  (67108864 < totSec ∧ secPerClus = 64)

theorem rowFAT16_of_ne_zero {totSec : Nat} (h : secPerClusOf totSec dskTableFAT16 ≠ 0) :
    RowFAT16 totSec (secPerClusOf totSec dskTableFAT16) := by
  unfold RowFAT16
  simp only [dskTableFAT16, secPerClusOf] at h ⊢
  split_ifs at h ⊢ <;> omega

theorem rowFAT32_of_ne_zero {totSec : Nat} (h : secPerClusOf totSec dskTableFAT32 ≠ 0) :
    RowFAT32 totSec (secPerClusOf totSec dskTableFAT32) := by
  unfold RowFAT32
  simp only [dskTableFAT32, secPerClusOf] at h ⊢
  split_ifs at h ⊢ <;> omega

theorem le_of_fat32_eq_zero {totSec : Nat} (hlt : totSec < 2 ^ 32)
    (h : secPerClusOf totSec dskTableFAT32 = 0) : totSec ≤ 66600 := by
  simp only [dskTableFAT32, secPerClusOf] at h
  split_ifs at h <;> omega

theorem fat16_lt_of_le {totSec : Nat} (h : totSec ≤ 66600) :
    secPerClusOf totSec dskTableFAT16 < 32 := by
  simp only [dskTableFAT16, secPerClusOf]
  split_ifs <;> omega

/-- A disk whose FAT16 row is an error or has large clusters has a FAT32 row. -/
theorem fat32_ne_zero {totSec : Nat} (hlt : totSec < 2 ^ 32)
    (hnot : ¬ (secPerClusOf totSec dskTableFAT16 = 0 ∧ secPerClusOf totSec dskTableFAT32 = 0))
    (h : ¬ (0 < secPerClusOf totSec dskTableFAT16 ∧ secPerClusOf totSec dskTableFAT16 < 32)) :
    secPerClusOf totSec dskTableFAT32 ≠ 0 := by
  intro hzero
  have hle := le_of_fat32_eq_zero hlt hzero
  have hsmall := fat16_lt_of_le hle
  omega

namespace Layout

/-- The layouts that `FormatHelper` chooses. -/
structure Chosen (l : Layout) : Prop where
  totSec : l.totSec < 2 ^ 32
  fat16 : l.useFAT16 = true → RowFAT16 l.totSec l.secPerClus
  fat32 : l.useFAT16 = false → RowFAT32 l.totSec l.secPerClus

theorem chosen_of_chooseType {totSec parameters secPerClus : Nat} {useFAT16 : Bool}
    (hlt : totSec < 2 ^ 32) (h : chooseType totSec parameters = some (useFAT16, secPerClus)) :
    Chosen ⟨useFAT16, secPerClus, totSec⟩ := by
  have hfat16 (hne : secPerClusOf totSec dskTableFAT16 ≠ 0) :
      Chosen ⟨true, secPerClusOf totSec dskTableFAT16, totSec⟩ :=
    ⟨hlt, fun _ => rowFAT16_of_ne_zero hne, fun hfalse => Bool.noConfusion hfalse⟩
  have hfat32 (hne : secPerClusOf totSec dskTableFAT32 ≠ 0) :
      Chosen ⟨false, secPerClusOf totSec dskTableFAT32, totSec⟩ :=
    ⟨hlt, fun htrue => Bool.noConfusion htrue, fun _ => rowFAT32_of_ne_zero hne⟩
  unfold chooseType at h
  dsimp only at h
  split at h
  · cases h
  case isFalse hnot =>
    split at h
    · split at h
      · cases h
      case isFalse hne =>
        obtain ⟨rfl, rfl⟩ := Prod.mk.inj (Option.some.inj h)
        exact hfat16 hne
    · split at h
      · split at h
        · cases h
        case isFalse hne =>
          obtain ⟨rfl, rfl⟩ := Prod.mk.inj (Option.some.inj h)
          exact hfat32 hne
      · split at h
        case isTrue hsmall =>
          obtain ⟨rfl, rfl⟩ := Prod.mk.inj (Option.some.inj h)
          exact hfat16 hsmall.1.ne'
        case isFalse hlarge =>
          obtain ⟨rfl, rfl⟩ := Prod.mk.inj (Option.some.inj h)
          exact hfat32 (fat32_ne_zero hlt hnot hlarge)

/-- Where the data area of the layout starts. -/
def dataStart (l : Layout) : Nat := l.rsvdSecCnt + 2 * l.fatSz + l.rootDirSectors

/-- The layouts that agree with what `MountDisk` makes of them: the last cluster has an entry in
the FAT, and the number of clusters stays on the side of its type. -/
def Agrees (l : Layout) : Prop :=
  if l.useFAT16 then
    (l.secPerClus = 64 → l.totSec ≤ 4194144) ∧
      0 < (l.totSec - 33) % (256 * l.secPerClus + 2) ∧
      (l.totSec - 33) % (256 * l.secPerClus + 2) ≤ 254 * l.secPerClus + 2
  else l.totSec < 2 ^ 32 - 8160

/-- The size of the FAT in exact arithmetic: nothing wraps for FAT16. -/
theorem fatSz_fat16 {l : Layout} (h : l.Chosen) (htype : l.useFAT16 = true) :
    l.fatSz = (l.totSec - 33 + (256 * l.secPerClus + 1)) / (256 * l.secPerClus + 2) := by
  obtain ⟨useFAT16, secPerClus, totSec⟩ := l
  obtain rfl : useFAT16 = true := htype
  have hrow : RowFAT16 totSec secPerClus := h.fat16 rfl
  have hspc : secPerClus ≤ 64 := by unfold RowFAT16 at hrow; omega
  have htot : 8400 < totSec ∧ totSec ≤ 4194304 := by unfold RowFAT16 at hrow; omega
  have htmpVal1 : sub32 totSec (1 + 32) = totSec - 33 := by unfold sub32; omega
  have hsum : u32 (totSec - 33 + (256 * secPerClus + 1)) = totSec - 33 + (256 * secPerClus + 1) :=
    Nat.mod_eq_of_lt (by omega)
  show u32 (sub32 totSec (1 + 32) + (256 * secPerClus + 1)) / (256 * secPerClus + 2) = _
  rw [htmpVal1, hsum]

/-- A FAT of `fatSz` sectors has an entry for every cluster that is left. -/
theorem entries_iff {x fatSz secPerClus : Nat} (hspc : 0 < secPerClus) (hfat : 0 < fatSz)
    (hle : 2 * fatSz ≤ x) :
    (x - 2 * fatSz + (secPerClus - 1)) / secPerClus + 2 ≤ 256 * fatSz ↔
      x + 2 * secPerClus ≤ fatSz * (256 * secPerClus + 2) := by
  have hdiv := Nat.div_le_iff_le_mul_add_pred hspc (a := x - 2 * fatSz + (secPerClus - 1))
    (c := 256 * fatSz - 2)
  have hmul : secPerClus * (256 * fatSz - 2) = 256 * (fatSz * secPerClus) - 2 * secPerClus := by
    rw [Nat.mul_sub]
    congr 1 <;> ring
  have hle' : secPerClus ≤ fatSz * secPerClus := Nat.le_mul_of_pos_left _ hfat
  have hexpand : fatSz * (256 * secPerClus + 2) = 256 * (fatSz * secPerClus) + 2 * fatSz := by ring
  rw [hmul] at hdiv
  omega

/-- The quotient that is rounded up has room above it unless the remainder is near a multiple. -/
theorem ceil_room_iff {x m k : Nat} (hk : 0 < k) (hkm : k < m) :
    x + k ≤ (x + (m - 1)) / m * m ↔ 0 < x % m ∧ x % m ≤ m - k := by
  have hdiv := Nat.div_add_mod x m
  have hmod := Nat.mod_lt x (Nat.lt_trans hk hkm)
  generalize x / m = q at hdiv
  generalize x % m = r at hdiv hmod
  by_cases hr : r = 0
  · have hceil : (x + (m - 1)) / m = q := by
      rw [← hdiv, hr, Nat.add_zero, Nat.mul_add_div (by omega), Nat.div_eq_of_lt (by omega),
        Nat.add_zero]
    rw [hceil, Nat.mul_comm q m]
    omega
  · have hceil : (x + (m - 1)) / m = q + 1 := by
      rw [← hdiv, Nat.add_assoc, Nat.mul_add_div (by omega),
        show r + (m - 1) = m + (r - 1) by omega, Nat.add_div_left _ (by omega),
        Nat.div_eq_of_lt (by omega)]
    rw [hceil, Nat.succ_mul, Nat.mul_comm q m]
    omega

/-- The numbers of a FAT16 layout. -/
theorem fat16_numbers {l : Layout} (h : l.Chosen) (htype : l.useFAT16 = true) :
    0 < l.fatSz ∧ l.fatSz ≤ 256 ∧ 33 + 2 * l.fatSz < l.totSec ∧
      4085 ≤ (l.totSec - (33 + 2 * l.fatSz)) / l.secPerClus ∧
      ((l.totSec - (33 + 2 * l.fatSz)) / l.secPerClus < 65525 ↔
        (l.secPerClus = 64 → l.totSec ≤ 4194144)) := by
  have hfat := fatSz_fat16 h htype
  have hrow := h.fat16 htype
  generalize l.fatSz = fatSz at hfat ⊢
  generalize l.totSec = totSec at hfat hrow ⊢
  generalize l.secPerClus = secPerClus at hfat hrow ⊢
  rcases hrow with ⟨hlo, hhi, rfl⟩ | ⟨hlo, hhi, rfl⟩ | ⟨hlo, hhi, rfl⟩ | ⟨hlo, hhi, rfl⟩ |
    ⟨hlo, hhi, rfl⟩ | ⟨hlo, hhi, rfl⟩
  all_goals
    refine ⟨?_, ?_, ?_, ?_, ?_⟩ <;> omega

/-- A FAT32 layout whose FAT size does not wrap. -/
theorem fatSz_fat32 {l : Layout} (h : l.Chosen) (htype : l.useFAT16 = false) :
    l.fatSz = if l.totSec < 2 ^ 32 - 8160 then
      (l.totSec - 32 + 128 * l.secPerClus) / (128 * l.secPerClus + 1) else 0 := by
  obtain ⟨useFAT16, secPerClus, totSec⟩ := l
  obtain rfl : useFAT16 = false := htype
  have hrow : RowFAT32 totSec secPerClus := h.fat32 rfl
  have hlt : totSec < 2 ^ 32 := h.totSec
  have hspc : secPerClus ≤ 64 := by unfold RowFAT32 at hrow; omega
  have htmpVal1 : sub32 totSec (32 + 0) = totSec - 32 := by
    unfold RowFAT32 at hrow
    unfold sub32
    omega
  show u32 (sub32 totSec (32 + 0) + ((256 * secPerClus + 2) / 2 - 1)) /
    ((256 * secPerClus + 2) / 2) = _
  rw [htmpVal1, show (256 * secPerClus + 2) / 2 = 128 * secPerClus + 1 by omega, u32]
  dsimp only
  split
  · rw [Nat.mod_eq_of_lt (by omega), Nat.add_sub_cancel]
  · obtain rfl : secPerClus = 64 := by unfold RowFAT32 at hrow; omega
    omega

/-- The numbers of a FAT32 layout. -/
theorem fat32_numbers {l : Layout} (h : l.Chosen) (htype : l.useFAT16 = false)
    (hlt : l.totSec < 2 ^ 32 - 8160) :
    0 < l.fatSz ∧ l.fatSz < 2 ^ 20 ∧ 32 + 2 * l.fatSz < l.totSec ∧
      65525 ≤ (l.totSec - (32 + 2 * l.fatSz)) / l.secPerClus ∧
      (l.totSec - (32 + 2 * l.fatSz) + (l.secPerClus - 1)) / l.secPerClus + 2 ≤ 128 * l.fatSz := by
  have hfat := fatSz_fat32 h htype
  rw [if_pos hlt] at hfat
  have hrow := h.fat32 htype
  generalize l.fatSz = fatSz at hfat ⊢
  generalize l.totSec = totSec at hlt hfat hrow ⊢
  generalize l.secPerClus = secPerClus at hfat hrow ⊢
  rcases hrow with ⟨hlo, hhi, rfl⟩ | ⟨hlo, hhi, rfl⟩ | ⟨hlo, hhi, rfl⟩ | ⟨hlo, hhi, rfl⟩ |
    ⟨hlo, rfl⟩
  all_goals
    refine ⟨?_, ?_, ?_, ?_, ?_⟩ <;> omega

/-! ## The fields of the boot sector -/

theorem label_length (r : FormatRequest) : r.label.length ≤ 11 := by
  unfold FormatRequest.label
  split
  case h_1 label _ => exact label.property
  case h_2 => decide

variable (l : Layout) (r : FormatRequest)

/-- The fields of the two types lie behind the common ones. -/
theorem get_dbr_common {a width : Nat} (h : a + width ≤ 22 ∨ 24 ≤ a ∧ a + width ≤ 36) :
    get (l.dbr r) a width = get l.commonFields a width := by
  have hlabel := label_length r
  unfold dbr fat16Fields fat32Fields
  split <;>
    simp (disch := omega) only [get_put_disjoint, get_putBytes_disjoint]

theorem oemName_length : (asciiBytes "MSWIN4.1").length = 8 := rfl

theorem get_zero (a width : Nat) : get (fun _ => 0) a width = 0 :=
  get_eq_zero fun _ _ _ => rfl

theorem jmpBoot : get (l.dbr r) 0 1 = 0xEB := by
  rw [get_dbr_common l r (by omega)]
  unfold commonFields
  split <;> split <;>
    simp (disch := omega) only [get_put_disjoint, get_putBytes_disjoint, get_put_same] <;> rfl

theorem bytsPerSec : DBR.bytsPerSec (l.dbr r) = 512 := by
  unfold DBR.bytsPerSec
  rw [get_dbr_common l r (by omega)]
  unfold commonFields
  split <;> split <;>
    simp (disch := omega) only [get_put_disjoint, get_put_same] <;> rfl

theorem dbr_secPerClus : DBR.secPerClus (l.dbr r) = l.secPerClus % 2 ^ 8 := by
  unfold DBR.secPerClus
  rw [get_dbr_common l r (by omega)]
  unfold commonFields
  split <;> split <;>
    simp (disch := omega) only [get_put_disjoint, get_put_same] <;> rfl

theorem dbr_rsvdSecCnt : DBR.rsvdSecCnt (l.dbr r) = l.rsvdSecCnt := by
  have hlt : l.rsvdSecCnt % 256 ^ 2 = l.rsvdSecCnt := by
    unfold rsvdSecCnt
    split <;> rfl
  unfold DBR.rsvdSecCnt
  rw [get_dbr_common l r (by omega)]
  unfold commonFields
  split <;> split <;>
    simp (disch := omega) only [get_put_disjoint, get_put_same, hlt]

theorem numFATs : DBR.numFATs (l.dbr r) = 2 := by
  unfold DBR.numFATs
  rw [get_dbr_common l r (by omega)]
  unfold commonFields
  split <;> split <;>
    simp (disch := omega) only [get_put_disjoint, get_put_same] <;> rfl

theorem rootEntCnt : DBR.rootEntCnt (l.dbr r) = if l.useFAT16 then 512 else 0 := by
  unfold DBR.rootEntCnt
  rw [get_dbr_common l r (by omega)]
  unfold commonFields
  have hname := oemName_length
  cases htype : l.useFAT16 with
  | false =>
      split <;>
        simp (disch := omega) only [Bool.false_eq_true, if_false, get_put_disjoint,
          get_putBytes_disjoint, get_zero]
  | true =>
      split <;>
        simp (disch := omega) only [if_true, get_put_disjoint, get_put_same] <;> rfl

/-- The sector count stands in the field that it fits in. -/
theorem dbr_totSec16 : DBR.totSec16 (l.dbr r) = if l.totSec < 0x10000 then l.totSec else 0 := by
  have hname := oemName_length
  unfold DBR.totSec16
  rw [get_dbr_common l r (by omega)]
  unfold commonFields
  split
  case isTrue hlt =>
    have hmod : l.totSec % 256 ^ 2 = l.totSec := Nat.mod_eq_of_lt hlt
    split <;>
      simp (disch := omega) only [get_put_disjoint, get_put_same, hmod]
  case isFalse =>
    split <;>
      simp (disch := omega) only [get_put_disjoint, get_putBytes_disjoint, get_zero]

theorem dbr_totSec32 (hlt : l.totSec < 2 ^ 32) :
    DBR.totSec32 (l.dbr r) = if l.totSec < 0x10000 then 0 else l.totSec := by
  have hname := oemName_length
  unfold DBR.totSec32
  rw [get_dbr_common l r (by omega)]
  unfold commonFields
  split
  case isTrue =>
    split <;>
      simp (disch := omega) only [get_put_disjoint, get_putBytes_disjoint, get_zero]
  case isFalse =>
    have hmod : l.totSec % 256 ^ 4 = l.totSec := Nat.mod_eq_of_lt hlt
    split <;>
      simp (disch := omega) only [get_put_disjoint, get_put_same, hmod]

theorem endingFlag : DBR.endingFlag (l.dbr r) = 0xaa55 := by
  unfold DBR.endingFlag dbr
  rw [get_put_same]
  rfl

theorem fatSz16_fat16 (htype : l.useFAT16 = true) (hlt : l.fatSz < 2 ^ 16) :
    DBR.fatSz16 (l.dbr r) = l.fatSz := by
  have hlabel := label_length r
  unfold DBR.fatSz16 dbr fat16Fields
  rw [if_pos htype]
  simp (disch := omega) only [get_put_disjoint, get_putBytes_disjoint, get_put_same]
  exact Nat.mod_eq_of_lt hlt

theorem fatSz16_fat32 (htype : l.useFAT16 = false) : DBR.fatSz16 (l.dbr r) = 0 := by
  have hlabel := label_length r
  have hname := oemName_length
  unfold DBR.fatSz16 dbr fat32Fields commonFields
  simp only [htype, Bool.false_eq_true, if_false]
  split <;>
    simp (disch := omega) only [get_put_disjoint, get_putBytes_disjoint, get_zero]

theorem fatSz32_fat32 (htype : l.useFAT16 = false) (hlt : l.fatSz < 2 ^ 32) :
    DBR.fatSz32 (l.dbr r) = l.fatSz := by
  have hlabel := label_length r
  unfold DBR.fatSz32 dbr fat32Fields
  rw [if_neg (by simp [htype])]
  simp (disch := omega) only [get_put_disjoint, get_putBytes_disjoint, get_put_same]
  exact Nat.mod_eq_of_lt hlt

theorem rootClus (htype : l.useFAT16 = false) : DBR.rootClus (l.dbr r) = 2 := by
  have hlabel := label_length r
  unfold DBR.rootClus dbr fat32Fields
  rw [if_neg (by simp [htype])]
  simp (disch := omega) only [get_put_disjoint, get_putBytes_disjoint, get_put_same]
  rfl

theorem dbr_fsInfo (htype : l.useFAT16 = false) : DBR.fsInfo (l.dbr r) = 1 := by
  have hlabel := label_length r
  unfold DBR.fsInfo dbr fat32Fields
  rw [if_neg (by simp [htype])]
  simp (disch := omega) only [get_put_disjoint, get_putBytes_disjoint, get_put_same]
  rfl

/-- The first partition of a master boot record would lie where nothing is written. -/
theorem mbr_isValid : MBR.isValid (l.dbr r) = false := by
  have hlabel := label_length r
  have hname := oemName_length
  have hfat16 : (asciiBytes "FAT16   ").length = 8 := rfl
  have hfat32 : (asciiBytes "FAT32   ").length = 8 := rfl
  have hrelative : MBR.relativeSector (l.dbr r) = 0 := by
    unfold MBR.relativeSector dbr fat16Fields fat32Fields commonFields
    split <;> split <;>
      simp (disch := omega) only [get_put_disjoint, get_putBytes_disjoint, get_zero]
  unfold MBR.isValid
  rw [hrelative]
  simp

variable {l : Layout}

/-- The entries of the first sector of the FAT. -/
theorem firstEntries_fat16 (htype : l.useFAT16 = true) {k : Nat} (hk : 2 ≤ k) :
    get l.firstEntries (2 * k) 2 = 0 := by
  unfold firstEntries
  rw [if_pos htype]
  simp (disch := omega) only [get_put_disjoint]
  exact get_zero _ _

theorem firstEntries_fat16_zero (htype : l.useFAT16 = true) : get l.firstEntries 0 2 ≠ 0 := by
  unfold firstEntries
  rw [if_pos htype]
  apply get_ne_zero
  decide

theorem firstEntries_fat32 (htype : l.useFAT16 = false) {k : Nat} (hk : 3 ≤ k) :
    get l.firstEntries (4 * k) 4 = 0 := by
  unfold firstEntries
  rw [if_neg (by simp [htype])]
  simp (disch := omega) only [get_put_disjoint]
  exact get_zero _ _

theorem firstEntries_fat32_root (htype : l.useFAT16 = false) :
    get l.firstEntries 8 4 = 0x0FFFFFFF := by
  unfold firstEntries
  rw [if_neg (by simp [htype]), get_put_same]
  rfl

-- its fields are known by the lemmas above only
attribute [irreducible] dbr

end Layout

end TinyCLR.FAT
