import TinyCLR.Library.LittleEndian

/-!
# Boot sectors

The fields of a boot sector and of a master boot record, at their offsets in the same 512 bytes,
and the checks under which either is accepted. Numbers are natural; where the source computes in
32 bits the result is reduced by `u32`, and `sub32` is the wrapping difference.
-/

namespace TinyCLR.FAT

open LittleEndian

def u32 (n : Nat) : Nat := n % 2 ^ 32

def sub32 (a b : Nat) : Nat := (a + 2 ^ 32 - b % 2 ^ 32) % 2 ^ 32

/-- `DEFAULT_SECTOR_SIZE` -/
def defaultSectorSize : Nat := 512

/-- `CLUSTER_START` -/
def clusterStart : Nat := 2

/-- A sector in memory, by the offsets of its bytes. -/
abbrev Sector := Memory

namespace DBR

variable (s : Sector)

def bytsPerSec : Nat := get s 11 2
def secPerClus : Nat := get s 13 1
def rsvdSecCnt : Nat := get s 14 2
def numFATs : Nat := get s 16 1
def rootEntCnt : Nat := get s 17 2
def totSec16 : Nat := get s 19 2
def fatSz16 : Nat := get s 22 2
def totSec32 : Nat := get s 32 4
def fatSz32 : Nat := get s 36 4
def rootClus : Nat := get s 44 4
def fsInfo : Nat := get s 48 2
def endingFlag : Nat := get s 510 2

def rootDirSectors : Nat := (rootEntCnt s * 32 + (bytsPerSec s - 1)) / bytsPerSec s

def getCountOfClusters : Nat :=
  let fatSz := if fatSz16 s ≠ 0 then fatSz16 s else fatSz32 s
  let totSec := if totSec16 s ≠ 0 then totSec16 s else totSec32 s
  sub32 totSec (rsvdSecCnt s + numFATs s * fatSz + rootDirSectors s) / secPerClus s

/-- What holds of every accepted boot sector. -/
def wellFormed : Bool :=
  endingFlag s == 0xaa55 && (get s 0 1 == 0xeb || get s 0 1 == 0xe9) &&
    bytsPerSec s == 512 && (secPerClus s != 0 && (secPerClus s - 1) &&& secPerClus s == 0) &&
    decide (0 < rsvdSecCnt s) && numFATs s == 2

/-- `IsValid`, with the type of the FAT: `some true` for FAT16, `some false` for FAT32. -/
def isValid : Option Bool :=
  if wellFormed s = false then none
  else if getCountOfClusters s < 4085 then none
  else if getCountOfClusters s < 65525 then
    if rootEntCnt s = 512 ∧ 0 < fatSz16 s ∧ (totSec16 s = 0 ∨ totSec32 s = 0) then some true
    else none
  else if rootEntCnt s = 0 ∧ totSec16 s = 0 ∧ fatSz16 s = 0 ∧ 0 < totSec32 s ∧ 0 < fatSz32 s then
    some false
  else none

end DBR

namespace MBR

variable (s : Sector)

/-- The fields of the first partition. -/
def bootIndicator : Nat := get s 446 1
def relativeSector : Nat := get s 454 4
def totalSector : Nat := get s 458 4

def isValid : Bool :=
  get s 510 2 == 0xaa55 && (bootIndicator s == 0x00 || bootIndicator s == 0x80) &&
    decide (0 < relativeSector s) && decide (0 < totalSector s)

end MBR

end TinyCLR.FAT
