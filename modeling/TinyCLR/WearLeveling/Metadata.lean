import Mathlib
import TinyCLR.Library.Word32

/-!
# Metadata of a wear-levelled device

The words and flags that are kept with each sector. The flags are inverted, as the bits of an
erased sector are set and a write can only clear them.
-/

namespace TinyCLR.WearLeveling

open Word32

/-- `WL_SectorMetadata` -/
structure SectorMetadata where
  blockOffset₀ : BitVec 16
  blockOffset₁ : BitVec 16
  ownerBlock : BitVec 16
  mappedSectorOffset : BitVec 16
  linkedSectorOffset : BitVec 16
  sectorFlags : BitVec 8
  blockFlags : BitVec 8
  crc : BitVec 32
  deriving DecidableEq

namespace SectorMetadata

def deadLinkIndex : BitVec 16 := 0x0000

def sectorFlagMask : BitVec 8 := 0x1F

def validBlockOffset : BitVec 8 := 0x10

def blockFlagMask : BitVec 8 := 0x3F

variable (m : SectorMetadata)

def isSectorFree : Bool := m.sectorFlags &&& sectorFlagMask == sectorFlagMask

def isBadBlock : Bool := m.blockFlags == 0

def isBlockFree : Bool := m.blockFlags &&& blockFlagMask == blockFlagMask

def setValidBlockOffset : SectorMetadata :=
  { m with blockFlags := m.blockFlags &&& ~~~validBlockOffset }

/-- The index goes to the first field as long as that only clears bits; otherwise the first field
is killed and the index goes to the second. -/
def setBlockMapOffset (map : BitVec 16) : SectorMetadata :=
  if ~~~m.blockOffset₀ &&& ~~~map = 0 then { m with blockOffset₀ := ~~~map }.setValidBlockOffset
  else { m with blockOffset₀ := deadLinkIndex, blockOffset₁ := ~~~map }

def getBlockMapOffset : BitVec 16 :=
  if m.blockOffset₀ ≠ deadLinkIndex then ~~~m.blockOffset₀ else ~~~m.blockOffset₁

/-- A sector after its block has been erased. -/
def erased : SectorMetadata where
  blockOffset₀ := 0xFFFF
  blockOffset₁ := 0xFFFF
  ownerBlock := 0xFFFF
  mappedSectorOffset := 0xFFFF
  linkedSectorOffset := 0xFFFF
  sectorFlags := 0xFF
  blockFlags := 0xFF
  crc := 0xFFFFFFFF

end SectorMetadata

/-- A configuration of the driver, with the size that the device reports. -/
structure Config where
  bytesPerSector : Nat
  bytesPerBlock : Nat
  baseAddress : Nat
  size : Nat

/-- What the device answers when it is asked for the metadata of a sector. -/
abbrev Device := Nat → Option SectorMetadata

/-- `GetSectorMetadataInternal`: a read that fails is tried once more. -/
def getSectorMetadataInternal (device : Device) (sectorStart : Nat) : Option SectorMetadata :=
  (device sectorStart).or (device sectorStart)

theorem getSectorMetadataInternal_eq (device : Device) (sectorStart : Nat) :
    getSectorMetadataInternal device sectorStart = device sectorStart :=
  Option.or_self

namespace Config

variable (config : Config)

def getBlockStartAddress (address : Nat) : Nat :=
  let offset := sub32 address config.baseAddress
  sub32 (u32 (config.baseAddress + offset)) (offset % config.bytesPerBlock)

end Config

end TinyCLR.WearLeveling
