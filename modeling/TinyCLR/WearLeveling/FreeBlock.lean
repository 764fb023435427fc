import Mathlib
import TinyCLR.WearLeveling.Metadata

/-!
# The search for a free block

`GetNextFreeBlock` tries the indexes that one of the two fields of the virtual block can still take
in, those with the fewest bits first.
-/

namespace TinyCLR.WearLeveling

open Word32

/-- `BitsSet16` -/
def bitsSet16 (x : BitVec 16) : Nat :=
  let x := ((x &&& 0xaaaa) >>> 1) + (x &&& 0x5555)
  let x := ((x &&& 0xcccc) >>> 2) + (x &&& 0x3333)
  let x := ((x &&& 0xF0F0) >>> 4) + (x &&& 0x0F0F)
  (((x &&& 0xFF00) >>> 8) + (x &&& 0x00FF)).toNat

namespace Config

variable (config : Config) (device : Device)

/-- The loop of `InitializeDevice` that finds the block index mask. -/
def shiftMask (blockCount : Nat) : Nat → Nat → Nat
  | 0, mask => mask
  | n + 1, mask => if blockCount < mask then shiftMask blockCount n (mask / 2) else mask

def blockIndexMask : Nat := shiftMask (config.size / config.bytesPerBlock) 32 (2 ^ 31)

/-- The largest index that is tried, kept in 16 bits. -/
@[irreducible] def maxValue : Nat := sub32 (u32 (config.blockIndexMask * 2)) 1 % 2 ^ 16

/-- A block that the search returns: its address is below the end of the device, and its metadata
says that it is free. -/
def acceptBlock (index : BitVec 16) : Option Nat :=
  let phySectAddr := u32 (config.baseAddress + index.toNat * config.bytesPerBlock)
  if phySectAddr < u32 (config.baseAddress + config.size) ∧
      (getSectorMetadataInternal device phySectAddr).any SectorMetadata.isBlockFree = true then
    some phySectAddr
  else none

/-- One pass over the indexes downwards, for those with `maxBits` bits. -/
def scanIndexes (curBlockIndex : BitVec 16) (maxBits : Nat) : Nat → Option Nat
  | 0 => none
  | i + 1 =>
      let index := BitVec.ofNat 16 (i + 1) ||| curBlockIndex
      if bitsSet16 index = maxBits then
        (config.acceptBlock device index).or (scanIndexes curBlockIndex maxBits i)
      else scanIndexes curBlockIndex maxBits i

/-- "Start by looking for addresses with only 1 bit difference, then increase to 2, and so on." -/
def scanBits (curBlockIndex : BitVec 16) (maxBits : Nat) : Option Nat :=
  (config.scanIndexes device curBlockIndex maxBits config.maxValue).or
    (if 2 ^ (maxBits + 1) ≤ config.maxValue then scanBits curBlockIndex (maxBits + 1) else none)
termination_by config.maxValue - maxBits
decreasing_by
  have hlt : maxBits + 1 < 2 ^ (maxBits + 1) := Nat.lt_two_pow_self
  omega

def getNextFreeBlock (virtAddress : Nat) : Option Nat :=
  match getSectorMetadataInternal device (config.getBlockStartAddress virtAddress) with
  | none => none
  | some metaVirt =>
      if metaVirt.isBadBlock then none
      else
        let curBlockIndex := metaVirt.getBlockMapOffset
        if config.maxValue < bitsSet16 curBlockIndex + 1 then none
        else
          (config.scanBits device curBlockIndex (bitsSet16 curBlockIndex + 1)).or
            (config.scanBits device (~~~metaVirt.blockOffset₁)
              (bitsSet16 (~~~metaVirt.blockOffset₁) + 1))

/-! ## What the search is for -/

/-- `SetBlockMapOffset` moves no bit of the fields from 0 to 1. -/
def OnlyClears (m : SectorMetadata) (index : BitVec 16) : Prop :=
  (m.setBlockMapOffset index).blockOffset₀ &&& ~~~m.blockOffset₀ = 0 ∧
    (m.setBlockMapOffset index).blockOffset₁ &&& ~~~m.blockOffset₁ = 0

/-- A free block of the device whose index the virtual block can take in. -/
def Suitable (virtAddress : Nat) (index : BitVec 16) : Prop :=
  index.toNat * config.bytesPerBlock < config.size ∧
    (∃ m, device (config.baseAddress + index.toNat * config.bytesPerBlock) = some m ∧
      m.isBlockFree = true) ∧
    ∃ m, device (config.getBlockStartAddress virtAddress) = some m ∧ OnlyClears m index

/-- The search returns a suitable block when there is one. -/
def FindsFreeBlock (virtAddress : Nat) : Prop :=
  match config.getNextFreeBlock device virtAddress with
  | some a => ∃ index, a = config.baseAddress + index.toNat * config.bytesPerBlock ∧
      config.Suitable device virtAddress index
  | none => ∀ index, ¬config.Suitable device virtAddress index

/-! ## The indexes that are tried -/

/-- The indexes above the current one with a given number of bits, in the order of the search. -/
def indexesWith (curBlockIndex : BitVec 16) (maxBits : Nat) : Nat → List (BitVec 16)
  | 0 => []
  | i + 1 =>
      let index := BitVec.ofNat 16 (i + 1) ||| curBlockIndex
      if bitsSet16 index = maxBits then index :: indexesWith curBlockIndex maxBits i
      else indexesWith curBlockIndex maxBits i

def indexesFrom (curBlockIndex : BitVec 16) (maxBits : Nat) : List (BitVec 16) :=
  indexesWith curBlockIndex maxBits config.maxValue ++
    if 2 ^ (maxBits + 1) ≤ config.maxValue then indexesFrom curBlockIndex (maxBits + 1) else []
termination_by config.maxValue - maxBits
decreasing_by
  have hlt : maxBits + 1 < 2 ^ (maxBits + 1) := Nat.lt_two_pow_self
  omega

/-- The indexes of one round. -/
def round (curBlockIndex : BitVec 16) : List (BitVec 16) :=
  config.indexesFrom curBlockIndex (bitsSet16 curBlockIndex + 1)

/-- The indexes of both rounds; there are none for a bad block, nor for one whose first field has
more bits than the largest index. -/
def indexes (virtAddress : Nat) : List (BitVec 16) :=
  match device (config.getBlockStartAddress virtAddress) with
  | none => []
  | some m =>
      if m.isBadBlock ∨ config.maxValue < bitsSet16 m.getBlockMapOffset + 1 then []
      else config.round m.getBlockMapOffset ++ config.round (~~~m.blockOffset₁)

/-- The address of an index is that of a suitable block. -/
def Leads (virtAddress : Nat) (index : BitVec 16) : Prop :=
  ∃ index', u32 (config.baseAddress + index.toNat * config.bytesPerBlock) =
      config.baseAddress + index'.toNat * config.bytesPerBlock ∧
    config.Suitable device virtAddress index'

variable {config device}

theorem scanIndexes_eq (cur : BitVec 16) (maxBits n : Nat) :
    config.scanIndexes device cur maxBits n =
      (indexesWith cur maxBits n).findSome? (config.acceptBlock device) := by
  induction n with
  | zero => rfl
  | succ i ih =>
      rw [scanIndexes, indexesWith]
      split
      · rw [List.findSome?_cons, ih]
        cases config.acceptBlock device (BitVec.ofNat 16 (i + 1) ||| cur) <;> rfl
      · exact ih

/-- The bit counts go up as long as the next power of two is in reach. -/
@[elab_as_elim]
theorem bits_induction (n : Nat) {motive : Nat → Prop}
    (step : ∀ maxBits, (2 ^ (maxBits + 1) ≤ n → motive (maxBits + 1)) → motive maxBits)
    (maxBits : Nat) : motive maxBits := by
  induction hn : n - maxBits using Nat.strong_induction_on generalizing maxBits with
  | _ k ih =>
      apply step
      intro hmore
      have hlt : maxBits + 1 < 2 ^ (maxBits + 1) := Nat.lt_two_pow_self
      exact ih _ (by omega) (maxBits + 1) rfl

theorem scanBits_eq (cur : BitVec 16) (maxBits : Nat) :
    config.scanBits device cur maxBits =
      (config.indexesFrom cur maxBits).findSome? (config.acceptBlock device) := by
  induction maxBits using bits_induction config.maxValue with | _ maxBits ih =>
  rw [scanBits, indexesFrom, List.findSome?_append, scanIndexes_eq]
  split
  · rename_i hmore
    rw [ih hmore]
  · rfl

/-- The search returns the first index that is accepted. -/
theorem getNextFreeBlock_eq (virtAddress : Nat) :
    config.getNextFreeBlock device virtAddress =
      (config.indexes device virtAddress).findSome? (config.acceptBlock device) := by
  rw [getNextFreeBlock, indexes, getSectorMetadataInternal_eq]
  cases device (config.getBlockStartAddress virtAddress) with
  | none => rfl
  | some m =>
      dsimp only
      by_cases hbad : m.isBadBlock = true
      · rw [if_pos hbad, if_pos (.inl hbad)]
        rfl
      · by_cases hmany : config.maxValue < bitsSet16 m.getBlockMapOffset + 1
        · rw [if_neg hbad, if_pos hmany, if_pos (.inr hmany)]
          rfl
        · rw [if_neg hbad, if_neg hmany, if_neg (not_or.mpr ⟨hbad, hmany⟩), scanBits_eq,
            scanBits_eq, round, round, List.findSome?_append]

/-! ## Which indexes are tried -/

theorem mem_indexesWith {cur index : BitVec 16} {maxBits n : Nat} :
    index ∈ indexesWith cur maxBits n ↔
      (∃ i, 0 < i ∧ i ≤ n ∧ index = BitVec.ofNat 16 i ||| cur) ∧ bitsSet16 index = maxBits := by
  induction n with
  | zero =>
      apply iff_of_false List.not_mem_nil
      rintro ⟨⟨i, hpos, hle, -⟩, -⟩
      omega
  | succ n ih =>
      have hstep : index ∈ indexesWith cur maxBits (n + 1) ↔
          (index = BitVec.ofNat 16 (n + 1) ||| cur ∧ bitsSet16 index = maxBits) ∨
            index ∈ indexesWith cur maxBits n := by
        rw [indexesWith]
        split
        · rename_i hbits
          rw [List.mem_cons]
          apply or_congr_left
          constructor
          · rintro rfl
            exact ⟨rfl, hbits⟩
          · exact And.left
        · rename_i hbits
          rw [or_iff_right]
          rintro ⟨rfl, heq⟩
          exact hbits heq
      rw [hstep, ih]
      constructor
      · rintro (⟨rfl, hbits⟩ | ⟨⟨i, hpos, hle, rfl⟩, hbits⟩)
        · exact ⟨⟨n + 1, Nat.succ_pos n, le_rfl, rfl⟩, hbits⟩
        · exact ⟨⟨i, hpos, by omega, rfl⟩, hbits⟩
      · rintro ⟨⟨i, hpos, hle, rfl⟩, hbits⟩
        rcases Nat.lt_or_ge n i with hlast | hlower
        · left
          obtain rfl : i = n + 1 := by omega
          exact ⟨rfl, hbits⟩
        · exact .inr ⟨⟨i, hpos, hlower, rfl⟩, hbits⟩

/-- A round tries the indexes above the current one whose bits are one more than its bits, or more
but too few to fill the largest index. -/
theorem mem_indexesFrom {cur index : BitVec 16} {maxBits : Nat} :
    index ∈ config.indexesFrom cur maxBits ↔
      (∃ i, 0 < i ∧ i ≤ config.maxValue ∧ index = BitVec.ofNat 16 i ||| cur) ∧
        (bitsSet16 index = maxBits ∨
          maxBits < bitsSet16 index ∧ 2 ^ bitsSet16 index ≤ config.maxValue) := by
  induction maxBits using bits_induction config.maxValue with | _ maxBits ih =>
  rw [indexesFrom, List.mem_append, mem_indexesWith]
  split
  · rename_i hmore
    rw [ih hmore, ← and_or_left]
    apply and_congr_right
    intro _
    constructor
    · rintro (hbits | hbits | hbits)
      · exact .inl hbits
      · exact .inr ⟨by omega, by rwa [hbits]⟩
      · exact .inr ⟨by omega, hbits.2⟩
    · rintro (hbits | hbits)
      · exact .inl hbits
      · rcases Nat.lt_or_ge (maxBits + 1) (bitsSet16 index) with hlt | hge
        · exact .inr (.inr ⟨hlt, hbits.2⟩)
        · exact .inr (.inl (by omega))
  · rename_i hmore
    rw [or_iff_left List.not_mem_nil]
    apply and_congr_right
    intro _
    rw [or_iff_left]
    rintro ⟨hlt, hle⟩
    have hpow : 2 ^ (maxBits + 1) ≤ 2 ^ bitsSet16 index :=
      Nat.pow_le_pow_right (by norm_num) hlt
    omega

theorem acceptBlock_eq_some {index : BitVec 16} {a : Nat}
    (h : config.acceptBlock device index = some a) :
    a = u32 (config.baseAddress + index.toNat * config.bytesPerBlock) := by
  rw [acceptBlock] at h
  split at h
  · exact (Option.some.inj h).symm
  · cases h

theorem isSome_acceptBlock {index : BitVec 16} :
    (config.acceptBlock device index).isSome = true ↔
      u32 (config.baseAddress + index.toNat * config.bytesPerBlock) <
          u32 (config.baseAddress + config.size) ∧
        ∃ m, device (u32 (config.baseAddress + index.toNat * config.bytesPerBlock)) = some m ∧
          m.isBlockFree = true := by
  rw [acceptBlock, getSectorMetadataInternal_eq]
  cases device (u32 (config.baseAddress + index.toNat * config.bytesPerBlock)) with
  | none => simp
  | some m => split <;> simp_all

theorem onlyClears_iff (m : SectorMetadata) (index : BitVec 16) :
    OnlyClears m index ↔ ~~~m.blockOffset₀ &&& ~~~index = 0 ∨ ~~~m.blockOffset₁ &&& ~~~index = 0 := by
  have hclear (w : BitVec 16) : ~~~index &&& ~~~w = 0 ↔ ~~~w &&& ~~~index = 0 := by
    rw [BitVec.and_comm]
  rw [OnlyClears, SectorMetadata.setBlockMapOffset]
  split
  · rename_i hfirst
    refine iff_of_true ⟨(hclear _).mpr hfirst, ?_⟩ (.inl hfirst)
    exact BitVec.and_not_self _
  · rename_i hfirst
    rw [or_iff_right hfirst]
    exact ⟨fun h => (hclear _).mp h.2, fun h => ⟨BitVec.zero_and, (hclear _).mpr h⟩⟩

/-- Every index that is tried can be taken in. -/
theorem onlyClears_of_mem {virtAddress : Nat} {index : BitVec 16}
    (h : index ∈ config.indexes device virtAddress) :
    ∃ m, device (config.getBlockStartAddress virtAddress) = some m ∧ OnlyClears m index := by
  rw [indexes] at h
  cases hm : device (config.getBlockStartAddress virtAddress) with
  | none =>
      rw [hm] at h
      exact absurd h List.not_mem_nil
  | some m =>
      rw [hm] at h
      refine ⟨m, rfl, ?_⟩
      have habove (cur : BitVec 16) (hcur : index ∈ config.round cur) :
          cur &&& ~~~index = 0 := by
        obtain ⟨⟨i, -, -, rfl⟩, -⟩ := mem_indexesFrom.mp hcur
        ext j hj
        simp only [BitVec.getElem_and, BitVec.getElem_not, BitVec.getElem_or]
        cases cur[j] <;> simp
      dsimp only at h
      split at h
      · exact absurd h List.not_mem_nil
      · rw [onlyClears_iff]
        rcases List.mem_append.mp h with hfirst | hsecond
        · have hcur := habove _ hfirst
          rw [SectorMetadata.getBlockMapOffset] at hcur
          split at hcur
          · exact .inl hcur
          · exact .inr hcur
        · exact .inr (habove _ hsecond)

/-- In a device whose tried addresses do not wrap, the search does its task just when it tries a
suitable index wherever there is one. -/
theorem findsFreeBlock_iff_tries (virtAddress : Nat) (hend : config.baseAddress + config.size < 2 ^ 32)
    (hfit : ∀ tried ∈ config.indexes device virtAddress,
      config.baseAddress + tried.toNat * config.bytesPerBlock < 2 ^ 32) :
    config.FindsFreeBlock device virtAddress ↔
      ((∃ index, config.Suitable device virtAddress index) →
        ∃ tried ∈ config.indexes device virtAddress, config.Suitable device virtAddress tried) := by
  have haccept : ∀ tried ∈ config.indexes device virtAddress,
      (config.acceptBlock device tried).isSome = true ↔
        config.Suitable device virtAddress tried := by
    intro tried hmem
    rw [isSome_acceptBlock, Suitable, u32_of_lt (hfit tried hmem), u32_of_lt hend,
      Nat.add_lt_add_iff_left, and_iff_left (onlyClears_of_mem hmem)]
  rw [FindsFreeBlock, getNextFreeBlock_eq]
  cases hfound : (config.indexes device virtAddress).findSome? (config.acceptBlock device) with
  | none =>
      have hnone := List.findSome?_eq_none_iff.mp hfound
      constructor
      · rintro h ⟨index, hsuitable⟩
        exact absurd hsuitable (h index)
      · intro h index hsuitable
        obtain ⟨tried, hmem, htried⟩ := h ⟨index, hsuitable⟩
        have hsome := (haccept tried hmem).mpr htried
        rw [hnone tried hmem] at hsome
        exact absurd hsome nofun
  | some a =>
      obtain ⟨pre, tried, post, hlist, ha, -⟩ := List.findSome?_eq_some_iff.mp hfound
      have hmem : tried ∈ config.indexes device virtAddress := by
        rw [hlist]
        simp
      have hsuitable := (haccept tried hmem).mp (by rw [ha]; rfl)
      have haddress := acceptBlock_eq_some ha
      rw [u32_of_lt (hfit tried hmem)] at haddress
      exact iff_of_true ⟨tried, haddress, hsuitable⟩ fun _ => ⟨tried, hmem, hsuitable⟩

/-! ## A free block that is not found -/

/-- Four blocks of two sectors. -/
def fourBlocks : Config where
  bytesPerSector := 512
  bytesPerBlock := 1024
  baseAddress := 0
  size := 4096

/-- All blocks but the first are in use, and none has been mapped yet. -/
def firstFree : Device := fun a =>
  some (if a = 0 then SectorMetadata.erased
    else { SectorMetadata.erased with blockFlags := 0xF7 })

end Config

end TinyCLR.WearLeveling
