import TinyCLR.HeapBlock.Array
import TinyCLR.Library.Word32

/-!
# Allocation of arrays

A cluster of the heap keeps its free blocks in a list, and an object is cut off the first one that
is large enough. The size of an array is computed in 32-bit arithmetic from the number of its
elements, before it is compared with the largest block.
-/

namespace TinyCLR.HeapCluster

open Word32 (u32 u32_lt u32_of_lt)
open HeapBlock (HResult)

/-- `sizeof(CLR_RT_HeapBlock)` -/
def sizeofHeapBlock : Nat := 12

/-- `sizeof(CLR_RT_HeapBlock_Array)` -/
def sizeofArray : Nat := 20

/-- `HB_MaxSize` -/
def hbMaxSize : Nat := 0xFFFF

/-! ## Types -/

/-- `CLR_DataType` -/
inductive DataType where
  | void
  | boolean | i1 | u1
  | char | i2 | u2
  | i4 | u4 | r4
  | i8 | u8 | r8 | dateTime | timeSpan | string
  | object | cls | valueType | szArray | byRef
  | freeBlock | cachedBlock | assembly | weakClass | reflection | arrayByRef
  | delegateHead | delegateListHead | objectToEvent | binaryBlobHead
  | thread | subThread | stackFrame | timerHead | lockHead | lockOwnerHead | lockRequestHead
  | waitForObjectHead | finalizerHead | memoryStreamHead | memoryStreamData
  | serializerHead | serializerDuplicate | serializerState
  | endPointHead | ioPort | i2cXaction
  deriving DecidableEq

/-- `m_sizeInBytes` of `c_CLR_RT_DataTypeLookup`, where 0 is `c_NA`. -/
def DataType.sizeInBytes : DataType → Nat
  | .boolean | .i1 | .u1 => 1
  | .char | .i2 | .u2 => 2
  | .i4 | .u4 | .r4 => 4
  | .i8 | .u8 | .r8 => 8
  | .dateTime | .timeSpan | .string => sizeofHeapBlock
  | .object | .cls | .valueType | .szArray => sizeofHeapBlock
  | .weakClass | .delegateHead => sizeofHeapBlock
  | _ => 0

/-- `c_Numeric` among the flags of `c_CLR_RT_DataTypeLookup`. -/
def DataType.numeric : DataType → Bool
  | .boolean | .i1 | .u1 | .char | .i2 | .u2 | .i4 | .u4 | .r4 | .i8 | .u8 | .r8 => true
  | _ => false

inductive ReflectionType where
  | invalid | assembly | type | typeDelayed | constructor | method | field
  deriving DecidableEq

/-- `CLR_RT_ReflectionDef_Index`, of a type. -/
structure ReflectionDef where
  kind : ReflectionType
  levels : Nat
  type : Nat

/-- The types of the assemblies that are loaded. -/
structure Assemblies where
  /-- `InitializeFromIndex`, and `dataType` of the type. -/
  dataTypeOf : Nat → Option DataType
  /-- `g_CLR_RT_WellKnownTypes.m_Array` -/
  array : Nat

/-- The type whose instances are kept in an array. -/
def Assemblies.elementType (A : Assemblies) (reflex : ReflectionDef) : Option DataType :=
  A.dataTypeOf (if reflex.levels = 1 then reflex.type else A.array)

/-! ## Heap blocks -/

structure Block where
  address : Nat
  dataSize : Nat

/-- `CLR_RT_HeapCluster`: its list of free blocks. -/
abbrev Cluster := List Block

/-- `ExtractBlocks`, from the front of the list. -/
def Cluster.extractBlocks (length : Nat) : Cluster → Option (Block × Cluster)
  | [] => none
  | ptr :: freeList =>
      if length ≤ ptr.dataSize then
        let available := ptr.dataSize - length
        some (⟨ptr.address, length⟩,
          if available ≠ 0 then ⟨ptr.address + length, available⟩ :: freeList else freeList)
      else
        (extractBlocks length freeList).map fun r => (r.1, ptr :: r.2)

structure Heap where
  clusters : List Cluster
  lastHcUsed : Option Nat

def Heap.extractFrom (heap : Heap) (hc length : Nat) : Option (Block × Heap) :=
  (heap.clusters[hc]?).bind fun cluster =>
    (cluster.extractBlocks length).map fun r =>
      (r.1, { heap with clusters := heap.clusters.set hc r.2 })

/-- A phase of `ExtractHeapBlocks`: the cluster used last comes first. -/
def Heap.tryExtract (heap : Heap) (length : Nat) : Option (Block × Heap) :=
  (heap.lastHcUsed.bind fun hc => heap.extractFrom hc length).or
    ((List.range heap.clusters.length).findSome? fun hc =>
      (heap.extractFrom hc length).map fun r => (r.1, { r.2 with lastHcUsed := some hc }))

/-- What allocations call. -/
structure Engine where
  /-- `PerformGarbageCollection` -/
  performGarbageCollection : Heap → Heap
  /-- `NewObjectFromIndex` -/
  newObjectFromIndex : Heap → Nat → Except HResult Heap

variable (A : Assemblies) (E : Engine)

/-- `ExtractHeapBlocks` -/
def Heap.extractHeapBlocks (heap : Heap) (length : Nat) : Option Block × Heap :=
  match heap.tryExtract length with
  | some r => (some r.1, r.2)
  | none =>
      let heap := E.performGarbageCollection { heap with lastHcUsed := none }
      match heap.tryExtract length with
      | some r => (some r.1, r.2)
      | none => (none, { heap with lastHcUsed := none })

/-- `CONVERTFROMSIZETOHEAPBLOCKS` -/
def convertFromSizeToHeapBlocks (x : Nat) : Nat := u32 (x + (sizeofHeapBlock - 1)) / sizeofHeapBlock

/-! ## Arrays -/

/-- `CLR_RT_HeapBlock_Array`, as it lies in the heap. -/
structure ArrayBlock where
  block : Block
  reflectionData : ReflectionDef
  numOfElements : UInt32
  typeOfElement : DataType
  sizeOfElement : Nat
  fReference : Bool

/-- The bytes of the block. -/
def ArrayBlock.bytes (a : ArrayBlock) : Nat := a.block.dataSize * sizeofHeapBlock

/-- `ExtractHeapBlocksForArray` -/
def extractHeapBlocksForArray (heap : Heap) (dt : DataType) (length : UInt32)
    (reflex : ReflectionDef) : Option ArrayBlock × Heap :=
  let totLength := u32 (sizeofArray + u32 (length.toNat * dt.sizeInBytes))
  let lengthHB := convertFromSizeToHeapBlocks totLength
  if hbMaxSize < lengthHB then (none, heap)
  else
    let r := heap.extractHeapBlocks E lengthHB
    (r.1.map fun block =>
      { block := block
        reflectionData := reflex
        numOfElements := length
        typeOfElement := dt
        sizeOfElement := dt.sizeInBytes
        fReference := !dt.numeric }, r.2)

/-- The loop of `ClearElements`, which writes from an offset on; `none` where that lies behind the
block. -/
def clearReferences (fAllocate : Option Nat) (bytes : Nat) :
    Nat → Nat → Heap → Option (Except HResult Unit × Heap)
  | _, 0, heap => some (.ok (), heap)
  | offset, n + 1, heap =>
      if offset + sizeofHeapBlock ≤ bytes then
        match fAllocate with
        | none => clearReferences fAllocate bytes (offset + sizeofHeapBlock) n heap
        | some type =>
            match E.newObjectFromIndex heap type with
            | .error e => some (.error e, heap)
            | .ok heap => clearReferences fAllocate bytes (offset + sizeofHeapBlock) n heap
      else none

/-- `ClearElements`, of all elements. -/
def ArrayBlock.clearElements (a : ArrayBlock) (heap : Heap) : Option (Except HResult Unit × Heap) :=
  if sizeofArray + u32 (a.numOfElements.toNat * a.sizeOfElement) ≤ a.bytes then
    if a.fReference then
      let fAllocate := a.reflectionData.levels = 1 ∧ a.typeOfElement = .valueType
      clearReferences E (if fAllocate then some a.reflectionData.type else none) a.bytes sizeofArray
        a.numOfElements.toNat heap
    else some (.ok (), heap)
  else none

/-- What a call of `CreateInstance` has done: the reference, and what it returned if it did not
write behind the block. -/
structure Created where
  reference : Option ArrayBlock
  result : Option (Except HResult Unit × Heap)

/-- `CLR_RT_HeapBlock_Array::CreateInstance` -/
def createInstance (heap : Heap) (length : UInt32) (reflex : ReflectionDef) : Created :=
  if 2 ^ 31 ≤ length.toNat then ⟨none, some (.error .outOfRange, heap)⟩
  else if reflex.kind ≠ .type then ⟨none, some (.error .wrongType, heap)⟩
  else
    match A.elementType reflex with
    | none => ⟨none, some (.error .wrongType, heap)⟩
    | some dt =>
        if dt.sizeInBytes = 0 then ⟨none, some (.error .wrongType, heap)⟩
        else
          let r := extractHeapBlocksForArray E heap dt length reflex
          match r.1 with
          | none => ⟨none, some (.error .outOfMemory, r.2)⟩
          | some pArray => ⟨some pArray, pArray.clearElements E r.2⟩

/-! ## The size of an extracted block -/

variable {A : Assemblies} {E : Engine} {heap heap' : Heap} {block : Block} {n : Nat}

theorem Cluster.dataSize_extractBlocks {cluster cluster' : Cluster}
    (h : cluster.extractBlocks n = some (block, cluster')) : block.dataSize = n := by
  induction cluster generalizing cluster' with
  | nil => cases h
  | cons ptr freeList ih =>
      rw [extractBlocks] at h
      split at h
      · cases h
        rfl
      · obtain ⟨r, hr, heq⟩ := Option.map_eq_some_iff.mp h
        cases heq
        exact ih hr

theorem Heap.dataSize_extractFrom {hc : Nat}
    (h : heap.extractFrom hc n = some (block, heap')) : block.dataSize = n := by
  obtain ⟨cluster, -, h⟩ := Option.bind_eq_some_iff.mp h
  obtain ⟨r, hr, heq⟩ := Option.map_eq_some_iff.mp h
  cases heq
  exact Cluster.dataSize_extractBlocks hr

theorem Heap.dataSize_tryExtract (h : heap.tryExtract n = some (block, heap')) :
    block.dataSize = n := by
  rcases Option.or_eq_some_iff.mp h with h | ⟨-, h⟩
  · obtain ⟨hc, -, h⟩ := Option.bind_eq_some_iff.mp h
    exact dataSize_extractFrom h
  · obtain ⟨hc, -, h⟩ := List.exists_of_findSome?_eq_some h
    obtain ⟨r, hr, heq⟩ := Option.map_eq_some_iff.mp h
    cases heq
    exact dataSize_extractFrom hr

/-- An extracted block is of the size asked for. -/
theorem Heap.dataSize_extractHeapBlocks (h : (heap.extractHeapBlocks E n).1 = some block) :
    block.dataSize = n := by
  rw [extractHeapBlocks] at h
  split at h
  · next hr =>
      cases h
      exact dataSize_tryExtract hr
  · simp only at h
    split at h
    · next hr =>
        cases h
        exact dataSize_tryExtract hr
    · cases h

/-- A heap with a free block of the largest size serves every request. -/
def freshHeap : Heap := ⟨[[⟨0, hbMaxSize⟩]], none⟩

theorem extractHeapBlocks_freshHeap (h : n ≤ hbMaxSize) :
    (freshHeap.extractHeapBlocks E n).1 = some ⟨0, n⟩ := by
  have hcut : Cluster.extractBlocks n [⟨0, hbMaxSize⟩] =
      some (⟨0, n⟩, if hbMaxSize - n ≠ 0 then [⟨0 + n, hbMaxSize - n⟩] else []) := if_pos h
  have htry : freshHeap.tryExtract n = some (⟨0, n⟩,
      ⟨[if hbMaxSize - n ≠ 0 then [⟨0 + n, hbMaxSize - n⟩] else []], some 0⟩) := by
    simp [Heap.tryExtract, freshHeap, Heap.extractFrom, hcut, List.range_succ]
  rw [Heap.extractHeapBlocks, htry]

/-! ## Arrays that fit -/

/-- The block of an array holds its header and all its elements. -/
def ArrayBlock.Holds (a : ArrayBlock) : Prop :=
  sizeofArray + a.numOfElements.toNat * a.sizeOfElement ≤ a.bytes

/-- Whenever a call has given the reference an array, its block is large enough. -/
def NeverUnderAllocates (A : Assemblies) (length : UInt32) (reflex : ReflectionDef) : Prop :=
  ∀ (E : Engine) (heap : Heap) (pArray : ArrayBlock),
    (createInstance A E heap length reflex).reference = some pArray →
      pArray.numOfElements = length ∧ pArray.Holds

/-- The size of an array lies right above a multiple of 2^32: taken modulo 2^32, it would be the
size of a block. -/
def Wraps (length size : Nat) : Prop :=
  ∃ k, 0 < k ∧ k * 2 ^ 32 ≤ sizeofArray + length * size + (sizeofHeapBlock - 1) ∧
    sizeofArray + length * size + (sizeofHeapBlock - 1) <
      k * 2 ^ 32 + (hbMaxSize + 1) * sizeofHeapBlock

def lengthHB (length : UInt32) (size : Nat) : Nat :=
  convertFromSizeToHeapBlocks (u32 (sizeofArray + u32 (length.toNat * size)))

theorem lengthHB_eq (length : UInt32) (size : Nat) :
    lengthHB length size =
      (sizeofArray + length.toNat * size + (sizeofHeapBlock - 1)) % 2 ^ 32 / sizeofHeapBlock := by
  rw [lengthHB, convertFromSizeToHeapBlocks, u32, u32, u32, Nat.add_mod_mod, Nat.mod_add_mod]

/-- Rounded up, a size that does not wrap is large enough. -/
theorem holds_of_not_wraps {length : UInt32} {size : Nat} (hsize : lengthHB length size ≤ hbMaxSize)
    (h : ¬Wraps length.toNat size) :
    sizeofArray + length.toNat * size ≤ lengthHB length size * sizeofHeapBlock := by
  rw [lengthHB_eq] at hsize ⊢
  have hquotient : (sizeofArray + length.toNat * size + (sizeofHeapBlock - 1)) / 2 ^ 32 = 0 := by
    by_contra hne
    refine h ⟨_, Nat.pos_of_ne_zero hne, Nat.div_mul_le_self _ _, ?_⟩
    have hdiv := Nat.div_add_mod (sizeofArray + length.toNat * size + (sizeofHeapBlock - 1)) (2 ^ 32)
    have hmod := Nat.lt_mul_of_div_lt (Nat.lt_succ_of_le hsize) (by decide)
    rw [Nat.mul_comm] at hdiv
    rw [Nat.succ_eq_add_one] at hmod
    omega
  rw [Nat.mod_eq_of_lt ((Nat.div_eq_zero_iff_lt (by decide)).mp hquotient)]
  have hround := Nat.lt_div_mul_add (a := sizeofArray + length.toNat * size + (sizeofHeapBlock - 1))
    (b := sizeofHeapBlock) (by decide)
  simp only [sizeofHeapBlock] at hround ⊢
  omega

/-- A size that wraps passes for that of a block, which is too small. -/
theorem not_holds_of_wraps {length : UInt32} {size : Nat} (h : Wraps length.toNat size) :
    lengthHB length size ≤ hbMaxSize ∧
      lengthHB length size * sizeofHeapBlock < sizeofArray + length.toNat * size := by
  obtain ⟨k, hpos, hlow, hhigh⟩ := h
  rw [lengthHB_eq]
  have hmod : (sizeofArray + length.toNat * size + (sizeofHeapBlock - 1)) % 2 ^ 32 =
      sizeofArray + length.toNat * size + (sizeofHeapBlock - 1) - k * 2 ^ 32 := by
    simp only [hbMaxSize, sizeofHeapBlock] at hlow hhigh ⊢
    omega
  rw [hmod]
  have hround := Nat.div_mul_le_self
    (sizeofArray + length.toNat * size + (sizeofHeapBlock - 1) - k * 2 ^ 32) sizeofHeapBlock
  constructor
  · apply Nat.le_of_lt_succ
    apply Nat.div_lt_of_lt_mul
    simp only [hbMaxSize, sizeofHeapBlock] at hlow hhigh ⊢
    omega
  · simp only [sizeofHeapBlock] at hround hlow ⊢
    omega

/-- What `CreateInstance` has extracted, where it gives the reference an array. -/
theorem reference_createInstance {length : UInt32} {reflex : ReflectionDef} {pArray : ArrayBlock}
    (h : (createInstance A E heap length reflex).reference = some pArray) :
    ∃ dt, A.elementType reflex = some dt ∧ reflex.kind = .type ∧ length.toNat < 2 ^ 31 ∧
      dt.sizeInBytes ≠ 0 ∧ lengthHB length dt.sizeInBytes ≤ hbMaxSize ∧
      pArray.block.dataSize = lengthHB length dt.sizeInBytes ∧ pArray.numOfElements = length ∧
      pArray.sizeOfElement = dt.sizeInBytes := by
  rw [createInstance] at h
  split at h
  · cases h
  · next hlength =>
      split at h
      · cases h
      · next hkind =>
          split at h
          · cases h
          · next dt hdt =>
              split at h
              · cases h
              · next hsize =>
                  simp only at h
                  split at h
                  · cases h
                  · next hextract =>
                      cases h
                      rw [extractHeapBlocksForArray] at hextract
                      simp only at hextract
                      split at hextract
                      · cases hextract
                      · next hmax =>
                          obtain ⟨block, hblock, heq⟩ := Option.map_eq_some_iff.mp hextract
                          cases heq
                          exact ⟨dt, hdt, not_not.mp hkind, by omega, hsize, by
                            rw [lengthHB]
                            omega, Heap.dataSize_extractHeapBlocks hblock, rfl, rfl⟩

/-- Every request whose size passes the test is served by some heap. -/
theorem createInstance_freshHeap {length : UInt32} {reflex : ReflectionDef} {dt : DataType}
    (hdt : A.elementType reflex = some dt) (hkind : reflex.kind = .type)
    (hlength : length.toNat < 2 ^ 31) (hsize : dt.sizeInBytes ≠ 0)
    (hmax : lengthHB length dt.sizeInBytes ≤ hbMaxSize) :
    ∃ pArray, (createInstance A E freshHeap length reflex).reference = some pArray := by
  have hblock := extractHeapBlocks_freshHeap (E := E) hmax
  refine ⟨⟨⟨0, lengthHB length dt.sizeInBytes⟩, reflex, length, dt, dt.sizeInBytes,
    !dt.numeric⟩, ?_⟩
  have hextract : (extractHeapBlocksForArray E freshHeap dt length reflex).1 =
      some ⟨⟨0, lengthHB length dt.sizeInBytes⟩, reflex, length, dt, dt.sizeInBytes,
        !dt.numeric⟩ := by
    rw [lengthHB] at hmax hblock
    simp only [extractHeapBlocksForArray, lengthHB, if_neg (Nat.not_lt.mpr hmax), hblock,
      Option.map_some]
  simp only [createInstance, if_neg (Nat.not_le.mpr hlength), hkind, hdt, hsize, hextract,
    ne_eq, not_true_eq_false, if_false]

/-- A request is never given too small a block exactly if its size does not wrap. -/
theorem neverUnderAllocates_iff (A : Assemblies) (length : UInt32) (reflex : ReflectionDef) :
    NeverUnderAllocates A length reflex ↔
      (reflex.kind = .type → length.toNat < 2 ^ 31 →
        ∀ dt, A.elementType reflex = some dt → dt.sizeInBytes ≠ 0 →
          ¬Wraps length.toNat dt.sizeInBytes) := by
  constructor
  · intro h hkind hlength dt hdt hsize hwraps
    obtain ⟨hmax, hsmall⟩ := not_holds_of_wraps hwraps
    let E : Engine := ⟨id, fun heap _ => .ok heap⟩
    obtain ⟨pArray, hcreate⟩ := createInstance_freshHeap (E := E) hdt hkind hlength hsize hmax
    obtain ⟨dt', hdt', -, -, -, -, hdata, -, helement⟩ := reference_createInstance hcreate
    obtain rfl : dt = dt' := Option.some.inj (hdt.symm.trans hdt')
    obtain ⟨hcount, hholds⟩ := h E freshHeap pArray hcreate
    rw [ArrayBlock.Holds, ArrayBlock.bytes, hcount, hdata, helement] at hholds
    omega
  · intro h E heap pArray hcreate
    obtain ⟨dt, hdt, hkind, hlength, hsize, hmax, hdata, hcount, helement⟩ :=
      reference_createInstance hcreate
    refine ⟨hcount, ?_⟩
    rw [ArrayBlock.Holds, ArrayBlock.bytes, hcount, hdata, helement]
    exact holds_of_not_wraps hmax (h hkind hlength dt hdt hsize)

/-- An array of 2^30 integers gets a block of two heap blocks, and no error. -/
theorem not_neverUnderAllocates_sample :
    ¬∀ (A : Assemblies) (length : UInt32) (reflex : ReflectionDef),
      length.toNat < 2 ^ 31 → NeverUnderAllocates A length reflex := by
  intro hall
  have h := hall ⟨fun _ => some .i4, 0⟩ 1073741824 ⟨.type, 1, 1⟩ (by decide)
    ⟨id, fun heap _ => .ok heap⟩ freshHeap
    ⟨⟨0, 2⟩, ⟨.type, 1, 1⟩, 1073741824, .i4, 4, false⟩ (by rfl)
  exact absurd h.2 (by simp [ArrayBlock.Holds, ArrayBlock.bytes, sizeofArray, sizeofHeapBlock])

example : (createInstance ⟨fun _ => some .i4, 0⟩ ⟨id, fun heap _ => .ok heap⟩ freshHeap 1073741824
    ⟨.type, 1, 1⟩).result.map (·.1) = some (.ok ()) := by rfl

end TinyCLR.HeapCluster
