import TinyCLR.HeapBlock.HeapObjects

/-!
# Allocation in the heap

The engine cuts its memory in clusters. A request goes to one cluster after the other, and when none
of them can meet it the garbage is collected and the clusters are asked again.
-/

namespace TinyCLR.ClusterMemory

open HeapBlock (HResult)
open HeapCluster (DataType sizeofHeapBlock hbMaxSize)

def hbSpecialGCAllocation : BitVec 32 := 0x00400
def hbNoGcOnFailure : BitVec 32 := 0x00200
def hbNoGcOnFailedAllocation : BitVec 32 := hbSpecialGCAllocation ||| hbNoGcOnFailure

/-- `sizeof(CLR_RT_HeapCluster)` -/
def sizeofHeapCluster : ℕ := 32

/-- `c_HeapClusterSize` -/
def heapClusterSize : ℕ := sizeofHeapBlock * hbMaxSize

/-- The fields that `HeapCluster_Initialize` sets. -/
def clusterAt (hc size : ℕ) : Cluster where
  head := hc + 8
  tail := hc + 12
  payloadStart := hc + sizeofHeapCluster
  payloadEnd :=
    hc + sizeofHeapCluster + (size - sizeofHeapCluster) / sizeofHeapBlock * sizeofHeapBlock

/-- `m_heap`, `m_lastHcUsed`, and the memory. -/
structure Heap where
  clusters : List Cluster
  lastHcUsed : Option Cluster
  memory : Memory

/-- The size of the blocks of a new cluster, where `i` bytes of clusters came before. -/
def nextBlockSize (i : ℤ) (blockSize : ℕ) : ℕ :=
  if 100 * 1024 * 1024 < i then hbMaxSize
  else if 10 * 1024 * 1024 < i then 10 * 1024
  else if 1024 * 1024 < i then 1 * 1024
  else blockSize

/-- The loop of `AllocateHeaps`, where `i` is signed. -/
def allocateClusters : ℕ → ℕ → ℕ → ℤ → ℕ → List Cluster → Memory → Option (List Cluster × Memory)
  | 0, _, _, _, _, _, _ => none
  | fuel + 1, heapFirstFree, heapFree, i, blockSize, heap, m =>
      if sizeofHeapCluster < heapFree then
        let size := if heapFree < heapClusterSize then heapFree else heapClusterSize
        let blockSize := nextBlockSize i blockSize
        let hc := clusterAt heapFirstFree size
        (m.heapClusterInitialize hc blockSize).bind fun m =>
          allocateClusters fuel (heapFirstFree + size) (heapFree - size) ((i + size).bmod (2 ^ 32))
            blockSize (heap ++ [hc]) m
      else some (heap, m)

/-- `AllocateHeaps` -/
def allocateHeaps (location size : ℕ) (m : Memory) : Option (Except HResult Heap) :=
  if size ≤ sizeofHeapCluster then some (.error .outOfMemory)
  else (allocateClusters (size + 1) location size 0 1 [] m).map fun r => .ok ⟨r.1, none, r.2⟩

/-- The first of the clusters that has a block, with the block. -/
def extractFrom (dataType : DataType) (flags : BitVec 32) (length : ℕ) :
    List Cluster → Memory → Option (Option (Cluster × ℕ) × Memory)
  | [], m => some (none, m)
  | hc :: hcs, m => (m.extractBlocks hc dataType flags length).bind fun r =>
      r.1.elim (extractFrom dataType flags length hcs r.2) fun hb => some (some (hc, hb), r.2)

namespace Heap

/-- A phase of `ExtractHeapBlocks`. -/
def tryExtract (heap : Heap) (dataType : DataType) (flags : BitVec 32) (length : ℕ) :
    Option (Option ℕ × Heap) :=
  if flags &&& hbEvent ≠ 0 then
    (extractFrom dataType flags length heap.clusters.reverse heap.memory).map fun r =>
      (r.1.map Prod.snd, { heap with
        lastHcUsed := if r.1.isSome then heap.lastHcUsed else none
        memory := r.2 })
  else
    -- The cluster that was used last comes first.
    (extractFrom dataType flags length (heap.lastHcUsed.toList ++ heap.clusters) heap.memory).map
      fun r => (r.1.map Prod.snd, { heap with lastHcUsed := r.1.map Prod.fst, memory := r.2 })

/-- The loop of `Sweep` over the clusters. -/
def sweep : List Cluster → Memory → Option Memory
  | [], m => some m
  | hc :: hcs, m => (m.recoverFromGC hc).bind (sweep hcs)

/-- `PerformGarbageCollection`, from the marking on. -/
def performGarbageCollection (heap : Heap) (mark : Memory → Memory) : Option Heap :=
  (sweep heap.clusters (mark heap.memory)).map fun m =>
    { heap with lastHcUsed := none, memory := m }

/-- `ExtractHeapBlocks` -/
def extractHeapBlocks (heap : Heap) (mark : Memory → Memory) (dataType : DataType)
    (flags : BitVec 32) (length : ℕ) : Option (Option ℕ × Heap) :=
  (heap.tryExtract dataType flags length).bind fun r =>
    if r.1.isSome ∨ flags &&& hbNoGcOnFailedAllocation ≠ 0 then some r
    else (r.2.performGarbageCollection mark).bind fun heap => heap.tryExtract dataType flags length

end Heap

variable {m m' m'' : Memory} {heap hcs : List Cluster} {hc hc' : Cluster} {ptr a n length : ℕ}
  {h f g id : Header} {b : ℕ × Header} {tiles l₁ l₂ l : List Header} {dataType : DataType}
  {flags : BitVec 32} {mark : Memory → Memory}

/-! ## Requests -/

/-- The block becomes an object where there was none, and the other objects stay as they are. -/
structure Granted (heap : List Cluster) (m m' : Memory) (ptr : ℕ) (id : Header) : Prop where
  allWell : AllWell heap m'
  fresh : ∀ a, Inside (ptr, id) a → ¬∃ b ∈ objects heap m, Inside b a
  objects : ∃ O₁ O₂, objects heap m = O₁ ++ O₂ ∧ objects heap m' = O₁ ++ (ptr, id) :: O₂
  spared : Frame m m' fun a => ¬∃ b ∈ ClusterMemory.objects heap m, Inside b a

/-- No free block of the cluster is large enough. -/
def Exhausted (m : Memory) (length : ℕ) (hc : Cluster) : Prop :=
  ∀ h ∈ m.blocks hc, h.fits length = false

/-- A request that a cluster cannot meet changes nothing. -/
theorem extractBlocks_none (heq : m.extractBlocks hc dataType flags length = some (none, m')) :
    m' = m := by
  rw [Memory.extractBlocks] at heq
  obtain ⟨⟨ptr, found⟩, -, hr⟩ := Option.bind_eq_some_iff.mp heq
  cases found with
  | true =>
      obtain ⟨r, -, hr⟩ := Option.map_eq_some_iff.mp hr
      cases hr
  | false =>
      cases hr
      rfl

theorem AllWell.extractBlocks (hs : Spaced heap) (hw : AllWell heap m) (hmem : hc ∈ heap)
    (flags : BitVec 32) (hpos : 0 < length) (htype : dataType ≠ .freeBlock) :
    ∃ r m', m.extractBlocks hc dataType flags length = some (r, m') ∧
      (r = none → m' = m ∧ Exhausted m length hc) ∧
      ∀ ptr ∈ r, ¬Exhausted m length hc ∧
        Granted heap m m' ptr (rawId dataType flags length) := by
  have hwf := hw.blocks hmem
  obtain ⟨m', heq, hwf', hframe⟩ := hwf.extractBlocks flags hpos htype
  refine ⟨_, m', heq, ?_, ?_⟩
  · intro hnone
    rw [hnone] at heq
    exact ⟨extractBlocks_none heq, extract_eq_none.mp (Option.map_eq_none_iff.mp hnone)⟩
  · intro ptr hptr
    obtain ⟨r, hr, rfl⟩ := Option.map_eq_some_iff.mp hptr
    rw [hr, Option.map_some, Option.getD_some] at hwf'
    have howns : Frame m m' hc.Owns := hframe.mono fun a => hwf.represents.owns_of_freeSpace
    obtain ⟨O₁, O₂, hold, hnew⟩ := objects_update hs hw hmem hwf'.represents howns
    have hgiven := givenOut hc.payloadStart hwf.tidy htype hr
    obtain ⟨T₁, T₂, htaken, htaken'⟩ := hgiven.taken
    refine ⟨fun hnone => ?_, hw.update hs hmem hwf' howns, fun a ha => ?_,
      ⟨O₁ ++ T₁, T₂ ++ O₂, ?_, ?_⟩, ?_⟩
    · rw [extract_eq_none.mpr hnone] at hr
      cases hr
    · exact hw.not_inside_of_freeSpace hs hmem (.inr (.inr (hgiven.wasFree a ha.1 ha.2)))
    · rw [hold, htaken]
      simp
    · rw [hnew, htaken']
      simp
    · exact hframe.mono fun a => hw.not_inside_of_freeSpace hs hmem

theorem extractFrom_eq (hs : Spaced heap) (hw : AllWell heap m) (hsub : ∀ hc ∈ hcs, hc ∈ heap)
    (flags : BitVec 32) (hpos : 0 < length) (htype : dataType ≠ .freeBlock) :
    ∃ r m', extractFrom dataType flags length hcs m = some (r, m') ∧
      (r = none → m' = m ∧ ∀ hc ∈ hcs, Exhausted m length hc) ∧
      ∀ q ∈ r, q.1 ∈ hcs ∧ ¬(∀ hc ∈ hcs, Exhausted m length hc) ∧
        Granted heap m m' q.2 (rawId dataType flags length) := by
  induction hcs with
  | nil => exact ⟨none, m, rfl, by simp, by simp⟩
  | cons hc hcs ih =>
      obtain ⟨r, m', heq, hnone, hsome⟩ :=
        hw.extractBlocks hs (hsub hc (by simp)) flags hpos htype
      rw [extractFrom, heq, Option.bind_some]
      cases r with
      | none =>
          obtain ⟨rfl, hexhausted⟩ := hnone rfl
          obtain ⟨r, m'', heq', hnone', hsome'⟩ := ih fun hc hmem => hsub hc (by simp [hmem])
          refine ⟨r, m'', heq', fun hr => ?_, fun q hq => ?_⟩
          · obtain ⟨rfl, hrest⟩ := hnone' hr
            exact ⟨rfl, by simpa using ⟨hexhausted, hrest⟩⟩
          · obtain ⟨hin, hnot, hgranted⟩ := hsome' q hq
            exact ⟨by simp [hin], fun hall => hnot fun hc hmem => hall hc (by simp [hmem]),
              hgranted⟩
      | some ptr =>
          obtain ⟨hnot, hgranted⟩ := hsome ptr rfl
          refine ⟨_, _, rfl, by simp, fun q hq => ?_⟩
          cases hq
          exact ⟨by simp, fun hall => hnot (hall hc (by simp)), hgranted⟩

/-- The heap between two operations. -/
structure Heap.Valid (heap : Heap) : Prop where
  spaced : Spaced heap.clusters
  allWell : AllWell heap.clusters heap.memory
  lastHcUsed : ∀ hc ∈ heap.lastHcUsed, hc ∈ heap.clusters

/-- The clusters may be asked in any order. -/
theorem Heap.Valid.extractFrom {heap : Heap} (hv : heap.Valid)
    (hsub : ∀ hc, hc ∈ hcs ↔ hc ∈ heap.clusters) (hpos : 0 < length)
    (htype : dataType ≠ .freeBlock) (last : Option (Cluster × ℕ) → Option Cluster)
    (hlast : ∀ r, (∀ q ∈ r, q.1 ∈ heap.clusters) → ∀ hc ∈ last r, hc ∈ heap.clusters) :
    ∃ r heap', (ClusterMemory.extractFrom dataType flags length hcs heap.memory).map
        (fun r => (r.1.map Prod.snd, Heap.mk heap.clusters (last r.1) r.2)) = some (r, heap') ∧
      heap'.Valid ∧ heap'.clusters = heap.clusters ∧
      (r = none ↔ ∀ hc ∈ heap.clusters, Exhausted heap.memory length hc) ∧
      (r = none → heap'.memory = heap.memory) ∧
      ∀ ptr ∈ r, Granted heap.clusters heap.memory heap'.memory ptr
        (rawId dataType flags length) := by
  obtain ⟨r, m', heq, hnone, hsome⟩ := extractFrom_eq hv.spaced hv.allWell
    (fun hc hmem => (hsub hc).mp hmem) flags hpos htype
  simp only [hsub] at hnone hsome
  rw [heq, Option.map_some]
  refine ⟨_, _, rfl, ⟨hv.spaced, ?_, ?_⟩, rfl, ?_, ?_, ?_⟩
  · cases r with
    | none => exact (hnone rfl).1 ▸ hv.allWell
    | some q => exact (hsome q rfl).2.2.allWell
  · exact hlast r fun q hq => (hsome q hq).1
  · cases r with
    | none => simpa using (hnone rfl).2
    | some q => simpa using (hsome q rfl).2.1
  · intro hr
    exact (hnone (by simpa using hr)).1
  · intro ptr hptr
    obtain ⟨q, hq, rfl⟩ := Option.map_eq_some_iff.mp hptr
    exact (hsome q hq).2.2

/-- A phase fails when every cluster is exhausted, and then changes nothing. -/
theorem Heap.Valid.tryExtract {heap : Heap} (hv : heap.Valid) (flags : BitVec 32)
    (hpos : 0 < length) (htype : dataType ≠ .freeBlock) :
    ∃ r heap', heap.tryExtract dataType flags length = some (r, heap') ∧ heap'.Valid ∧
      heap'.clusters = heap.clusters ∧
      (r = none ↔ ∀ hc ∈ heap.clusters, Exhausted heap.memory length hc) ∧
      (r = none → heap'.memory = heap.memory) ∧
      ∀ ptr ∈ r, Granted heap.clusters heap.memory heap'.memory ptr
        (rawId dataType flags length) := by
  rw [Heap.tryExtract]
  split_ifs with hev
  · refine hv.extractFrom (by simp) hpos htype
      (fun r => if r.isSome then heap.lastHcUsed else none) fun r _ hc hmem => ?_
    split_ifs at hmem
    · exact hv.lastHcUsed hc hmem
    · cases hmem
  · refine hv.extractFrom (fun hc => ?_) hpos htype (Option.map Prod.fst) fun r hr hc hmem => ?_
    · rw [List.mem_append, Option.mem_toList]
      exact or_iff_right_of_imp (hv.lastHcUsed hc)
    · obtain ⟨q, hq, rfl⟩ := Option.map_eq_some_iff.mp hmem
      exact hr q hq

/-! ## Collections -/

theorem Fills.frame {S : ℕ → Prop} (hf : Fills m hc tiles) (hframe : Frame m m' S)
    (hout : ∀ a, hc.Owns a → ¬S a) : Fills m' hc tiles where
  laid := hf.laid
  tiled := by
    refine hf.tiled.congr fun a ha => (hframe a (hout a ⟨?_, ?_⟩)).1
    · have h₁ := hf.laid.head_lt
      have h₂ := hf.laid.tail_lt
      have := le_of_mem_ptrs ha
      omega
    · exact hf.finish ▸ hf.tiled.lt_of_mem_ptrs ha
  finish := hf.finish
  small := hf.small

theorem Fills.owns (hf : Fills m hc (l₁ ++ f :: l₂)) (hlow : hc.payloadStart + extent l₁ ≤ a)
    (hhigh : a < hc.payloadStart + extent l₁ + f.span) : hc.Owns a := by
  have h₁ := hf.laid.head_lt
  have h₂ := hf.laid.tail_lt
  have hend := hf.finish
  simp only [extent_append, extent_cons] at hend
  exact ⟨by omega, by omega⟩

theorem SameData.of_frame {S : ℕ → Prop} (hf : Frame m m' S)
    (hout : ∀ a, ptr ≤ a → a < ptr + h.span → ¬S a) : SameData m m' ptr h := fun a hlow hhigh =>
  ⟨(hf a (hout a hlow hhigh)).2.1, (hf a (hout a hlow hhigh)).2.2,
    fun _ => (hf a (hout a hlow hhigh)).1⟩

theorem SameData.trans (h₁ : SameData m m' ptr h) (h₂ : SameData m' m'' ptr h) :
    SameData m m'' ptr h := by
  intro a hlow hhigh
  obtain ⟨hnext, hprev, hid⟩ := h₁ a hlow hhigh
  obtain ⟨hnext', hprev', hid'⟩ := h₂ a hlow hhigh
  exact ⟨hnext'.trans hnext, hprev'.trans hprev, fun hne => (hid' hne).trans (hid hne)⟩

theorem Spaced.tail (hs : Spaced (hc :: hcs)) : Spaced hcs where
  laid hc hmem := hs.laid hc (List.mem_cons_of_mem _ hmem)
  fits hc hmem := hs.fits hc (List.mem_cons_of_mem _ hmem)
  apart := (List.pairwise_cons.mp hs.apart).2

theorem SameData.congr (hs : SameData m m' ptr h) (hsize : f.dataSize = h.dataSize) :
    SameData m m' ptr f := fun a hlow hhigh =>
  hs a hlow (by rwa [Header.span, hsize] at hhigh)

/-- What the sweep makes of a cluster. -/
structure Swept (m m' : Memory) (hc : Cluster) (tiles : List Header) : Prop where
  represents : Represents m' hc (recovered 0 tiles)
  spared : ∀ l₁ f l₂, tiles = l₁ ++ f :: l₂ → f.isAlive = true →
    SameData m m' (hc.payloadStart + extent l₁) f

theorem sweep_eq (hs : Spaced hcs) (tiles : Cluster → List Header)
    (hf : ∀ hc ∈ hcs, Fills m hc (tiles hc))
    (hfree : ∀ hc ∈ hcs, ∀ h ∈ tiles hc, h.isAlive = true → h.isFree = false) :
    ∃ m', Heap.sweep hcs m = some m' ∧ Frame m m' (fun a => ∃ hc ∈ hcs, hc.Owns a) ∧
      ∀ hc ∈ hcs, Swept m m' hc (tiles hc) := by
  induction hcs generalizing m with
  | nil => exact ⟨m, rfl, Frame.refl m _, by simp⟩
  | cons hc hcs ih =>
      have hfirst := hf hc (by simp)
      have hne : ∀ hc' ∈ hcs, hc' ≠ hc := fun hc' hmem heq =>
        (List.nodup_cons.mp hs.nodup).1 (heq ▸ hmem)
      have hapart : ∀ hc' ∈ hcs, ∀ a, hc'.Owns a → ¬hc.Owns a := fun hc' hmem a =>
        hs.not_owns (by simp [hmem]) (by simp) (hne hc' hmem)
      obtain ⟨m₁, heq, hrep, hframe, hspared⟩ := hfirst.recoverFromGC (hfree hc (by simp))
      obtain ⟨m', heq', hframe', hswept⟩ := ih hs.tail
        (fun hc' hmem => (hf hc' (by simp [hmem])).frame hframe (hapart hc' hmem))
        fun hc' hmem => hfree hc' (by simp [hmem])
      have hout : ∀ a, hc.Owns a → ¬∃ hc' ∈ hcs, hc'.Owns a := by
        rintro a ha ⟨hc', hmem, ha'⟩
        exact hapart hc' hmem a ha' ha
      refine ⟨m', by rw [Heap.sweep, heq, Option.bind_some, heq'], ?_, ?_⟩
      · exact (hframe.mono fun a ha => ⟨hc, by simp, ha⟩).trans
          (hframe'.mono fun a ⟨hc', hmem, ha⟩ => ⟨hc', by simp [hmem], ha⟩)
      · intro hc' hmem
        rcases List.mem_cons.mp hmem with rfl | hmem
        · refine ⟨hrep.frame hframe' hout, fun l₁ f l₂ hsplit halive => ?_⟩
          refine (hspared l₁ f l₂ hsplit halive).trans (.of_frame hframe' fun a hlow hhigh => ?_)
          exact hout a ((hsplit ▸ hfirst).owns hlow hhigh)
        · refine ⟨(hswept hc' hmem).represents, fun l₁ f l₂ hsplit halive => ?_⟩
          refine .trans (.of_frame hframe fun a hlow hhigh => ?_)
            ((hswept hc' hmem).spared l₁ f l₂ hsplit halive)
          exact hapart hc' hmem a ((hsplit ▸ hf hc' (by simp [hmem])).owns hlow hhigh)

/-- A collection that left the heap as `m'`, where `m₁` is what the marking had left. -/
structure Collected (heap : List Cluster) (m m₁ m' : Memory) : Prop where
  allWell : AllWell heap m'
  objects : objects heap m' = ((objects heap m).filter fun b => (m₁.id b.1).isAlive).map
    fun b => (b.1, (m₁.id b.1).kept)
  spared : ∀ b ∈ ClusterMemory.objects heap m, (m₁.id b.1).isAlive = true →
    SameData m₁ m' b.1 b.2
  room : ∀ length, 0 < length → ((∃ hc ∈ heap, ¬Exhausted m' length hc) ↔
    ∃ hc ∈ heap, ∃ l₁ dead l₂, m₁.blocks hc = l₁ ++ dead ++ l₂ ∧
      (∀ h ∈ dead, h.isAlive = false) ∧ length ≤ sizes dead)

/-- No object is marked that is free. -/
abbrev Marks (heap : List Cluster) (m m' : Memory) : Prop :=
  Rewrites (fun h => h.isAlive = true → h.isFree = false) heap m m'

theorem not_exhausted_iff :
    ¬Exhausted m length hc ↔ ∃ h ∈ m.blocks hc, h.fits length = true := by
  simp [Exhausted]

theorem Heap.Valid.performGarbageCollection {heap : Heap} (hv : heap.Valid)
    (mark : Memory → Memory)
    (hmark : Marks heap.clusters heap.memory (mark heap.memory)) :
    ∃ heap', heap.performGarbageCollection mark = some heap' ∧ heap'.Valid ∧
      heap'.clusters = heap.clusters ∧
      Collected heap.clusters heap.memory (mark heap.memory) heap'.memory := by
  have hfills : ∀ hc ∈ heap.clusters,
      Fills (mark heap.memory) hc ((mark heap.memory).blocks hc) := by
    intro hc hmem
    have hf := hmark.fills hv.spaced hv.allWell hmem
    rwa [hf.blocks_eq]
  have hblocks : ∀ hc ∈ heap.clusters, (mark heap.memory).blocks hc =
      (ptrs hc.payloadStart (heap.memory.blocks hc)).map (mark heap.memory).id := fun hc hmem =>
    (hmark.fills hv.spaced hv.allWell hmem).blocks_eq
  have hfree : ∀ hc ∈ heap.clusters, ∀ h ∈ (mark heap.memory).blocks hc,
      h.isAlive = true → h.isFree = false := by
    intro hc hmem h hh halive
    rw [hblocks hc hmem] at hh
    obtain ⟨a, ha, rfl⟩ := List.mem_map.mp hh
    exact (hmark.not_free_of_alive hv.spaced hv.allWell hmem ha halive).2
  obtain ⟨m', heq, -, hswept⟩ := sweep_eq hv.spaced (mark heap.memory).blocks hfills hfree
  have hrecovered : ∀ hc ∈ heap.clusters,
      m'.blocks hc = recovered 0 ((mark heap.memory).blocks hc) := fun hc hmem =>
    (hswept hc hmem).represents.blocks_eq
  have hwell : AllWell heap.clusters m' := fun hc hmem => ⟨_, (hswept hc hmem).represents,
    tidy_recovered (hfree hc hmem) (by have := (hfills hc hmem).small; omega)⟩
  refine ⟨⟨heap.clusters, none, m'⟩, by rw [Heap.performGarbageCollection, heq, Option.map_some],
    ⟨hv.spaced, hwell, by simp⟩, rfl, hwell, ?_, ?_, ?_⟩
  · rw [objects, objects, List.filter_flatMap, List.map_flatMap]
    refine List.flatMap_congr fun hc hmem => ?_
    have hsmall := (hfills hc hmem).small
    have htaken : takenBlocks hc.payloadStart (recovered 0 ((mark heap.memory).blocks hc)) = _ :=
      takenBlocks_recovered (hfree hc hmem) (by omega)
    rw [Nat.zero_mul, Nat.add_zero] at htaken
    rw [hrecovered hc hmem, htaken, hblocks hc hmem,
      hmark.filter_isAlive hv.spaced hv.allWell hmem, List.map_map]
    rfl
  · intro b hb halive
    obtain ⟨hc, hmem, hb⟩ := mem_objects.mp hb
    have hin : (b.1, (mark heap.memory).id b.1) ∈
        takenBlocks hc.payloadStart ((mark heap.memory).blocks hc) := by
      refine List.mem_of_mem_filter (p := fun b => b.2.isAlive) ?_
      rw [hblocks hc hmem, hmark.filter_isAlive hv.spaced hv.allWell hmem]
      exact List.mem_map.mpr ⟨b, List.mem_filter.mpr ⟨hb, halive⟩, rfl⟩
    obtain ⟨l₁, l₂, hsplit, -, hptr⟩ := mem_takenBlocks.mp hin
    have hsame := (hswept hc hmem).spared l₁ _ l₂ hsplit halive
    rw [← hptr] at hsame
    exact hsame.congr (hmark.header b (mem_objects.mpr ⟨hc, hmem, hb⟩)).1.symm
  · intro length hpos
    refine exists_congr fun hc => and_congr_right fun hmem => ?_
    have hsmall := (hfills hc hmem).small
    rw [not_exhausted_iff, hrecovered hc hmem, fits_recovered (hfree hc hmem) hsmall hpos]

/-! ## Allocation -/

/-- The request can be met by no cluster, and may start a collection. -/
def Heap.Collects (heap : Heap) (flags : BitVec 32) (length : ℕ) : Prop :=
  (∀ hc ∈ heap.clusters, Exhausted heap.memory length hc) ∧ flags &&& hbNoGcOnFailedAllocation = 0

/-- The outcome of a request, where `m` is the memory that the block is cut from. -/
structure Served (heap heap' : Heap) (marked m : Memory) (dataType : DataType) (flags : BitVec 32)
    (length : ℕ) (r : Option ℕ) : Prop where
  valid : heap'.Valid
  clusters : heap'.clusters = heap.clusters
  none_iff : r = none ↔ (∀ hc ∈ heap.clusters, Exhausted heap.memory length hc) ∧
    (heap.Collects flags length → ∀ hc ∈ heap.clusters, ∀ l₁ dead l₂,
      marked.blocks hc = l₁ ++ dead ++ l₂ → (∀ h ∈ dead, h.isAlive = false) → sizes dead < length)
  collected : heap.Collects flags length → Collected heap.clusters heap.memory marked m
  direct : ¬heap.Collects flags length → m = heap.memory
  refused : r = none → heap'.memory = m
  granted : ∀ ptr ∈ r, Granted heap.clusters m heap'.memory ptr (rawId dataType flags length)

theorem Heap.Valid.extractHeapBlocks {heap : Heap} (hv : heap.Valid) (mark : Memory → Memory)
    (flags : BitVec 32) (hpos : 0 < length) (htype : dataType ≠ .freeBlock)
    (hmark : Marks heap.clusters heap.memory (mark heap.memory)) :
    ∃ r heap' m, heap.extractHeapBlocks mark dataType flags length = some (r, heap') ∧
      Served heap heap' (mark heap.memory) m dataType flags length r := by
  obtain ⟨r, heap₁, heq, hv₁, hclusters, hnone, hsame, hgranted⟩ :=
    hv.tryExtract flags hpos htype
  rw [Heap.extractHeapBlocks, heq, Option.bind_some]
  split_ifs with hdone
  · have hnot : ¬heap.Collects flags length := by
      rintro ⟨hall, hflags⟩
      rcases hdone with hsome | hnogc
      · rw [hnone.mpr hall] at hsome
        cases hsome
      · exact hnogc hflags
    exact ⟨r, heap₁, heap.memory, rfl, {
      valid := hv₁
      clusters := hclusters
      none_iff := hnone.trans (and_iff_left fun hcollects => absurd hcollects hnot).symm
      collected := fun hcollects => absurd hcollects hnot
      direct := fun _ => rfl
      refused := hsame
      granted := hgranted }⟩
  · rw [not_or, Option.not_isSome_iff_eq_none, not_not] at hdone
    obtain ⟨rfl, hflags⟩ := hdone
    have hall := hnone.mp rfl
    have hmark₁ : Marks heap₁.clusters heap₁.memory (mark heap₁.memory) := by
      rwa [hclusters, hsame rfl]
    obtain ⟨heap₂, heq₂, hv₂, hclusters₂, hcollected⟩ := hv₁.performGarbageCollection mark hmark₁
    rw [hclusters, hsame rfl] at hcollected
    obtain ⟨r, heap', heq', hv', hclusters', hnone', hsame', hgranted'⟩ :=
      hv₂.tryExtract flags hpos htype
    rw [hclusters₂, hclusters] at hnone' hgranted' hclusters'
    refine ⟨r, heap', heap₂.memory, ?_, {
      valid := hv'
      clusters := hclusters'
      none_iff := ?_
      collected := fun _ => hcollected
      direct := fun hnot => absurd ⟨hall, hflags⟩ hnot
      refused := hsame'
      granted := hgranted' }⟩
    · simp only [heq₂, Option.bind_some, heq']
    · have hroom := not_congr (hcollected.room length hpos)
      push Not at hroom
      rw [hnone', hroom]
      exact ⟨fun h => ⟨hall, fun _ => h⟩, fun h => h.2 ⟨hall, hflags⟩⟩

end TinyCLR.ClusterMemory
