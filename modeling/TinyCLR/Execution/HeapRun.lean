import TinyCLR.Execution.HeapAllocation
import TinyCLR.Library.TransitionSystem

/-!
# Runs of the heap

The engine sets up its heap once. From then on requests, collections and the program take turns on
its memory, in any order.
-/

namespace TinyCLR.ClusterMemory

open HeapBlock (HResult)
open HeapCluster (DataType sizeofHeapBlock hbMaxSize)
open TransitionSystem

variable {m m' : Memory} {heap : List Cluster} {hc : Cluster} {a n fuel : ℕ} {i : ℤ}
  {location size heapFirstFree heapFree blockSize : ℕ}

/-! ## The first state -/

theorem nextBlockSize_bounds (hpos : 0 < blockSize) (hle : blockSize ≤ hbMaxSize) :
    0 < nextBlockSize i blockSize ∧ nextBlockSize i blockSize ≤ hbMaxSize := by
  rw [nextBlockSize, hbMaxSize] at *
  split_ifs <;> omega

/-- The clusters so far lie in front of the memory that is left. -/
structure Allocated (heap : List Cluster) (m : Memory) (location heapFirstFree : ℕ) : Prop where
  spaced : Spaced heap
  allWell : AllWell heap m
  within : ∀ hc ∈ heap, location ≤ hc.head ∧ hc.payloadEnd ≤ heapFirstFree

theorem clusterAt_laid (heapFirstFree size : ℕ) : (clusterAt heapFirstFree size).Laid :=
  ⟨Nat.add_lt_add_left (by decide) _, Nat.add_lt_add_left (by decide) _⟩

theorem clusterAt_end (hlt : sizeofHeapCluster < size) :
    (clusterAt heapFirstFree size).payloadEnd ≤ heapFirstFree + size := by
  have := Nat.div_mul_le_self (size - sizeofHeapCluster) sizeofHeapBlock
  simp only [clusterAt]
  omega

/-- One turn of the loop. -/
theorem Allocated.next (ha : Allocated heap m location heapFirstFree)
    (hle : location ≤ heapFirstFree) (hlt : sizeofHeapCluster < size)
    (hsize : size ≤ heapClusterSize) (hpos : 0 < blockSize) (hmax : blockSize ≤ hbMaxSize)
    (hwrap : heapFirstFree + size + heapClusterSize < 2 ^ 32) :
    ∃ m', m.heapClusterInitialize (clusterAt heapFirstFree size) blockSize = some m' ∧
      Allocated (heap ++ [clusterAt heapFirstFree size]) m' location (heapFirstFree + size) := by
  have hmul := Nat.div_mul_le_self (size - sizeofHeapCluster) sizeofHeapBlock
  rw [heapClusterSize, hbMaxSize, sizeofHeapBlock, sizeofHeapCluster] at *
  have hl := clusterAt_laid heapFirstFree size
  have hend : (clusterAt heapFirstFree size).payloadStart + (size - 32) / 12 * sizeofHeapBlock =
      (clusterAt heapFirstFree size).payloadEnd := rfl
  have hhead : (clusterAt heapFirstFree size).head = heapFirstFree + 8 := rfl
  have hstart : (clusterAt heapFirstFree size).payloadStart = heapFirstFree + 32 := rfl
  rw [sizeofHeapBlock] at hend
  obtain ⟨m', heq, hrep, hframe⟩ := heapClusterInitialize_eq (m := m) hl hend (by omega) hpos
    (by omega) (by rw [sizeofHeapBlock]; omega)
  refine ⟨m', heq, ⟨?_, ?_, ?_⟩, ?_, ?_⟩
  · intro hc hmem
    rcases List.mem_append.mp hmem with hmem | hmem
    · exact ha.spaced.laid hc hmem
    · exact List.mem_singleton.mp hmem ▸ hl
  · intro hc hmem
    rcases List.mem_append.mp hmem with hmem | hmem
    · exact ha.spaced.fits hc hmem
    · rw [List.mem_singleton.mp hmem, sizeofHeapBlock]
      omega
  · refine List.pairwise_append.mpr ⟨ha.spaced.apart, List.pairwise_singleton .., ?_⟩
    intro hc hmem hc' hmem'
    have := (ha.within hc hmem).2
    rw [List.mem_singleton.mp hmem', hhead]
    omega
  · intro hc hmem
    rcases List.mem_append.mp hmem with hmem | hmem
    · obtain ⟨tiles, hwf⟩ := ha.allWell hc hmem
      refine ⟨tiles, hwf.represents.frame hframe fun a hin hout => ?_, hwf.tidy⟩
      have := (ha.within hc hmem).2
      have := hin.2
      have := hout.1
      omega
    · rw [List.mem_singleton.mp hmem]
      exact ⟨_, hrep, tidy_pending (by omega)⟩
  · intro hc hmem
    rcases List.mem_append.mp hmem with hmem | hmem
    · have := ha.within hc hmem
      omega
    · rw [List.mem_singleton.mp hmem]
      omega

/-- The loop of `AllocateHeaps` stays in the memory that it is given, and every cluster that it
makes is well formed. -/
theorem allocateClusters_eq (ha : Allocated heap m location heapFirstFree)
    (hle : location ≤ heapFirstFree) (hpos : 0 < blockSize) (hmax : blockSize ≤ hbMaxSize)
    (hwrap : heapFirstFree + heapFree + heapClusterSize < 2 ^ 32) (hfuel : heapFree < fuel) :
    ∃ heap' m', allocateClusters fuel heapFirstFree heapFree i blockSize heap m = some (heap', m') ∧
      Allocated heap' m' location (heapFirstFree + heapFree) := by
  induction fuel generalizing heapFirstFree heapFree i blockSize heap m with
  | zero => omega
  | succ fuel ih =>
      rw [allocateClusters]
      by_cases hlt : sizeofHeapCluster < heapFree
      · rw [if_pos hlt]
        have hsize : ∀ size,
            (if heapFree < heapClusterSize then heapFree else heapClusterSize) = size →
              sizeofHeapCluster < size ∧ size ≤ heapFree ∧ size ≤ heapClusterSize := by
          rintro size rfl
          have : sizeofHeapCluster < heapClusterSize := by decide
          split_ifs <;> omega
        generalize (if heapFree < heapClusterSize then heapFree else heapClusterSize) = size at *
        obtain ⟨hcluster, hfree, hlarge⟩ := hsize size rfl
        obtain ⟨hpos', hmax'⟩ := nextBlockSize_bounds (i := i) hpos hmax
        obtain ⟨m', heq, ha'⟩ := ha.next hle hcluster hlarge hpos' hmax' (by omega)
        have hwrap' : heapFirstFree + size + (heapFree - size) + heapClusterSize < 2 ^ 32 := by
          omega
        obtain ⟨heap', m'', heq', hall⟩ := ih (i := (i + size).bmod (2 ^ 32)) ha' (by omega) hpos'
          hmax' hwrap' (by omega)
        refine ⟨heap', m'', ?_, ?_⟩
        · simp only [heq, Option.bind_some, heq']
        · rwa [Nat.add_assoc, Nat.add_sub_cancel' hfree] at hall
      · rw [if_neg hlt]
        exact ⟨heap, m, rfl, ha.spaced, ha.allWell, fun hc hmem =>
          ⟨(ha.within hc hmem).1, (ha.within hc hmem).2.trans (Nat.le_add_right _ _)⟩⟩

theorem allocateHeaps_eq (hlt : sizeofHeapCluster < size)
    (hwrap : location + size + heapClusterSize < 2 ^ 32) :
    ∃ heap, allocateHeaps location size m = some (.ok heap) ∧ heap.Valid ∧
      ∀ hc ∈ heap.clusters, location ≤ hc.head ∧ hc.payloadEnd ≤ location + size := by
  have hstart : Allocated [] m location location :=
    ⟨⟨by simp, by simp, .nil⟩, by simp [AllWell], by simp⟩
  obtain ⟨heap, m', heq, ha⟩ := allocateClusters_eq (i := 0) hstart le_rfl Nat.one_pos (by decide)
    hwrap (Nat.lt_add_one size)
  exact ⟨_, by rw [allocateHeaps, if_neg (by omega), heq, Option.map_some],
    ⟨ha.spaced, ha.allWell, by simp⟩, ha.within⟩

/-! ## Steps -/

inductive Action where
  | extract (dataType : DataType) (flags : BitVec 32) (length : ℕ) (marked : Memory)
  | collect (marked : Memory)
  | write (written : Memory)

def step (heap : Heap) : Action → Option Heap
  | .extract dataType flags length marked =>
      (heap.extractHeapBlocks (fun _ => marked) dataType flags length).map Prod.snd
  | .collect marked => heap.performGarbageCollection fun _ => marked
  | .write written => some { heap with memory := written }

/-- What the engine and the program ask of the heap. -/
def Admitted (heap : Heap) : Action → Prop
  | .extract dataType _ length marked =>
      dataType ≠ .freeBlock ∧ 0 < length ∧ Marks heap.clusters heap.memory marked
  | .collect marked => Marks heap.clusters heap.memory marked
  | .write written => Rewrites (fun h => h.isFree = false) heap.clusters heap.memory written

theorem Heap.Valid.step {heap : Heap} (hv : heap.Valid) {action : Action}
    (hadm : Admitted heap action) :
    ∃ heap', ClusterMemory.step heap action = some heap' ∧ heap'.Valid ∧
      heap'.clusters = heap.clusters := by
  cases action with
  | extract dataType flags length marked =>
      obtain ⟨htype, hpos, hmarks⟩ := hadm
      obtain ⟨r, heap', m, heq, hserved⟩ :=
        hv.extractHeapBlocks (fun _ => marked) flags hpos htype hmarks
      exact ⟨heap', by rw [ClusterMemory.step, heq, Option.map_some], hserved.valid,
        hserved.clusters⟩
  | collect marked =>
      obtain ⟨heap', heq, hv', hclusters, -⟩ :=
        hv.performGarbageCollection (fun _ => marked) hadm
      exact ⟨heap', heq, hv', hclusters⟩
  | write written =>
      exact ⟨_, rfl, ⟨hv.spaced, hadm.allWell hv.spaced hv.allWell, hv.lastHcUsed⟩, rfl⟩

/-- The states that the heap of an engine can get in. -/
abbrev HeapReachable (location size : ℕ) (m : Memory) : Heap → Prop :=
  Reachable step (fun heap => allocateHeaps location size m = some (.ok heap)) Admitted

theorem HeapReachable.valid {heap : Heap} (hlt : sizeofHeapCluster < size)
    (hwrap : location + size + heapClusterSize < 2 ^ 32)
    (hr : HeapReachable location size m heap) :
    heap.Valid ∧ ∀ hc ∈ heap.clusters, location ≤ hc.head ∧ hc.payloadEnd ≤ location + size := by
  obtain ⟨first, heq, hvfirst, hwithin⟩ := allocateHeaps_eq (m := m) hlt hwrap
  refine hr.invariant (fun heap => heap.Valid ∧
    ∀ hc ∈ heap.clusters, location ≤ hc.head ∧ hc.payloadEnd ≤ location + size) ?_ ?_
  · intro heap hstart
    rw [heq] at hstart
    cases hstart
    exact ⟨hvfirst, hwithin⟩
  · rintro heap action heap' ⟨hv, hin⟩ hadm hstep
    obtain ⟨heap'', hstep', hv', hclusters⟩ := hv.step hadm
    rw [hstep] at hstep'
    cases hstep'
    exact ⟨hv', hclusters ▸ hin⟩

/-! ## Objects that are kept -/

/-- There is an object of that size at that address. -/
def Holds (heap : List Cluster) (m : Memory) (b : ℕ × Header) : Prop :=
  ∃ h, (b.1, h) ∈ objects heap m ∧ h.dataSize = b.2.dataSize

/-- The action does not write to the data of the block, and a collection finds it alive. -/
def Spares (b : ℕ × Header) (heap : Heap) : Action → Prop
  | .extract _ flags length marked => heap.Collects flags length →
      SameData heap.memory marked b.1 b.2 ∧ (marked.id b.1).isAlive = true
  | .collect marked => SameData heap.memory marked b.1 b.2 ∧ (marked.id b.1).isAlive = true
  | .write written => SameData heap.memory written b.1 b.2

variable {b : ℕ × Header} {ptr length : ℕ} {id : Header} {marked : Memory}

theorem SameData.refl (m : Memory) (ptr : ℕ) (h : Header) : SameData m m ptr h := fun _ _ _ =>
  ⟨rfl, rfl, fun _ => rfl⟩

theorem Granted.keeps (hg : Granted heap m m' ptr id) (hb : Holds heap m b) :
    Holds heap m' b ∧ SameData m m' b.1 b.2 := by
  obtain ⟨h, hmem, hsize⟩ := hb
  obtain ⟨O₁, O₂, hold, hnew⟩ := hg.objects
  refine ⟨⟨h, ?_, hsize⟩, .of_frame hg.spared fun a hlow hhigh hnot =>
    hnot ⟨(b.1, h), hmem, hlow, ?_⟩⟩
  · rw [hold] at hmem
    rw [hnew]
    rcases List.mem_append.mp hmem with hmem | hmem <;> simp [hmem]
  · rwa [Header.span, hsize]

theorem Collected.keeps (hcol : Collected heap m marked m') (hmarks : Marks heap m marked)
    (hb : Holds heap m b) (hsame : SameData m marked b.1 b.2)
    (halive : (marked.id b.1).isAlive = true) : Holds heap m' b ∧ SameData m m' b.1 b.2 := by
  obtain ⟨h, hmem, hsize⟩ := hb
  refine ⟨⟨(marked.id b.1).kept, ?_, ?_⟩,
    hsame.trans ((hcol.spared _ hmem halive).congr hsize.symm)⟩
  · rw [hcol.objects]
    exact List.mem_map.mpr ⟨(b.1, h), List.mem_filter.mpr ⟨hmem, halive⟩, rfl⟩
  · rw [kept_dataSize, ← hsize]
    exact (hmarks.header _ hmem).1

/-- A step keeps the objects that it spares. -/
theorem Heap.Valid.keeps {heap heap' : Heap} (hv : heap.Valid) {action : Action}
    (hadm : Admitted heap action) (hspares : Spares b heap action)
    (hstep : ClusterMemory.step heap action = some heap')
    (hb : Holds heap.clusters heap.memory b) :
    Holds heap'.clusters heap'.memory b ∧ SameData heap.memory heap'.memory b.1 b.2 := by
  cases action with
  | extract dataType flags length marked =>
      obtain ⟨htype, hpos, hmarks⟩ := hadm
      obtain ⟨r, heap'', m, heq, hserved⟩ :=
        hv.extractHeapBlocks (fun _ => marked) flags hpos htype hmarks
      rw [ClusterMemory.step, heq, Option.map_some] at hstep
      cases hstep
      rw [hserved.clusters]
      have hfirst : Holds heap.clusters m b ∧ SameData heap.memory m b.1 b.2 := by
        by_cases hcol : heap.Collects flags length
        · exact (hserved.collected hcol).keeps hmarks hb (hspares hcol).1 (hspares hcol).2
        · rw [hserved.direct hcol]
          exact ⟨hb, .refl _ _ _⟩
      cases r with
      | none => rwa [hserved.refused rfl]
      | some ptr =>
          obtain ⟨hholds, hsame⟩ := (hserved.granted ptr rfl).keeps hfirst.1
          exact ⟨hholds, hfirst.2.trans hsame⟩
  | collect marked =>
      obtain ⟨heap'', heq, -, hclusters, hcollected⟩ :=
        hv.performGarbageCollection (fun _ => marked) hadm
      rw [ClusterMemory.step, heq] at hstep
      cases hstep
      rw [hclusters]
      exact hcollected.keeps hadm hb hspares.1 hspares.2
  | write written =>
      cases hstep
      obtain ⟨h, hmem, hsize⟩ := hb
      refine ⟨⟨written.id b.1, ?_, (hadm.header _ hmem).1.trans hsize⟩, hspares⟩
      rw [hadm.objects_eq hv.spaced hv.allWell]
      exact List.mem_map.mpr ⟨_, hmem, rfl⟩

/-- What a run of such steps keeps. -/
theorem Heap.Valid.keeps_run {heap heap' : Heap} (hv : heap.Valid) {actions : List Action}
    (hb : Holds heap.clusters heap.memory b)
    (hadm : AdmittedRun ClusterMemory.step
      (fun heap action => Admitted heap action ∧ Spares b heap action) heap actions)
    (hrun : run ClusterMemory.step heap actions = some heap') :
    Holds heap'.clusters heap'.memory b ∧ SameData heap.memory heap'.memory b.1 b.2 := by
  induction actions generalizing heap with
  | nil =>
      cases hrun
      exact ⟨hb, .refl _ _ _⟩
  | cons action actions ih =>
      obtain ⟨⟨hadm, hspares⟩, heap₁, hstep, hrest⟩ := hadm
      rw [run_cons, Option.mem_def.mp hstep, Option.bind_some] at hrun
      obtain ⟨heap₂, hstep', hv₁, -⟩ := hv.step hadm
      rw [Option.mem_def.mp hstep] at hstep'
      cases hstep'
      obtain ⟨hb₁, hsame⟩ := hv.keeps hadm hspares hstep hb
      obtain ⟨hb', hsame'⟩ := ih hv₁ hb₁ hrest hrun
      exact ⟨hb', hsame.trans hsame'⟩

/-! ## Reachable heaps -/

/-- A heap of four blocks, and a request that takes two of them for a timer. -/
def blankMemory : Memory := ⟨⟨fun _ => none, fun _ => none⟩, fun _ => ⟨.void, 0, 0⟩⟩

def timerRequest (heap : Heap) : Action := .extract .timerHead 5 2 heap.memory

theorem AllWell.marks_self (hw : AllWell heap m) : Marks heap m m :=
  hw.rewrites_self fun _ hf _ => hf

theorem timerRequest_served : ∃ heap heap',
    allocateHeaps 0 80 blankMemory = some (.ok heap) ∧ HeapReachable 0 80 blankMemory heap ∧
      heap.Valid ∧ step heap (timerRequest heap) = some heap' ∧
      HeapReachable 0 80 blankMemory heap' ∧ heap'.Valid ∧
      objects heap'.clusters heap'.memory = [(56, rawId .timerHead 5 2)] := by
  have hlt : sizeofHeapCluster < 80 := by decide
  have hwrap : 0 + 80 + heapClusterSize < 2 ^ 32 := by decide
  obtain ⟨heap, heq, hv, -⟩ := allocateHeaps_eq (m := blankMemory) hlt hwrap
  have hadm : Admitted heap (timerRequest heap) :=
    ⟨by decide, Nat.zero_lt_two, hv.allWell.marks_self⟩
  obtain ⟨heap', hstep, hv', -⟩ := hv.step hadm
  refine ⟨heap, heap', heq, .start heq, hv, hstep, .next (.start heq) hadm hstep, hv', ?_⟩
  have hobjects : (((allocateHeaps 0 80 blankMemory).bind Except.toOption).bind fun heap =>
      step heap (timerRequest heap)).map (fun heap => objects heap.clusters heap.memory) =
        some [(56, rawId .timerHead 5 2)] := by decide +kernel
  simpa [heq, Except.toOption, hstep] using hobjects

end TinyCLR.ClusterMemory
