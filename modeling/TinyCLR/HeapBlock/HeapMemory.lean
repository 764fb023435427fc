import TinyCLR.HeapBlock.ClusterHeap

/-!
# The memory of the heap

The clusters of the heap lie one behind the other. An operation on one of them leaves the others as
they are.
-/

namespace TinyCLR.ClusterMemory

open HeapCluster (DataType sizeofHeapBlock)
open DoublyLinked

/-- The clusters lie one behind the other, and none is larger than a block can be. -/
structure Spaced (heap : List Cluster) : Prop where
  laid : ∀ hc ∈ heap, hc.Laid
  fits : ∀ hc ∈ heap, hc.payloadStart ≤ hc.payloadEnd ∧
    hc.payloadEnd < hc.payloadStart + 2 ^ 16 * sizeofHeapBlock
  apart : heap.Pairwise fun hc hc' => hc.payloadEnd ≤ hc'.head

/-- A cluster between two operations. -/
structure WellFormed (m : Memory) (hc : Cluster) (tiles : List Header) : Prop where
  represents : Represents m hc tiles
  tidy : Tidy tiles

/-- The heap between two operations. -/
def AllWell (heap : List Cluster) (m : Memory) : Prop := ∀ hc ∈ heap, ∃ tiles, WellFormed m hc tiles

variable {m m' : Memory} {heap : List Cluster} {hc hc' : Cluster} {ptr a n length : ℕ}
  {h f g : Header} {tiles l₁ l₂ l : List Header} {dataType : DataType} {flags : BitVec 32}
  {S : ℕ → Prop}

theorem Spaced.order (hs : Spaced heap) (hmem : hc ∈ heap) (hmem' : hc' ∈ heap) (hne : hc ≠ hc') :
    hc.payloadEnd ≤ hc'.head ∨ hc'.payloadEnd ≤ hc.head := by
  have hapart := hs.apart
  clear hs
  induction hapart with
  | nil => cases hmem
  | cons hfirst _ ih =>
      rcases List.mem_cons.mp hmem with rfl | hin
      · rcases List.mem_cons.mp hmem' with rfl | hin'
        · exact absurd rfl hne
        · exact .inl (hfirst _ hin')
      · rcases List.mem_cons.mp hmem' with rfl | hin'
        · exact .inr (hfirst _ hin)
        · exact ih hin hin'

/-- No address belongs to two clusters. -/
theorem Spaced.not_owns (hs : Spaced heap) (hmem : hc ∈ heap) (hmem' : hc' ∈ heap) (hne : hc ≠ hc')
    (ha : hc.Owns a) : ¬hc'.Owns a := by
  rintro ⟨hlow, hhigh⟩
  obtain ⟨hlow', hhigh'⟩ := ha
  have := hs.order hmem hmem' hne
  omega

/-! ## Frames -/

/-- A cluster depends on its own addresses only. -/
theorem Represents.frame (hr : Represents m hc tiles) (hf : Frame m m' S)
    (hout : ∀ a, hc.Owns a → ¬S a) : Represents m' hc tiles where
  laid := hr.laid
  tiled := hr.tiled.congr fun a ha => (hf a (hout a (hr.mem_ptrs_owns ha))).1
  finish := hr.finish
  free := by
    have howns : ∀ a ∈ hc.head :: (freePtrs hc.payloadStart tiles ++ [hc.tail]), ¬S a :=
      fun a ha => hout a (hr.owns_of_freeSpace (hr.freeSpace ha))
    exact hr.free.congr (fun a ha => (hf a (howns a ha)).2.1) fun a ha => (hf a (howns a ha)).2.2

theorem Represents.fills (hr : Represents m hc tiles)
    (hlt : hc.payloadEnd < hc.payloadStart + 2 ^ 16 * sizeofHeapBlock) : Fills m hc tiles := by
  refine ⟨hr.laid, hr.tiled, hr.finish, ?_⟩
  have hend := hr.finish
  rw [extent_eq] at hend
  rw [sizeofHeapBlock] at *
  omega

/-- One cluster changes and stays well formed, so the heap does. -/
theorem AllWell.update (hs : Spaced heap) (hw : AllWell heap m) (hmem : hc ∈ heap)
    (hwf : WellFormed m' hc tiles) (hf : Frame m m' hc.Owns) : AllWell heap m' := by
  intro hc' hmem'
  by_cases heq : hc' = hc
  · exact heq ▸ ⟨tiles, hwf⟩
  · obtain ⟨tiles', hwf'⟩ := hw hc' hmem'
    exact ⟨tiles', hwf'.represents.frame hf fun a => hs.not_owns hmem' hmem heq, hwf'.tidy⟩

/-! ## Extraction -/

/-- `ExtractBlocks` keeps a well formed cluster well formed. -/
theorem WellFormed.extractBlocks (hw : WellFormed m hc tiles) (flags : BitVec 32)
    (hpos : 0 < length) (htype : dataType ≠ .freeBlock) :
    ∃ m', m.extractBlocks hc dataType flags length = some
        ((extract dataType flags length tiles).map fun r => hc.payloadStart + r.1, m') ∧
      WellFormed m' hc (((extract dataType flags length tiles).map Prod.snd).getD tiles) ∧
      Frame m m' (FreeSpace hc tiles) := by
  obtain ⟨m', heq, hrep, hframe⟩ := hw.represents.extractBlocks flags hpos htype
  refine ⟨m', heq, ⟨hrep, ?_⟩, hframe⟩
  cases hext : extract dataType flags length tiles with
  | none => exact hw.tidy
  | some r => exact (givenOut 0 hw.tidy htype hext).tidy

end TinyCLR.ClusterMemory
