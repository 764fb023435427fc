import TinyCLR.HeapBlock.ClusterMemory

/-!
# The blocks of a cluster

A cluster stands for the list of the headers that a walk from the start of its payload meets. The
walk ends at the end of the payload, and the list of free blocks links the free ones in the order of
their addresses.
-/

namespace TinyCLR.ClusterMemory

open HeapCluster (DataType sizeofHeapBlock)
open DoublyLinked DoublyLinked.Links

namespace Header

def isFree (h : Header) : Bool := h.dataType = .freeBlock

/-- The bytes of the block. -/
def span (h : Header) : ℕ := h.dataSize * sizeofHeapBlock

end Header

/-- The bytes of a sequence of blocks. -/
def extent (tiles : List Header) : ℕ := (tiles.map Header.span).sum

/-- The addresses of the blocks. -/
def ptrs : ℕ → List Header → List ℕ
  | _, [] => []
  | ptr, h :: tiles => ptr :: ptrs (ptr + h.span) tiles

/-- The addresses of the free blocks. -/
def freePtrs : ℕ → List Header → List ℕ
  | _, [] => []
  | ptr, h :: tiles =>
      if h.isFree then ptr :: freePtrs (ptr + h.span) tiles else freePtrs (ptr + h.span) tiles

/-- The blocks from an address on. -/
def Tiled (m : Memory) : ℕ → List Header → Prop
  | _, [] => True
  | ptr, h :: tiles => m.id ptr = h ∧ 0 < h.dataSize ∧ Tiled m (ptr + h.span) tiles

/-- The address lies in one of the blocks that meet the condition. -/
def Space (p : Header → Prop) (ptr : ℕ) (tiles : List Header) (a : ℕ) : Prop :=
  ∃ l₁ f l₂, tiles = l₁ ++ f :: l₂ ∧ p f ∧ ptr + extent l₁ ≤ a ∧ a < ptr + extent l₁ + f.span

/-- The sentinels lie in front of the payload. -/
structure Cluster.Laid (hc : Cluster) : Prop where
  head_lt : hc.head < hc.tail
  tail_lt : hc.tail < hc.payloadStart

/-- The addresses that belong to a cluster. -/
def Cluster.Owns (hc : Cluster) (a : ℕ) : Prop := hc.head ≤ a ∧ a < hc.payloadEnd

/-- The cluster consists of these blocks. -/
structure Represents (m : Memory) (hc : Cluster) (tiles : List Header) : Prop where
  laid : hc.Laid
  tiled : Tiled m hc.payloadStart tiles
  finish : hc.payloadStart + extent tiles = hc.payloadEnd
  free : m.IsList hc.head (freePtrs hc.payloadStart tiles) hc.tail

variable {m m' : Memory} {hc : Cluster} {ptr a : ℕ} {h f : Header} {tiles l₁ l₂ l : List Header}

@[simp] theorem extent_nil : extent [] = 0 := rfl

@[simp] theorem extent_cons : extent (h :: tiles) = h.span + extent tiles := List.sum_cons

@[simp] theorem extent_append : extent (l₁ ++ l₂) = extent l₁ + extent l₂ := by
  simp [extent]

theorem ptrs_append : ptrs ptr (l₁ ++ l₂) = ptrs ptr l₁ ++ ptrs (ptr + extent l₁) l₂ := by
  induction l₁ generalizing ptr with
  | nil => rfl
  | cons h l₁ ih => simp [ptrs, ih, Nat.add_assoc]

theorem freePtrs_append :
    freePtrs ptr (l₁ ++ l₂) = freePtrs ptr l₁ ++ freePtrs (ptr + extent l₁) l₂ := by
  induction l₁ generalizing ptr with
  | nil => rfl
  | cons h l₁ ih => by_cases hf : h.isFree <;> simp [freePtrs, hf, ih, Nat.add_assoc]

theorem freePtrs_sublist : (freePtrs ptr tiles).Sublist (ptrs ptr tiles) := by
  induction tiles generalizing ptr with
  | nil => exact .slnil
  | cons h tiles ih =>
      by_cases hf : h.isFree
      · simpa [freePtrs, ptrs, hf] using ih
      · simpa [freePtrs, ptrs, hf] using ih.cons _

theorem tiled_append :
    Tiled m ptr (l₁ ++ l₂) ↔ Tiled m ptr l₁ ∧ Tiled m (ptr + extent l₁) l₂ := by
  induction l₁ generalizing ptr with
  | nil => simp [Tiled]
  | cons h l₁ ih => simp [Tiled, ih, Nat.add_assoc, and_assoc]

theorem Space.append {p : Header → Prop} (l₁ : List Header)
    (h : Space p (ptr + extent l₁) l₂ a) : Space p ptr (l₁ ++ l₂) a := by
  obtain ⟨k₁, f, k₂, rfl, hf, hlow, hhigh⟩ := h
  refine ⟨l₁ ++ k₁, f, k₂, by simp, hf, ?_, ?_⟩ <;> rw [extent_append] <;> omega

/-- Two blocks of a sequence do not overlap. -/
theorem Space.of_inside {p : Header → Prop} (h : Space p ptr (l₁ ++ f :: l₂) a)
    (hlow : ptr + extent l₁ ≤ a) (hhigh : a < ptr + extent l₁ + f.span) : p f := by
  obtain ⟨k₁, g, k₂, heq, hg, hlow', hhigh'⟩ := h
  rcases List.append_eq_append_iff.mp heq with ⟨l, rfl, hl⟩ | ⟨l, rfl, hl⟩
  · cases l with
    | nil => exact (List.cons.inj hl).1 ▸ hg
    | cons d l =>
        obtain ⟨rfl, -⟩ := List.cons.inj hl
        simp only [extent_append, extent_cons] at hlow'
        omega
  · cases l with
    | nil => exact (List.cons.inj hl).1 ▸ hg
    | cons d l =>
        obtain ⟨rfl, -⟩ := List.cons.inj hl
        simp only [extent_append, extent_cons] at hlow
        omega

theorem Tiled.congr (ht : Tiled m ptr tiles) (hid : ∀ a ∈ ptrs ptr tiles, m'.id a = m.id a) :
    Tiled m' ptr tiles := by
  induction tiles generalizing ptr with
  | nil => trivial
  | cons h tiles ih =>
      simp only [ptrs, List.mem_cons, forall_eq_or_imp] at hid
      exact ⟨hid.1.trans ht.1, ht.2.1, ih ht.2.2 hid.2⟩

theorem Tiled.span_pos (ht : Tiled m ptr (h :: tiles)) : 0 < h.span :=
  Nat.mul_pos ht.2.1 (by decide)

theorem le_of_mem_ptrs (ha : a ∈ ptrs ptr tiles) : ptr ≤ a := by
  induction tiles generalizing ptr with
  | nil => simp [ptrs] at ha
  | cons h tiles ih =>
      rcases List.mem_cons.mp ha with rfl | ha
      · exact le_rfl
      · exact le_of_add_le_left (ih ha)

theorem Tiled.lt_of_mem_ptrs (ht : Tiled m ptr tiles) (ha : a ∈ ptrs ptr tiles) :
    a < ptr + extent tiles := by
  induction tiles generalizing ptr with
  | nil => simp [ptrs] at ha
  | cons h tiles ih =>
      have hpos := ht.span_pos
      rw [extent_cons]
      rcases List.mem_cons.mp ha with rfl | ha
      · omega
      · have := ih ht.2.2 ha
        omega

theorem Tiled.pairwise_ptrs (ht : Tiled m ptr tiles) : (ptrs ptr tiles).Pairwise (· < ·) := by
  induction tiles generalizing ptr with
  | nil => exact .nil
  | cons h tiles ih =>
      refine .cons (fun a ha => ?_) (ih ht.2.2)
      have := ht.span_pos
      have := le_of_mem_ptrs ha
      omega

theorem Tiled.length_le (ht : Tiled m ptr tiles) : tiles.length ≤ extent tiles := by
  induction tiles generalizing ptr with
  | nil => exact le_rfl
  | cons h tiles ih =>
      have := ih ht.2.2
      have := ht.span_pos
      rw [List.length_cons, extent_cons]
      omega

theorem length_ptrs : (ptrs ptr tiles).length = tiles.length := by
  induction tiles generalizing ptr with
  | nil => rfl
  | cons h tiles ih => simp [ptrs, ih]

namespace Represents

/-- The search through the free blocks does not run out of fuel. -/
theorem length_lt_fuel (hr : Represents m hc tiles) :
    (freePtrs hc.payloadStart tiles).length < hc.fuel := by
  have hsub : (freePtrs hc.payloadStart tiles).length ≤ (ptrs hc.payloadStart tiles).length :=
    freePtrs_sublist.length_le
  have := hr.tiled.length_le
  have := hr.finish
  rw [length_ptrs] at hsub
  rw [Cluster.fuel]
  omega

theorem mem_freePtrs (hr : Represents m hc tiles) (ha : a ∈ freePtrs hc.payloadStart tiles) :
    hc.payloadStart ≤ a ∧ a < hc.payloadEnd := by
  have hmem := freePtrs_sublist.subset ha
  exact ⟨le_of_mem_ptrs hmem, hr.finish ▸ hr.tiled.lt_of_mem_ptrs hmem⟩

end Represents

/-- The sentinels and the free blocks of a tiling have different addresses. -/
theorem nodup_freePtrs (hl : hc.Laid) (ht : Tiled m hc.payloadStart tiles) :
    (hc.head :: (freePtrs hc.payloadStart tiles ++ [hc.tail])).Nodup := by
  have hle : ∀ a ∈ freePtrs hc.payloadStart tiles, hc.payloadStart ≤ a := fun a ha =>
    le_of_mem_ptrs (freePtrs_sublist.subset ha)
  have h₁ := hl.head_lt
  have h₂ := hl.tail_lt
  have hnodup : (freePtrs hc.payloadStart tiles).Nodup :=
    (ht.pairwise_ptrs.sublist freePtrs_sublist).imp fun h => h.ne
  rw [List.nodup_cons, List.nodup_append]
  refine ⟨?_, hnodup, by simp, ?_⟩
  · intro hmem
    rcases List.mem_append.mp hmem with hmem | hmem
    · have := hle _ hmem
      omega
    · have := List.mem_singleton.mp hmem
      omega
  · intro a ha b hb
    have := hle _ ha
    have := List.mem_singleton.mp hb
    omega

end TinyCLR.ClusterMemory
