import TinyCLR.HeapBlock.HeapMemory

/-!
# The objects of the heap

A walk over a cluster finds its blocks, and those that are not free are the objects of the heap. The
program, and the marking of a collection, write inside of objects and leave their sizes as they are.
-/

namespace TinyCLR.ClusterMemory

open HeapCluster (DataType sizeofHeapBlock)
open DoublyLinked

/-- The headers that a walk over the payload meets. -/
def Memory.walk (m : Memory) (finish : ℕ) : ℕ → ℕ → List Header
  | 0, _ => []
  | fuel + 1, ptr =>
      if ptr < finish then
        m.id ptr :: walk m finish fuel (ptr + (m.id ptr).dataSize * sizeofHeapBlock)
      else []

def Memory.blocks (m : Memory) (hc : Cluster) : List Header :=
  m.walk hc.payloadEnd hc.fuel hc.payloadStart

/-- The blocks of the heap that are given out, with their addresses. -/
def objects (heap : List Cluster) (m : Memory) : List (ℕ × Header) :=
  heap.flatMap fun hc => takenBlocks hc.payloadStart (m.blocks hc)

/-- The address lies in the block. -/
def Inside (b : ℕ × Header) (a : ℕ) : Prop := b.1 ≤ a ∧ a < b.1 + b.2.span

/-- Only objects are written to. They keep their sizes, and their headers meet a condition. -/
structure Rewrites (ok : Header → Prop) (heap : List Cluster) (m m' : Memory) : Prop where
  frame : Frame m m' fun a => ∃ b ∈ objects heap m, Inside b a
  header : ∀ b ∈ objects heap m, (m'.id b.1).dataSize = b.2.dataSize ∧ ok (m'.id b.1)

variable {m m' : Memory} {heap : List Cluster} {hc hc' : Cluster} {ptr a n finish fuel : ℕ}
  {h f g : Header} {b : ℕ × Header} {tiles l₁ l₂ l : List Header} {ok : Header → Prop}

/-! ## The walk -/

theorem Tiled.walk_eq (ht : Tiled m ptr tiles) (hend : ptr + extent tiles = finish)
    (hfuel : tiles.length < fuel) : m.walk finish fuel ptr = tiles := by
  induction tiles generalizing ptr fuel with
  | nil =>
      rw [extent_nil] at hend
      cases fuel with
      | zero => rfl
      | succ fuel => rw [Memory.walk, if_neg (by omega)]
  | cons h tiles ih =>
      obtain ⟨fuel, rfl⟩ := Nat.exists_eq_add_one_of_ne_zero (Nat.zero_lt_of_lt hfuel).ne'
      have hpos := ht.span_pos
      rw [extent_cons] at hend
      rw [Memory.walk, if_pos (by omega), ht.1]
      exact congrArg (h :: ·) (ih ht.2.2 (by rw [← hend, ← Header.span_eq, Nat.add_assoc])
        (by simpa using hfuel))

theorem Fills.blocks_eq (hf : Fills m hc tiles) : m.blocks hc = tiles :=
  hf.tiled.walk_eq hf.finish hf.length_lt_fuel

theorem Represents.blocks_eq (hr : Represents m hc tiles) : m.blocks hc = tiles := by
  have := hr.tiled.length_le
  have := hr.finish
  refine hr.tiled.walk_eq hr.finish ?_
  rw [Cluster.fuel]
  omega

theorem AllWell.blocks (hw : AllWell heap m) (hmem : hc ∈ heap) :
    WellFormed m hc (m.blocks hc) := by
  obtain ⟨tiles, hwf⟩ := hw hc hmem
  rwa [hwf.represents.blocks_eq]

/-! ## Blocks that are given out -/

theorem mem_takenBlocks : b ∈ takenBlocks ptr tiles ↔
    ∃ l₁ l₂, tiles = l₁ ++ b.2 :: l₂ ∧ b.2.isFree = false ∧ b.1 = ptr + extent l₁ := by
  constructor
  · intro hb
    induction tiles generalizing ptr with
    | nil => cases hb
    | cons h tiles ih =>
        have hlater : b ∈ takenBlocks (ptr + h.span) tiles →
            ∃ l₁ l₂, h :: tiles = l₁ ++ b.2 :: l₂ ∧ b.2.isFree = false ∧ b.1 = ptr + extent l₁ := by
          intro hb
          obtain ⟨l₁, l₂, heq, hf, hptr⟩ := ih hb
          exact ⟨h :: l₁, l₂, congrArg (h :: ·) heq, hf, by rw [hptr, extent_cons, Nat.add_assoc]⟩
        by_cases hf : h.isFree
        · rw [takenBlocks, if_pos hf] at hb
          exact hlater hb
        · rw [takenBlocks, if_neg hf] at hb
          rcases List.mem_cons.mp hb with rfl | hb
          · exact ⟨[], tiles, rfl, by simpa using hf, rfl⟩
          · exact hlater hb
  · rintro ⟨l₁, l₂, rfl, hf, hptr⟩
    obtain ⟨a, f⟩ := b
    simp only at hf hptr
    simp [takenBlocks_append, takenBlocks, hf, hptr]

/-- The bytes of the blocks that are given out. -/
theorem exists_inside_takenBlocks :
    (∃ b ∈ takenBlocks ptr tiles, Inside b a) ↔ Space (fun h => h.isFree = false) ptr tiles a := by
  constructor
  · rintro ⟨b, hb, hlow, hhigh⟩
    obtain ⟨l₁, l₂, heq, hf, hptr⟩ := mem_takenBlocks.mp hb
    exact ⟨l₁, b.2, l₂, heq, hf, hptr ▸ hlow, hptr ▸ hhigh⟩
  · rintro ⟨l₁, f, l₂, heq, hf, hlow, hhigh⟩
    exact ⟨(ptr + extent l₁, f), mem_takenBlocks.mpr ⟨l₁, l₂, heq, hf, rfl⟩, hlow, hhigh⟩

theorem pairwise_takenBlocks :
    (takenBlocks ptr tiles).Pairwise fun b c => b.1 + b.2.span ≤ c.1 := by
  induction tiles generalizing ptr with
  | nil => exact .nil
  | cons h tiles ih =>
      rw [takenBlocks]
      split_ifs
      · exact ih
      · refine .cons (fun c hc => ?_) ih
        obtain ⟨l₁, -, -, -, hptr⟩ := mem_takenBlocks.mp hc
        exact hptr ▸ Nat.le_add_right _ _

namespace Represents

theorem bounds_of_mem_takenBlocks (hr : Represents m hc tiles)
    (hb : b ∈ takenBlocks hc.payloadStart tiles) :
    hc.payloadStart ≤ b.1 ∧ b.1 + b.2.span ≤ hc.payloadEnd := by
  obtain ⟨l₁, l₂, rfl, -, hptr⟩ := mem_takenBlocks.mp hb
  have hend := hr.finish
  simp only [extent_append, extent_cons] at hend
  omega

theorem owns_of_inside (hr : Represents m hc tiles) (hb : b ∈ takenBlocks hc.payloadStart tiles)
    (ha : Inside b a) : hc.Owns a := by
  have h₁ := hr.laid.head_lt
  have h₂ := hr.laid.tail_lt
  obtain ⟨hlow, hhigh⟩ := hr.bounds_of_mem_takenBlocks hb
  obtain ⟨hlow', hhigh'⟩ := ha
  exact ⟨by omega, by omega⟩

/-- What the operations of a cluster may write to is outside of every object. -/
theorem not_freeSpace_of_inside (hr : Represents m hc tiles)
    (hb : b ∈ takenBlocks hc.payloadStart tiles) (ha : Inside b a) : ¬FreeSpace hc tiles a := by
  have h₁ := hr.laid.head_lt
  have h₂ := hr.laid.tail_lt
  obtain ⟨l₁, l₂, rfl, hf, hptr⟩ := mem_takenBlocks.mp hb
  obtain ⟨hlow, hhigh⟩ := ha
  rw [hptr] at hlow hhigh
  rintro (rfl | rfl | hspace)
  · omega
  · omega
  · have hfree := hspace.of_inside hlow hhigh
    rw [hf] at hfree
    cases hfree

end Represents

/-! ## Objects -/

theorem mem_objects : b ∈ objects heap m ↔
    ∃ hc ∈ heap, b ∈ takenBlocks hc.payloadStart (m.blocks hc) := List.mem_flatMap

theorem AllWell.id_of_mem_objects (hw : AllWell heap m) (hb : b ∈ objects heap m) :
    m.id b.1 = b.2 ∧ b.2.isFree = false := by
  obtain ⟨hc, hmem, hb⟩ := mem_objects.mp hb
  have ht := (hw.blocks hmem).represents.tiled
  obtain ⟨l₁, l₂, heq, hf, hptr⟩ := mem_takenBlocks.mp hb
  rw [heq] at ht
  exact ⟨hptr ▸ (tiled_append.mp ht).2.1, hf⟩

/-- The objects lie one behind the other. -/
theorem AllWell.pairwise_objects (hs : Spaced heap) (hw : AllWell heap m) :
    (objects heap m).Pairwise fun b c => b.1 + b.2.span ≤ c.1 := by
  rw [objects, List.pairwise_flatMap]
  refine ⟨fun hc _ => pairwise_takenBlocks, ?_⟩
  refine hs.apart.imp_of_mem fun {hc hc'} hmem hmem' hapart b hb c hcb => ?_
  have hend := ((hw.blocks hmem).represents.bounds_of_mem_takenBlocks hb).2
  have hstart := ((hw.blocks hmem').represents.bounds_of_mem_takenBlocks hcb).1
  have h₁ := (hs.laid hc' hmem').head_lt
  have h₂ := (hs.laid hc' hmem').tail_lt
  omega

theorem Spaced.nodup (hs : Spaced heap) : heap.Nodup := by
  refine hs.apart.imp_of_mem fun {hc hc'} hmem _ hapart heq => ?_
  subst heq
  have h₁ := (hs.laid hc hmem).head_lt
  have h₂ := (hs.laid hc hmem).tail_lt
  have := (hs.fits hc hmem).1
  omega

/-- An operation on one cluster changes the objects of that cluster. -/
theorem objects_update (hs : Spaced heap) (hw : AllWell heap m) (hmem : hc ∈ heap)
    (hr : Represents m' hc tiles) (hf : Frame m m' hc.Owns) : ∃ O₁ O₂,
      objects heap m = O₁ ++ takenBlocks hc.payloadStart (m.blocks hc) ++ O₂ ∧
      objects heap m' = O₁ ++ takenBlocks hc.payloadStart tiles ++ O₂ := by
  obtain ⟨H₁, H₂, rfl⟩ := List.append_of_mem hmem
  have hnodup := List.nodup_middle.mp hs.nodup
  have hother : ∀ hc' ∈ H₁ ++ H₂, m'.blocks hc' = m.blocks hc' := by
    intro hc' hin
    have hmem' : hc' ∈ H₁ ++ hc :: H₂ := by
      rcases List.mem_append.mp hin with hin | hin <;> simp [hin]
    have hne : hc' ≠ hc := fun heq => (List.nodup_cons.mp hnodup).1 (heq ▸ hin)
    exact ((hw.blocks hmem').represents.frame hf fun a => hs.not_owns hmem' hmem hne).blocks_eq
  have hpart : ∀ H : List Cluster, (∀ hc' ∈ H, hc' ∈ H₁ ++ H₂) → objects H m' = objects H m :=
    fun H hsub => List.flatMap_congr fun hc' hin => by rw [hother hc' (hsub hc' hin)]
  refine ⟨objects H₁ m, objects H₂ m, ?_, ?_⟩
  · simp [objects]
  · rw [← hr.blocks_eq, ← hpart H₁ (by simp +contextual), ← hpart H₂ (by simp +contextual)]
    simp [objects]

/-! ## Rewriting -/

theorem Tiled.map_id (ht : Tiled m ptr tiles) : (ptrs ptr tiles).map m.id = tiles := by
  induction tiles generalizing ptr with
  | nil => rfl
  | cons h tiles ih => rw [ptrs, List.map_cons, ht.1, ih ht.2.2]

/-- The headers change, but not the sizes. -/
theorem Tiled.rewrite (ht : Tiled m ptr tiles)
    (hsize : ∀ a ∈ ptrs ptr tiles, (m'.id a).dataSize = (m.id a).dataSize) :
    Tiled m' ptr ((ptrs ptr tiles).map m'.id) ∧ sizes ((ptrs ptr tiles).map m'.id) = sizes tiles ∧
      ptrs ptr ((ptrs ptr tiles).map m'.id) = ptrs ptr tiles := by
  induction tiles generalizing ptr with
  | nil => exact ⟨trivial, rfl, rfl⟩
  | cons h tiles ih =>
      simp only [ptrs, List.mem_cons, forall_eq_or_imp] at hsize
      have hhead : (m'.id ptr).dataSize = h.dataSize := by rw [hsize.1, ht.1]
      have hspan : (m'.id ptr).span = h.span := congrArg (· * sizeofHeapBlock) hhead
      obtain ⟨hrest, hsizes, hptrs⟩ := ih ht.2.2 hsize.2
      simp only [ptrs, List.map_cons, sizes_cons, hhead, hspan, hsizes, hptrs, and_self, and_true]
      exact ⟨rfl, hhead ▸ ht.2.1, hspan ▸ hrest⟩

theorem Tiled.freePtrs_eq (ht : Tiled m ptr tiles) :
    freePtrs ptr tiles = (ptrs ptr tiles).filter fun a => (m.id a).isFree := by
  induction tiles generalizing ptr with
  | nil => rfl
  | cons h tiles ih =>
      by_cases hf : h.isFree <;> simp [freePtrs, ptrs, hf, ht.1, ih ht.2.2]

theorem Tiled.takenBlocks_eq (ht : Tiled m ptr tiles) :
    takenBlocks ptr tiles =
      ((ptrs ptr tiles).filter fun a => !(m.id a).isFree).map fun a => (a, m.id a) := by
  induction tiles generalizing ptr with
  | nil => rfl
  | cons h tiles ih =>
      by_cases hf : h.isFree <;> simp [takenBlocks, ptrs, hf, ht.1, ih ht.2.2]

/-- An object that an address of a cluster lies in belongs to that cluster. -/
theorem AllWell.mem_cluster (hs : Spaced heap) (hw : AllWell heap m) (hmem : hc ∈ heap)
    (howns : hc.Owns a) (hb : b ∈ objects heap m) (ha : Inside b a) :
    b ∈ takenBlocks hc.payloadStart (m.blocks hc) := by
  obtain ⟨hc', hmem', hb⟩ := mem_objects.mp hb
  by_cases heq : hc = hc'
  · rwa [heq]
  · exact absurd ((hw.blocks hmem').represents.owns_of_inside hb ha)
      (hs.not_owns hmem hmem' heq howns)

theorem AllWell.not_inside_of_freeSpace (hs : Spaced heap) (hw : AllWell heap m) (hmem : hc ∈ heap)
    (hfree : FreeSpace hc (m.blocks hc) a) : ¬∃ b ∈ objects heap m, Inside b a := by
  have hr := (hw.blocks hmem).represents
  rintro ⟨b, hb, ha⟩
  exact hr.not_freeSpace_of_inside
    (hw.mem_cluster hs hmem (hr.owns_of_freeSpace hfree) hb ha) ha hfree

/-- What leaves everything as it is meets every condition that objects meet. -/
theorem AllWell.rewrites_self (hw : AllWell heap m) (hok : ∀ h, h.isFree = false → ok h) :
    Rewrites ok heap m m where
  frame := Frame.refl m _
  header b hb := by
    obtain ⟨hid, hf⟩ := hw.id_of_mem_objects hb
    exact ⟨by rw [hid], hid ▸ hok _ hf⟩

namespace Rewrites

/-- What becomes of the header of a block. -/
theorem id_cases (hrw : Rewrites ok heap m m') (hs : Spaced heap) (hw : AllWell heap m)
    (hmem : hc ∈ heap) (ha : a ∈ ptrs hc.payloadStart (m.blocks hc)) :
    ((m.id a).isFree = true ∧ m'.id a = m.id a) ∨ ((m.id a).isFree = false ∧
      (m'.id a).dataSize = (m.id a).dataSize ∧ ok (m'.id a)) := by
  have hr := (hw.blocks hmem).represents
  cases hf : (m.id a).isFree with
  | true =>
      have hin : a ∈ freePtrs hc.payloadStart (m.blocks hc) := by
        rw [hr.tiled.freePtrs_eq]
        exact List.mem_filter.mpr ⟨ha, hf⟩
      have hspace : FreeSpace hc (m.blocks hc) a := hr.freeSpace (by simp [hin])
      exact .inl ⟨rfl, (hrw.frame a (hw.not_inside_of_freeSpace hs hmem hspace)).1⟩
  | false =>
      have hin : (a, m.id a) ∈ takenBlocks hc.payloadStart (m.blocks hc) := by
        rw [hr.tiled.takenBlocks_eq]
        exact List.mem_map.mpr ⟨a, List.mem_filter.mpr ⟨ha, by simp [hf]⟩, rfl⟩
      exact .inr ⟨rfl, hrw.header _ (mem_objects.mpr ⟨hc, hmem, hin⟩)⟩

theorem size_eq (hrw : Rewrites ok heap m m') (hs : Spaced heap) (hw : AllWell heap m)
    (hmem : hc ∈ heap) :
    ∀ a ∈ ptrs hc.payloadStart (m.blocks hc), (m'.id a).dataSize = (m.id a).dataSize := by
  intro a ha
  rcases hrw.id_cases hs hw hmem ha with ⟨-, heq⟩ | ⟨-, hsize, -⟩
  · rw [heq]
  · exact hsize

theorem fills (hrw : Rewrites ok heap m m') (hs : Spaced heap) (hw : AllWell heap m)
    (hmem : hc ∈ heap) :
    Fills m' hc ((ptrs hc.payloadStart (m.blocks hc)).map m'.id) := by
  have hf := (hw.blocks hmem).represents.fills (hs.fits hc hmem).2
  obtain ⟨ht, hsizes, -⟩ := hf.tiled.rewrite (hrw.size_eq hs hw hmem)
  refine ⟨hf.laid, ht, ?_, hsizes ▸ hf.small⟩
  rw [extent_eq, hsizes, ← extent_eq]
  exact hf.finish

theorem isFree_eq (hrw : Rewrites (fun h => h.isFree = false) heap m m') (hs : Spaced heap)
    (hw : AllWell heap m) (hmem : hc ∈ heap) :
    ∀ a ∈ ptrs hc.payloadStart (m.blocks hc), (m'.id a).isFree = (m.id a).isFree := by
  intro a ha
  rcases hrw.id_cases hs hw hmem ha with ⟨-, heq⟩ | ⟨hnot, -, hok⟩
  · rw [heq]
  · rw [hnot, hok]

/-- The program keeps a cluster well formed. -/
theorem wellFormed (hrw : Rewrites (fun h => h.isFree = false) heap m m') (hs : Spaced heap)
    (hw : AllWell heap m) (hmem : hc ∈ heap) :
    WellFormed m' hc ((ptrs hc.payloadStart (m.blocks hc)).map m'.id) := by
  have hr := (hw.blocks hmem).represents
  have hf := hrw.fills hs hw hmem
  obtain ⟨-, -, hptrs⟩ := hr.tiled.rewrite (hrw.size_eq hs hw hmem)
  have hfree := hrw.isFree_eq hs hw hmem
  have hnodes : freePtrs hc.payloadStart ((ptrs hc.payloadStart (m.blocks hc)).map m'.id) =
      freePtrs hc.payloadStart (m.blocks hc) := by
    rw [hf.tiled.freePtrs_eq, hptrs, hr.tiled.freePtrs_eq]
    exact List.filter_congr hfree
  have hspace : ∀ a ∈ hc.head :: (freePtrs hc.payloadStart (m.blocks hc) ++ [hc.tail]),
      m'.next a = m.next a ∧ m'.prev a = m.prev a := fun a ha =>
    (hrw.frame a (hw.not_inside_of_freeSpace hs hmem (hr.freeSpace ha))).2
  refine ⟨⟨hf.laid, hf.tiled, hf.finish, hnodes ▸ hr.free.congr (fun a ha => (hspace a ha).1)
    fun a ha => (hspace a ha).2⟩, ?_, ?_⟩
  · have hchain := (hw.blocks hmem).tidy.coalesced
    rw [← hr.tiled.map_id, List.isChain_map] at hchain
    refine (List.isChain_map _).mpr (hchain.imp_of_mem_imp fun a b ha hb hab => ?_)
    rwa [hfree a ha, hfree b hb]
  · intro h hh hfree'
    obtain ⟨a, ha, rfl⟩ := List.mem_map.mp hh
    rcases hrw.id_cases hs hw hmem ha with ⟨hold, heq⟩ | ⟨-, -, hok⟩
    · rw [heq]
      refine (hw.blocks hmem).tidy.header _ ?_ hold
      exact hr.tiled.map_id ▸ List.mem_map_of_mem ha
    · rw [hok] at hfree'
      cases hfree'

theorem allWell (hrw : Rewrites (fun h => h.isFree = false) heap m m') (hs : Spaced heap)
    (hw : AllWell heap m) : AllWell heap m' := fun _ hmem => ⟨_, hrw.wellFormed hs hw hmem⟩

/-- The program keeps the objects where they are. -/
theorem objects_eq (hrw : Rewrites (fun h => h.isFree = false) heap m m') (hs : Spaced heap)
    (hw : AllWell heap m) :
    objects heap m' = (objects heap m).map fun b => (b.1, m'.id b.1) := by
  rw [objects, objects, List.map_flatMap]
  refine List.flatMap_congr fun hc hmem => ?_
  have hr := (hw.blocks hmem).represents
  have hwf := hrw.wellFormed hs hw hmem
  obtain ⟨-, -, hptrs⟩ := hr.tiled.rewrite (hrw.size_eq hs hw hmem)
  rw [hwf.represents.blocks_eq, hwf.represents.tiled.takenBlocks_eq, hptrs,
    hr.tiled.takenBlocks_eq, List.map_map]
  refine congrArg (List.map _) (List.filter_congr fun a ha => ?_)
  rw [hrw.isFree_eq hs hw hmem a ha]

theorem not_free_of_alive (hrw : Rewrites (fun h => h.isAlive = true → h.isFree = false) heap m m')
    (hs : Spaced heap) (hw : AllWell heap m) (hmem : hc ∈ heap)
    (ha : a ∈ ptrs hc.payloadStart (m.blocks hc)) (halive : (m'.id a).isAlive = true) :
    (m.id a).isFree = false ∧ (m'.id a).isFree = false := by
  have hwf := hw.blocks hmem
  rcases hrw.id_cases hs hw hmem ha with ⟨hold, heq⟩ | ⟨hnot, -, hok⟩
  · have hin : m.id a ∈ m.blocks hc :=
      hwf.represents.tiled.map_id ▸ List.mem_map_of_mem (f := m.id) ha
    rw [heq, hwf.tidy.not_free_of_alive hin (heq ▸ halive)]
    simp
  · exact ⟨hnot, hok halive⟩

/-- The blocks that are alive when the sweep starts. -/
theorem filter_isAlive (hrw : Rewrites (fun h => h.isAlive = true → h.isFree = false) heap m m')
    (hs : Spaced heap) (hw : AllWell heap m) (hmem : hc ∈ heap) :
    (takenBlocks hc.payloadStart ((ptrs hc.payloadStart (m.blocks hc)).map m'.id)).filter
        (fun b => b.2.isAlive) =
      ((takenBlocks hc.payloadStart (m.blocks hc)).filter fun b => (m'.id b.1).isAlive).map
        fun b => (b.1, m'.id b.1) := by
  have hr := (hw.blocks hmem).represents
  obtain ⟨ht, -, hptrs⟩ := hr.tiled.rewrite (hrw.size_eq hs hw hmem)
  rw [ht.takenBlocks_eq, hptrs, hr.tiled.takenBlocks_eq, List.filter_map, List.filter_map,
    List.filter_filter, List.filter_filter, List.map_map]
  refine congrArg (List.map _) (List.filter_congr fun a ha => ?_)
  cases halive : (m'.id a).isAlive with
  | true =>
      obtain ⟨hold, hnew⟩ := hrw.not_free_of_alive hs hw hmem ha halive
      simp [halive, hold, hnew]
  | false => simp [halive]

end Rewrites

end TinyCLR.ClusterMemory
