import Mathlib
import TinyCLR.Library.IntervalTable

/-!
# The relocation table

`Heap_Relocate_AddBlock` keeps the moved regions sorted in a table of fixed size; a pass of
`Heap_Relocate` maps every pointer through it and empties it. Addresses have 32 bits.
-/

namespace TinyCLR.GarbageCollector

structure RelocationRegion where
  start : UInt32
  finish : UInt32
  destination : UInt32
  offset : UInt32
  deriving DecidableEq, Repr

def RelocationRegion.first (r : RelocationRegion) : ℕ := r.start.toNat
def RelocationRegion.last (r : RelocationRegion) : ℕ := r.finish.toNat

/-- The arguments of `Heap_Relocate_AddBlock`. -/
structure MovedBlock where
  dst : UInt32
  src : UInt32
  length : UInt32
  deriving DecidableEq, Repr

/-- `m_relocBlocks` with room for as many regions as the list has, `m_relocCount`,
`m_relocMinimum` and `m_relocMaximum`. -/
structure Relocation where
  blocks : List RelocationRegion
  count : ℕ
  minimum : UInt32
  maximum : UInt32
  deriving Repr

def MovedBlock.region (b : MovedBlock) : RelocationRegion where
  start := b.src
  finish := b.src + b.length
  destination := b.dst
  offset := b.dst - b.src

namespace Relocation

/-- `Heap_Relocate_Prepare` -/
def prepare (s : Relocation) (blocks : List RelocationRegion) : Relocation :=
  { s with blocks := blocks, count := 0 }

/-- The search for the place and the `memmove`, with `count` regions left; `none` is a write behind
the table. -/
def insertRegion (reloc : RelocationRegion) :
    ℕ → List RelocationRegion → Option (List RelocationRegion)
  | 0, [] => none
  | 0, _ :: rest => some (reloc :: rest)
  | _ + 1, [] => none
  | count + 1, r :: rest =>
      if reloc.start < r.start then
        if count + 1 ≤ rest.length then
          some (reloc :: (r :: rest).take (count + 1) ++ (r :: rest).drop (count + 2))
        else none
      else (insertRegion reloc count rest).map (r :: ·)

/-- The least start and the greatest end of the regions. -/
def bounds : List RelocationRegion → UInt32 × UInt32 → UInt32 × UInt32
  | [], b => b
  | r :: rest, b =>
      bounds rest (if r.start < b.1 then r.start else b.1, if b.2 < r.finish then r.finish else b.2)

/-- `Heap_Relocate`: the table of the pass, if there is one, and the table afterwards. -/
def heapRelocate (s : Relocation) : Option Relocation × Relocation :=
  if s.count ≠ 0 then
    match s.blocks.take s.count with
    | [] => (none, s)
    | r :: rest =>
        let b := bounds (r :: rest) (r.start, r.finish)
        let s := { s with minimum := b.1, maximum := b.2 }
        (some s, { s with count := 0 })
  else (none, s)

/-- `Heap_Relocate_AddBlock`: a full table starts a pass. -/
def addBlock (s : Relocation) (b : MovedBlock) : Option (Option Relocation × Relocation) :=
  (insertRegion b.region s.count s.blocks).map fun blocks =>
    let s := { s with blocks := blocks, count := s.count + 1 }
    if s.count = blocks.length then s.heapRelocate else (none, s)

/-- A sequence of calls, with the tables of the passes. -/
def addBlocks : Relocation → List MovedBlock → Option (List Relocation × Relocation)
  | s, [] => some ([], s)
  | s, b :: calls =>
      (s.addBlock b).bind fun r =>
        (addBlocks r.2 calls).map fun q => (r.1.toList ++ q.1, q.2)

/-- `Heap_Relocate( void** )` -/
def relocate (s : Relocation) (p : UInt32) : UInt32 :=
  if s.minimum ≤ p ∧ p < s.maximum then
    match IntervalTable.search RelocationRegion.first RelocationRegion.last s.blocks p.toNat 0
        s.count with
    | some r => p + r.offset
    | none => p
  else p

open IntervalTable RelocationRegion

/-- The regions that count. -/
def regions (s : Relocation) : List RelocationRegion := s.blocks.take s.count

/-- In a table with room the region is inserted at its place. -/
theorem insertRegion_spec (reloc : RelocationRegion) {count : ℕ} {blocks : List RelocationRegion}
    (h : count < blocks.length) :
    ∃ blocks', insertRegion reloc count blocks = some blocks' ∧ blocks'.length = blocks.length ∧
      blocks'.take (count + 1) = IntervalTable.insert first reloc (blocks.take count) := by
  induction blocks generalizing count with
  | nil => exact absurd h (Nat.not_lt_zero _)
  | cons r rest ih =>
      cases count with
      | zero => exact ⟨reloc :: rest, rfl, rfl, rfl⟩
      | succ count =>
          rw [List.length_cons, Nat.succ_lt_succ_iff] at h
          rw [insertRegion, List.take_succ_cons, IntervalTable.insert]
          by_cases hlt : reloc.start < r.start
          · have hfirst : first reloc < first r := UInt32.lt_iff_toNat_lt.mp hlt
            rw [if_pos hlt, if_pos (show count + 1 ≤ rest.length from h), if_pos hfirst]
            refine ⟨_, rfl, ?_, ?_⟩
            · simp only [List.length_append, List.length_cons, List.length_take, List.length_drop]
              omega
            · have hlength : (r :: rest.take count).length = count + 1 := by
                rw [List.length_cons, List.length_take]
                omega
              rw [List.cons_append, List.take_succ_cons, List.take_left' hlength]
          · have hfirst : ¬first reloc < first r := fun h => hlt (UInt32.lt_iff_toNat_lt.mpr h)
            obtain ⟨blocks', hinsert, hlength, htake⟩ := ih h
            rw [if_neg hlt, if_neg hfirst, hinsert]
            refine ⟨r :: blocks', rfl, congrArg Nat.succ hlength, ?_⟩
            rw [List.take_succ_cons, htake]

theorem least_le (a b : UInt32) : (if a < b then a else b) ≤ a ∧ (if a < b then a else b) ≤ b := by
  split
  · rename_i hlt
    exact ⟨UInt32.le_refl a, UInt32.le_of_lt hlt⟩
  · rename_i hge
    exact ⟨UInt32.not_lt.mp hge, UInt32.le_refl b⟩

theorem le_greatest (a b : UInt32) :
    a ≤ (if a < b then b else a) ∧ b ≤ (if a < b then b else a) := by
  split
  · rename_i hlt
    exact ⟨UInt32.le_of_lt hlt, UInt32.le_refl b⟩
  · rename_i hge
    exact ⟨UInt32.le_refl a, UInt32.not_lt.mp hge⟩

theorem bounds_le (l : List RelocationRegion) (b : UInt32 × UInt32) :
    (bounds l b).1 ≤ b.1 ∧ b.2 ≤ (bounds l b).2 ∧
      ∀ r ∈ l, (bounds l b).1 ≤ r.start ∧ r.finish ≤ (bounds l b).2 := by
  induction l generalizing b with
  | nil => exact ⟨UInt32.le_refl _, UInt32.le_refl _, fun r hr => absurd hr List.not_mem_nil⟩
  | cons r rest ih =>
      obtain ⟨hmin, hmax, hrest⟩ := ih
        (if r.start < b.1 then r.start else b.1, if b.2 < r.finish then r.finish else b.2)
      have hleast := least_le r.start b.1
      have hgreatest := le_greatest b.2 r.finish
      rw [bounds, List.forall_mem_cons]
      refine ⟨UInt32.le_trans hmin hleast.2, UInt32.le_trans hgreatest.1 hmax, ⟨?_, ?_⟩, hrest⟩
      · exact UInt32.le_trans hmin hleast.1
      · exact UInt32.le_trans hgreatest.2 hmax

end Relocation

/-- A block lies in memory and is not empty: the length is that of a heap block in units of its
header. -/
structure MovedBlock.InMemory (b : MovedBlock) : Prop where
  positive : 0 < b.length.toNat
  fits : b.src.toNat + b.length.toNat < 2 ^ 32

def MovedBlock.Contains (b : MovedBlock) (p : UInt32) : Prop :=
  b.src.toNat ≤ p.toNat ∧ p.toNat < b.src.toNat + b.length.toNat

def MovedBlock.Disjoint (b c : MovedBlock) : Prop := ∀ p, ¬(b.Contains p ∧ c.Contains p)

namespace Relocation

open IntervalTable RelocationRegion

variable {b c : MovedBlock} {batch : List MovedBlock} {s : Relocation}

theorem last_region (h : b.InMemory) : last b.region = b.src.toNat + b.length.toNat := by
  have hfits := h.fits
  rw [last, MovedBlock.region, UInt32.toNat_add]
  exact Nat.mod_eq_of_lt hfits

theorem proper_region (h : b.InMemory) : Proper first last b.region := by
  rw [Proper, last_region h, first, MovedBlock.region]
  exact Nat.lt_add_of_pos_right h.positive

theorem holds_region (h : b.InMemory) (p : UInt32) :
    Holds first last b.region p.toNat ↔ b.Contains p := by
  rw [Holds, last_region h, MovedBlock.Contains]
  rfl

/-- Blocks without a common address follow one another. -/
theorem apart_region (hb : b.InMemory) (hc : c.InMemory) (h : b.Disjoint c) :
    Apart first last b.region c.region := by
  rw [Apart, last_region hb, last_region hc]
  change b.src.toNat + b.length.toNat ≤ c.src.toNat ∨ c.src.toNat + c.length.toNat ≤ b.src.toNat
  have hbpos := hb.positive
  have hcpos := hc.positive
  by_contra hnot
  rw [not_or, not_le, not_le] at hnot
  rcases le_total b.src.toNat c.src.toNat with hle | hle
  · exact h c.src ⟨⟨hle, hnot.1⟩, le_rfl, by omega⟩
  · exact h b.src ⟨⟨le_rfl, by omega⟩, hle, hnot.2⟩

/-- The table holds the regions of these blocks in ascending order, and has room for more. -/
structure Lists (s : Relocation) (batch : List MovedBlock) : Prop where
  perm : s.regions.Perm (batch.map MovedBlock.region)
  ascending : Ascending first last s.regions
  room : s.count < s.blocks.length

/-- The table of a pass. -/
structure Passes (s : Relocation) (batch : List MovedBlock) : Prop where
  perm : s.regions.Perm (batch.map MovedBlock.region)
  ascending : Ascending first last s.regions
  count_le : s.count ≤ s.blocks.length
  bounds : ∀ r ∈ s.regions, s.minimum ≤ r.start ∧ r.finish ≤ s.maximum

/-- Pointers into a block move with it; no other pointer changes. -/
def Relocates (s : Relocation) (batch : List MovedBlock) : Prop :=
  ∀ p, (∀ b ∈ batch, b.Contains p → s.relocate p = b.dst + (p - b.src)) ∧
    ((∀ b ∈ batch, ¬b.Contains p) → s.relocate p = p)

theorem sub_add_eq (p dst src : UInt32) : p + (dst - src) = dst + (p - src) := by
  rw [UInt32.sub_eq_add_neg, UInt32.sub_eq_add_neg, ← UInt32.add_assoc, ← UInt32.add_assoc,
    UInt32.add_comm p dst]

/-- The binary search in the table of a pass. -/
theorem Passes.relocates (h : Passes s batch) (hbatch : ∀ b ∈ batch, b.InMemory) :
    s.Relocates batch := by
  have hproper : ∀ r ∈ s.regions, Proper first last r := by
    intro r hr
    obtain ⟨b, hb, rfl⟩ := List.mem_map.mp (h.perm.mem_iff.mp hr)
    exact proper_region (hbatch b hb)
  have hlength : s.count = s.regions.length := by
    rw [regions, List.length_take, Nat.min_eq_left h.count_le]
  intro p
  rw [relocate, ← search_take le_rfl]
  constructor
  · intro b hb hcontains
    have hregion : b.region ∈ s.regions :=
      h.perm.mem_iff.mpr (List.mem_map_of_mem hb)
    have hholds := (holds_region (hbatch b hb) p).mpr hcontains
    obtain ⟨hmin, hmax⟩ := h.bounds b.region hregion
    obtain ⟨i, hi⟩ := List.mem_iff_getElem?.mp hregion
    obtain ⟨hlt, -⟩ := List.getElem?_eq_some_iff.mp hi
    have hsearch := search_of_holds h.ascending hproper hi hholds (Nat.zero_le i) hlt le_rfl
    have hinside : s.minimum ≤ p ∧ p < s.maximum := by
      rw [UInt32.le_iff_toNat_le] at hmin hmax
      rw [UInt32.le_iff_toNat_le, UInt32.lt_iff_toNat_lt]
      exact ⟨hmin.trans hholds.1, hholds.2.trans_le hmax⟩
    rw [if_pos hinside]
    rw [← hlength, regions] at hsearch
    rw [hsearch]
    exact sub_add_eq p b.dst b.src
  · intro hnone
    split
    · cases hsearch : search first last (s.blocks.take s.count) p.toNat 0 s.count with
      | none => rfl
      | some r =>
          obtain ⟨hmem, hholds⟩ := holds_of_search hsearch
          obtain ⟨b, hb, rfl⟩ := List.mem_map.mp (h.perm.mem_iff.mp hmem)
          exact absurd ((holds_region (hbatch b hb) p).mp hholds) (hnone b hb)
    · rfl

/-- A block that has no address in common with those of the table finds its place. -/
theorem Lists.insert (h : Lists s batch) (hbatch : ∀ c ∈ batch, c.InMemory) (hb : b.InMemory)
    (hdisjoint : ∀ c ∈ batch, b.Disjoint c) :
    ∃ blocks, insertRegion b.region s.count s.blocks = some blocks ∧
      blocks.length = s.blocks.length ∧
      (blocks.take (s.count + 1)).Perm ((b :: batch).map MovedBlock.region) ∧
      Ascending first last (blocks.take (s.count + 1)) := by
  obtain ⟨blocks, hinsert, hlength, htake⟩ := insertRegion_spec b.region h.room
  refine ⟨blocks, hinsert, hlength, ?_, ?_⟩
  · rw [htake, List.map_cons]
    exact (insert_perm b.region _).trans (h.perm.cons b.region)
  · rw [htake]
    apply h.ascending.insert (proper_region hb)
    · intro r hr
      obtain ⟨c, hc, rfl⟩ := List.mem_map.mp (h.perm.mem_iff.mp hr)
      exact proper_region (hbatch c hc)
    · intro r hr
      obtain ⟨c, hc, rfl⟩ := List.mem_map.mp (h.perm.mem_iff.mp hr)
      exact apart_region hb (hbatch c hc) (hdisjoint c hc)

/-- A pass over a table that is not empty. -/
theorem heapRelocate_spec (hperm : s.regions.Perm (batch.map MovedBlock.region))
    (hascending : Ascending first last s.regions) (hle : s.count ≤ s.blocks.length)
    (hpos : 0 < s.blocks.length) :
    (∀ t ∈ s.heapRelocate.1, Passes t batch) ∧ (s.heapRelocate.1 = none → batch = []) ∧
      Lists s.heapRelocate.2 [] ∧ s.heapRelocate.2.blocks.length = s.blocks.length := by
  have hempty : ∀ t : Relocation, t.count = 0 → t.blocks.length = s.blocks.length →
      Lists t [] ∧ t.blocks.length = s.blocks.length := by
    intro t hcount hlength
    refine ⟨⟨?_, ?_, by omega⟩, hlength⟩
    · rw [regions, hcount]
      exact List.Perm.refl _
    · rw [regions, hcount]
      exact List.Pairwise.nil
  rw [heapRelocate]
  by_cases hzero : s.count = 0
  · rw [if_neg (not_not.mpr hzero)]
    refine ⟨fun t ht => absurd ht (Option.not_mem_none t), fun _ => ?_, hempty s hzero rfl⟩
    rw [regions, hzero] at hperm
    exact List.map_eq_nil_iff.mp (List.nil_perm.mp hperm)
  · rw [if_pos hzero]
    cases hregions : s.blocks.take s.count with
    | nil =>
        have := congrArg List.length hregions
        rw [List.length_take, List.length_nil] at this
        omega
    | cons r rest =>
        refine ⟨fun t ht => ?_, fun h => ?_, hempty _ rfl rfl⟩
        · cases Option.mem_some_iff.mp ht
          refine ⟨hperm, hascending, hle, fun q hq => ?_⟩
          change q ∈ s.blocks.take s.count at hq
          rw [hregions] at hq
          exact (bounds_le (r :: rest) (r.start, r.finish)).2.2 q hq
        · cases h

/-- A call adds its block to the table; a full table is passed over and emptied. -/
theorem addBlock_spec (h : Lists s batch) (hbatch : ∀ c ∈ batch, c.InMemory) (hb : b.InMemory)
    (hdisjoint : ∀ c ∈ batch, b.Disjoint c) :
    ∃ pass s', s.addBlock b = some (pass, s') ∧ s'.blocks.length = s.blocks.length ∧
      (pass = none ∧ Lists s' (b :: batch) ∧ s'.count = s.count + 1 ∨
        (∃ t, pass = some t ∧ Passes t (b :: batch)) ∧ Lists s' [] ∧
          s.count + 1 = s.blocks.length) := by
  obtain ⟨blocks, hinsert, hlength, hperm, hascending⟩ := h.insert hbatch hb hdisjoint
  have hroom := h.room
  let s₁ : Relocation := { s with blocks := blocks, count := s.count + 1 }
  have hadd : s.addBlock b =
      some (if s₁.count = blocks.length then s₁.heapRelocate else (none, s₁)) := by
    rw [addBlock, hinsert]
    rfl
  by_cases hfull : s₁.count = blocks.length
  · rw [if_pos hfull] at hadd
    obtain ⟨hpasses, hnone, hempty, hsize⟩ := heapRelocate_spec (s := s₁) hperm hascending
      hfull.le (show 0 < blocks.length by omega)
    refine ⟨s₁.heapRelocate.1, s₁.heapRelocate.2, hadd, hsize.trans hlength,
      Or.inr ⟨?_, hempty, hfull.trans hlength⟩⟩
    cases hpass : s₁.heapRelocate.1 with
    | none => exact absurd (hnone hpass) (List.cons_ne_nil b batch)
    | some t => exact ⟨t, rfl, hpasses t hpass⟩
  · rw [if_neg hfull] at hadd
    refine ⟨none, s₁, hadd, hlength, Or.inl ⟨rfl, ⟨hperm, hascending, ?_⟩, rfl⟩⟩
    change s.count + 1 ≠ blocks.length at hfull
    show s.count + 1 < blocks.length
    omega

theorem Lists.length_eq (h : Lists s batch) : batch.length = s.count := by
  have hlength := h.perm.length_eq
  have hroom := h.room
  rw [regions, List.length_take, List.length_map] at hlength
  omega

theorem Lists.congr (h : Lists s batch) {batch' : List MovedBlock} (hperm : batch.Perm batch') :
    Lists s batch' := ⟨h.perm.trans (hperm.map _), h.ascending, h.room⟩

theorem Passes.congr (h : Passes s batch) {batch' : List MovedBlock} (hperm : batch.Perm batch') :
    Passes s batch' := ⟨h.perm.trans (hperm.map _), h.ascending, h.count_le, h.bounds⟩

/-- A sequence of calls fills the table again and again; each time it is full, it is passed over
with the blocks since the pass before. -/
theorem addBlocks_spec (h : Lists s batch) {calls : List MovedBlock}
    (hmem : ∀ c ∈ batch ++ calls, c.InMemory)
    (hdisjoint : (batch ++ calls).Pairwise MovedBlock.Disjoint) :
    ∃ passes s' batches rest, s.addBlocks calls = some (passes, s') ∧
      batch ++ calls = batches.flatten ++ rest ∧
      (∀ q ∈ batches, q.length = s.blocks.length) ∧ rest.length < s.blocks.length ∧
      List.Forall₂ Passes passes batches ∧ Lists s' rest ∧
      s'.blocks.length = s.blocks.length := by
  induction calls generalizing s batch with
  | nil =>
      refine ⟨[], s, [], batch, rfl, List.append_nil batch, ?_, ?_, List.Forall₂.nil, h, rfl⟩
      · exact fun q hq => absurd hq List.not_mem_nil
      · rw [h.length_eq]
        exact h.room
  | cons b calls ih =>
      have hbatch : ∀ c ∈ batch, c.InMemory := fun c hc => hmem c (List.mem_append_left _ hc)
      have hb : b.InMemory := hmem b (List.mem_append_right _ List.mem_cons_self)
      have hsplit := List.pairwise_append.mp hdisjoint
      obtain ⟨pass, s₁, hadd, hsize, hcase⟩ := addBlock_spec h hbatch hb fun c hc p hp =>
        hsplit.2.2 c hc b List.mem_cons_self p hp.symm
      rw [addBlocks, hadd, Option.bind_some]
      dsimp only
      have hperm : (b :: batch).Perm (batch ++ [b]) := (List.perm_append_singleton b batch).symm
      cases hcase with
      | inl hcase =>
          obtain ⟨rfl, hlists, -⟩ := hcase
          have happend : batch ++ b :: calls = (batch ++ [b]) ++ calls := by
            rw [List.append_assoc, List.singleton_append]
          rw [happend] at hmem hdisjoint ⊢
          obtain ⟨passes, s', batches, rest, hrun, hparts, hfull, hrest, hpasses, hlast, hsame⟩ :=
            ih (hlists.congr hperm) hmem hdisjoint
          rw [hrun, Option.map_some, Option.toList_none, List.nil_append]
          rw [hsize] at hfull hrest hsame
          exact ⟨passes, s', batches, rest, rfl, hparts, hfull, hrest, hpasses, hlast, hsame⟩
      | inr hcase =>
          obtain ⟨⟨t, rfl, ht⟩, hempty, hcount⟩ := hcase
          obtain ⟨passes, s', batches, rest, hrun, hparts, hfull, hrest, hpasses, hlast, hsame⟩ :=
            ih hempty
              (fun c hc => hmem c (List.mem_append_right _ (List.mem_cons_of_mem b hc)))
              (List.pairwise_cons.mp hsplit.2.1).2
          rw [hrun, Option.map_some, Option.toList_some, List.singleton_append]
          rw [hsize] at hfull hrest hsame
          refine ⟨t :: passes, s', (batch ++ [b]) :: batches, rest, rfl, ?_, ?_, hrest,
            List.Forall₂.cons (ht.congr hperm) hpasses, hlast, hsame⟩
          · rw [List.flatten_cons, List.append_assoc, List.append_assoc, ← hparts]
            rfl
          · rw [List.forall_mem_cons]
            refine ⟨?_, hfull⟩
            rw [List.length_append, List.length_singleton, h.length_eq, hcount]

/-- The table is sorted by `m_start`. -/
def Sorted (s : Relocation) : Prop := s.regions.Pairwise fun r r' => r.start ≤ r'.start

theorem sorted_of_ascending (hbatch : ∀ b ∈ batch, b.InMemory)
    (hperm : s.regions.Perm (batch.map MovedBlock.region)) (h : Ascending first last s.regions) :
    s.Sorted := by
  apply List.Pairwise.imp_of_mem _ h
  intro r r' hr _ hle
  obtain ⟨b, hb, rfl⟩ := List.mem_map.mp (hperm.mem_iff.mp hr)
  exact UInt32.le_iff_toNat_le.mpr ((proper_region (hbatch b hb)).le.trans hle)

def sampleBlocks : List MovedBlock := [⟨0x1000, 0x3000, 0x100⟩, ⟨0x1100, 0x2000, 0x40⟩]

theorem sampleBlocks_inMemory : ∀ b ∈ sampleBlocks, b.InMemory := by
  intro b hb
  fin_cases hb
  · exact ⟨by decide, by decide⟩
  · exact ⟨by decide, by decide⟩

theorem sampleBlocks_disjoint : sampleBlocks.Pairwise MovedBlock.Disjoint := by
  rw [sampleBlocks, List.pairwise_pair]
  intro p h
  have hlow : 0x3000 ≤ p.toNat := h.1.1
  have hhigh : p.toNat < 0x2000 + 0x40 := h.2.2
  omega

end Relocation

end TinyCLR.GarbageCollector
