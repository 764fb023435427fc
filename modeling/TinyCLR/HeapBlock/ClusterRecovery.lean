import TinyCLR.HeapBlock.ClusterExtraction

/-!
# Recovery of dead blocks

After a collection has marked the blocks that are alive, `RecoverFromGC` turns each run of dead ones
into one free block and builds the list of free blocks anew.
-/

namespace TinyCLR.ClusterMemory

open HeapCluster (DataType sizeofHeapBlock)
open DoublyLinked DoublyLinked.Links

/-- The number of heap blocks of a sequence of blocks. -/
def sizes (tiles : List Header) : ℕ := (tiles.map Header.dataSize).sum

/-- The free block that dead blocks of this size in total become. -/
def pending (n : ℕ) : List Header := if n = 0 then [] else [freeId n]

/-- What the recovery leaves of a block that is alive. -/
def Header.kept (h : Header) : Header := if h.isEvent = false then h.markDead else h

/-- The sequence after the recovery, behind dead blocks of the given size in total. -/
def recovered : ℕ → List Header → List Header
  | n, [] => pending n
  | n, h :: tiles =>
      if h.isAlive = false then recovered (n + h.dataSize) tiles
      else pending n ++ h.kept :: recovered 0 tiles

variable {m m' : Memory} {hc : Cluster} {ptr a n fuel finish last : ℕ} {h f : Header}
  {tiles dead rest l₁ l₂ l : List Header}

@[simp] theorem sizes_nil : sizes [] = 0 := rfl

@[simp] theorem sizes_cons : sizes (h :: tiles) = h.dataSize + sizes tiles := List.sum_cons

@[simp] theorem sizes_append : sizes (l₁ ++ l₂) = sizes l₁ + sizes l₂ := by simp [sizes]

theorem Header.span_eq : h.span = h.dataSize * sizeofHeapBlock := rfl

theorem extent_eq : extent tiles = sizes tiles * sizeofHeapBlock := by
  induction tiles with
  | nil => rfl
  | cons h tiles ih => rw [extent_cons, sizes_cons, ih, Nat.add_mul, Header.span]

@[simp] theorem kept_dataSize : h.kept.dataSize = h.dataSize := by
  unfold Header.kept
  split_ifs <;> rfl

@[simp] theorem kept_isFree : h.kept.isFree = h.isFree := by
  unfold Header.kept
  split_ifs <;> rfl

theorem recovered_dead (hdead : ∀ h ∈ dead, h.isAlive = false) :
    recovered n (dead ++ rest) = recovered (n + sizes dead) rest := by
  induction dead generalizing n with
  | nil => rfl
  | cons h dead ih =>
      rw [List.cons_append, recovered, if_pos (hdead h (by simp)),
        ih fun h hh => hdead h (by simp [hh]), sizes_cons, Nat.add_assoc]

/-- Where the dead blocks end, a free block comes before the rest. -/
theorem recovered_pending (hrest : ∀ h ∈ rest.head?, h.isAlive = true) :
    recovered n rest = pending n ++ recovered 0 rest := by
  cases rest with
  | nil => simp [recovered, pending]
  | cons h rest =>
      have halive : h.isAlive = true := hrest h rfl
      simp [recovered, halive, pending]

/-- A block that is alive stays between what becomes of the blocks before it and behind it. -/
theorem recovered_middle (halive : f.isAlive = true) :
    recovered n (l₁ ++ f :: l₂) = recovered n l₁ ++ f.kept :: recovered 0 l₂ := by
  induction l₁ generalizing n with
  | nil => simp [recovered, halive]
  | cons h l₁ ih => by_cases hh : h.isAlive <;> simp [recovered, hh, ih]

/-- The recovery keeps the extent of the sequence. -/
theorem sizes_recovered (hlt : n + sizes tiles < 2 ^ 16) :
    sizes (recovered n tiles) = n + sizes tiles := by
  have hpending : ∀ n < 2 ^ 16, sizes (pending n) = n := by
    intro n hn
    by_cases hzero : n = 0 <;> simp [pending, hzero, freeId_dataSize hn]
  induction tiles generalizing n with
  | nil => simpa [recovered] using hpending n (by simpa using hlt)
  | cons h tiles ih =>
      rw [sizes_cons] at hlt ⊢
      by_cases halive : h.isAlive = false
      · rw [recovered, if_pos halive, ih (by omega)]
        omega
      · rw [recovered, if_neg halive, sizes_append, sizes_cons, ih (by omega),
          hpending n (by omega), kept_dataSize]
        omega

/-- A sequence that starts with a dead block, cut behind the first run of dead blocks. -/
theorem exists_dead_run (tiles : List Header) :
    ∃ dead rest, tiles = dead ++ rest ∧ (∀ h ∈ dead, h.isAlive = false) ∧
      ∀ h ∈ rest.head?, h.isAlive = true := by
  induction tiles with
  | nil => exact ⟨[], [], rfl, by simp, by simp⟩
  | cons h tiles ih =>
      cases halive : h.isAlive with
      | true => exact ⟨[], h :: tiles, rfl, by simp, by simpa using halive⟩
      | false =>
          obtain ⟨dead, rest, rfl, hdead, hrest⟩ := ih
          refine ⟨h :: dead, rest, rfl, ?_, hrest⟩
          simpa [halive] using hdead

/-- The inner loop stops where the run of dead blocks ends. -/
theorem Tiled.deadBlocks (ht : Tiled m ptr (h :: dead ++ rest))
    (hdead : ∀ h ∈ dead, h.isAlive = false) (hrest : ∀ h ∈ rest.head?, h.isAlive = true)
    (hfinish : ptr + extent (h :: dead ++ rest) = finish) (hfuel : dead.length < fuel) (n : ℕ) :
    m.deadBlocks finish fuel ptr n =
      some (ptr + extent (h :: dead), n + sizes (h :: dead)) := by
  induction dead generalizing ptr h n fuel with
  | nil =>
      obtain ⟨fuel, rfl⟩ := Nat.exists_eq_succ_of_ne_zero (Nat.ne_of_gt hfuel)
      obtain ⟨hid, -, ht⟩ := ht
      rw [Memory.deadBlocks, hid, if_neg]
      · simp [Header.span]
      · cases rest with
        | nil =>
            rintro ⟨hlt, -⟩
            simp only [List.append_nil, extent_cons, extent_nil] at hfinish
            rw [← Header.span] at hlt
            omega
        | cons r rest =>
            rintro ⟨-, hnext⟩
            rw [← Header.span, ht.1, hrest r rfl] at hnext
            cases hnext
  | cons d dead ih =>
      obtain ⟨fuel, rfl⟩ := Nat.exists_eq_succ_of_ne_zero (Nat.ne_of_gt (Nat.zero_lt_of_lt hfuel))
      obtain ⟨hid, -, ht⟩ := ht
      have hdpos := ht.span_pos
      have hfinish' : ptr + h.span + extent (d :: dead ++ rest) = finish := by
        rw [← hfinish, List.cons_append (a := h), extent_cons, Nat.add_assoc]
      rw [Memory.deadBlocks, hid, ← Header.span, if_pos]
      · rw [ih ht (fun h hh => hdead h (by simp [hh])) hfinish' (by simpa using hfuel)]
        simp [Nat.add_assoc]
      · refine ⟨?_, ?_⟩
        · rw [List.cons_append, extent_cons] at hfinish'
          omega
        · rw [ht.1]
          exact hdead d (by simp)

/-- The bytes of the dead blocks. -/
def DeadSpace (ptr : ℕ) (tiles : List Header) (a : ℕ) : Prop :=
  Space (fun h => h.isAlive = false) ptr tiles a

/-- The list of free blocks up to `last`, as far as the loop has built it. -/
structure BuiltTo (m : Memory) (hc : Cluster) (before : List Header) (last : ℕ) : Prop where
  tiled : Tiled m hc.payloadStart before
  built : ∃ A, hc.head :: freePtrs hc.payloadStart before = A ++ [last] ∧
    (A ++ [last]).IsChain m.Joined

theorem BuiltTo.keep {before : List Header} (hb : BuiltTo m hc before last)
    (hf : h.isFree = false) (hpos : 0 < h.dataSize) :
    BuiltTo (m.setDataId (hc.payloadStart + extent before) h) hc (before ++ [h]) last where
  tiled := by
    refine tiled_append.mpr ⟨hb.tiled.congr fun a ha => ?_, ?_, hpos, trivial⟩
    · rw [Memory.setDataId_id, if_neg (hb.tiled.lt_of_mem_ptrs ha).ne]
    · rw [Memory.setDataId_id, if_pos rfl]
  built := by
    obtain ⟨A, hA, hchain⟩ := hb.built
    refine ⟨A, ?_, hchain⟩
    rw [freePtrs_middle' hf, freePtrs, List.append_nil, hA]

/-- A free block is put at the end of the list. -/
theorem BuiltTo.link {before : List Header} (hl : hc.Laid) (hb : BuiltTo m hc before last)
    (hn : 0 < n) (hlt : n < 2 ^ 16) :
    BuiltTo (((m.setDataId (hc.payloadStart + extent before) (freeId n)).setNext last
      (hc.payloadStart + extent before : ℕ)).setPrev (hc.payloadStart + extent before) last) hc
      (before ++ [freeId n]) (hc.payloadStart + extent before) where
  tiled := by
    refine tiled_append.mpr ⟨hb.tiled.congr fun a ha => ?_, ?_, ?_, trivial⟩
    · exact Function.update_of_ne (hb.tiled.lt_of_mem_ptrs ha).ne ..
    · exact Function.update_self ..
    · rwa [freeId_dataSize hlt]
  built := by
    obtain ⟨A, hA, hchain⟩ := hb.built
    refine ⟨A ++ [last], ?_, ?_⟩
    · rw [freePtrs_middle freeId_isFree, freePtrs, ← List.cons_append, hA]
    · have hnodup : (A ++ [last]).Nodup := by
        rw [← hA]
        exact (nodup_freePtrs hl hb.tiled).sublist (by simp)
      have hne : ∀ a ∈ A ++ [last], a ≠ hc.payloadStart + extent before := by
        intro a ha
        rw [← hA] at ha
        have h₁ := hl.head_lt
        have h₂ := hl.tail_lt
        rcases List.mem_cons.mp ha with rfl | ha
        · omega
        · exact (hb.tiled.lt_of_mem_ptrs (freePtrs_sublist.subset ha)).ne
      rw [List.append_assoc, List.singleton_append, List.isChain_append_cons_cons]
      refine ⟨isChain_congr hchain ?_ ?_, ⟨?_, ?_⟩, .singleton _⟩
      · intro a ha
        have hlast : a ≠ last := ne_of_mem_around (A := A) (l := []) hnodup (by simpa using ha)
        exact Function.update_of_ne hlast ..
      · exact fun b hb => Function.update_of_ne (hne b (List.mem_of_mem_tail hb)) ..
      · exact Function.update_self ..
      · exact Function.update_self ..

theorem setDataId_kept (hid : m.id ptr = h) :
    (if h.isEvent = false then m.setDataId ptr h.markDead else m) = m.setDataId ptr h.kept := by
  unfold Header.kept
  split_ifs
  · rfl
  · rw [Memory.setDataId, ← hid, Function.update_eq_self]

/-- What the loop leaves as it is: the data of the blocks that are alive, and all but their
headers. -/
structure Spared (m m' : Memory) (ptr : ℕ) (tiles : List Header) (last : ℕ) : Prop where
  id : ∀ a ∉ ptrs ptr tiles, m'.id a = m.id a
  next : ∀ a ≠ last, ¬DeadSpace ptr tiles a → m'.next a = m.next a
  prev : ∀ a, ¬DeadSpace ptr tiles a → m'.prev a = m.prev a

/-- One turn of the outer loop at a block that is alive. -/
theorem recoverBlocks_alive (hid : m.id ptr = h) (halive : h.isAlive = true) (hend : ptr < finish) :
    Memory.recoverBlocks finish (fuel + 1) ptr last m =
      Memory.recoverBlocks finish fuel (ptr + h.span) last (m.setDataId ptr h.kept) := by
  have hspan : h.kept.dataSize * sizeofHeapBlock = h.span := congrArg (· * _) kept_dataSize
  rw [Memory.recoverBlocks, if_pos hend, hid, if_neg (by simp [halive]), setDataId_kept hid]
  simp [Memory.setDataId_id, hspan, -kept_dataSize]

/-- One turn of the outer loop at a run of dead blocks. -/
theorem recoverBlocks_dead (ht : Tiled m ptr (h :: dead ++ rest))
    (hdead : ∀ d ∈ h :: dead, d.isAlive = false) (hrest : ∀ d ∈ rest.head?, d.isAlive = true)
    (hfinish : ptr + extent (h :: dead ++ rest) = finish) (hfuel : dead.length < fuel + 1) :
    Memory.recoverBlocks finish (fuel + 1) ptr last m =
      Memory.recoverBlocks finish fuel (ptr + extent (h :: dead)) ptr
        (((m.setDataId ptr (freeId (sizes (h :: dead)))).setNext last ptr).setPrev ptr last) := by
  have hpos := Tiled.span_pos ht
  have hend : ptr < finish := by
    rw [List.cons_append, extent_cons] at hfinish
    omega
  have hrun := ht.deadBlocks (fun d hd => hdead d (by simp [hd])) hrest hfinish hfuel 0
  rw [Memory.recoverBlocks, if_pos hend, ht.1, if_pos (hdead h (by simp)), hrun, Nat.zero_add]
  rfl

theorem Spared.of_alive {k : Header}
    (hs : Spared (m.setDataId ptr k) m' (ptr + h.span) tiles last) :
    Spared m m' ptr (h :: tiles) last where
  id a ha := by
    rw [ptrs, List.mem_cons, not_or] at ha
    rw [hs.id a ha.2, Memory.setDataId_id, if_neg ha.1]
  next a hlast ha := hs.next a hlast fun hdead => ha (Space.append [h] hdead)
  prev a ha := hs.prev a fun hdead => ha (Space.append [h] hdead)

theorem Spared.of_dead {k : Header} (hpos : 0 < h.span) (hdead : h.isAlive = false)
    (hs : Spared (((m.setDataId ptr k).setNext last ptr).setPrev ptr last) m'
      (ptr + extent (h :: dead)) rest ptr) : Spared m m' ptr (h :: dead ++ rest) last := by
  have hne : ∀ a, ¬DeadSpace ptr (h :: dead ++ rest) a → a ≠ ptr := by
    rintro a ha rfl
    exact ha ⟨[], h, dead ++ rest, rfl, hdead, le_rfl, Nat.lt_add_of_pos_right hpos⟩
  refine ⟨fun a ha => ?_, fun a hlast ha => ?_, fun a ha => ?_⟩
  · rw [ptrs_append, List.mem_append, not_or] at ha
    rw [hs.id a ha.2]
    exact Function.update_of_ne (List.ne_of_not_mem_cons ha.1) ..
  · rw [hs.next a (hne a ha) fun hrest => ha (Space.append _ hrest)]
    exact Function.update_of_ne hlast ..
  · rw [hs.prev a fun hrest => ha (Space.append _ hrest)]
    exact Function.update_of_ne (hne a ha) ..

/-- The outer loop builds the list of the recovered sequence. -/
theorem recoverBlocks_eq (hl : hc.Laid) {before : List Header} (hb : BuiltTo m hc before last)
    (ht : Tiled m (hc.payloadStart + extent before) tiles)
    (hfree : ∀ h ∈ tiles, h.isAlive = true → h.isFree = false) (hlt : sizes tiles < 2 ^ 16)
    (hfinish : hc.payloadStart + extent before + extent tiles = hc.payloadEnd)
    (hfuel : tiles.length < fuel) :
    ∃ last' m', Memory.recoverBlocks hc.payloadEnd fuel (hc.payloadStart + extent before) last m =
        some (last', m') ∧
      BuiltTo m' hc (before ++ recovered 0 tiles) last' ∧
      Spared m m' (hc.payloadStart + extent before) tiles last := by
  induction fuel generalizing tiles before m last with
  | zero => exact absurd hfuel (Nat.not_lt_zero _)
  | succ fuel ih =>
      cases tiles with
      | nil =>
          refine ⟨last, m, ?_, ?_, ⟨fun _ _ => rfl, fun _ _ _ => rfl, fun _ _ => rfl⟩⟩
          · rw [Memory.recoverBlocks, if_neg]
            rw [← hfinish, extent_nil]
            omega
          · simpa [recovered, pending] using hb
      | cons h tiles =>
          have hpos := ht.span_pos
          cases halive : h.isAlive with
          | true =>
              have hnotFree : h.kept.isFree = false := kept_isFree.trans (hfree h (by simp) halive)
              have hspan : h.kept.span = h.span := congrArg (· * sizeofHeapBlock) kept_dataSize
              have hextent : hc.payloadStart + extent (before ++ [h.kept]) =
                  hc.payloadStart + extent before + h.span := by
                rw [extent_append, extent_cons, hspan, extent_nil, Nat.add_zero, Nat.add_assoc]
              have hrest : Tiled (m.setDataId (hc.payloadStart + extent before) h.kept)
                  (hc.payloadStart + extent (before ++ [h.kept])) tiles := by
                rw [hextent]
                refine ht.2.2.congr fun a ha => ?_
                have := le_of_mem_ptrs ha
                exact Function.update_of_ne (by omega) ..
              rw [extent_cons] at hfinish
              rw [sizes_cons] at hlt
              obtain ⟨last', m', heq, hbuilt, hspared⟩ := ih
                (hb.keep hnotFree (kept_dataSize.symm ▸ ht.2.1)) hrest
                (fun h hh => hfree h (by simp [hh])) (by omega) (by omega) (by simpa using hfuel)
              rw [hextent] at heq hspared
              refine ⟨last', m', ?_, ?_, hspared.of_alive⟩
              · rw [recoverBlocks_alive ht.1 halive (by omega), heq]
              · simpa [recovered, halive, pending] using hbuilt
          | false =>
              obtain ⟨dead, rest, rfl, hdead, hrest⟩ := exists_dead_run tiles
              rw [← List.cons_append] at *
              have hrun : ∀ d ∈ h :: dead, d.isAlive = false := by simpa [halive] using hdead
              have htiled := tiled_append.mp ht
              have hn : 0 < sizes (h :: dead) := by
                rw [sizes_cons]
                exact Nat.add_pos_left ht.2.1 _
              rw [sizes_append] at hlt
              have hfreeId := freeId_dataSize (n := sizes (h :: dead)) (by omega)
              have hspan : (freeId (sizes (h :: dead))).span = extent (h :: dead) := by
                rw [Header.span, hfreeId, extent_eq]
              have hextent : hc.payloadStart + extent (before ++ [freeId (sizes (h :: dead))]) =
                  hc.payloadStart + extent before + extent (h :: dead) := by
                rw [extent_append, extent_cons, hspan, extent_nil, Nat.add_zero, Nat.add_assoc]
              have hlink := hb.link hl hn (by omega)
              obtain ⟨last', m', heq, hbuilt, hspared⟩ := ih hlink (by
                  rw [hextent]
                  refine @Tiled.congr _ _ _ rest htiled.2 fun a ha => ?_
                  have := le_of_mem_ptrs ha
                  rw [extent_cons] at this
                  exact Function.update_of_ne (by omega) ..)
                (fun h hh => hfree h (by simp [hh])) (by omega)
                (by rw [hextent, ← hfinish, extent_append, Nat.add_assoc _ (extent (h :: dead))])
                (by simp at hfuel; omega)
              rw [hextent] at heq hspared
              refine ⟨last', m', ?_, ?_, hspared.of_dead hpos halive⟩
              · rw [recoverBlocks_dead ht hrun hrest hfinish (by simp at hfuel; omega), heq]
              · rw [recovered_dead hrun, Nat.zero_add, recovered_pending hrest, pending,
                  if_neg hn.ne', ← List.append_assoc]
                exact hbuilt

/-- The data of a block, and all of it but its header. -/
def SameData (m m' : Memory) (ptr : ℕ) (h : Header) : Prop :=
  ∀ a, ptr ≤ a → a < ptr + h.span →
    m'.next a = m.next a ∧ m'.prev a = m.prev a ∧ (a ≠ ptr → m'.id a = m.id a)

/-- The sequence fills the payload. -/
structure Fills (m : Memory) (hc : Cluster) (tiles : List Header) : Prop where
  laid : hc.Laid
  tiled : Tiled m hc.payloadStart tiles
  finish : hc.payloadStart + extent tiles = hc.payloadEnd
  small : sizes tiles < 2 ^ 16

theorem Fills.length_lt_fuel (hf : Fills m hc tiles) : tiles.length < hc.fuel := by
  have := hf.tiled.length_le
  have := hf.finish
  rw [Cluster.fuel]
  omega

/-- `RecoverFromGC` builds the list of the free blocks anew, and spares the data of the blocks that
are alive. -/
theorem Fills.recoverFromGC (hf : Fills m hc tiles)
    (hfree : ∀ h ∈ tiles, h.isAlive = true → h.isFree = false) :
    ∃ m', m.recoverFromGC hc = some m' ∧ Represents m' hc (recovered 0 tiles) ∧
      Frame m m' hc.Owns ∧
      ∀ l₁ f l₂, tiles = l₁ ++ f :: l₂ → f.isAlive = true →
        SameData m m' (hc.payloadStart + extent l₁) f := by
  have hbuilt : BuiltTo (m.setPrev hc.head none) hc [] hc.head :=
    ⟨trivial, [], rfl, .singleton _⟩
  have ht : Tiled (m.setPrev hc.head none) (hc.payloadStart + extent []) tiles :=
    hf.tiled.congr fun _ _ => rfl
  obtain ⟨last, m', heq, ⟨htiled, A, hA, hchain⟩, hspared⟩ := recoverBlocks_eq hf.laid hbuilt ht
    hfree hf.small hf.finish hf.length_lt_fuel
  rw [List.nil_append] at htiled hA
  have hnodup := nodup_freePtrs hf.laid htiled
  rw [← List.cons_append, hA, List.append_assoc, List.singleton_append] at hnodup
  have hrep : Represents (((m'.setNext last hc.tail).setPrev hc.tail last).setNext hc.tail none) hc
      (recovered 0 tiles) := by
    have hne : hc.head ≠ hc.tail := hf.laid.head_lt.ne
    have hlast : last ≠ hc.tail := by
      have := ne_of_mem_around (A := A ++ [last]) (l := []) (by simpa using hnodup) (c := last)
      exact this (by simp)
    have hA' : hc.head :: (freePtrs hc.payloadStart (recovered 0 tiles) ++ [hc.tail]) =
        A ++ last :: [hc.tail] := by
      rw [← List.cons_append, hA, List.append_assoc, List.singleton_append]
    refine ⟨hf.laid, htiled.congr fun _ _ => rfl, ?_, ⟨?_, hA' ▸ hnodup, ?_, ?_⟩⟩
    · rw [extent_eq, sizes_recovered (by simpa using hf.small), Nat.zero_add, ← extent_eq,
        hf.finish]
    · rw [hA', List.isChain_append_cons_cons]
      have hbefore : ∀ a ∈ A ++ [last], a ≠ hc.tail := fun a ha =>
        ne_of_mem_around (A := A ++ [last]) (l := []) (by simpa using hnodup) (by simpa using ha)
      refine ⟨isChain_congr hchain (fun a ha => ?_) (fun b hb => ?_), ⟨?_, ?_⟩, .singleton _⟩
      · rw [List.dropLast_concat] at ha
        have hlast' : a ≠ last := ne_of_mem_around hnodup (by simp [ha])
        simp [Memory.setNext, Memory.setPrev, hlast', hbefore a (by simp [ha])]
      · simp [Memory.setNext, Memory.setPrev, hbefore b (List.mem_of_mem_tail hb)]
      · simp [Memory.setNext, Memory.setPrev, hlast]
      · simp [Memory.setNext, Memory.setPrev]
    · have hhead : ¬DeadSpace (hc.payloadStart + extent []) tiles hc.head := by
        rintro ⟨l₁, f, l₂, -, -, hlow, -⟩
        have h₁ := hf.laid.head_lt
        have h₂ := hf.laid.tail_lt
        simp only [extent_nil, Nat.add_zero] at hlow
        omega
      have hfirst := hspared.prev hc.head hhead
      simp [Memory.setNext, Memory.setPrev, hne, hfirst]
    · exact Function.update_self ..
  refine ⟨((m'.setNext last hc.tail).setPrev hc.tail last).setNext hc.tail none, ?_, hrep, ?_, ?_⟩
  · rw [Memory.recoverFromGC]
    simp only [extent_nil, Nat.add_zero] at heq
    rw [heq]
    rfl
  · intro a ha
    have hnot : ∀ b, hc.Owns b → a ≠ b := fun b hb heq => ha (heq ▸ hb)
    have hend := hf.finish
    have h₁ := hf.laid.head_lt
    have h₂ := hf.laid.tail_lt
    have hhead : a ≠ hc.head := hnot _ ⟨le_rfl, by omega⟩
    have htail : a ≠ hc.tail := hnot _ ⟨by omega, by omega⟩
    have hlast : a ≠ last := by
      refine hnot _ (hrep.owns_of_freeSpace (hrep.freeSpace ?_))
      rw [← List.cons_append, hA]
      simp
    have hdead : ¬DeadSpace (hc.payloadStart + extent []) tiles a := by
      rintro ⟨l₁, f, l₂, rfl, -, hlow, hhigh⟩
      simp only [extent_nil, extent_append, extent_cons, Nat.add_zero] at hlow hhigh hend
      exact hnot a ⟨by omega, by omega⟩ rfl
    refine ⟨hspared.id a fun hmem => ?_, ?_, ?_⟩
    · have hlow := le_of_mem_ptrs hmem
      have hhigh := hf.tiled.lt_of_mem_ptrs hmem
      simp only [extent_nil, Nat.add_zero] at hlow
      exact hnot a ⟨by omega, by omega⟩ rfl
    · have hnext := hspared.next a hhead hdead
      simpa [Memory.setNext, Memory.setPrev, hlast, htail] using hnext
    · have hprev := hspared.prev a hdead
      simpa [Memory.setNext, Memory.setPrev, htail, hhead] using hprev
  · rintro l₁ f l₂ rfl halive a hlow hhigh
    have hnodes : a ∉ hc.head :: (freePtrs hc.payloadStart (recovered 0 (l₁ ++ f :: l₂)) ++
        [hc.tail]) := by
      intro hmem
      rw [recovered_middle halive] at hmem htiled
      refine not_inside_of_mem hf.laid htiled (kept_isFree.trans (hfree f (by simp) halive)) hmem ?_
      have hbefore : extent (recovered 0 l₁) = extent l₁ := by
        have hsmall := hf.small
        rw [sizes_append] at hsmall
        rw [extent_eq, sizes_recovered (by omega), Nat.zero_add, ← extent_eq]
      rw [hbefore, Header.span, kept_dataSize, ← Header.span_eq]
      exact ⟨hlow, hhigh⟩
    have hspace : ¬DeadSpace hc.payloadStart (l₁ ++ f :: l₂) a := fun hdead => by
      have hf := Space.of_inside hdead hlow hhigh
      rw [halive] at hf
      cases hf
    rw [← List.cons_append, hA] at hnodes
    simp only [List.mem_append, List.mem_singleton, not_or] at hnodes
    have hhead : a ≠ hc.head := by
      have h₁ := hf.laid.head_lt
      have h₂ := hf.laid.tail_lt
      omega
    refine ⟨?_, ?_, fun hstart => ?_⟩
    · have hnext := hspared.next a hhead hspace
      simpa [Memory.setNext, Memory.setPrev, hnodes.1.2, hnodes.2] using hnext
    · have hprev := hspared.prev a hspace
      simpa [Memory.setNext, Memory.setPrev, hnodes.2, hhead] using hprev
    · refine hspared.id a fun hmem => ?_
      have := hf.tiled.ptrs_outside hmem
      omega

/-! ## The first layout -/

theorem freeId_isAlive (n : ℕ) : (freeId n).isAlive = false := by
  have hflags : (freeId n).flags = 0x08#8 := rfl
  rw [Header.isAlive, Header.isFlagSet, hflags]
  decide

theorem cutId_isAlive (n : ℕ) : (rawId .freeBlock 0 n).isAlive = false := by
  have hflags : (rawId .freeBlock 0 n).flags = 0x00#8 := rfl
  rw [Header.isAlive, Header.isFlagSet, hflags]
  decide

/-- The loop cuts the payload in free blocks, and the last one ends where the payload does. -/
theorem cutBlocks_eq {blockSize count : ℕ} (hfinish : ptr + count * sizeofHeapBlock = finish)
    (hpos : 0 < blockSize) (hlt : blockSize < 2 ^ 16)
    (hwrap : finish + blockSize * sizeofHeapBlock < 2 ^ 32) (hfuel : count < fuel) :
    ∃ tiles m', m.cutBlocks finish fuel blockSize ptr = some m' ∧ Tiled m' ptr tiles ∧
      sizes tiles = count ∧ (∀ h ∈ tiles, h.isAlive = false) ∧
      Frame m m' fun a => ptr ≤ a ∧ a < finish := by
  induction fuel generalizing ptr count blockSize m with
  | zero => exact absurd hfuel (Nat.not_lt_zero _)
  | succ fuel ih =>
      rw [sizeofHeapBlock] at hfinish hwrap
      by_cases hzero : count = 0
      · refine ⟨[], m, ?_, trivial, hzero.symm, by simp, Frame.refl m _⟩
        rw [Memory.cutBlocks, if_neg (by omega)]
      · have hsize : (if finish < Word32.u32 (ptr + blockSize * sizeofHeapBlock)
            then (finish - ptr) / sizeofHeapBlock else blockSize) = min blockSize count := by
          rw [sizeofHeapBlock, Word32.u32_of_lt (by omega)]
          split_ifs <;> omega
        obtain ⟨tiles, m', heq, htiled, hsizes, hdead, hframe⟩ :=
          @ih (m.setDataId ptr (rawId .freeBlock 0 (min blockSize count)))
            (ptr + min blockSize count * sizeofHeapBlock) (min blockSize count)
            (count - min blockSize count)
            (by rw [sizeofHeapBlock]; omega) (by omega) (by omega)
            (by rw [sizeofHeapBlock]; omega) (by omega)
        have hdata : (rawId .freeBlock 0 (min blockSize count)).dataSize = min blockSize count :=
          rawId_dataSize (by omega)
        refine ⟨rawId .freeBlock 0 (min blockSize count) :: tiles, m', ?_, ⟨?_, ?_, ?_⟩, ?_, ?_, ?_⟩
        · rw [Memory.cutBlocks, if_pos (by omega)]
          simp only [hsize]
          exact heq
        · rw [(hframe ptr (by rw [sizeofHeapBlock]; omega)).1]
          exact Function.update_self ..
        · omega
        · rwa [Header.span, hdata]
        · rw [sizes_cons, hsizes, hdata]
          omega
        · intro h hh
          rcases List.mem_cons.mp hh with rfl | hh
          · exact cutId_isAlive _
          · exact hdead h hh
        · refine ((Frame.refl m _).setDataId ⟨le_rfl, by omega⟩ _).trans (hframe.mono ?_)
          intro a ha
          omega

/-- `HeapCluster_Initialize` leaves one free block that fills the payload. -/
theorem heapClusterInitialize_eq (hl : hc.Laid) {blockSize count : ℕ}
    (hfinish : hc.payloadStart + count * sizeofHeapBlock = hc.payloadEnd) (hcount : count < 2 ^ 16)
    (hpos : 0 < blockSize) (hlt : blockSize < 2 ^ 16)
    (hwrap : hc.payloadEnd + blockSize * sizeofHeapBlock < 2 ^ 32) :
    ∃ m', m.heapClusterInitialize hc blockSize = some m' ∧ Represents m' hc (pending count) ∧
      Frame m m' hc.Owns := by
  have hfuel : count < hc.fuel := by
    rw [sizeofHeapBlock] at hfinish
    rw [Cluster.fuel]
    omega
  obtain ⟨tiles, m', heq, htiled, hsizes, hdead, hcut⟩ :=
    cutBlocks_eq (m := m.dblLinkedListInitialize hc) hfinish hpos hlt hwrap hfuel
  have hfills : Fills m' hc tiles :=
    ⟨hl, htiled, by rw [extent_eq, hsizes, hfinish], by omega⟩
  obtain ⟨m'', heq', hrep, hframe, -⟩ := hfills.recoverFromGC fun h hh halive => by
    rw [hdead h hh] at halive
    cases halive
  rw [← List.append_nil tiles, recovered_dead hdead, Nat.zero_add, hsizes] at hrep
  have h₁ := hl.head_lt
  have h₂ := hl.tail_lt
  have hhead : hc.Owns hc.head := ⟨le_rfl, by omega⟩
  have htail : hc.Owns hc.tail := ⟨by omega, by omega⟩
  have hinit : Frame m (m.dblLinkedListInitialize hc) hc.Owns :=
    ((((Frame.refl m _).setNext hhead _).setPrev hhead _).setNext htail _).setPrev htail _
  refine ⟨m'', by rw [Memory.heapClusterInitialize, heq, Option.bind_some, heq'], hrep,
    (hinit.trans (hcut.mono fun a ha => ⟨by omega, ha.2⟩)).trans hframe⟩

end TinyCLR.ClusterMemory
