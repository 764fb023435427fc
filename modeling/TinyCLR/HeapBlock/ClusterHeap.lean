import TinyCLR.HeapBlock.ClusterInsertion

/-!
# Well formed clusters

Between operations no two free blocks touch and every free block has the same kind of header. The
blocks that are given out, with their addresses, are what a user of the heap sees.
-/

namespace TinyCLR.ClusterMemory

open HeapCluster (DataType sizeofHeapBlock)
open DoublyLinked

/-- The blocks that are given out, with their addresses. -/
def takenBlocks : ℕ → List Header → List (ℕ × Header)
  | _, [] => []
  | ptr, h :: tiles =>
      if h.isFree then takenBlocks (ptr + h.span) tiles
      else (ptr, h) :: takenBlocks (ptr + h.span) tiles

/-- What every operation keeps of a sequence of blocks. -/
structure Tidy (tiles : List Header) : Prop where
  coalesced : tiles.IsChain fun h h' => h.isFree = false ∨ h'.isFree = false
  header : ∀ h ∈ tiles, h.isFree = true → h = freeId h.dataSize

variable {m m' : Memory} {hc : Cluster} {ptr a n length : ℕ} {h f g : Header}
  {tiles l₁ l₂ l : List Header} {dataType : DataType} {flags : BitVec 32} {S : ℕ → Prop}

theorem takenBlocks_append :
    takenBlocks ptr (l₁ ++ l₂) = takenBlocks ptr l₁ ++ takenBlocks (ptr + extent l₁) l₂ := by
  induction l₁ generalizing ptr with
  | nil => rfl
  | cons h l₁ ih => by_cases hf : h.isFree <;> simp [takenBlocks, hf, ih, Nat.add_assoc]

theorem takenBlocks_pending (n : ℕ) : takenBlocks ptr (pending n) = [] := by
  by_cases hn : n = 0 <;> simp [pending, hn, takenBlocks]

theorem takenBlocks_remainder : takenBlocks ptr (remainder length f) = [] := by
  by_cases hn : f.dataSize - length = 0 <;> simp [remainder, hn, takenBlocks]

/-! ## Tidy sequences -/

theorem Tidy.left (ht : Tidy (l₁ ++ l₂)) : Tidy l₁ :=
  ⟨ht.coalesced.left_of_append, fun h hh => ht.header h (by simp [hh])⟩

theorem Tidy.right (ht : Tidy (l₁ ++ l₂)) : Tidy l₂ :=
  ⟨ht.coalesced.right_of_append, fun h hh => ht.header h (by simp [hh])⟩

theorem Tidy.tail_right (ht : Tidy (l₁ ++ f :: l₂)) : Tidy l₂ := by
  rw [List.append_cons] at ht
  exact ht.right

/-- Sequences may follow each other when no free blocks meet. -/
theorem Tidy.append (h₁ : Tidy l₁) (h₂ : Tidy l₂)
    (hmeet : ∀ f ∈ l₁.getLast?, ∀ g ∈ l₂.head?, f.isFree = false ∨ g.isFree = false) :
    Tidy (l₁ ++ l₂) where
  coalesced := h₁.coalesced.append h₂.coalesced hmeet
  header h hh := (List.mem_append.mp hh).elim (h₁.header h) (h₂.header h)

theorem tidy_single (hh : h.isFree = true → h = freeId h.dataSize) : Tidy [h] :=
  ⟨.singleton _, by simpa using hh⟩

theorem tidy_freeId (hn : n < 2 ^ 16) : Tidy [freeId n] :=
  tidy_single fun _ => by rw [freeId_dataSize hn]

/-- A block that is given out may stand between any two sequences. -/
theorem Tidy.middle (h₁ : Tidy l₁) (h₂ : Tidy l₂) (hf : f.isFree = false) :
    Tidy (l₁ ++ f :: l₂) := by
  have hsingle : Tidy [f] := tidy_single fun hfree => by rw [hf] at hfree; cases hfree
  refine h₁.append (Tidy.append hsingle h₂ ?_) ?_
  · intro e he g _
    simp only [List.getLast?_singleton, Option.mem_def, Option.some.injEq] at he
    exact .inl (he ▸ hf)
  · intro e _ g hg
    simp only [List.head?_cons, Option.mem_def, Option.some.injEq] at hg
    exact .inr (hg ▸ hf)

/-- Around a free block there are none. -/
theorem Tidy.around (ht : Tidy (l₁ ++ f :: l₂)) (hf : f.isFree = true) :
    (∀ g ∈ l₁.getLast?, g.isFree = false) ∧ ∀ g ∈ l₂.head?, g.isFree = false := by
  have hchain := List.isChain_append.mp ht.coalesced
  refine ⟨fun g hg => ?_, fun g hg => ?_⟩
  · have := hchain.2.2 g hg f rfl
    simpa [hf] using this
  · have := (List.isChain_cons.mp hchain.2.1).1 g hg
    simpa [hf] using this

/-- A free block may stand where none of its neighbours is free. -/
theorem Tidy.middle_free (h₁ : Tidy l₁) (h₂ : Tidy l₂) (hn : n < 2 ^ 16)
    (hleft : ∀ g ∈ l₁.getLast?, g.isFree = false) (hright : ∀ g ∈ l₂.head?, g.isFree = false) :
    Tidy (l₁ ++ freeId n :: l₂) := by
  refine h₁.append (Tidy.append (tidy_freeId hn) h₂ ?_) ?_
  · exact fun _ _ g hg => .inr (hright g hg)
  · exact fun e he _ _ => .inl (hleft e he)

/-- A tidy sequence has no free block that is alive. -/
theorem Tidy.not_free_of_alive (ht : Tidy tiles) (hh : h ∈ tiles) (halive : h.isAlive = true) :
    h.isFree = false := by
  rw [Bool.eq_false_iff]
  intro hfree
  rw [ht.header h hh hfree, freeId_isAlive] at halive
  cases halive

/-! ## Extraction -/

theorem firstFit_eq_none : firstFit length tiles = none ↔ ∀ h ∈ tiles, h.fits length = false := by
  induction tiles with
  | nil => simp [firstFit]
  | cons h tiles ih => by_cases hf : h.fits length <;> simp [firstFit, hf, ih]

theorem lastFit_eq_none : lastFit length tiles = none ↔ ∀ h ∈ tiles, h.fits length = false := by
  induction tiles with
  | nil => simp [lastFit]
  | cons h tiles ih => by_cases hf : h.fits length <;> simp [lastFit, hf, ih]

/-- Nothing is given out only when no free block is large enough. -/
theorem extract_eq_none :
    extract dataType flags length tiles = none ↔ ∀ h ∈ tiles, h.fits length = false := by
  rw [extract]
  split_ifs
  · rw [Option.map_eq_none_iff, lastFit_eq_none]
  · rw [Option.map_eq_none_iff, firstFit_eq_none]

/-- A block of the requested size is put between the others, in what was free. -/
structure GivenOut (ptr : ℕ) (tiles : List Header) (r : ℕ × List Header) (id : Header) : Prop where
  tidy : Tidy r.2
  taken : ∃ T₁ T₂, takenBlocks ptr tiles = T₁ ++ T₂ ∧
    takenBlocks ptr r.2 = T₁ ++ (ptr + r.1, id) :: T₂
  wasFree : ∀ a, ptr + r.1 ≤ a → a < ptr + r.1 + id.span → Space (·.isFree) ptr tiles a

theorem tidy_remainder : Tidy (remainder length f) := by
  rw [remainder]
  split_ifs
  · have := f.dataSize_lt
    exact tidy_freeId (by omega)
  · exact ⟨.nil, by simp⟩

theorem head?_remainder_append (hright : ∀ g ∈ l₂.head?, g.isFree = false) :
    Tidy l₂ → Tidy (remainder length f ++ l₂) := fun h₂ =>
  tidy_remainder.append h₂ fun _ _ g hg => .inr (hright g hg)

theorem append_remainder (hleft : ∀ g ∈ l₁.getLast?, g.isFree = false) :
    Tidy l₁ → Tidy (l₁ ++ remainder length f) := fun h₁ =>
  h₁.append tidy_remainder fun e he _ _ => .inl (hleft e he)

theorem givenOut (ptr : ℕ) (ht : Tidy tiles) (htype : dataType ≠ .freeBlock) {r : ℕ × List Header}
    (hr : extract dataType flags length tiles = some r) :
    GivenOut ptr tiles r (rawId dataType flags length) := by
  have hid : (rawId dataType flags length).isFree = false := by simpa [rawId_isFree] using htype
  have hsplit : ∀ l₁ f l₂, tiles = l₁ ++ f :: l₂ → f.fits length →
      Tidy l₁ ∧ Tidy l₂ ∧ ((∀ g ∈ l₁.getLast?, g.isFree = false) ∧
        ∀ g ∈ l₂.head?, g.isFree = false) ∧ f.isFree ∧
        (rawId dataType flags length).span + extent (remainder length f) = f.span := by
    rintro l₁ f l₂ rfl hf
    simp only [Header.fits, Bool.and_eq_true, decide_eq_true_eq] at hf
    have hlt := f.dataSize_lt
    refine ⟨ht.left, ht.tail_right, ht.around hf.1, hf.1, ?_⟩
    rw [extent_remainder, Header.span, rawId_dataSize (by omega), ← Nat.add_mul,
      Nat.add_sub_cancel' hf.2, Header.span]
  rw [extract] at hr
  split_ifs at hr
  · obtain ⟨⟨l₁, f, l₂⟩, hfit, rfl⟩ := Option.map_eq_some_iff.mp hr
    obtain ⟨rfl, hf⟩ := lastFit_eq_some hfit
    obtain ⟨h₁, h₂, haround, hfree, hspan⟩ := hsplit l₁ f l₂ rfl hf
    refine ⟨(append_remainder haround.1 h₁).middle h₂ hid, ⟨takenBlocks ptr l₁,
      takenBlocks (ptr + extent l₁ + f.span) l₂, ?_, ?_⟩, fun a hlow hhigh => ?_⟩
    · simp [takenBlocks_append, takenBlocks, hfree]
    · have hend : extent (remainder length f) + (rawId dataType flags length).span = f.span := by
        omega
      simp [takenBlocks_append, takenBlocks, takenBlocks_remainder, hid, Nat.add_assoc, hend]
    · simp only [extent_append] at hlow hhigh
      exact ⟨l₁, f, l₂, rfl, hfree, by omega, by omega⟩
  · obtain ⟨⟨l₁, f, l₂⟩, hfit, rfl⟩ := Option.map_eq_some_iff.mp hr
    obtain ⟨rfl, hf⟩ := firstFit_eq_some hfit
    obtain ⟨h₁, h₂, haround, hfree, hspan⟩ := hsplit l₁ f l₂ rfl hf
    refine ⟨h₁.middle (head?_remainder_append haround.2 h₂) hid, ⟨takenBlocks ptr l₁,
      takenBlocks (ptr + extent l₁ + f.span) l₂, ?_, ?_⟩, fun a hlow hhigh => ?_⟩
    · simp [takenBlocks_append, takenBlocks, hfree]
    · simp [takenBlocks_append, takenBlocks, takenBlocks_remainder, hid, Nat.add_assoc, hspan]
    · dsimp only at hlow hhigh
      exact ⟨l₁, f, l₂, rfl, hfree, hlow, by omega⟩

/-! ## Recovery -/

theorem tidy_pending (hn : n < 2 ^ 16) : Tidy (pending n) := by
  rw [pending]
  split_ifs
  · exact ⟨.nil, by simp⟩
  · exact tidy_freeId hn

/-- After the recovery the sequence is tidy, whatever it was before. -/
theorem tidy_recovered (hfree : ∀ h ∈ tiles, h.isAlive = true → h.isFree = false)
    (hlt : n + sizes tiles < 2 ^ 16) : Tidy (recovered n tiles) := by
  induction tiles generalizing n with
  | nil => exact tidy_pending (by simpa using hlt)
  | cons h tiles ih =>
      rw [sizes_cons] at hlt
      have hrest : ∀ h ∈ tiles, h.isAlive = true → h.isFree = false := fun h hh =>
        hfree h (List.mem_cons_of_mem _ hh)
      cases halive : h.isAlive with
      | true =>
          rw [recovered, if_neg (by simp [halive])]
          exact (tidy_pending (by omega)).middle (ih hrest (by omega))
            (kept_isFree.trans (hfree h List.mem_cons_self halive))
      | false =>
          rw [recovered, if_pos halive]
          exact ih hrest (by omega)

theorem extent_pending (hn : n < 2 ^ 16) : extent (pending n) = n * sizeofHeapBlock := by
  by_cases hzero : n = 0 <;> simp [pending, hzero, Header.span, freeId_dataSize hn]

/-- The recovery keeps the blocks that are alive where they are, and takes the others back. -/
theorem takenBlocks_recovered (hfree : ∀ h ∈ tiles, h.isAlive = true → h.isFree = false)
    (hlt : n + sizes tiles < 2 ^ 16) :
    takenBlocks ptr (recovered n tiles) =
      ((takenBlocks (ptr + n * sizeofHeapBlock) tiles).filter fun b => b.2.isAlive).map
        fun b => (b.1, b.2.kept) := by
  induction tiles generalizing n ptr with
  | nil => simp [recovered, takenBlocks_pending, takenBlocks]
  | cons h tiles ih =>
      rw [sizes_cons] at hlt
      have hrest : ∀ h ∈ tiles, h.isAlive = true → h.isFree = false := fun h hh =>
        hfree h (List.mem_cons_of_mem _ hh)
      cases halive : h.isAlive with
      | true =>
          have hnot := hfree h List.mem_cons_self halive
          have hkept : h.kept.isFree = false := kept_isFree.trans hnot
          have hspan : h.kept.span = h.span := congrArg (· * sizeofHeapBlock) kept_dataSize
          have hlater : takenBlocks (ptr + n * sizeofHeapBlock + h.span) (recovered 0 tiles) = _ :=
            ih hrest (by omega)
          rw [Nat.zero_mul, Nat.add_zero] at hlater
          rw [recovered, if_neg (by simp [halive]), takenBlocks_append, takenBlocks_pending,
            List.nil_append, extent_pending (by omega), takenBlocks, if_neg (by simp [hkept]),
            hspan, hlater, takenBlocks, if_neg (by simp [hnot])]
          simp [halive]
      | false =>
          have hstart : ptr + (n + h.dataSize) * sizeofHeapBlock =
              ptr + n * sizeofHeapBlock + h.span := by
            rw [Nat.add_mul, Header.span, Nat.add_assoc]
          rw [recovered, if_pos halive, ih hrest (by omega), hstart, takenBlocks]
          split_ifs
          · rfl
          · rw [List.filter_cons_of_neg (by simp [halive])]

theorem exists_fits_pending (hpos : 0 < length) (hlt : n < 2 ^ 16) :
    (∃ h ∈ pending n, h.fits length = true) ↔ length ≤ n := by
  by_cases hzero : n = 0
  · subst hzero
    simpa [pending] using hpos.ne'
  · simp [pending, hzero, Header.fits, freeId_dataSize hlt]

theorem exists_fits_of_le (hpos : 0 < length) (hle : length ≤ n) (hlt : n + sizes tiles < 2 ^ 16) :
    ∃ h ∈ recovered n tiles, h.fits length = true := by
  induction tiles generalizing n with
  | nil => exact (exists_fits_pending hpos (by simpa using hlt)).mpr hle
  | cons h tiles ih =>
      rw [sizes_cons] at hlt
      cases halive : h.isAlive with
      | true =>
          obtain ⟨f, hf, hfits⟩ := (exists_fits_pending hpos (by omega)).mpr hle
          exact ⟨f, by simp [recovered, halive, hf], hfits⟩
      | false =>
          rw [recovered, if_pos halive]
          exact ih (by omega) (by omega)

/-- A run of dead blocks becomes a free block that is at least as large. -/
theorem exists_fits_of_dead {dead : List Header} (hdead : ∀ h ∈ dead, h.isAlive = false)
    (hpos : 0 < length) (hle : length ≤ sizes dead)
    (hlt : n + sizes (l₁ ++ dead ++ l₂) < 2 ^ 16) :
    ∃ h ∈ recovered n (l₁ ++ dead ++ l₂), h.fits length = true := by
  induction l₁ generalizing n with
  | nil =>
      simp only [List.nil_append, sizes_append] at hlt ⊢
      rw [recovered_dead hdead]
      exact exists_fits_of_le hpos (by omega) (by omega)
  | cons h l₁ ih =>
      simp only [List.cons_append, sizes_cons] at hlt ⊢
      cases halive : h.isAlive with
      | true =>
          obtain ⟨f, hf, hfits⟩ := ih (n := 0) (by omega)
          rw [recovered, if_neg (by simp [halive])]
          exact ⟨f, List.mem_append_right _ (List.mem_cons_of_mem _ hf), hfits⟩
      | false =>
          rw [recovered, if_pos halive]
          exact ih (by omega)

/-- Every free block after the recovery was a run of dead ones. -/
theorem exists_dead_of_fits (hfree : ∀ h ∈ tiles, h.isAlive = true → h.isFree = false)
    (hlt : n + sizes tiles < 2 ^ 16) (hpos : 0 < length)
    (hfits : ∃ h ∈ recovered n tiles, h.fits length = true) :
    (∃ dead l₂, tiles = dead ++ l₂ ∧ (∀ h ∈ dead, h.isAlive = false) ∧ length ≤ n + sizes dead) ∨
      ∃ l₁ dead l₂, tiles = l₁ ++ dead ++ l₂ ∧ (∀ h ∈ dead, h.isAlive = false) ∧
        length ≤ sizes dead := by
  induction tiles generalizing n with
  | nil =>
      have hle := (exists_fits_pending hpos (by simpa using hlt)).mp hfits
      exact .inl ⟨[], [], rfl, by simp, by simpa using hle⟩
  | cons h tiles ih =>
      rw [sizes_cons] at hlt
      have hrest : ∀ h ∈ tiles, h.isAlive = true → h.isFree = false := fun h hh =>
        hfree h (List.mem_cons_of_mem _ hh)
      cases halive : h.isAlive with
      | true =>
          rw [recovered, if_neg (by simp [halive])] at hfits
          obtain ⟨f, hf, hfit⟩ := hfits
          rcases List.mem_append.mp hf with hf | hf
          · have hle := (exists_fits_pending hpos (by omega)).mp ⟨f, hf, hfit⟩
            exact .inl ⟨[], h :: tiles, rfl, by simp, by simpa using hle⟩
          · rcases List.mem_cons.mp hf with rfl | hf
            · have hnot : h.kept.isFree = false :=
                kept_isFree.trans (hfree h List.mem_cons_self halive)
              simp [Header.fits, hnot] at hfit
            · rcases ih hrest (by omega) ⟨f, hf, hfit⟩ with
                ⟨dead, l₂, rfl, hdead, hle⟩ | ⟨l₁, dead, l₂, rfl, hdead, hle⟩
              · exact .inr ⟨[h], dead, l₂, rfl, hdead, by simpa using hle⟩
              · exact .inr ⟨h :: l₁, dead, l₂, rfl, hdead, hle⟩
      | false =>
          rw [recovered, if_pos halive] at hfits
          rcases ih hrest (by omega) hfits with
            ⟨dead, l₂, rfl, hdead, hle⟩ | ⟨l₁, dead, l₂, rfl, hdead, hle⟩
          · refine .inl ⟨h :: dead, l₂, rfl, by simpa [halive] using hdead, ?_⟩
            rw [sizes_cons]
            omega
          · exact .inr ⟨h :: l₁, dead, l₂, rfl, hdead, hle⟩

/-- After the recovery a request can be met when a run of dead blocks could have met it. -/
theorem fits_recovered (hfree : ∀ h ∈ tiles, h.isAlive = true → h.isFree = false)
    (hlt : sizes tiles < 2 ^ 16) (hpos : 0 < length) :
    (∃ h ∈ recovered 0 tiles, h.fits length = true) ↔ ∃ l₁ dead l₂, tiles = l₁ ++ dead ++ l₂ ∧
      (∀ h ∈ dead, h.isAlive = false) ∧ length ≤ sizes dead := by
  constructor
  · intro hfits
    rcases exists_dead_of_fits hfree (by omega) hpos hfits with
      ⟨dead, l₂, heq, hdead, hle⟩ | hrun
    · exact ⟨[], dead, l₂, heq, hdead, by omega⟩
    · exact hrun
  · rintro ⟨l₁, dead, l₂, rfl, hdead, hle⟩
    exact exists_fits_of_dead hdead hpos hle (by omega)

/-! ## Insertion -/

/-- The free block that fills a hole leaves the other blocks as they are. -/
theorem tidy_inserted {k₁ g₁ g₂ k₂ : List Header} (h₁ : Tidy (k₁ ++ g₁)) (h₂ : Tidy (g₂ ++ k₂))
    (hg₁ : TouchesBefore k₁ g₁) (hg₂ : TouchesBehind g₂ k₂) (hn : n < 2 ^ 16) :
    Tidy (k₁ ++ freeId n :: k₂) := by
  refine h₁.left.middle_free h₂.right hn ?_ ?_
  · rcases hg₁ with ⟨-, hlast⟩ | ⟨f, rfl, hf⟩
    · exact hlast
    · exact (h₁.around hf).1
  · rcases hg₂ with ⟨-, hhead⟩ | ⟨f, rfl, hf⟩
    · exact hhead
    · rw [List.singleton_append, ← List.nil_append (f :: k₂)] at h₂
      exact (h₂.around hf).2

end TinyCLR.ClusterMemory
