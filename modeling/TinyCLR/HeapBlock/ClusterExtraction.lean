import TinyCLR.HeapBlock.ClusterTiles

/-!
# Extraction of blocks

What `ExtractBlocks` does to the sequence of blocks: the first free block that is large enough, or
the last one for events, is cut in two.
-/

namespace TinyCLR.ClusterMemory

open HeapCluster (DataType sizeofHeapBlock)
open DoublyLinked DoublyLinked.Links

/-- The block can be given out. -/
def Header.fits (length : ℕ) (h : Header) : Bool := h.isFree && decide (length ≤ h.dataSize)

/-- The first block that fits, between those before and those behind it. -/
def firstFit (length : ℕ) : List Header → Option (List Header × Header × List Header)
  | [] => none
  | h :: tiles =>
      if h.fits length then some ([], h, tiles)
      else (firstFit length tiles).map fun r => (h :: r.1, r.2)

/-- The last block that fits. -/
def lastFit (length : ℕ) : List Header → Option (List Header × Header × List Header)
  | [] => none
  | h :: tiles =>
      ((lastFit length tiles).map fun r => (h :: r.1, r.2)).or
        (if h.fits length then some ([], h, tiles) else none)

/-- The part of a block that is left over. -/
def remainder (length : ℕ) (f : Header) : List Header :=
  if f.dataSize - length ≠ 0 then [freeId (f.dataSize - length)] else []

/-- The sequence with a new block in it, and how far it lies from the start. -/
def extract (dataType : DataType) (flags : BitVec 32) (length : ℕ) (tiles : List Header) :
    Option (ℕ × List Header) :=
  let id := rawId dataType flags length
  if flags &&& hbEvent ≠ 0 then
    (lastFit length tiles).map fun r =>
      (extent (r.1 ++ remainder length r.2.1), r.1 ++ remainder length r.2.1 ++ id :: r.2.2)
  else
    (firstFit length tiles).map fun r =>
      (extent r.1, r.1 ++ id :: (remainder length r.2.1 ++ r.2.2))

variable {m m' : Memory} {hc : Cluster} {ptr a length : ℕ} {h f : Header}
  {tiles l₁ l₂ l : List Header} {dataType : DataType} {flags : BitVec 32}

/-! ## The search -/

theorem firstFit_eq_some {r : List Header × Header × List Header}
    (hr : firstFit length tiles = some r) : tiles = r.1 ++ r.2.1 :: r.2.2 ∧ r.2.1.fits length := by
  induction tiles generalizing r with
  | nil => cases hr
  | cons h tiles ih =>
      by_cases hf : h.fits length
      · simp only [firstFit, if_pos hf, Option.some.injEq] at hr
        subst hr
        exact ⟨rfl, hf⟩
      · simp only [firstFit, if_neg hf, Option.map_eq_some_iff] at hr
        obtain ⟨r, hr, rfl⟩ := hr
        exact ⟨congrArg (h :: ·) (ih hr).1, (ih hr).2⟩

theorem lastFit_eq_some {r : List Header × Header × List Header}
    (hr : lastFit length tiles = some r) : tiles = r.1 ++ r.2.1 :: r.2.2 ∧ r.2.1.fits length := by
  induction tiles generalizing r with
  | nil => cases hr
  | cons h tiles ih =>
      rw [lastFit, Option.or_eq_some_iff] at hr
      rcases hr with hr | ⟨-, hr⟩
      · obtain ⟨r, hlast, rfl⟩ := Option.map_eq_some_iff.mp hr
        exact ⟨congrArg (h :: ·) (ih hlast).1, (ih hlast).2⟩
      · obtain ⟨hf, hfirst⟩ := Option.ite_none_right_eq_some.mp hr
        obtain rfl := Option.some.inj hfirst
        exact ⟨rfl, hf⟩

theorem find?_freePtrs (ht : Tiled m ptr tiles) :
    (freePtrs ptr tiles).find? (fun a => decide (length ≤ (m.id a).dataSize)) =
      (firstFit length tiles).map fun r => ptr + extent r.1 := by
  induction tiles generalizing ptr with
  | nil => rfl
  | cons h tiles ih =>
      obtain ⟨hid, -, hrest⟩ := ht
      by_cases hfree : h.isFree
      · by_cases hsize : length ≤ h.dataSize
        · simp [freePtrs, firstFit, Header.fits, hfree, hid, hsize]
        · simp [freePtrs, firstFit, Header.fits, hfree, hid, hsize, ih hrest, Function.comp_def,
            Nat.add_assoc]
      · simp [freePtrs, firstFit, Header.fits, hfree, ih hrest, Function.comp_def, Nat.add_assoc]

theorem find?_reverse_freePtrs (ht : Tiled m ptr tiles) :
    (freePtrs ptr tiles).reverse.find? (fun a => decide (length ≤ (m.id a).dataSize)) =
      (lastFit length tiles).map fun r => ptr + extent r.1 := by
  induction tiles generalizing ptr with
  | nil => rfl
  | cons h tiles ih =>
      obtain ⟨hid, -, hrest⟩ := ht
      have hlater := ih hrest
      by_cases hfree : h.isFree
      · rw [freePtrs, if_pos hfree, List.reverse_cons, List.find?_append, hlater]
        cases hfit : lastFit length tiles with
        | none => by_cases hsize : length ≤ h.dataSize <;>
            simp [lastFit, hfit, Header.fits, hfree, hid, hsize]
        | some r => simp [lastFit, hfit, Nat.add_assoc]
      · rw [freePtrs, if_neg hfree, hlater]
        cases hfit : lastFit length tiles <;>
          simp [lastFit, hfit, Header.fits, hfree, Nat.add_assoc]

/-! ## Headers -/

theorem Header.dataSize_lt (h : Header) : h.dataSize < 2 ^ 16 := h.size.toNat_lt

theorem rawId_dataSize {n : ℕ} (hn : n < 2 ^ 16) : (rawId dataType flags n).dataSize = n :=
  UInt16.toNat_ofNat_of_lt' hn

theorem rawId_isFree {n : ℕ} : (rawId dataType flags n).isFree = decide (dataType = .freeBlock) :=
  rfl

@[simp] theorem freeId_isFree {n : ℕ} : (freeId n).isFree = true := rfl

theorem freeId_dataSize {n : ℕ} (hn : n < 2 ^ 16) : (freeId n).dataSize = n := rawId_dataSize hn

theorem extent_remainder :
    extent (remainder length f) = (f.dataSize - length) * sizeofHeapBlock := by
  rw [remainder]
  split_ifs with hrest
  · have := f.dataSize_lt
    rw [extent_cons, extent_nil, Nat.add_zero, Header.span, freeId_dataSize (by omega)]
  · rw [not_not.mp hrest, extent_nil, Nat.zero_mul]

/-! ## Replacing blocks -/

/-- A stretch of blocks is replaced by another one of the same extent. -/
theorem Represents.retile {o n : List Header} (hr : Represents m hc (l₁ ++ (o ++ l₂)))
    (hbefore : ∀ a < hc.payloadStart + extent l₁, m'.id a = m.id a)
    (hafter : ∀ a, hc.payloadStart + extent l₁ + extent o ≤ a → m'.id a = m.id a)
    (hnew : Tiled m' (hc.payloadStart + extent l₁) n) (hextent : extent n = extent o)
    (hfree : m'.IsList hc.head (freePtrs hc.payloadStart (l₁ ++ (n ++ l₂))) hc.tail) :
    Represents m' hc (l₁ ++ (n ++ l₂)) where
  laid := hr.laid
  tiled := by
    have ht := hr.tiled
    rw [tiled_append, tiled_append] at ht ⊢
    rw [hextent]
    refine ⟨ht.1.congr fun a ha => hbefore a (ht.1.lt_of_mem_ptrs ha), hnew, ?_⟩
    exact ht.2.2.congr fun a ha => hafter a (le_of_mem_ptrs ha)
  finish := by
    have := hr.finish
    simp only [extent_append] at this ⊢
    omega
  free := hfree

theorem Memory.setDataId_id (ptr a : ℕ) (h : Header) :
    (m.setDataId ptr h).id a = if a = ptr then h else m.id a := Function.update_apply ..

/-! ## What is written -/

/-- Only what lies in the set changes. -/
def Frame (m m' : Memory) (S : ℕ → Prop) : Prop :=
  ∀ a, ¬S a → m'.id a = m.id a ∧ m'.next a = m.next a ∧ m'.prev a = m.prev a

/-- The sentinels, and the bytes of the free blocks. -/
def FreeSpace (hc : Cluster) (tiles : List Header) (a : ℕ) : Prop :=
  a = hc.head ∨ a = hc.tail ∨ Space (·.isFree) hc.payloadStart tiles a

variable {S : ℕ → Prop}

theorem Frame.refl (m : Memory) (S : ℕ → Prop) : Frame m m S := fun _ _ => ⟨rfl, rfl, rfl⟩

theorem Frame.setDataId (hf : Frame m m' S) (hp : S ptr) (h : Header) :
    Frame m (m'.setDataId ptr h) S := by
  intro a ha
  have hne : a ≠ ptr := fun heq => ha (heq ▸ hp)
  exact ⟨(Function.update_of_ne hne ..).trans (hf a ha).1, (hf a ha).2⟩

theorem Frame.setNext (hf : Frame m m' S) (hp : S ptr) (n : Option ℕ) :
    Frame m (m'.setNext ptr n) S := by
  intro a ha
  have hne : a ≠ ptr := fun heq => ha (heq ▸ hp)
  exact ⟨(hf a ha).1, (Function.update_of_ne hne ..).trans (hf a ha).2.1, (hf a ha).2.2⟩

theorem Frame.setPrev (hf : Frame m m' S) (hp : S ptr) (p : Option ℕ) :
    Frame m (m'.setPrev ptr p) S := by
  intro a ha
  have hne : a ≠ ptr := fun heq => ha (heq ▸ hp)
  exact ⟨(hf a ha).1, (hf a ha).2.1, (Function.update_of_ne hne ..).trans (hf a ha).2.2⟩

theorem Frame.mono {T : ℕ → Prop} (hf : Frame m m' S) (hle : ∀ a, S a → T a) : Frame m m' T :=
  fun a ha => hf a fun hs => ha (hle a hs)

theorem Tiled.freeSpace_of_mem (ht : Tiled m ptr tiles) (ha : a ∈ freePtrs ptr tiles) :
    ∃ l₁ f l₂, tiles = l₁ ++ f :: l₂ ∧ f.isFree ∧ a = ptr + extent l₁ ∧ 0 < f.span := by
  induction tiles generalizing ptr with
  | nil => cases ha
  | cons h tiles ih =>
      have hpos := ht.span_pos
      by_cases hf : h.isFree
      · rw [freePtrs, if_pos hf] at ha
        rcases List.mem_cons.mp ha with rfl | ha
        · exact ⟨[], h, tiles, rfl, hf, rfl, hpos⟩
        · obtain ⟨l₁, f, l₂, rfl, hfree, rfl, hpos'⟩ := ih ht.2.2 ha
          exact ⟨h :: l₁, f, l₂, rfl, hfree, by rw [extent_cons, Nat.add_assoc], hpos'⟩
      · rw [freePtrs, if_neg hf] at ha
        obtain ⟨l₁, f, l₂, rfl, hfree, rfl, hpos'⟩ := ih ht.2.2 ha
        exact ⟨h :: l₁, f, l₂, rfl, hfree, by rw [extent_cons, Nat.add_assoc], hpos'⟩

/-- The nodes of the list lie in the free space. -/
theorem Represents.freeSpace (hr : Represents m hc tiles)
    (ha : a ∈ hc.head :: (freePtrs hc.payloadStart tiles ++ [hc.tail])) : FreeSpace hc tiles a := by
  simp only [List.mem_cons, List.mem_append, List.not_mem_nil, or_false] at ha
  rcases ha with rfl | ha | rfl
  · exact .inl rfl
  · obtain ⟨l₁, f, l₂, heq, hf, rfl, hpos⟩ := hr.tiled.freeSpace_of_mem ha
    exact .inr (.inr ⟨l₁, f, l₂, heq, hf, le_rfl, by omega⟩)
  · exact .inr (.inl rfl)

theorem Represents.owns_of_space {p : Header → Prop} (hr : Represents m hc tiles)
    (ha : Space p hc.payloadStart tiles a) : hc.Owns a := by
  obtain ⟨l₁, f, l₂, rfl, -, hlow, hhigh⟩ := ha
  have h₁ := hr.laid.head_lt
  have h₂ := hr.laid.tail_lt
  have hend := hr.finish
  simp only [extent_append, extent_cons] at hend
  exact ⟨by omega, by omega⟩

theorem Represents.owns_of_freeSpace (hr : Represents m hc tiles) (ha : FreeSpace hc tiles a) :
    hc.Owns a := by
  have h₁ := hr.laid.head_lt
  have h₂ := hr.laid.tail_lt
  have hend := hr.finish
  rcases ha with rfl | rfl | hspace
  · exact ⟨le_rfl, by omega⟩
  · exact ⟨by omega, by omega⟩
  · exact hr.owns_of_space hspace

theorem Represents.mem_ptrs_owns (hr : Represents m hc tiles)
    (ha : a ∈ ptrs hc.payloadStart tiles) : hc.Owns a := by
  have h₁ := hr.laid.head_lt
  have h₂ := hr.laid.tail_lt
  have hlow := le_of_mem_ptrs ha
  have hhigh := hr.tiled.lt_of_mem_ptrs ha
  rw [hr.finish] at hhigh
  exact ⟨by omega, hhigh⟩

/-! ## The three ways to give a block out -/

/-- A free block lies between the free blocks before it and those behind it. -/
theorem freePtrs_middle (hf : f.isFree) : freePtrs ptr (l₁ ++ f :: l₂) =
    freePtrs ptr l₁ ++ (ptr + extent l₁) :: freePtrs (ptr + extent l₁ + f.span) l₂ := by
  rw [freePtrs_append, freePtrs, if_pos hf]

theorem freePtrs_middle' (hf : f.isFree = false) : freePtrs ptr (l₁ ++ f :: l₂) =
    freePtrs ptr l₁ ++ freePtrs (ptr + extent l₁ + f.span) l₂ := by
  rw [freePtrs_append, freePtrs, if_neg (by simp [hf])]

theorem Represents.not_mem_of_inside (hr : Represents m hc (l₁ ++ f :: l₂))
    (hlow : hc.payloadStart + extent l₁ < a) (hhigh : a < hc.payloadStart + extent l₁ + f.span) :
    a ∉ hc.head :: (freePtrs hc.payloadStart l₁ ++
      (freePtrs (hc.payloadStart + extent l₁ + f.span) l₂ ++ [hc.tail])) := by
  have h₁ := hr.laid.head_lt
  have h₂ := hr.laid.tail_lt
  simp only [List.mem_cons, List.mem_append, List.not_mem_nil, or_false, not_or]
  refine ⟨by omega, fun hmem => ?_, fun hmem => ?_, by omega⟩
  · have := (tiled_append.mp hr.tiled).1.lt_of_mem_ptrs (freePtrs_sublist.subset hmem)
    omega
  · have := le_of_mem_ptrs (freePtrs_sublist.subset hmem)
    omega

theorem freeSpace_inside (hf : f.isFree)
    (hlow : hc.payloadStart + extent l₁ ≤ a) (hhigh : a < hc.payloadStart + extent l₁ + f.span) :
    FreeSpace hc (l₁ ++ f :: l₂) a :=
  .inr (.inr ⟨l₁, f, l₂, rfl, hf, hlow, hhigh⟩)

theorem Represents.freeSpace_around (hr : Represents m hc (l₁ ++ f :: l₂)) (hf : f.isFree)
    {A B : List ℕ} {b : ℕ} (ha : hc.head :: freePtrs hc.payloadStart l₁ = A ++ [a])
    (hb : freePtrs (hc.payloadStart + extent l₁ + f.span) l₂ ++ [hc.tail] = b :: B) :
    FreeSpace hc (l₁ ++ f :: l₂) a ∧ FreeSpace hc (l₁ ++ f :: l₂) b := by
  have hmem : ∀ c ∈ A ++ a :: (hc.payloadStart + extent l₁) :: b :: B,
      FreeSpace hc (l₁ ++ f :: l₂) c := by
    intro c hmem
    apply hr.freeSpace
    have heq := around_eq ha hb [hc.payloadStart + extent l₁]
    rw [List.singleton_append, List.singleton_append] at heq
    rwa [freePtrs_middle hf, heq]
  exact ⟨hmem a (by simp), hmem b (by simp)⟩

/-- The block is given out whole. -/
theorem Represents.unlinkBlock (hr : Represents m hc (l₁ ++ f :: l₂)) (hf : f.isFree)
    {id : Header} (hid : id.isFree = false) (hsize : id.dataSize = f.dataSize) :
    ∃ a b, m.prev (hc.payloadStart + extent l₁) = some a ∧
      m.next (hc.payloadStart + extent l₁) = some b ∧
      Represents (((m.setNext a b).setPrev b a).setDataId (hc.payloadStart + extent l₁) id) hc
        (l₁ ++ id :: l₂) ∧
      Frame m (((m.setNext a b).setPrev b a).setDataId (hc.payloadStart + extent l₁) id)
        (FreeSpace hc (l₁ ++ f :: l₂)) := by
  have hlist := hr.free
  rw [freePtrs_middle hf] at hlist
  obtain ⟨A, a, b, B, ha, hb⟩ := exists_around hc.head hc.tail (freePtrs hc.payloadStart l₁)
    (freePtrs (hc.payloadStart + extent l₁ + f.span) l₂)
  obtain ⟨hprev, hnext⟩ := hlist.links_of_around ha hb
  have hspan : id.span = f.span := by rw [Header.span, hsize, Header.span]
  have hpos := (tiled_append.mp hr.tiled).2.span_pos
  obtain ⟨hfa, hfb⟩ := hr.freeSpace_around hf ha hb
  refine ⟨a, b, hprev, hnext, ?_, (((Frame.refl m _).setNext hfa _).setPrev hfb _).setDataId
    (freeSpace_inside hf le_rfl (by simpa using hpos)) _⟩
  apply Represents.retile (m := m) (o := [f]) (n := [id]) hr
  · exact fun c hlt => by simp [Memory.setDataId_id, hlt.ne, Memory.setPrev, Memory.setNext]
  · intro c hle
    rw [extent_cons, extent_nil] at hle
    have hne : c ≠ hc.payloadStart + extent l₁ := by omega
    simp [Memory.setDataId_id, hne, Memory.setPrev, Memory.setNext]
  · refine ⟨by simp [Memory.setDataId_id], ?_, trivial⟩
    rw [hsize]
    exact (tiled_append.mp hr.tiled).2.2.1
  · simp [hspan]
  · rw [List.singleton_append, freePtrs_middle' hid, hspan]
    exact IsList.close (m := [_]) hlist ha hb

/-- The block is given out, and a free one stays behind it. -/
theorem Represents.relinkBlock (hr : Represents m hc (l₁ ++ f :: l₂)) (hf : f.isFree)
    {id rest : Header} (hid : id.isFree = false) (hrest : rest.isFree) (hpos : 0 < id.dataSize)
    (hpos' : 0 < rest.dataSize) (hsize : id.dataSize + rest.dataSize = f.dataSize) :
    ∃ a b, m.prev (hc.payloadStart + extent l₁) = some a ∧
      m.next (hc.payloadStart + extent l₁) = some b ∧
      Represents (((m.setDataId (hc.payloadStart + extent l₁ + id.span) rest).insert a b
        (hc.payloadStart + extent l₁ + id.span)).setDataId (hc.payloadStart + extent l₁) id) hc
        (l₁ ++ id :: rest :: l₂) ∧
      Frame m (((m.setDataId (hc.payloadStart + extent l₁ + id.span) rest).insert a b
        (hc.payloadStart + extent l₁ + id.span)).setDataId (hc.payloadStart + extent l₁) id)
        (FreeSpace hc (l₁ ++ f :: l₂)) := by
  have hlist := hr.free
  rw [freePtrs_middle hf] at hlist
  obtain ⟨A, a, b, B, ha, hb⟩ := exists_around hc.head hc.tail (freePtrs hc.payloadStart l₁)
    (freePtrs (hc.payloadStart + extent l₁ + f.span) l₂)
  obtain ⟨hprev, hnext⟩ := hlist.links_of_around ha hb
  have hspan : id.span + rest.span = f.span := by
    simp only [Header.span, ← hsize, Nat.add_mul]
  have hidpos : 0 < id.span := Nat.mul_pos hpos (by decide)
  have hrestpos : 0 < rest.span := Nat.mul_pos hpos' (by decide)
  obtain ⟨hfa, hfb⟩ := hr.freeSpace_around hf ha hb
  have hinside : FreeSpace hc (l₁ ++ f :: l₂) (hc.payloadStart + extent l₁ + id.span) :=
    freeSpace_inside hf (by omega) (by omega)
  refine ⟨a, b, hprev, hnext, ?_, ((((((Frame.refl m _).setDataId hinside _).setNext hinside
    _).setPrev hinside _).setPrev hfb _).setNext hfa _).setDataId
    (freeSpace_inside hf le_rfl (by omega)) _⟩
  apply Represents.retile (m := m) (o := [f]) (n := [id, rest]) hr
  · intro c hlt
    have hne : c ≠ hc.payloadStart + extent l₁ := hlt.ne
    have hne' : c ≠ hc.payloadStart + extent l₁ + id.span := by omega
    simp [Memory.setDataId_id, hne, hne', Memory.insert, Memory.setPrev, Memory.setNext]
  · intro c hle
    simp only [extent_cons, extent_nil] at hle
    have hne : c ≠ hc.payloadStart + extent l₁ := by omega
    have hne' : c ≠ hc.payloadStart + extent l₁ + id.span := by omega
    simp [Memory.setDataId_id, hne, hne', Memory.insert, Memory.setPrev, Memory.setNext]
  · refine ⟨by simp [Memory.setDataId_id], hpos, ?_, hpos', trivial⟩
    simp [Memory.setDataId_id, hidpos.ne', Memory.insert, Memory.setPrev, Memory.setNext]
  · simp [hspan]
  · rw [List.cons_append, List.singleton_append, freePtrs_middle' hid, freePtrs, if_pos hrest,
      Nat.add_assoc _ id.span, hspan]
    exact IsList.insert (m := [_]) hlist ha hb (hr.not_mem_of_inside (by omega) (by omega))

/-- The block is given out, and a free one stays in front of it. -/
theorem Represents.shrinkBlock (hr : Represents m hc (l₁ ++ f :: l₂)) (hf : f.isFree)
    {id rest : Header} (hid : id.isFree = false) (hrest : rest.isFree) (hpos : 0 < id.dataSize)
    (hpos' : 0 < rest.dataSize) (hsize : id.dataSize + rest.dataSize = f.dataSize) :
    Represents ((m.setDataId (hc.payloadStart + extent l₁) rest).setDataId
      (hc.payloadStart + extent l₁ + rest.span) id) hc (l₁ ++ rest :: id :: l₂) ∧
    Frame m ((m.setDataId (hc.payloadStart + extent l₁) rest).setDataId
      (hc.payloadStart + extent l₁ + rest.span) id) (FreeSpace hc (l₁ ++ f :: l₂)) := by
  have hlist := hr.free
  rw [freePtrs_middle hf] at hlist
  have hspan : rest.span + id.span = f.span := by
    simp only [Header.span, ← hsize, Nat.add_mul, Nat.add_comm]
  have hidpos : 0 < id.span := Nat.mul_pos hpos (by decide)
  have hrestpos : 0 < rest.span := Nat.mul_pos hpos' (by decide)
  refine ⟨?_, ((Frame.refl m _).setDataId (freeSpace_inside hf le_rfl (by omega)) _).setDataId
    (freeSpace_inside hf (by omega) (by omega)) _⟩
  apply Represents.retile (m := m) (o := [f]) (n := [rest, id]) hr
  · intro c hlt
    have hne : c ≠ hc.payloadStart + extent l₁ := hlt.ne
    have hne' : c ≠ hc.payloadStart + extent l₁ + rest.span := by omega
    simp [Memory.setDataId_id, hne, hne']
  · intro c hle
    simp only [extent_cons, extent_nil] at hle
    have hne : c ≠ hc.payloadStart + extent l₁ := by omega
    have hne' : c ≠ hc.payloadStart + extent l₁ + rest.span := by omega
    simp [Memory.setDataId_id, hne, hne']
  · refine ⟨?_, hpos', ?_, hpos, trivial⟩
    · simp [Memory.setDataId_id, hrestpos.ne']
    · simp [Memory.setDataId_id]
  · simp [hspan]
  · rw [List.cons_append, List.singleton_append, freePtrs_middle hrest, freePtrs,
      if_neg (by simp [hid]), Nat.add_assoc _ rest.span, hspan]
    exact hlist

/-! ## The operation -/

theorem Tiled.ptrs_outside (ht : Tiled m ptr (l₁ ++ f :: l₂))
    (ha : a ∈ ptrs ptr (l₁ ++ f :: l₂)) : a ≤ ptr + extent l₁ ∨ ptr + extent l₁ + f.span ≤ a := by
  rw [ptrs_append, ptrs, List.mem_append, List.mem_cons] at ha
  rcases ha with ha | rfl | ha
  · exact .inl ((tiled_append.mp ht).1.lt_of_mem_ptrs ha).le
  · exact .inl le_rfl
  · exact .inr (le_of_mem_ptrs ha)

/-- No node of the list lies in a block that is given out. -/
theorem not_inside_of_mem (hl : hc.Laid) (ht : Tiled m hc.payloadStart (l₁ ++ f :: l₂))
    (hf : f.isFree = false)
    (ha : a ∈ hc.head :: (freePtrs hc.payloadStart (l₁ ++ f :: l₂) ++ [hc.tail])) :
    ¬(hc.payloadStart + extent l₁ ≤ a ∧ a < hc.payloadStart + extent l₁ + f.span) := by
  have h₁ := hl.head_lt
  have h₂ := hl.tail_lt
  simp only [freePtrs_middle' hf, List.mem_cons, List.mem_append, List.not_mem_nil, or_false] at ha
  rcases ha with rfl | (ha | ha) | rfl
  · omega
  · have := (tiled_append.mp ht).1.lt_of_mem_ptrs (freePtrs_sublist.subset ha)
    omega
  · have := le_of_mem_ptrs (freePtrs_sublist.subset ha)
    omega
  · omega

/-- The data of a block that is given out may be written. -/
theorem Represents.write (hr : Represents m hc (l₁ ++ f :: l₂)) (hf : f.isFree = false)
    (hid : m'.id (hc.payloadStart + extent l₁) = f)
    (hframe : Frame m m' fun a => hc.payloadStart + extent l₁ ≤ a ∧
      a < hc.payloadStart + extent l₁ + f.span) : Represents m' hc (l₁ ++ f :: l₂) where
  laid := hr.laid
  tiled := by
    apply hr.tiled.congr
    intro a ha
    by_cases heq : a = hc.payloadStart + extent l₁
    · rw [heq, hid]
      exact (tiled_append.mp hr.tiled).2.1.symm
    · refine (hframe a ?_).1
      have := hr.tiled.ptrs_outside ha
      omega
  finish := hr.finish
  free := hr.free.congr (fun a ha => (hframe a (not_inside_of_mem hr.laid hr.tiled hf ha)).2.1)
    fun a ha => (hframe a (not_inside_of_mem hr.laid hr.tiled hf ha)).2.2

theorem Represents.initializeToZero (hr : Represents m hc (l₁ ++ f :: l₂)) (hf : f.isFree = false) :
    Represents (m.initializeToZero (hc.payloadStart + extent l₁)) hc (l₁ ++ f :: l₂) ∧
      Frame m (m.initializeToZero (hc.payloadStart + extent l₁)) fun a =>
        hc.payloadStart + extent l₁ ≤ a ∧ a < hc.payloadStart + extent l₁ + f.span := by
  have hfid : m.id (hc.payloadStart + extent l₁) = f := (tiled_append.mp hr.tiled).2.1
  have hframe : Frame m (m.initializeToZero (hc.payloadStart + extent l₁)) fun a =>
      hc.payloadStart + extent l₁ ≤ a ∧ a < hc.payloadStart + extent l₁ + f.span := by
    intro a ha
    have hspan : f.span = f.dataSize * sizeofHeapBlock := rfl
    simp only [Memory.initializeToZero, hfid, ← hspan]
    refine ⟨if_neg ?_, if_neg ha, if_neg ha⟩
    omega
  refine ⟨hr.write hf ?_ hframe, hframe⟩
  simp [Memory.initializeToZero, hfid]

theorem Represents.findBlock (hr : Represents m hc tiles) :
    m.findBlock hc flags length =
      let fit := if flags &&& hbEvent ≠ 0 then lastFit length tiles else firstFit length tiles
      some ((fit.map fun r => hc.payloadStart + extent r.1).getD
        (if flags &&& hbEvent ≠ 0 then hc.head else hc.tail), fit.isSome) := by
  by_cases hev : flags &&& hbEvent ≠ 0
  · simp only [Memory.findBlock, if_pos hev]
    rw [hr.free.seek_prev hr.length_lt_fuel, find?_reverse_freePtrs hr.tiled, Option.isSome_map]
  · simp only [Memory.findBlock, if_neg hev]
    rw [hr.free.seek_next hr.length_lt_fuel, find?_freePtrs hr.tiled, Option.isSome_map]

/-- The cut of a block that fits. -/
theorem Represents.splitBlock (hr : Represents m hc (l₁ ++ f :: l₂)) (flags : BitVec 32)
    (hf : f.fits length) (hpos : 0 < length) {id : Header} (hid : id.isFree = false)
    (hsize : id.dataSize = length) :
    let before := if flags &&& hbEvent ≠ 0 then remainder length f else []
    let after := if flags &&& hbEvent ≠ 0 then [] else remainder length f
    let res := hc.payloadStart + extent (l₁ ++ before)
    ∃ m', m.splitBlock flags length (hc.payloadStart + extent l₁) = some (res, m') ∧
      Represents (m'.setDataId res id) hc ((l₁ ++ before) ++ id :: (after ++ l₂)) ∧
      Frame m (m'.setDataId res id) (FreeSpace hc (l₁ ++ f :: l₂)) := by
  simp only [Header.fits, Bool.and_eq_true, decide_eq_true_eq] at hf
  have hfid : m.id (hc.payloadStart + extent l₁) = f := (tiled_append.mp hr.tiled).2.1
  have hlt := f.dataSize_lt
  rw [Memory.splitBlock, hfid]
  by_cases havailable : f.dataSize - length = 0
  · have hrem : remainder length f = [] := by rw [remainder, if_neg (not_not.mpr havailable)]
    obtain ⟨a, b, hprev, hnext, hrep, hframe⟩ := hr.unlinkBlock hf.1 hid (by omega)
    refine ⟨(m.setNext a b).setPrev b a, ?_, ?_⟩ <;>
      simp [havailable, hprev, hnext, hrem, hrep, hframe]
  · have hrem : remainder length f = [freeId (f.dataSize - length)] := by
      rw [remainder, if_pos havailable]
    have hsize' := freeId_dataSize (n := f.dataSize - length) (by omega)
    have hspan : (freeId (f.dataSize - length)).span = (f.dataSize - length) * sizeofHeapBlock := by
      rw [Header.span, hsize']
    by_cases hev : flags &&& hbEvent = 0
    · have hidspan : id.span = length * sizeofHeapBlock := by rw [Header.span, hsize]
      obtain ⟨a, b, hprev, hnext, hrep, hframe⟩ := hr.relinkBlock hf.1 hid
        (freeId_isFree (n := f.dataSize - length)) (by omega) (by omega) (by omega)
      rw [hidspan] at hrep hframe
      refine ⟨(m.setDataId (hc.payloadStart + extent l₁ + length * sizeofHeapBlock)
        (freeId (f.dataSize - length))).insert a b
        (hc.payloadStart + extent l₁ + length * sizeofHeapBlock), ?_, ?_⟩
      · simp [havailable, hev, hprev, hnext]
      · simpa [hev, hrem] using And.intro hrep hframe
    · obtain ⟨hrep, hframe⟩ := hr.shrinkBlock hf.1 hid (freeId_isFree (n := f.dataSize - length))
        (by omega) (by omega) (by omega)
      rw [hspan] at hrep hframe
      refine ⟨m.setDataId (hc.payloadStart + extent l₁) (freeId (f.dataSize - length)), ?_, ?_⟩
      · simp only [if_pos (show flags &&& hbEvent ≠ 0 from hev)]
        simp [havailable, hrem, hspan, Nat.add_assoc]
      · simp only [if_pos (show flags &&& hbEvent ≠ 0 from hev)]
        simpa [hrem, hspan, Nat.add_assoc] using And.intro hrep hframe

theorem Frame.trans {m'' : Memory} (hf : Frame m m' S) (hf' : Frame m' m'' S) : Frame m m'' S :=
  fun a ha => ⟨(hf' a ha).1.trans (hf a ha).1, (hf' a ha).2.1.trans (hf a ha).2.1,
    (hf' a ha).2.2.trans (hf a ha).2.2⟩

/-- The block is cut from the free block that was found, and written. -/
theorem Represents.takeBlock (hr : Represents m hc (l₁ ++ f :: l₂)) (hf : f.fits length)
    (hpos : 0 < length) (htype : dataType ≠ .freeBlock) {before after : List Header}
    (hbefore : (if flags &&& hbEvent ≠ 0 then remainder length f else []) = before)
    (hafter : (if flags &&& hbEvent ≠ 0 then [] else remainder length f) = after) :
    ∃ m', (m.splitBlock flags length (hc.payloadStart + extent l₁)).map (fun r =>
        let m := r.2.setDataId r.1 (rawId dataType flags length)
        (some r.1, if flags &&& hbInitializeToZero ≠ 0 then m.initializeToZero r.1 else m)) =
        some (some (hc.payloadStart + extent (l₁ ++ before)), m') ∧
      Represents m' hc (l₁ ++ before ++ rawId dataType flags length :: (after ++ l₂)) ∧
      Frame m m' (FreeSpace hc (l₁ ++ f :: l₂)) := by
  have hfits := hf
  simp only [Header.fits, Bool.and_eq_true, decide_eq_true_eq] at hfits
  have hid : (rawId dataType flags length).isFree = false := by simpa [rawId_isFree] using htype
  have hlt := f.dataSize_lt
  have hsize : (rawId dataType flags length).dataSize = length := rawId_dataSize (by omega)
  obtain ⟨m', heq, hrep, hframe⟩ := hr.splitBlock flags hf hpos hid hsize
  rw [hbefore, hafter] at hrep
  rw [hbefore] at heq hframe
  rw [heq, Option.map_some]
  by_cases hzero : flags &&& hbInitializeToZero ≠ 0
  · have hwhole : (f.dataSize - length) * sizeofHeapBlock + length * sizeofHeapBlock = f.span := by
      rw [← Nat.add_mul, Nat.sub_add_cancel hfits.2, Header.span]
    have hspan : (rawId dataType flags length).span = length * sizeofHeapBlock := by
      rw [Header.span, hsize]
    have hle : extent before ≤ (f.dataSize - length) * sizeofHeapBlock := by
      subst hbefore
      split_ifs
      · exact extent_remainder.le
      · exact Nat.zero_le _
    obtain ⟨hrep', hframe'⟩ := hrep.initializeToZero hid
    refine ⟨_, by simp only [if_pos hzero], hrep', hframe.trans (hframe'.mono ?_)⟩
    rw [extent_append]
    intro a ha
    exact freeSpace_inside hfits.1 (by omega) (by omega)
  · exact ⟨_, by simp only [if_neg hzero], hrep, hframe⟩

/-- `ExtractBlocks` cuts the block from the sequence and writes nothing but free space. -/
theorem Represents.extractBlocks (hr : Represents m hc tiles) (flags : BitVec 32)
    (hpos : 0 < length) (htype : dataType ≠ .freeBlock) :
    ∃ m', m.extractBlocks hc dataType flags length = some
        ((extract dataType flags length tiles).map fun r => hc.payloadStart + r.1, m') ∧
      Represents m' hc (((extract dataType flags length tiles).map Prod.snd).getD tiles) ∧
      Frame m m' (FreeSpace hc tiles) := by
  rw [Memory.extractBlocks, hr.findBlock, Option.bind_some]
  by_cases hev : flags &&& hbEvent ≠ 0
  · simp only [extract, if_pos hev]
    cases hfit : lastFit length tiles with
    | none => exact ⟨m, rfl, hr, Frame.refl m _⟩
    | some r =>
        obtain ⟨rfl, hf⟩ := lastFit_eq_some hfit
        have htake := hr.takeBlock hf hpos htype (if_pos hev) (if_pos hev)
        exact htake
  · simp only [extract, if_neg hev]
    cases hfit : firstFit length tiles with
    | none => exact ⟨m, rfl, hr, Frame.refl m _⟩
    | some r =>
        obtain ⟨rfl, hf⟩ := firstFit_eq_some hfit
        have htake := hr.takeBlock hf hpos htype (if_neg hev) (if_neg hev)
        rw [List.append_nil] at htake
        exact htake

end TinyCLR.ClusterMemory
