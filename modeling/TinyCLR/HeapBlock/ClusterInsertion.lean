import TinyCLR.HeapBlock.ClusterRecovery

/-!
# Insertion of a free block

`InsertInOrder` links a stretch of the payload into the list of free blocks, at the place that its
address has there, and joins it to the free blocks that touch it.
-/

namespace TinyCLR.ClusterMemory

open HeapCluster (sizeofHeapBlock)
open DoublyLinked DoublyLinked.Links

variable {m m' : Memory} {hc : Cluster} {ptr a b node head tail n : ℕ} {h f : Header}
  {tiles l₁ l₂ k₁ k₂ : List Header} {F₁ F₂ : List ℕ} {S : ℕ → Prop}

theorem Frame.clearData (hf : Frame m m' S) (hp : S ptr) : Frame m (m'.clearData ptr) S :=
  (hf.setNext hp none).setPrev hp none

/-- What is not in the list may be cleared. -/
theorem isList_clearData (hl : m.IsList head F₁ tail) (hp : ptr ∉ head :: (F₁ ++ [tail])) :
    (m.clearData ptr).IsList head F₁ tail :=
  hl.congr (fun _ ha => Function.update_of_ne (ne_of_mem_of_not_mem ha hp) ..)
    fun _ ha => Function.update_of_ne (ne_of_mem_of_not_mem ha hp) ..

/-- A node that is unlinked is no longer in the list. -/
theorem isList_unlink (hl : m.IsList head (F₁ ++ ptr :: F₂) tail) :
    (m.unlink ptr).IsList head (F₁ ++ F₂) tail ∧ (m.unlink ptr).id = m.id ∧
      Frame m (m.unlink ptr) (· ∈ head :: (F₁ ++ ptr :: F₂ ++ [tail])) := by
  obtain ⟨A, a, b, B, ha, hb⟩ := exists_around head tail F₁ F₂
  obtain ⟨hprev, hnext⟩ := hl.links_of_around ha hb
  have hunlink : m.unlink ptr = ((m.setNext a b).setPrev b a).clearData ptr := by
    simp only [Memory.unlink, Memory.removeFromList, hprev, hnext, Option.elim]
  have hwhole := around_eq ha hb [ptr]
  rw [List.singleton_append, List.singleton_append] at hwhole
  have hmem : ∀ c ∈ A ++ a :: ptr :: b :: B, c ∈ head :: (F₁ ++ ptr :: F₂ ++ [tail]) :=
    fun c hc => hwhole ▸ hc
  have hnodup : ptr ∉ head :: (F₁ ++ F₂ ++ [tail]) := by
    have hnodup := hl.nodup
    rw [List.append_assoc, List.cons_append, ← List.cons_append, List.nodup_middle] at hnodup
    simpa using (List.nodup_cons.mp hnodup).1
  rw [hunlink]
  refine ⟨isList_clearData (hl.close (m := [ptr]) ha hb) hnodup, rfl, ?_⟩
  exact (((Frame.refl m _).setNext (hmem a (by simp)) _).setPrev (hmem b (by simp)) _).clearData
    (hmem ptr (by simp))

/-! ## Joining -/

/-- The node that follows touches it. -/
theorem coalesceNext_join (hl : m.IsList head (F₁ ++ node :: b :: F₂) tail)
    (hb : node + n * sizeofHeapBlock = b) :
    m.coalesceNext node n = some (n + (m.id b).dataSize, m.unlink b) := by
  have hnext : m.next node = some b := hl.neighbours.1
  rw [List.append_cons] at hl
  rw [Memory.coalesceNext, hnext, Option.map_some, if_pos ⟨by simp [hl.neighbours.1], hb⟩]

/-- The node that follows does not touch it. -/
theorem coalesceNext_skip (hl : m.IsList head (F₁ ++ node :: F₂) tail)
    (hne : ∀ b ∈ F₂.head?, node + n * sizeofHeapBlock ≠ b) :
    m.coalesceNext node n = some (n, m) := by
  rw [Memory.coalesceNext, hl.neighbours.1, Option.map_some, if_neg]
  cases F₂ with
  | nil => simp [hl.last]
  | cons b F₂ => exact fun h => hne b rfl h.2

/-- The node before it touches it. -/
theorem coalescePrev_join (hl : m.IsList head (F₁ ++ a :: node :: F₂) tail)
    (ha : a + (m.id a).dataSize * sizeofHeapBlock = node) :
    m.coalescePrev node n = some (a, n + (m.id a).dataSize, m.unlink node) := by
  have hprev : (m.prev a).isSome := by simp [hl.neighbours.2]
  rw [List.append_cons] at hl
  have hnode : m.prev node = some a := by simpa using hl.neighbours.2
  rw [Memory.coalescePrev, hnode, Option.map_some, if_pos ⟨hprev, ha⟩]

/-- The node before it does not touch it. -/
theorem coalescePrev_skip (hl : m.IsList head (F₁ ++ node :: F₂) tail)
    (hne : ∀ a ∈ F₁.getLast?, a + (m.id a).dataSize * sizeofHeapBlock ≠ node) :
    m.coalescePrev node n = some (node, n, m) := by
  rw [Memory.coalescePrev, hl.neighbours.2, Option.map_some, if_neg]
  rw [List.getLastD_eq_getLast?]
  cases hlast : F₁.getLast? with
  | none => simp [hl.first]
  | some a => exact fun h => hne a hlast h.2

/-- The search ends at the first node behind the new one, which is linked before it. -/
theorem insertInOrder_link (hl : m.IsList hc.head (F₁ ++ F₂) hc.tail) (hlow : ∀ a ∈ F₁, a < node)
    (hhigh : ∀ a ∈ F₂, node < a) (hhead : node ≠ hc.head) (htail : node ≠ hc.tail)
    (hfuel : (F₁ ++ F₂).length < hc.fuel) (n : ℕ) :
    ∃ m', (m.insertInOrder hc node n = (m'.coalesceNext node n).bind fun r =>
        (r.2.coalescePrev node r.1).map fun r => (r.1, r.2.2.setDataId r.1 (freeId r.2.1))) ∧
      m'.IsList hc.head (F₁ ++ node :: F₂) hc.tail ∧ m'.id = m.id ∧
      Frame m m' (· ∈ hc.head :: (F₁ ++ node :: F₂ ++ [hc.tail])) := by
  have hfind : (F₁ ++ F₂).find? (fun ptr => decide (node < ptr)) = F₂.head? := by
    rw [List.find?_append, List.find?_eq_none.mpr (by simpa using fun a ha => (hlow a ha).le),
      Option.none_or]
    cases F₂ with
    | nil => rfl
    | cons b F => exact List.find?_cons_of_pos (by simpa using hhigh b (by simp))
  obtain ⟨A, a, b, B, ha, hb⟩ := exists_around hc.head hc.tail F₁ F₂
  have hfound : F₂.head?.getD hc.tail = b := by
    cases F₂ with
    | nil => exact (List.cons.inj hb).1
    | cons c F => exact (List.cons.inj hb).1
  have hnode : node ∉ hc.head :: (F₁ ++ (F₂ ++ [hc.tail])) := by
    simp only [List.mem_cons, List.mem_append, List.not_mem_nil, or_false, not_or]
    exact ⟨hhead, fun hmem => (hlow _ hmem).ne rfl, fun hmem => (hhigh _ hmem).ne rfl, htail⟩
  have hbnode : b ≠ node := by
    rintro rfl
    exact hnode (by simp [hb])
  have hprev : (m.clearData node).prev b = some a := by
    rw [← (hl.joined_of_around ha hb).2]
    exact Function.update_of_ne hbnode ..
  have hremove : (m.clearData node).removeFromList node = m.clearData node := by
    simp [Memory.removeFromList, Memory.clearData, Memory.setNext, Memory.setPrev]
  have hclear := isList_clearData hl (by simpa using hnode)
  have hwhole := around_eq ha hb [node]
  rw [List.singleton_append, List.singleton_append] at hwhole
  have hmem : ∀ c ∈ A ++ a :: node :: b :: B, c ∈ hc.head :: (F₁ ++ node :: F₂ ++ [hc.tail]) :=
    fun c hc => hwhole ▸ hc
  refine ⟨(m.clearData node).insert a b node, ?_, hclear.insert (m := []) ha hb hnode, rfl, ?_⟩
  · rw [Memory.insertInOrder, hl.seek_next hfuel, hfind, Option.bind_some, hfound,
      Memory.insertBeforeNode, if_pos hbnode]
    simp only [hremove, hprev, Option.map_some, Option.bind_some]
  · have hn := hmem node (by simp)
    exact (((((Frame.refl m _).clearData hn).setNext hn _).setPrev hn _).setPrev
      (hmem b (by simp)) _).setNext (hmem a (by simp)) _

/-! ## Holes -/

/-- The blocks before and behind a stretch of `n` heap blocks that is in nobody's hands. -/
structure Holed (m : Memory) (hc : Cluster) (l₁ : List Header) (n : ℕ) (l₂ : List Header) :
    Prop where
  laid : hc.Laid
  before : Tiled m hc.payloadStart l₁
  behind : Tiled m (hc.payloadStart + extent l₁ + n * sizeofHeapBlock) l₂
  finish : hc.payloadStart + extent l₁ + n * sizeofHeapBlock + extent l₂ = hc.payloadEnd
  free : m.IsList hc.head (freePtrs hc.payloadStart l₁ ++
    freePtrs (hc.payloadStart + extent l₁ + n * sizeofHeapBlock) l₂) hc.tail

/-- The sentinels, the hole, and the bytes of the free blocks. -/
def HoleSpace (hc : Cluster) (l₁ : List Header) (n : ℕ) (l₂ : List Header) (a : ℕ) : Prop :=
  a = hc.head ∨ a = hc.tail ∨
    (hc.payloadStart + extent l₁ ≤ a ∧
      a < hc.payloadStart + extent l₁ + n * sizeofHeapBlock) ∨
    Space (·.isFree) hc.payloadStart l₁ a ∨
    Space (·.isFree) (hc.payloadStart + extent l₁ + n * sizeofHeapBlock) l₂ a

theorem Tiled.space_of_mem (ht : Tiled m ptr tiles) (ha : a ∈ freePtrs ptr tiles) :
    Space (·.isFree) ptr tiles a := by
  obtain ⟨l₁, f, l₂, heq, hf, rfl, hpos⟩ := ht.freeSpace_of_mem ha
  exact ⟨l₁, f, l₂, heq, hf, le_rfl, by omega⟩

/-- The nodes of the list, the new one included, lie in that space. -/
theorem Holed.holeSpace (hh : Holed m hc l₁ n l₂) (hn : 0 < n)
    (ha : a ∈ hc.head :: (freePtrs hc.payloadStart l₁ ++ (hc.payloadStart + extent l₁) ::
      freePtrs (hc.payloadStart + extent l₁ + n * sizeofHeapBlock) l₂ ++ [hc.tail])) :
    HoleSpace hc l₁ n l₂ a := by
  have hpos : 0 < n * sizeofHeapBlock := Nat.mul_pos hn (by decide)
  simp only [List.mem_cons, List.mem_append, List.not_mem_nil, or_false] at ha
  rcases ha with rfl | (ha | rfl | ha) | rfl
  · exact .inl rfl
  · exact .inr (.inr (.inr (.inl (hh.before.space_of_mem ha))))
  · exact .inr (.inr (.inl ⟨le_rfl, by omega⟩))
  · exact .inr (.inr (.inr (.inr (hh.behind.space_of_mem ha))))
  · exact .inr (.inl rfl)

theorem Holed.length_lt_fuel (hh : Holed m hc l₁ n l₂) : (freePtrs hc.payloadStart l₁ ++
    freePtrs (hc.payloadStart + extent l₁ + n * sizeofHeapBlock) l₂).length < hc.fuel := by
  have h₁ : (freePtrs hc.payloadStart l₁).length ≤ (ptrs hc.payloadStart l₁).length :=
    freePtrs_sublist.length_le
  have h₂ : (freePtrs (hc.payloadStart + extent l₁ + n * sizeofHeapBlock) l₂).length ≤
      (ptrs (hc.payloadStart + extent l₁ + n * sizeofHeapBlock) l₂).length :=
    freePtrs_sublist.length_le
  have := hh.before.length_le
  have := hh.behind.length_le
  have := hh.finish
  rw [length_ptrs] at h₁ h₂
  rw [List.length_append, Cluster.fuel]
  omega

/-- A hole of no size is none. -/
theorem Holed.represents (hh : Holed m hc l₁ 0 l₂) : Represents m hc (l₁ ++ l₂) := by
  obtain ⟨hlaid, hbefore, hbehind, hfinish, hfree⟩ := hh
  rw [Nat.zero_mul, Nat.add_zero] at *
  exact ⟨hlaid, tiled_append.mpr ⟨hbefore, hbehind⟩,
    by rw [extent_append, ← Nat.add_assoc, hfinish], by rwa [freePtrs_append]⟩

/-- Free blocks at the end of the blocks before the hole, or none. -/
def TouchesBefore (k₁ g₁ : List Header) : Prop :=
  (g₁ = [] ∧ ∀ f ∈ k₁.getLast?, f.isFree = false) ∨ ∃ f, g₁ = [f] ∧ f.isFree

/-- Free blocks at the start of the blocks behind the hole, or none. -/
def TouchesBehind (g₂ k₂ : List Header) : Prop :=
  (g₂ = [] ∧ ∀ f ∈ k₂.head?, f.isFree = false) ∨ ∃ f, g₂ = [f] ∧ f.isFree

variable {g₁ g₂ : List Header}

theorem Tiled.extent_pos (ht : Tiled m ptr tiles) (hne : tiles ≠ []) : 0 < extent tiles := by
  cases tiles with
  | nil => exact absurd rfl hne
  | cons h tiles =>
      have := ht.span_pos
      rw [extent_cons]
      omega

/-- The free block behind the hole is joined to it. -/
theorem joinNext (ht : Tiled m (node + n * sizeofHeapBlock) (g₂ ++ k₂))
    (hg : TouchesBehind g₂ k₂)
    (hl : m.IsList head (F₁ ++ node :: freePtrs (node + n * sizeofHeapBlock) (g₂ ++ k₂)) tail) :
    ∃ m', m.coalesceNext node n = some (n + sizes g₂, m') ∧
      m'.IsList head (F₁ ++ node :: freePtrs (node + n * sizeofHeapBlock + extent g₂) k₂) tail ∧
      m'.id = m.id ∧ Frame m m' (· ∈ head :: (F₁ ++ node ::
        freePtrs (node + n * sizeofHeapBlock) (g₂ ++ k₂) ++ [tail])) := by
  rcases hg with ⟨rfl, hhead⟩ | ⟨f, rfl, hf⟩
  · refine ⟨m, coalesceNext_skip hl ?_, hl, rfl, Frame.refl m _⟩
    cases k₂ with
    | nil => simp [freePtrs]
    | cons h k₂ =>
        have hpos := Tiled.span_pos ht
        intro b hb
        rw [List.nil_append, freePtrs, if_neg (by simpa using hhead h rfl)] at hb
        have := le_of_mem_ptrs (freePtrs_sublist.subset (List.mem_of_mem_head? hb))
        omega
  · have hid : m.id (node + n * sizeofHeapBlock) = f := ht.1
    simp only [List.singleton_append, freePtrs, if_pos hf] at hl ⊢
    have hjoin := coalesceNext_join hl rfl
    rw [List.append_cons] at hl
    obtain ⟨hlist, hids, hframe⟩ := isList_unlink hl
    refine ⟨_, hjoin.trans ?_, ?_, hids, ?_⟩
    · rw [hid, sizes_cons, sizes_nil, Nat.add_zero]
    · simpa using hlist
    · simpa using hframe

/-- The free block before the hole is joined to it. -/
theorem joinPrev (ht : Tiled m ptr (k₁ ++ g₁)) (hg : TouchesBefore k₁ g₁)
    (hl : m.IsList head (freePtrs ptr (k₁ ++ g₁) ++ (ptr + extent (k₁ ++ g₁)) :: F₂) tail) :
    ∃ m', m.coalescePrev (ptr + extent (k₁ ++ g₁)) n =
        some (ptr + extent k₁, n + sizes g₁, m') ∧
      m'.IsList head (freePtrs ptr k₁ ++ (ptr + extent k₁) :: F₂) tail ∧
      m'.id = m.id ∧ Frame m m' (· ∈ head :: (freePtrs ptr (k₁ ++ g₁) ++
        (ptr + extent (k₁ ++ g₁)) :: F₂ ++ [tail])) := by
  rcases hg with ⟨rfl, hlast⟩ | ⟨f, rfl, hf⟩
  · rw [List.append_nil] at *
    refine ⟨m, coalescePrev_skip hl ?_, hl, rfl, Frame.refl m _⟩
    intro a ha
    obtain ⟨x, f, y, rfl, hf, rfl, -⟩ := ht.freeSpace_of_mem (List.mem_of_getLast? ha)
    obtain ⟨hid, -, hy⟩ := (tiled_append.mp ht).2
    rw [hid, extent_append, extent_cons, ← Header.span_eq]
    intro heq
    have hnil : y = [] := by
      by_contra hne
      have := hy.extent_pos hne
      omega
    subst hnil
    rw [hlast f (by simp)] at hf
    cases hf
  · have hid : m.id (ptr + extent k₁) = f := (tiled_append.mp ht).2.1
    have hextent : ptr + extent (k₁ ++ [f]) = ptr + extent k₁ + f.span := by
      rw [extent_append, extent_cons, extent_nil, Nat.add_zero, Nat.add_assoc]
    simp only [freePtrs_middle hf, freePtrs, List.append_assoc, List.singleton_append,
      hextent] at hl ⊢
    have hjoin := coalescePrev_join (n := n) hl (by rw [hid, Header.span])
    have hl' := hl
    rw [List.append_cons] at hl'
    obtain ⟨hlist, hids, hframe⟩ := isList_unlink hl'
    refine ⟨_, hjoin.trans ?_, ?_, hids, ?_⟩
    · rw [hid, sizes_cons, sizes_nil, Nat.add_zero]
    · simpa using hlist
    · simpa using hframe

/-- `InsertInOrder` fills the hole with a free block that swallows the free blocks on either side of
it. -/
theorem Holed.insertInOrder (hh : Holed m hc (k₁ ++ g₁) n (g₂ ++ k₂))
    (hn : 0 < n) (hsmall : sizes (k₁ ++ g₁) + n + sizes (g₂ ++ k₂) < 2 ^ 16)
    (hg₁ : TouchesBefore k₁ g₁) (hg₂ : TouchesBehind g₂ k₂) :
    ∃ m', m.insertInOrder hc (hc.payloadStart + extent (k₁ ++ g₁)) n =
        some (hc.payloadStart + extent k₁, m') ∧
      Represents m' hc (k₁ ++ freeId (n + sizes g₂ + sizes g₁) :: k₂) ∧
      Frame m m' (HoleSpace hc (k₁ ++ g₁) n (g₂ ++ k₂)) := by
  have hpos : 0 < n * sizeofHeapBlock := Nat.mul_pos hn (by decide)
  have h₁ := hh.laid.head_lt
  have h₂ := hh.laid.tail_lt
  obtain ⟨m₁, heq, hlist, hid, hframe⟩ := insertInOrder_link hh.free
    (fun a ha => hh.before.lt_of_mem_ptrs (freePtrs_sublist.subset ha))
    (fun a ha => (Nat.lt_add_of_pos_right hpos).trans_le
      (le_of_mem_ptrs (freePtrs_sublist.subset ha))) (by omega) (by omega) hh.length_lt_fuel n
  obtain ⟨m₂, heq₂, hlist₂, hid₂, hframe₂⟩ :=
    joinNext (hh.behind.congr fun _ _ => congrFun hid _) hg₂ hlist
  obtain ⟨m₃, heq₃, hlist₃, hid₃, hframe₃⟩ := joinPrev (n := n + sizes g₂)
    (hh.before.congr fun _ _ => congrFun (hid₂.trans hid) _) hg₁ hlist₂
  have hids : m₃.id = m.id := hid₃.trans (hid₂.trans hid)
  simp only [sizes_append] at hsmall
  have hfreeId := freeId_dataSize (n := n + sizes g₂ + sizes g₁) (by omega)
  have hspan : (freeId (n + sizes g₂ + sizes g₁)).span =
      extent g₁ + n * sizeofHeapBlock + extent g₂ := by
    rw [Header.span, hfreeId, extent_eq, extent_eq, Nat.add_mul, Nat.add_mul]
    omega
  refine ⟨m₃.setDataId (hc.payloadStart + extent k₁) (freeId (n + sizes g₂ + sizes g₁)), ?_, ?_, ?_⟩
  · rw [heq, heq₂, Option.bind_some, heq₃, Option.map_some]
  · obtain ⟨hbefore, -⟩ := tiled_append.mp hh.before
    have hbehind := (tiled_append.mp hh.behind).2
    have hstart : hc.payloadStart + extent (k₁ ++ g₁) + n * sizeofHeapBlock + extent g₂ =
        hc.payloadStart + extent k₁ + (freeId (n + sizes g₂ + sizes g₁)).span := by
      rw [hspan, extent_append]
      omega
    have hspan' : 0 < (freeId (n + sizes g₂ + sizes g₁)).span := by omega
    rw [hstart] at hbehind hlist₃
    refine ⟨hh.laid, tiled_append.mpr ⟨?_, ?_, ?_, ?_⟩, ?_, ?_⟩
    · refine hbefore.congr fun a ha => ?_
      rw [Memory.setDataId_id, if_neg (hbefore.lt_of_mem_ptrs ha).ne, hids]
    · rw [Memory.setDataId_id, if_pos rfl]
    · omega
    · refine hbehind.congr fun a ha => ?_
      have := le_of_mem_ptrs ha
      rw [Memory.setDataId_id, if_neg (by omega), hids]
    · have := hh.finish
      simp only [extent_append, extent_cons] at this ⊢
      omega
    · rw [freePtrs_middle freeId_isFree]
      exact hlist₃
  · have hfirst : Frame m m₁ (HoleSpace hc (k₁ ++ g₁) n (g₂ ++ k₂)) :=
      hframe.mono fun a ha => hh.holeSpace hn ha
    have hsecond : Frame m₁ m₂ (HoleSpace hc (k₁ ++ g₁) n (g₂ ++ k₂)) :=
      hframe₂.mono fun a ha => hh.holeSpace hn ha
    have hthird : Frame m₂ m₃ (HoleSpace hc (k₁ ++ g₁) n (g₂ ++ k₂)) := by
      refine hframe₃.mono fun a ha => hh.holeSpace hn ?_
      rw [@freePtrs_append _ g₂]
      simp only [List.mem_cons, List.mem_append] at ha ⊢
      tauto
    refine ((hfirst.trans hsecond).trans hthird).setDataId (hh.holeSpace hn ?_) _
    rcases hg₁ with ⟨rfl, -⟩ | ⟨f, rfl, hf⟩
    · simp
    · rw [freePtrs_middle hf]
      simp

end TinyCLR.ClusterMemory
