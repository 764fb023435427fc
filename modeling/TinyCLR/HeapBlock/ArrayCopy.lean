import TinyCLR.HeapBlock.Array

/-!
# Copies between arrays

Within their ranges the loops of `Copy` and `memmove` do the same, also where the ranges overlap.
The check of the ranges lets some pass that lie outside, since its sums wrap.
-/

namespace TinyCLR.HeapBlock

variable {T : Types}

theorem reassign_of_kind {this value : T.Element} (h : this.kind = value.kind)
    (hkind : this.kind ≠ .numeric) : reassign this value = .ok value := by
  cases this <;> cases value <;> first | rfl | exact absurd rfl hkind | cases h

/-- The elements of a range are those that lay in another range before, and nothing else has
changed. -/
structure Copied (heap : Heap T) (src dst : ArrayId) (i j n : Nat) (heap' : Heap T) : Prop where
  others : ∀ a, a ≠ dst → heap' a = heap a
  reflection : (heap' dst).reflection = (heap dst).reflection
  elements : (heap' dst).elements =
    (heap dst).elements.splice j ((heap src).elements.window i n)

variable {heap heap' : Heap T} {src dst : ArrayId} {i j n k : Nat}

theorem Copied.refl (heap : Heap T) (src dst : ArrayId) (i j : Nat) :
    Copied heap src dst i j 0 heap :=
  ⟨fun _ _ => rfl, rfl, by rw [List.window_zero, List.splice_nil]⟩

theorem Copied.reflection_eq (h : Copied heap src dst i j n heap') (a : ArrayId) :
    (heap' a).reflection = (heap a).reflection := by
  by_cases ha : a = dst
  · rw [ha]
    exact h.reflection
  · rw [h.others a ha]

/-- What was not written yet is still there. -/
theorem Copied.getElem? (h : Copied heap src dst i j n heap')
    (hsrc : i + n ≤ (heap src).elements.length) (hdst : j + n ≤ (heap dst).elements.length)
    (a : ArrayId) (p : Nat) (hp : a = dst → ¬(j ≤ p ∧ p < j + n)) :
    (heap' a).elements[p]? = (heap a).elements[p]? := by
  by_cases ha : a = dst
  · subst ha
    have hwindow := List.length_window hsrc
    rw [h.elements, List.getElem?_splice (by rwa [hwindow]), hwindow, if_neg (hp rfl)]
  · rw [h.others a ha]

theorem store_of_kind (dst : ArrayId) (j : Nat) {e : T.Element}
    (h : e.kind = T.kindOf (heap dst).reflection) :
    heap.store dst j e = Function.update heap dst ((heap dst).set j e h) := dif_pos h

/-- A turn of a loop moves the element on. -/
theorem copyLoop_turn (hreflection : (heap src).reflection = (heap dst).reflection)
    (hkind : T.kindOf (heap src).reflection ≠ .numeric) {value : T.Element}
    (hvalue : (heap src).elements[i]? = some value) (hj : j < (heap dst).elements.length)
    (positions : List (Nat × Nat)) :
    ∃ heap', copyLoop reassign src dst ((i, j) :: positions) heap =
        copyLoop reassign src dst positions heap' ∧
      (∀ a, a ≠ dst → heap' a = heap a) ∧ (heap' dst).reflection = (heap dst).reflection ∧
      (heap' dst).elements = (heap dst).elements.set j value := by
  have hthis : (heap dst).elements[j]? = some (heap dst).elements[j] := List.getElem?_eq_getElem hj
  have hkindThis := (heap dst).typed _ (List.mem_of_getElem? hthis)
  have hkindValue := (heap src).typed _ (List.mem_of_getElem? hvalue)
  rw [hreflection] at hkindValue hkind
  have hreassign := reassign_of_kind (hkindThis.trans hkindValue.symm)
    (by rw [hkindThis]; exact hkind)
  refine ⟨heap.store dst j value, ?_, ?_, ?_, ?_⟩
  · rw [copyLoop, hvalue, hthis]
    simp only [hreassign]
  · intro a ha
    rw [store_of_kind dst j hkindValue, Function.update_of_ne ha]
  · rw [store_of_kind dst j hkindValue, Function.update_self]
    rfl
  · rw [store_of_kind dst j hkindValue, Function.update_self]
    rfl

theorem positions_succ (i j n : Nat) :
    positions i j (n + 1) = (i, j) :: positions (i + 1) (j + 1) n := by
  rw [positions, List.range_succ_eq_map, List.map_cons, List.map_map]
  congr 1
  apply List.map_congr_left
  intro k _
  show (i + (k + 1), j + (k + 1)) = (i + 1 + k, j + 1 + k)
  rw [Nat.add_right_comm i 1 k, Nat.add_right_comm j 1 k]
  rfl

theorem reverse_positions_succ (i j n : Nat) :
    (positions i j (n + 1)).reverse = (i + n, j + n) :: (positions i j n).reverse := by
  rw [positions, List.range_succ, List.map_append, List.reverse_append]
  rfl

/-- Upwards, where the elements to be moved do not lie below their new places. -/
theorem copyLoop_up (hreflection : (heap src).reflection = (heap dst).reflection)
    (hkind : T.kindOf (heap src).reflection ≠ .numeric)
    (hsrc : i + (k + n) ≤ (heap src).elements.length)
    (hdst : j + (k + n) ≤ (heap dst).elements.length) (hdirection : src = dst → j ≤ i)
    (h : Copied heap src dst i j k heap') :
    ∃ heap'', copyLoop reassign src dst (positions (i + k) (j + k) n) heap' =
        some (.ok (), heap'') ∧ Copied heap src dst i j (k + n) heap'' := by
  induction n generalizing k heap' with
  | zero => exact ⟨heap', rfl, h⟩
  | succ n ih =>
      have hwindow : ((heap src).elements.window i k).length = k :=
        List.length_window (by omega)
      have hvalue : (heap src).elements[i + k]? = some (heap src).elements[i + k] :=
        List.getElem?_eq_getElem (by omega)
      have hread := (h.getElem? (by omega) (by omega) src (i + k)
        (fun heq => by have := hdirection heq; omega)).trans hvalue
      have hlength : (heap' dst).elements.length = (heap dst).elements.length := by
        rw [h.elements, List.length_splice (by omega)]
      have hroom : j + k < (heap' dst).elements.length := by omega
      obtain ⟨heap₁, hturn, hothers, hrefl, helements⟩ := copyLoop_turn
        (by rw [h.reflection_eq, h.reflection_eq, hreflection])
        (by rwa [h.reflection_eq]) hread hroom (positions (i + k + 1) (j + k + 1) n)
      have hcopied : Copied heap src dst i j (k + 1) heap₁ := by
        constructor
        · intro a ha
          rw [hothers a ha, h.others a ha]
        · rw [hrefl, h.reflection]
        · rw [helements, h.elements, List.window_succ hvalue]
          have hset := @List.set_splice_last _ (heap dst).elements
            ((heap src).elements.window i k) j (by omega) (heap src).elements[i + k]
          rw [hwindow] at hset
          exact hset
      obtain ⟨heap₂, hloop, hdone⟩ := ih (k := k + 1) (by omega) (by omega) hcopied
      refine ⟨heap₂, ?_, ?_⟩
      · rw [positions_succ, hturn]
        exact hloop
      · rw [← Nat.add_right_comm, Nat.add_assoc] at hdone
        exact hdone

/-- Downwards, where they do not lie above them. -/
theorem copyLoop_down (hreflection : (heap src).reflection = (heap dst).reflection)
    (hkind : T.kindOf (heap src).reflection ≠ .numeric)
    (hsrc : i + (n + k) ≤ (heap src).elements.length)
    (hdst : j + (n + k) ≤ (heap dst).elements.length) (hdirection : src = dst → i ≤ j)
    (h : Copied heap src dst (i + n) (j + n) k heap') :
    ∃ heap'', copyLoop reassign src dst (positions i j n).reverse heap' =
        some (.ok (), heap'') ∧ Copied heap src dst i j (n + k) heap'' := by
  induction n generalizing k heap' with
  | zero =>
      rw [Nat.zero_add]
      exact ⟨heap', rfl, h⟩
  | succ n ih =>
      have hwindow : ((heap src).elements.window (i + (n + 1)) k).length = k :=
        List.length_window (by omega)
      have hvalue : (heap src).elements[i + n]? = some (heap src).elements[i + n] :=
        List.getElem?_eq_getElem (by omega)
      have hread := (h.getElem? (by omega) (by omega) src (i + n)
        (fun heq => by have := hdirection heq; omega)).trans hvalue
      have hlength : (heap' dst).elements.length = (heap dst).elements.length := by
        rw [h.elements, List.length_splice (by omega)]
      have hroom : j + n < (heap' dst).elements.length := by omega
      obtain ⟨heap₁, hturn, hothers, hrefl, helements⟩ := copyLoop_turn
        (by rw [h.reflection_eq, h.reflection_eq, hreflection])
        (by rwa [h.reflection_eq]) hread hroom (positions i j n).reverse
      have hcopied : Copied heap src dst (i + n) (j + n) (k + 1) heap₁ := by
        constructor
        · intro a ha
          rw [hothers a ha, h.others a ha]
        · rw [hrefl, h.reflection]
        · rw [helements, h.elements, List.window_succ_head hvalue]
          have hspliced : j + n + 1 + ((heap src).elements.window (i + (n + 1)) k).length ≤
            (heap dst).elements.length := by omega
          exact List.set_splice_head hspliced _
      obtain ⟨heap₂, hloop, hdone⟩ := ih (k := k + 1) (by omega) (by omega) hcopied
      refine ⟨heap₂, ?_, ?_⟩
      · rw [reverse_positions_succ, hturn]
        exact hloop
      · rw [Nat.add_right_comm, Nat.add_assoc]
        exact hdone

/-! ## Ranges -/

/-- Both ranges lie inside their arrays. -/
structure InRange (heap : Heap T) (src : ArrayId) (indexSrc : Int) (dst : ArrayId)
    (indexDst length : Int) : Prop where
  nonneg : 0 ≤ length
  src : 0 ≤ indexSrc ∧ indexSrc + length ≤ (heap src).elements.length
  dst : 0 ≤ indexDst ∧ indexDst + length ≤ (heap dst).elements.length

/-- The check detects that a range does not lie inside: some argument is negative, or a sum that
does not wrap is too large. -/
def Detected (heap : Heap T) (src : ArrayId) (indexSrc : Int) (dst : ArrayId)
    (indexDst length : Int) : Prop :=
  length ≠ 0 ∧ (length < 0 ∨ indexSrc < 0 ∨ indexDst < 0 ∨
    ((heap src).elements.length < indexSrc + length ∧ indexSrc + length < 2 ^ 31) ∨
    ((heap dst).elements.length < indexDst + length ∧ indexDst + length < 2 ^ 31))

/-- What a copy is to do: it refuses ranges that do not lie inside and leaves the heap alone, and
where it succeeds between arrays of one type it has moved the elements. -/
structure CopySound (heap : Heap T) (src : ArrayId) (indexSrc : Int32) (dst : ArrayId)
    (indexDst length : Int32) : Prop where
  ranges : copy heap src indexSrc dst indexDst length = some (.error .outOfRange, heap) ∨
    InRange heap src indexSrc.toInt dst indexDst.toInt length.toInt
  moved : (heap src).reflection = (heap dst).reflection →
    ∀ heap', copy heap src indexSrc dst indexDst length = some (.ok (), heap') →
      (∀ a, (heap' a).reflection = (heap a).reflection) ∧
      (∀ (a : ArrayId) (p : Nat), (a = dst → ¬(indexDst.toInt ≤ p ∧ p < indexDst.toInt + length.toInt)) →
        (heap' a).elements[p]? = (heap a).elements[p]?) ∧
      ∀ k : Nat, k < length.toInt →
        (heap' dst).elements[indexDst.toInt.toNat + k]? =
          (heap src).elements[indexSrc.toInt.toNat + k]?

theorem toInt_numOfElements (a : Array T) : a.numOfElements.toInt = a.elements.length :=
  Int32.toInt_ofNat_of_lt a.length_lt

/-- The sum of two 32-bit integers that are not negative is exact, or it wraps and is negative. -/
theorem toInt_add_cases {a b : Int32} (ha : 0 ≤ a.toInt) (hb : 0 ≤ b.toInt) :
    (a.toInt + b.toInt < 2 ^ 31 ∧ (a + b).toInt = a.toInt + b.toInt) ∨
      (2 ^ 31 ≤ a.toInt + b.toInt ∧ (a + b).toInt < 0) := by
  have halt := a.toInt_lt
  have hblt := b.toInt_lt
  rw [Int32.toInt_add]
  by_cases h : a.toInt + b.toInt < 2 ^ 31
  · left
    exact ⟨h, Int.bmod_eq_of_le (by omega) (by omega)⟩
  · right
    refine ⟨by omega, ?_⟩
    rw [Int.bmod_def]
    split <;> omega

/-- The check of `Copy` is right except for sums that wrap. -/
theorem check_iff (heap : Heap T) (src : ArrayId) (indexSrc : Int32) (dst : ArrayId)
    (indexDst length : Int32) (hlength : length ≠ 0) :
    (length < 0 ∨ indexSrc < 0 ∨ indexDst < 0 ∨
      (heap src).numOfElements < length + indexSrc ∨
      (heap dst).numOfElements < length + indexDst) ↔
    Detected heap src indexSrc.toInt dst indexDst.toInt length.toInt := by
  have hzero : length.toInt ≠ 0 := by
    rw [← Int32.toInt_zero]
    exact fun h => hlength (Int32.toInt_inj.mp h)
  have hsrc := toInt_numOfElements (heap src)
  have hdst := toInt_numOfElements (heap dst)
  simp only [Int32.lt_iff_toInt_lt, Int32.toInt_zero, Detected, hsrc, hdst, hzero, ne_eq,
    not_false_eq_true, true_and]
  by_cases hneg : length.toInt < 0 ∨ indexSrc.toInt < 0 ∨ indexDst.toInt < 0
  · rcases hneg with h | h | h <;> simp [h]
  · have hs := toInt_add_cases (a := length) (b := indexSrc) (by omega) (by omega)
    have hd := toInt_add_cases (a := length) (b := indexDst) (by omega) (by omega)
    omega

/-- `CheckRange` is right: it looks at the sign of its sum as well. -/
theorem checkRange_iff (a : Array T) (index length : Int32) :
    Array.checkRange index length a.numOfElements = true ↔
      0 ≤ length.toInt ∧ 0 ≤ index.toInt ∧ index.toInt + length.toInt ≤ a.elements.length := by
  have hcount := toInt_numOfElements a
  have hlt := a.length_lt
  simp only [Array.checkRange, Int32.lt_iff_toInt_lt, Int32.toInt_zero, hcount]
  by_cases hlength : length.toInt < 0
  · simp [hlength]
  · by_cases hindex : index.toInt < 0 ∨ (a.elements.length : Int) < index.toInt
    · simp only [hlength, hindex, if_true, if_false, Bool.false_eq_true, false_iff]
      omega
    · have hsum := toInt_add_cases (a := index) (b := length) (by omega) (by omega)
      simp only [hlength, hindex, if_false]
      split
      · simp only [Bool.false_eq_true, false_iff]
        omega
      · simp only [true_iff]
        omega

/-! ## The copy -/

variable {indexSrc indexDst length : Int32}

theorem memmove_spec (hreflection : (heap src).reflection = (heap dst).reflection)
    (hsrc : i + n ≤ (heap src).elements.length) (hdst : j + n ≤ (heap dst).elements.length) :
    ∃ heap', memmove heap src dst i j n hreflection = some (.ok (), heap') ∧
      Copied heap src dst i j n heap' := by
  refine ⟨_, dif_pos ⟨hsrc, hdst⟩, ?_⟩
  constructor
  · intro a ha
    exact Function.update_of_ne ha _ _
  · rw [Function.update_self]
    rfl
  · rw [Function.update_self]
    rfl

/-- Within the ranges the elements are moved, in whichever way. -/
theorem copy_inRange (hreflection : (heap src).reflection = (heap dst).reflection)
    (h : InRange heap src indexSrc.toInt dst indexDst.toInt length.toInt) :
    ∃ heap', copy heap src indexSrc dst indexDst length = some (.ok (), heap') ∧
      ((src = dst ∧ indexSrc = indexDst) ∧ heap' = heap ∨
        Copied heap src dst indexSrc.toInt.toNat indexDst.toInt.toNat length.toInt.toNat heap') := by
  obtain ⟨hlength, ⟨hsrc, hsrcEnd⟩, hdst, hdstEnd⟩ := h
  have hsrcNat : indexSrc.toInt.toNat + length.toInt.toNat ≤ (heap src).elements.length := by
    omega
  have hdstNat : indexDst.toInt.toNat + length.toInt.toNat ≤ (heap dst).elements.length := by
    omega
  rw [copy]
  by_cases hzero : length = 0
  · rw [if_pos hzero, hzero, Int32.toInt_zero]
    exact ⟨heap, rfl, .inr (.refl heap src dst _ _)⟩
  · have hcheck := (check_iff heap src indexSrc dst indexDst length hzero).not.mpr (by
      rintro ⟨-, h | h | h | ⟨h, -⟩ | ⟨h, -⟩⟩ <;> omega)
    rw [if_neg hzero, if_neg hcheck]
    by_cases hsame : src = dst ∧ indexSrc = indexDst
    · rw [if_pos hsame]
      exact ⟨heap, rfl, .inl ⟨hsame, rfl⟩⟩
    · rw [if_neg hsame]
      simp only
      rw [dif_pos hreflection]
      by_cases hkind : T.kindOf (heap src).reflection = .numeric
      · rw [if_pos hkind]
        obtain ⟨heap', hmove, hcopied⟩ := memmove_spec hreflection hsrcNat hdstNat
        exact ⟨heap', hmove, .inr hcopied⟩
      · rw [if_neg hkind]
        by_cases hdown : src = dst ∧ indexSrc.toInt.toNat < indexDst.toInt.toNat
        · rw [if_pos hdown]
          obtain ⟨heap', hloop, hcopied⟩ := copyLoop_down (k := 0) hreflection hkind
            (n := length.toInt.toNat) (by omega) (by omega) (fun _ => hdown.2.le)
            (.refl heap src dst _ _)
          exact ⟨heap', hloop, .inr hcopied⟩
        · rw [if_neg hdown]
          obtain ⟨heap', hloop, hcopied⟩ := copyLoop_up (k := 0) hreflection hkind
            (n := length.toInt.toNat) (by omega) (by omega)
            (fun heq => Nat.not_lt.mp fun hlt => hdown ⟨heq, hlt⟩) (.refl heap src dst _ _)
          rw [Nat.zero_add] at hcopied
          exact ⟨heap', hloop, .inr hcopied⟩

/-- No turn of a loop fails with the error of the check. -/
theorem copyLoop_ne_outOfRange {turn : T.Element → T.Element → Except HResult T.Element}
    (hturn : ∀ this value, turn this value ≠ .error .outOfRange) (positions : List (Nat × Nat))
    (heap heap' : Heap T) :
    copyLoop turn src dst positions heap ≠ some (.error .outOfRange, heap') := by
  induction positions generalizing heap with
  | nil =>
      intro h
      cases h
  | cons position positions ih =>
      obtain ⟨i, j⟩ := position
      rw [copyLoop]
      split
      · split
        · next heq =>
            intro h
            simp only [Option.some.injEq, Prod.mk.injEq, Except.error.injEq] at h
            exact hturn _ _ (h.1 ▸ heq)
        · exact ih _
      · intro h
        cases h

theorem reassign_ne_outOfRange (this value : T.Element) :
    reassign this value ≠ .error .outOfRange := by
  intro h
  unfold reassign at h
  split at h
  · cases h
  · split at h <;> cases h
  · cases h
  · cases h

theorem checkCast_ne_outOfRange (value : T.Element) (reflection : T.Reflection) :
    checkCast value reflection ≠ .error .outOfRange := by
  intro h
  unfold checkCast at h
  split at h
  · cases h
  · split at h <;> cases h

theorem storeConverted_ne_outOfRange (value : T.Element) (reflection : T.Reflection) :
    storeConverted value reflection ≠ .error .outOfRange := by
  intro h
  unfold storeConverted at h
  split at h <;> cases h

theorem bind_ne_outOfRange {α β : Type} {x : Except HResult α} {f : α → Except HResult β}
    (hx : x ≠ .error .outOfRange) (hf : ∀ a, f a ≠ .error .outOfRange) :
    x.bind f ≠ .error .outOfRange := by
  cases x with
  | error e =>
      intro h
      exact hx (congrArg Except.error (Except.error.inj h))
  | ok a => exact hf a

/-- The error is the one of the check. -/
theorem detected_of_refused (h : copy heap src indexSrc dst indexDst length =
    some (.error .outOfRange, heap')) :
    Detected heap src indexSrc.toInt dst indexDst.toInt length.toInt := by
  rw [copy] at h
  by_cases hzero : length = 0
  · rw [if_pos hzero] at h
    cases h
  · by_contra hdetected
    rw [if_neg hzero,
      if_neg ((check_iff heap src indexSrc dst indexDst length hzero).not.mpr hdetected)] at h
    simp only at h
    split at h
    · cases h
    · split at h
      · split at h
        · rw [memmove] at h
          split at h <;> cases h
        · split at h
          · exact copyLoop_ne_outOfRange reassign_ne_outOfRange _ _ _ h
          · exact copyLoop_ne_outOfRange reassign_ne_outOfRange _ _ _ h
      · split at h
        · exact copyLoop_ne_outOfRange (fun this value => bind_ne_outOfRange
            (checkCast_ne_outOfRange value _) fun _ => reassign_ne_outOfRange this value) _ _ _ h
        · exact copyLoop_ne_outOfRange (fun _ value => bind_ne_outOfRange
            (checkCast_ne_outOfRange value _) fun _ => storeConverted_ne_outOfRange value _) _ _ _ h

theorem refused_of_detected
    (h : Detected heap src indexSrc.toInt dst indexDst.toInt length.toInt) :
    copy heap src indexSrc dst indexDst length = some (.error .outOfRange, heap) := by
  have hzero : length ≠ 0 := by
    rintro rfl
    exact h.1 Int32.toInt_zero
  rw [copy, if_neg hzero, if_pos ((check_iff heap src indexSrc dst indexDst length hzero).mpr h)]

/-- A copy does what it is to do for exactly the ranges that lie inside or are detected not to. -/
theorem copy_sound_iff (heap : Heap T) (src : ArrayId) (indexSrc : Int32) (dst : ArrayId)
    (indexDst length : Int32) : CopySound heap src indexSrc dst indexDst length ↔
      InRange heap src indexSrc.toInt dst indexDst.toInt length.toInt ∨
        Detected heap src indexSrc.toInt dst indexDst.toInt length.toInt := by
  constructor
  · intro h
    rcases h.ranges with hrefused | hrange
    · exact .inr (detected_of_refused hrefused)
    · exact .inl hrange
  · rintro (hrange | hdetected)
    · refine ⟨.inr hrange, ?_⟩
      intro hreflection heap' hcopy
      obtain ⟨heap'', hcopy', hmoved⟩ := copy_inRange hreflection hrange
      rw [hcopy', Option.some.injEq, Prod.mk.injEq] at hcopy
      obtain rfl := hcopy.2
      obtain ⟨hlength, ⟨hsrc, hsrcEnd⟩, hdst, hdstEnd⟩ := hrange
      rcases hmoved with ⟨⟨rfl, rfl⟩, rfl⟩ | hcopied
      · exact ⟨fun _ => rfl, fun _ _ _ => rfl, fun _ _ => rfl⟩
      · refine ⟨hcopied.reflection_eq, ?_, ?_⟩
        · intro a p hp
          exact hcopied.getElem? (by omega) (by omega) a p fun ha hin => hp ha (by omega)
        · intro k hk
          have hwindow : ((heap src).elements.window indexSrc.toInt.toNat
            length.toInt.toNat).length = length.toInt.toNat := List.length_window (by omega)
          rw [hcopied.elements, List.getElem?_splice (by omega), if_pos (by omega),
            Nat.add_sub_cancel_left, List.getElem?_window, if_pos (by omega)]
    · have hrefused := refused_of_detected hdetected
      refine ⟨.inl hrefused, ?_⟩
      intro _ heap' hcopy
      rw [hrefused] at hcopy
      cases hcopy

/-! ## Samples -/

/-- One type of numbers, of one byte each. -/
def bytes : Types where
  Ref := Unit
  Content := Unit
  Reflection := Unit
  kindOf := fun _ => .numeric
  ofObject := fun _ => false
  unbox := fun _ => none
  isInstanceOf := fun _ _ => true
  convert := fun _ _ => none

def byteArray (l : List Nat) (h : l.length < 2 ^ 31) : Array bytes where
  reflection := ()
  elements := l.map .raw
  typed := by
    intro e he
    obtain ⟨b, -, rfl⟩ := List.mem_map.mp he
    rfl
  length_lt := by rwa [List.length_map]

/-- Indexes whose sums with the length wrap are not refused. -/
theorem not_copy_sound_sample : ¬∀ (T : Types) (heap : Heap T) (src : ArrayId) (indexSrc : Int32)
    (dst : ArrayId) (indexDst length : Int32), CopySound heap src indexSrc dst indexDst length := by
  intro hall
  have hsound := hall bytes (fun _ => byteArray [1, 2, 3, 4] (by decide)) 0 1 1 1 2147483647
  rcases hsound.ranges with hrefused | hrange
  · have houtside : copy (fun _ => byteArray [1, 2, 3, 4] (by decide)) 0 1 1 1 2147483647 =
      none := by rfl
    rw [houtside] at hrefused
    cases hrefused
  · exact absurd hrange.src.2 (by decide)

end TinyCLR.HeapBlock
