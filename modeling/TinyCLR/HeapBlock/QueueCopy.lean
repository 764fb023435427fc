import TinyCLR.HeapBlock.Queue

/-!
# The copies of a queue

To an array of another type the elements are assigned one by one, until one does not fit. Between
arrays of objects blocks are copied, the other way: that is seen only if they differ.
-/

namespace TinyCLR.HeapBlock

variable {T : Types}

/-- A value is stored in an array of another type than its own. -/
def assign (reflection : T.Reflection) (this value : T.Element) : Except HResult T.Element :=
  (checkCast value reflection).bind fun _ =>
    if T.kindOf reflection = .numeric then storeConverted value reflection
    else reassign this value

/-- Values were assigned to the elements of an array from a position on, or all up to one that
does not fit. -/
structure Assigned (heap : Heap T) (dst : ArrayId) (j : Nat) (values : List T.Element)
    (r : Except HResult Unit) (heap' : Heap T) : Prop where
  others : ∀ a, a ≠ dst → heap' a = heap a
  reflection : (heap' dst).reflection = (heap dst).reflection
  length : (heap' dst).elements.length = (heap dst).elements.length
  outside : ∀ p, ¬(j ≤ p ∧ p < j + values.length) →
    (heap' dst).elements[p]? = (heap dst).elements[p]?
  stored : r = .ok () → ∀ (k : Nat) (value : T.Element), values[k]? = some value →
    ∃ this e, (heap dst).elements[j + k]? = some this ∧
      assign (heap dst).reflection this value = .ok e ∧ (heap' dst).elements[j + k]? = some e
  refused : ∀ error, r = .error error → ∃ (k : Nat) (value this : T.Element),
    values[k]? = some value ∧ (heap dst).elements[j + k]? = some this ∧
      assign (heap dst).reflection this value = .error error

variable {heap heap' heap'' : Heap T} {src dst : ArrayId} {i j n : Nat}
  {values values' : List T.Element} {r : Except HResult Unit}

namespace Assigned

theorem nil (heap : Heap T) (dst : ArrayId) (j : Nat) : Assigned heap dst j [] (.ok ()) heap where
  others := fun _ _ => rfl
  reflection := rfl
  length := rfl
  outside := fun _ _ => rfl
  stored := fun _ k value h => by
    rw [List.getElem?_nil] at h
    cases h
  refused := fun error h => by cases h

/-- Values behind one that does not fit do not matter. -/
theorem append_error {error : HResult} (h : Assigned heap dst j values (.error error) heap')
    (values' : List T.Element) : Assigned heap dst j (values ++ values') (.error error) heap' where
  others := h.others
  reflection := h.reflection
  length := h.length
  outside := fun p hp => h.outside p (by
    rw [List.length_append] at hp
    omega)
  stored := fun hr => by cases hr
  refused := fun e he => by
    obtain ⟨k, value, this, hvalue, hrest⟩ := h.refused e he
    have hk : k < values.length := (List.getElem?_eq_some_iff.mp hvalue).1
    exact ⟨k, value, this, by rwa [List.getElem?_append_left hk], hrest⟩

/-- First some values and then those behind them. -/
theorem append (h : Assigned heap dst j values (.ok ()) heap')
    (h' : Assigned heap' dst (j + values.length) values' r heap'') :
    Assigned heap dst j (values ++ values') r heap'' where
  others := fun a ha => (h'.others a ha).trans (h.others a ha)
  reflection := h'.reflection.trans h.reflection
  length := h'.length.trans h.length
  outside := fun p hp => by
    rw [List.length_append] at hp
    rw [h'.outside p (by omega), h.outside p (by omega)]
  stored := fun hr k value hvalue => by
    by_cases hk : k < values.length
    · rw [List.getElem?_append_left hk] at hvalue
      obtain ⟨this, e, hthis, hassign, he⟩ := h.stored rfl k value hvalue
      exact ⟨this, e, hthis, hassign, by rwa [h'.outside _ (by omega)]⟩
    · rw [List.getElem?_append_right (by omega)] at hvalue
      obtain ⟨this, e, hthis, hassign, he⟩ := h'.stored hr _ value hvalue
      have hplace : j + values.length + (k - values.length) = j + k := by omega
      rw [hplace] at hthis he
      rw [h.reflection] at hassign
      exact ⟨this, e, by rwa [← h.outside _ (by omega)], hassign, he⟩
  refused := fun error he => by
    obtain ⟨k, value, this, hvalue, hthis, hassign⟩ := h'.refused error he
    rw [h.outside _ (by omega)] at hthis
    rw [h.reflection] at hassign
    refine ⟨values.length + k, value, this, ?_, by rwa [← Nat.add_assoc], hassign⟩
    rwa [List.getElem?_append_right (by omega), Nat.add_sub_cancel_left]

end Assigned

theorem kind_of_reassign {this value e : T.Element} (h : reassign this value = .ok e) :
    e.kind = this.kind := by
  unfold reassign at h
  split at h
  · cases h
    rfl
  · split at h
    · cases h
      rfl
    · cases h
  · cases h
    rfl
  · cases h

theorem kind_of_assign (O : ObjectType T) {reflection : T.Reflection} {this value e : T.Element}
    (hthis : this.kind = T.kindOf reflection) (h : assign reflection this value = .ok e) :
    e.kind = T.kindOf reflection := by
  unfold assign at h
  cases hcast : checkCast value reflection with
  | error error =>
      rw [hcast] at h
      cases h
  | ok _ =>
      rw [hcast] at h
      simp only [Except.bind] at h
      split at h
      · unfold storeConverted at h
        split at h
        · next hconvert =>
            cases h
            exact O.kind_of_convert _ _ _ hconvert
        · cases h
      · rw [kind_of_reassign h, hthis]

/-- An element that does not fit. -/
theorem assigned_error {this value : T.Element} {error : HResult}
    (hthis : (heap dst).elements[j]? = some this)
    (hassign : assign (heap dst).reflection this value = .error error) :
    Assigned heap dst j [value] (.error error) heap where
  others := fun _ _ => rfl
  reflection := rfl
  length := rfl
  outside := fun _ _ => rfl
  stored := fun h => by cases h
  refused := fun e he => by
    cases he
    exact ⟨0, value, this, rfl, hthis, hassign⟩

/-- One that fits. -/
theorem assigned_store (O : ObjectType T) {this value e : T.Element}
    (hthis : (heap dst).elements[j]? = some this)
    (hassign : assign (heap dst).reflection this value = .ok e) :
    Assigned heap dst j [value] (.ok ()) (heap.store dst j e) := by
  have hj : j < (heap dst).elements.length := (List.getElem?_eq_some_iff.mp hthis).1
  have hkind := (heap dst).typed this (List.mem_of_getElem? hthis)
  rw [store_of_kind dst j (kind_of_assign O hkind hassign)]
  constructor
  · intro a ha
    exact Function.update_of_ne ha _ _
  · rw [Function.update_self]
    rfl
  · rw [Function.update_self]
    exact List.length_set
  · intro p hp
    rw [List.length_singleton] at hp
    rw [Function.update_self]
    exact List.getElem?_set_ne (by omega)
  · intro _ k v hv
    cases k with
    | zero =>
        obtain rfl := Option.some.inj hv
        refine ⟨this, e, hthis, hassign, ?_⟩
        rw [Function.update_self]
        exact List.getElem?_set_self hj
    | succ k => cases hv
  · intro error h
    cases h

/-- The loops of `Copy`, between two arrays. -/
theorem copyLoop_assigned (O : ObjectType T) (hne : src ≠ dst)
    (hsrc : i + n ≤ (heap src).elements.length) (hdst : j + n ≤ (heap dst).elements.length) :
    ∃ r heap', copyLoop (assign (heap dst).reflection) src dst (positions i j n) heap =
        some (r, heap') ∧ Assigned heap dst j ((heap src).elements.window i n) r heap' := by
  induction n generalizing i j heap with
  | zero =>
      rw [List.window_zero]
      exact ⟨.ok (), heap, rfl, .nil heap dst j⟩
  | succ n ih =>
      have hvalue : (heap src).elements[i]? = some (heap src).elements[i] :=
        List.getElem?_eq_getElem (by omega)
      have hthis : (heap dst).elements[j]? = some (heap dst).elements[j] :=
        List.getElem?_eq_getElem (by omega)
      rw [positions_succ, copyLoop, hvalue, hthis, List.window_succ_head hvalue]
      cases hassign : assign (heap dst).reflection (heap dst).elements[j]
        (heap src).elements[i] with
      | error error =>
          simp only [hassign]
          exact ⟨.error error, heap, rfl, (assigned_error hthis hassign).append_error _⟩
      | ok e =>
          simp only [hassign]
          have hfirst := assigned_store O hthis hassign
          have hsame := hfirst.others src hne
          obtain ⟨r, heap₂, hloop, hrest⟩ := @ih (heap.store dst j e) (i + 1) (j + 1)
            (by rw [hsame]; omega) (by rw [hfirst.length]; omega)
          rw [hfirst.reflection] at hloop
          rw [hsame] at hrest
          exact ⟨r, heap₂, hloop, hfirst.append hrest⟩

/-- `Copy` from an array of references to one of another type. -/
theorem copy_assigned (O : ObjectType T) (indexSrc indexDst length : Int32) (hne : src ≠ dst)
    (hreflection : (heap src).reflection ≠ (heap dst).reflection)
    (hkind : T.kindOf (heap src).reflection = .reference)
    (h : InRange heap src indexSrc.toInt dst indexDst.toInt length.toInt) :
    ∃ r heap', copy heap src indexSrc dst indexDst length = some (r, heap') ∧
      Assigned heap dst indexDst.toInt.toNat
        ((heap src).elements.window indexSrc.toInt.toNat length.toInt.toNat) r heap' := by
  obtain ⟨hlength, ⟨hsrc, hsrcEnd⟩, hdst, hdstEnd⟩ := h
  have hloop := @copyLoop_assigned _ heap src dst indexSrc.toInt.toNat indexDst.toInt.toNat
    length.toInt.toNat O hne (by omega) (by omega)
  rw [copy]
  by_cases hzero : length = 0
  · rw [if_pos hzero, hzero, Int32.toInt_zero, Int.toNat_zero, List.window_zero]
    exact ⟨.ok (), heap, rfl, .nil heap dst _⟩
  · have hcheck := (check_iff heap src indexSrc dst indexDst length hzero).not.mpr (by
      rintro ⟨-, h | h | h | ⟨h, -⟩ | ⟨h, -⟩⟩ <;> omega)
    rw [if_neg hzero, if_neg hcheck, if_neg (fun h => hne h.1)]
    simp only
    rw [dif_neg hreflection]
    by_cases hnumeric : T.kindOf (heap dst).reflection = .numeric
    · have hassign : assign (heap dst).reflection = fun _ value =>
          (checkCast value (heap dst).reflection).bind fun _ =>
            storeConverted value (heap dst).reflection := by
        funext this value
        simp only [assign, if_pos hnumeric]
      rw [if_neg (fun h => h.2 hnumeric), ← hassign]
      exact hloop
    · have hassign : assign (heap dst).reflection = fun this value =>
          (checkCast value (heap dst).reflection).bind fun _ => reassign this value := by
        funext this value
        simp only [assign, if_neg hnumeric]
      have hreference : T.kindOf (heap src).reflection ≠ .numeric := by
        rw [hkind]
        decide
      rw [if_pos ⟨hreference, hnumeric⟩, ← hassign]
      exact hloop

/-! ## Blocks -/

theorem Array.eq_of_elements {a b : Array T} (hreflection : a.reflection = b.reflection)
    (helements : a.elements = b.elements) : a = b := by
  cases a
  cases b
  simp only at hreflection helements
  subst hreflection
  subst helements
  rfl

/-- Blocks that are the same already are copied without a trace. -/
theorem memcpy_same (hkind : T.kindOf (heap src).reflection = T.kindOf (heap dst).reflection)
    (hsrc : i + n ≤ (heap src).elements.length) (hdst : j + n ≤ (heap dst).elements.length)
    (hsame : (heap src).elements.window i n = (heap dst).elements.window j n) :
    memcpy heap dst src j i n = some (.ok (), heap) := by
  have hspliced : (heap dst).elements.splice j ((heap src).elements.window i n) =
      (heap dst).elements := by
    have hlength : ((heap src).elements.window i n).length = n := List.length_window hsrc
    apply List.ext_getElem?
    intro p
    rw [List.getElem?_splice (by omega), hlength]
    by_cases hp : j ≤ p ∧ p < j + n
    · rw [if_pos hp, hsame, List.getElem?_window, if_pos (by omega)]
      congr 1
      omega
    · rw [if_neg hp]
  rw [memcpy, dif_pos ⟨hkind, hsrc, hdst⟩]
  congr 2
  apply Function.update_eq_self_iff.mpr
  exact Array.eq_of_elements rfl hspliced

end TinyCLR.HeapBlock
