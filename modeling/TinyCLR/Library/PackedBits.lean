import Mathlib

/-!
# Packed bits

A list of words as one row of bits, the lowest bit of a word first.
-/

namespace PackedBits

variable {w : Nat}

/-- The bits of a word. -/
def bits (x : BitVec w) : List Bool := (List.range w).map fun i => x.getLsbD i

/-- The bits of all words. -/
def unpack (words : List (BitVec w)) : List Bool := words.flatMap bits

@[simp] theorem length_bits (x : BitVec w) : (bits x).length = w := by
  rw [bits, List.length_map, List.length_range]

theorem getElem?_bits (x : BitVec w) (i : Nat) :
    (bits x)[i]? = if i < w then some (x.getLsbD i) else none := by
  rw [bits, List.getElem?_map]
  by_cases h : i < w
  · rw [List.getElem?_range h, if_pos h, Option.map_some]
  · rw [List.getElem?_eq_none (by rw [List.length_range]; omega), if_neg h, Option.map_none]

@[simp] theorem unpack_nil : unpack ([] : List (BitVec w)) = [] := rfl

@[simp] theorem unpack_cons (x : BitVec w) (words : List (BitVec w)) :
    unpack (x :: words) = bits x ++ unpack words := rfl

@[simp] theorem unpack_append (words words' : List (BitVec w)) :
    unpack (words ++ words') = unpack words ++ unpack words' := List.flatMap_append

@[simp] theorem length_unpack (words : List (BitVec w)) :
    (unpack words).length = w * words.length := by
  induction words with
  | nil => simp
  | cons x words ih => simp [ih, Nat.mul_succ, Nat.add_comm]

/-- Bit `i` of the row is bit `i % w` of word `i / w`. -/
theorem getElem?_unpack (hw : 0 < w) (words : List (BitVec w)) (i : Nat) :
    (unpack words)[i]? = (words[i / w]?).map fun x => x.getLsbD (i % w) := by
  induction words generalizing i with
  | nil => simp
  | cons x words ih =>
      rw [unpack_cons]
      rcases Nat.lt_or_ge i w with h | h
      · rw [List.getElem?_append_left (by simpa using h), getElem?_bits, if_pos h,
          Nat.div_eq_of_lt h, Nat.mod_eq_of_lt h]
        rfl
      · rw [List.getElem?_append_right (by simpa using h), length_bits, ih,
          Nat.div_eq_sub_div hw h, List.getElem?_cons_succ, Nat.mod_eq_sub_mod h]

theorem unpack_replicate {x : BitVec w} {c : Bool} (h : ∀ i < w, x.getLsbD i = c) (n : Nat) :
    unpack (List.replicate n x) = List.replicate (w * n) c := by
  have hx : bits x = List.replicate w c := by
    apply List.ext_getElem?
    intro i
    rw [getElem?_bits, List.getElem?_replicate]
    split_ifs with hi
    · rw [h i hi]
    · rfl
  induction n with
  | zero => simp
  | succ n ih =>
      rw [List.replicate_succ, unpack_cons, ih, hx, ← List.replicate_add, Nat.mul_succ,
        Nat.add_comm]

theorem unpack_take (words : List (BitVec w)) (n : Nat) :
    unpack (words.take n) = (unpack words).take (w * n) := by
  induction n generalizing words with
  | zero => simp
  | succ n ih =>
      cases words with
      | nil => simp
      | cons x words =>
          have hx : (bits x).take (w * n + w) = bits x :=
            List.take_of_length_le (by rw [length_bits]; omega)
          rw [List.take_succ_cons, unpack_cons, unpack_cons, ih, Nat.mul_succ, List.take_append,
            length_bits, Nat.add_sub_cancel, hx]

/-- One bit of one word is written. -/
theorem unpack_set (hw : 0 < w) {words : List (BitVec w)} {i : Nat} {b : Bool} {x y : BitVec w}
    (hx : words[i / w]? = some x)
    (hy : ∀ j < w, y.getLsbD j = if j = i % w then b else x.getLsbD j) :
    unpack (words.set (i / w) y) = (unpack words).set i b := by
  have hlt : i / w < words.length := (List.getElem?_eq_some_iff.mp hx).1
  have hi : i < w * words.length := by
    rw [Nat.mul_comm]
    exact Nat.lt_mul_of_div_lt hlt hw
  apply List.ext_getElem?
  intro k
  have hk := hy (k % w) (Nat.mod_lt k hw)
  rw [getElem?_unpack hw, List.getElem?_set, List.getElem?_set, length_unpack]
  by_cases hword : i / w = k / w
  · rw [if_pos hword, if_pos (hword ▸ hlt), Option.map_some, hk]
    by_cases hbit : i = k
    · rw [if_pos (show k % w = i % w by rw [hbit]), if_pos hbit, if_pos hi]
    · have hne : ¬k % w = i % w := fun h => hbit <| by
        rw [← Nat.div_add_mod i w, ← Nat.div_add_mod k w, hword, h]
      rw [if_neg hbit, if_neg hne, getElem?_unpack hw, ← hword, hx]
      rfl
  · have hbit : i ≠ k := fun h => hword (by rw [h])
    rw [if_neg hword, if_neg hbit, getElem?_unpack hw]

theorem unpack_map {f : BitVec w → BitVec w} {g : Bool → Bool}
    (h : ∀ x, ∀ i < w, (f x).getLsbD i = g (x.getLsbD i)) (words : List (BitVec w)) :
    unpack (words.map f) = (unpack words).map g := by
  induction words with
  | nil => rfl
  | cons x words ih =>
      rw [List.map_cons, unpack_cons, unpack_cons, List.map_append, ih]
      congr 1
      rw [bits, bits, List.map_map]
      exact List.map_congr_left fun i hi => h x i (List.mem_range.mp hi)

theorem unpack_zipWith {f : BitVec w → BitVec w → BitVec w} {g : Bool → Bool → Bool}
    (h : ∀ x y, ∀ i < w, (f x y).getLsbD i = g (x.getLsbD i) (y.getLsbD i))
    {words words' : List (BitVec w)} (hlength : words.length = words'.length) :
    unpack (words.zipWith f words') = (unpack words).zipWith g (unpack words') := by
  induction words generalizing words' with
  | nil => rfl
  | cons x words ih =>
      cases words' with
      | nil => cases hlength
      | cons y words' =>
          rw [List.length_cons, List.length_cons, Nat.add_right_cancel_iff] at hlength
          rw [List.zipWith_cons_cons, unpack_cons, unpack_cons, unpack_cons,
            List.zipWith_append (by simp), ih hlength]
          congr 1
          rw [bits, bits, bits, List.zipWith_map, List.zipWith_self]
          exact List.map_congr_left fun i hi => h x y i (List.mem_range.mp hi)

/-- The words of width `m * k` cut into words of width `m`, the lowest first. -/
def split (m k : Nat) (words : List (BitVec w)) : List (BitVec m) :=
  words.flatMap fun x => (List.range k).map fun j => x.extractLsb' (m * j) m

theorem length_split (m k : Nat) (words : List (BitVec w)) :
    (split m k words).length = k * words.length := by
  induction words with
  | nil => rfl
  | cons x words ih =>
      rw [split, List.flatMap_cons, List.length_append, List.length_map, List.length_range,
        List.length_cons, Nat.mul_succ, Nat.add_comm]
      exact congrArg (· + k) ih

theorem bits_split {m k : Nat} (hm : 0 < m) (hw : w = m * k) (x : BitVec w) :
    unpack ((List.range k).map fun j => x.extractLsb' (m * j) m) = bits x := by
  apply List.ext_getElem?
  intro i
  rw [getElem?_unpack hm, getElem?_bits, List.getElem?_map]
  by_cases h : i < w
  · have hdiv : i / m < k := Nat.div_lt_of_lt_mul (hw ▸ h)
    rw [List.getElem?_range hdiv, if_pos h, Option.map_some, Option.map_some,
      BitVec.getLsbD_extractLsb', decide_eq_true (Nat.mod_lt i hm), Bool.true_and,
      Nat.div_add_mod]
  · have hdiv : k ≤ i / m := (Nat.le_div_iff_mul_le hm).mpr (by rw [Nat.mul_comm]; omega)
    rw [List.getElem?_eq_none (by rwa [List.length_range]), if_neg h]
    rfl

theorem unpack_split {m k : Nat} (hm : 0 < m) (hw : w = m * k) (words : List (BitVec w)) :
    unpack (split m k words) = unpack words := by
  induction words with
  | nil => rfl
  | cons x words ih =>
      rw [split, List.flatMap_cons, unpack_append, bits_split hm hw, unpack_cons]
      exact congrArg (bits x ++ ·) ih

/-- Rows with the same bits have the same words. -/
theorem unpack_inj (hw : 0 < w) {words words' : List (BitVec w)} :
    unpack words = unpack words' ↔ words = words' := by
  refine ⟨fun h => ?_, fun h => by rw [h]⟩
  apply List.ext_getElem?
  intro k
  have hbit : ∀ i < w, (words[k]?).map (fun x => x.getLsbD i) =
      (words'[k]?).map fun x => x.getLsbD i := by
    intro i hi
    have hdiv : (w * k + i) / w = k := by
      rw [Nat.mul_add_div hw, Nat.div_eq_of_lt hi, Nat.add_zero]
    have hmod : (w * k + i) % w = i := by
      rw [Nat.mul_add_mod, Nat.mod_eq_of_lt hi]
    have := congrArg (fun l : List Bool => l[w * k + i]?) h
    rwa [getElem?_unpack hw, getElem?_unpack hw, hdiv, hmod] at this
  cases hx : words[k]? with
  | none =>
      cases hy : words'[k]? with
      | none => rfl
      | some y =>
          have := hbit 0 hw
          rw [hx, hy] at this
          cases this
  | some x =>
      cases hy : words'[k]? with
      | none =>
          have := hbit 0 hw
          rw [hx, hy] at this
          cases this
      | some y =>
          congr 1
          apply BitVec.eq_of_getLsbD_eq
          intro i hi
          have := hbit i hi
          rw [hx, hy] at this
          exact Option.some.inj this

theorem getLsbD_one_shift {k j : Nat} (hj : j < w) : (1#w <<< k).getLsbD j = decide (j = k) := by
  rw [BitVec.getLsbD_shiftLeft, decide_eq_true hj, Bool.true_and]
  by_cases h : j < k
  · rw [decide_eq_true h, decide_eq_false (by omega)]
    rfl
  · rw [decide_eq_false h, BitVec.getLsbD_one]
    simp only [Bool.not_false, Bool.true_and]
    grind

/-- A word meets the flag of a place when its bit there is set. -/
theorem meets_flag (x : BitVec w) {k : Nat} (hk : k < w) :
    decide (0#w < x &&& 1#w <<< k) = x.getLsbD k := by
  have hbit : (x &&& 1#w <<< k).getLsbD k = x.getLsbD k := by
    rw [BitVec.getLsbD_and, getLsbD_one_shift hk, decide_eq_true rfl, Bool.and_true]
  cases h : x.getLsbD k with
  | true =>
      have hne : x &&& 1#w <<< k ≠ 0#w := by
        intro hzero
        rw [hzero, BitVec.getLsbD_zero, h] at hbit
        cases hbit
      rw [decide_eq_true_eq, BitVec.lt_def]
      exact Nat.pos_of_ne_zero fun h0 => hne (BitVec.eq_of_toNat_eq h0)
  | false =>
      have hzero : x &&& 1#w <<< k = 0#w := by
        apply BitVec.eq_of_getLsbD_eq
        intro j hj
        rw [BitVec.getLsbD_and, getLsbD_one_shift hj, BitVec.getLsbD_zero]
        by_cases hjk : j = k
        · rw [hjk, h, Bool.false_and]
        · rw [decide_eq_false hjk, Bool.and_false]
      rw [hzero]
      simp

/-- The first `r` bits of two words agree when the words do below a mask. -/
theorem take_bits_eq_iff {mask : BitVec w} {r : Nat}
    (hmask : ∀ i < w, mask.getLsbD i = decide (i < r)) (x y : BitVec w) :
    (bits x).take r = (bits y).take r ↔ mask &&& x = mask &&& y := by
  constructor
  · intro h
    apply BitVec.eq_of_getLsbD_eq
    intro i hi
    rw [BitVec.getLsbD_and, BitVec.getLsbD_and, hmask i hi]
    by_cases hr : i < r
    · have := congrArg (fun l : List Bool => l[i]?) h
      rw [List.getElem?_take, List.getElem?_take, if_pos hr, if_pos hr, getElem?_bits,
        getElem?_bits, if_pos hi, if_pos hi, Option.some.injEq] at this
      rw [this]
    · rw [decide_eq_false hr, Bool.false_and, Bool.false_and]
  · intro h
    apply List.ext_getElem?
    intro i
    rw [List.getElem?_take, List.getElem?_take, getElem?_bits, getElem?_bits]
    split_ifs with hr hi
    · have := congrArg (fun z : BitVec w => z.getLsbD i) h
      rw [BitVec.getLsbD_and, BitVec.getLsbD_and, hmask i hi, decide_eq_true hr, Bool.true_and,
        Bool.true_and] at this
      rw [this]
    · rfl
    · rfl

end PackedBits
