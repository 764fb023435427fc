import Mathlib

/-!
# Bits of numbers

The lowest bits of a number as a list, the highest of them first, and the number a list of bits
stands for.
-/

namespace Bits

/-- The lowest `n` bits of a number. -/
def ofNat (n v : Nat) : List Bool := (List.range n).map fun i => v.testBit (n - 1 - i)

def toNat (l : List Bool) : Nat := l.foldl (fun v b => 2 * v + b.toNat) 0

variable {l : List Bool} {m n v w : Nat}

@[simp] theorem length_ofNat (n v : Nat) : (ofNat n v).length = n := by
  rw [ofNat, List.length_map, List.length_range]

@[simp] theorem ofNat_zero (v : Nat) : ofNat 0 v = [] := rfl

theorem getElem?_ofNat (n v i : Nat) :
    (ofNat n v)[i]? = if i < n then some (v.testBit (n - 1 - i)) else none := by
  rw [ofNat, List.getElem?_map]
  by_cases h : i < n
  · rw [List.getElem?_range h, if_pos h, Option.map_some]
  · rw [List.getElem?_eq_none (by rw [List.length_range]; omega), if_neg h, Option.map_none]

theorem ofNat_congr (h : ∀ i < n, v.testBit i = w.testBit i) : ofNat n v = ofNat n w := by
  apply List.map_congr_left
  intro i hi
  have hlt := List.mem_range.mp hi
  exact h _ (by omega)

/-- The higher bits come first. -/
theorem ofNat_add (m n v : Nat) : ofNat (m + n) v = ofNat m (v >>> n) ++ ofNat n v := by
  apply List.ext_getElem?
  intro i
  rw [getElem?_ofNat]
  by_cases hi : i < m
  · rw [List.getElem?_append_left (by rwa [length_ofNat]), getElem?_ofNat, if_pos (by omega),
      if_pos hi, Nat.testBit_shiftRight]
    congr 2
    omega
  · rw [List.getElem?_append_right (by rw [length_ofNat]; omega), getElem?_ofNat, length_ofNat]
    by_cases hn : i < m + n
    · rw [if_pos hn, if_pos (by omega)]
      congr 2
      omega
    · rw [if_neg hn, if_neg (by omega)]

theorem toNat_concat (l : List Bool) (b : Bool) : toNat (l ++ [b]) = 2 * toNat l + b.toNat := by
  rw [toNat, List.foldl_append]
  rfl

theorem testBit_toNat (l : List Bool) (i : Nat) :
    (toNat l).testBit i = l.reverse[i]?.getD false := by
  induction l using List.reverseRecOn generalizing i with
  | nil => simp [toNat]
  | append_singleton l b ih =>
      rw [toNat_concat, List.reverse_append, List.reverse_singleton, List.singleton_append]
      cases i with
      | zero => cases b <;> simp [Nat.testBit_zero]
      | succ i =>
          have hhalf : (2 * toNat l + b.toNat) / 2 = toNat l := by
            cases b <;> simp only [Bool.toNat_true, Bool.toNat_false] <;> omega
          rw [Nat.testBit_succ, hhalf, ih, List.getElem?_cons_succ]

theorem toNat_lt (l : List Bool) : toNat l < 2 ^ l.length := by
  induction l using List.reverseRecOn with
  | nil => exact Nat.one_pos
  | append_singleton l b ih =>
      rw [toNat_concat, List.length_append, List.length_singleton, Nat.pow_succ]
      have hb := Bool.toNat_le b
      omega

theorem toNat_ofNat (n v : Nat) : toNat (ofNat n v) = v % 2 ^ n := by
  apply Nat.eq_of_testBit_eq
  intro i
  rw [testBit_toNat, Nat.testBit_mod_two_pow]
  by_cases h : i < n
  · rw [List.getElem?_reverse (by rwa [length_ofNat]), getElem?_ofNat, length_ofNat,
      if_pos (by omega), Option.getD_some]
    have hindex : n - 1 - (n - 1 - i) = i := by omega
    rw [hindex]
    simp [h]
  · rw [List.getElem?_eq_none (by rw [List.length_reverse, length_ofNat]; omega)]
    simp [h]

/-- A list put together from two pieces. -/
theorem toNat_append (l l' : List Bool) :
    toNat (l ++ l') = toNat l <<< l'.length ||| toNat l' := by
  apply Nat.eq_of_testBit_eq
  intro i
  rw [testBit_toNat, Nat.testBit_or, Nat.testBit_shiftLeft, testBit_toNat, testBit_toNat,
    List.reverse_append]
  by_cases h : i < l'.length
  · rw [List.getElem?_append_left (by rwa [List.length_reverse])]
    simp [Nat.not_le.mpr h]
  · rw [List.getElem?_append_right (by rw [List.length_reverse]; omega), List.length_reverse,
      List.getElem?_eq_none (l := l'.reverse) (by rw [List.length_reverse]; omega)]
    simp [Nat.not_lt.mp h]

/-- Some bits from the middle of a number. -/
theorem toNat_window (v : Nat) {n a k : Nat} (hk : k ≤ a) (ha : a ≤ n) :
    toNat (((ofNat n v).drop (n - a)).take k) = (v >>> (a - k)) &&& (2 ^ k - 1) := by
  apply Nat.eq_of_testBit_eq
  intro i
  have hlength : (((ofNat n v).drop (n - a)).take k).length = k := by
    rw [List.length_take, List.length_drop, length_ofNat]
    omega
  rw [testBit_toNat, Nat.testBit_and, Nat.testBit_shiftRight, Nat.testBit_two_pow_sub_one]
  by_cases h : i < k
  · rw [List.getElem?_reverse (by rwa [hlength]), hlength, List.getElem?_take,
      if_pos (by omega), List.getElem?_drop, getElem?_ofNat, if_pos (by omega), Option.getD_some]
    have hindex : n - 1 - (n - a + (k - 1 - i)) = a - k + i := by omega
    rw [hindex]
    simp [h]
  · rw [List.getElem?_eq_none (by rw [List.length_reverse, hlength]; omega)]
    simp [h]

/-- Bits are put into the place of some zeros. -/
theorem ofNat_or (v c : Nat) {n a k : Nat} (hk : k ≤ a) (ha : a ≤ n)
    (hzero : (ofNat n v).drop (n - a) = List.replicate a false) :
    ofNat n (v ||| ((c &&& (2 ^ k - 1)) <<< (a - k)) % 2 ^ n) =
      (ofNat n v).take (n - a) ++ ofNat k c ++ List.replicate (a - k) false := by
  have hlow : ∀ i < a, v.testBit i = false := by
    intro i hi
    have hget := congrArg (fun l => l[a - 1 - i]?) hzero
    simp only [List.getElem?_drop, getElem?_ofNat, List.getElem?_replicate] at hget
    rw [if_pos (by omega), if_pos (by omega)] at hget
    have hindex : n - 1 - (n - a + (a - 1 - i)) = i := by omega
    rw [hindex] at hget
    exact Option.some.inj hget
  apply List.ext_getElem?
  intro i
  have hfront : ((ofNat n v).take (n - a)).length = n - a := by
    rw [List.length_take, length_ofNat]
    omega
  rw [getElem?_ofNat, List.append_assoc]
  by_cases hi : i < n - a
  · rw [List.getElem?_append_left (by rwa [hfront]), List.getElem?_take, if_pos hi,
      getElem?_ofNat, if_pos (by omega), Nat.testBit_or, Nat.testBit_mod_two_pow,
      Nat.testBit_shiftLeft, Nat.testBit_and, Nat.testBit_two_pow_sub_one]
    have hhigh : ¬n - 1 - i - (a - k) < k := by omega
    have hin : i < n := by omega
    simp [hhigh, hin]
  · rw [List.getElem?_append_right (by omega), hfront]
    by_cases hmiddle : i - (n - a) < k
    · rw [List.getElem?_append_left (by rwa [length_ofNat]), getElem?_ofNat, if_pos hmiddle,
        if_pos (by omega), Nat.testBit_or, hlow _ (by omega), Nat.testBit_mod_two_pow,
        Nat.testBit_shiftLeft, Nat.testBit_and, Nat.testBit_two_pow_sub_one]
      have hindex : n - 1 - i - (a - k) = k - 1 - (i - (n - a)) := by omega
      have hshift : a - k ≤ n - 1 - i := by omega
      have hlt : n - 1 - i < n := by omega
      have hin : k - 1 - (i - (n - a)) < k := by omega
      simp [hindex, hshift, hlt, hin]
    · rw [List.getElem?_append_right (by rw [length_ofNat]; omega), length_ofNat,
        List.getElem?_replicate]
      by_cases hn : i < n
      · rw [if_pos hn, if_pos (by omega), Nat.testBit_or, hlow _ (by omega),
          Nat.testBit_mod_two_pow, Nat.testBit_shiftLeft]
        have hshift : ¬a - k ≤ n - 1 - i := by omega
        simp [hshift]
      · rw [if_neg hn, if_neg (by omega)]

/-- The bits of some bytes. -/
def ofBytes (l : List Nat) : List Bool := l.flatMap (ofNat 8)

@[simp] theorem ofBytes_nil : ofBytes [] = [] := rfl

@[simp] theorem ofBytes_cons (b : Nat) (l : List Nat) : ofBytes (b :: l) = ofNat 8 b ++ ofBytes l :=
  rfl

@[simp] theorem ofBytes_append (l l' : List Nat) : ofBytes (l ++ l') = ofBytes l ++ ofBytes l' :=
  List.flatMap_append

@[simp] theorem length_ofBytes (l : List Nat) : (ofBytes l).length = 8 * l.length := by
  induction l with
  | nil => rfl
  | cons b l ih =>
      rw [ofBytes_cons, List.length_append, length_ofNat, ih, List.length_cons]
      omega

end Bits
