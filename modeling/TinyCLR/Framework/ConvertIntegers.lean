import Mathlib

/-!
# Parsing integers

`Convert.ToSByte` to `Convert.ToUInt64` share one routine of 64 bits. Arithmetic on `ulong` and
`long` wraps; `none` is an exception.
-/

namespace TinyCLR.Framework.Convert

section Source

/-- `String.Trim` of blanks. -/
def trim (value : List Char) : List Char :=
  (value.dropWhile (· = ' ')).rdropWhile (· = ' ')

/-- The `switch` over the characters. -/
def digit : Char → Option UInt64
  | '0' => some 0
  | '1' => some 1
  | '2' => some 2
  | '3' => some 3
  | '4' => some 4
  | '5' => some 5
  | '6' => some 6
  | '7' => some 7
  | '8' => some 8
  | '9' => some 9
  | _ => none

/-- The loop over the digits. -/
def parseDigits (threshold : UInt64) : UInt64 → List Char → Option UInt64
  | result, [] => some result
  | result, c :: num =>
      (digit c).bind fun d =>
        if threshold < result then none else parseDigits threshold (result * 10 + d) num

def threshold (signed : Bool) : UInt64 :=
  if signed then 0x0CCCCCCCCCCCCCCC else 0x1999999999999999

/-- The checks behind the loop. -/
def finish (isNeg signed : Bool) (min max : Int64) (result : UInt64) : Option Int64 :=
  if isNeg = true ∧ signed = false ∧ result ≠ 0 then none
  else
    (if isNeg then
        let res := -result.toInt64
        if 0 < res then none else some res
      else
        let res := result.toInt64
        if max ≠ 0 ∧ res < 0 then none else some res).bind fun res =>
      if max ≠ 0 ∧ (res < min ∨ max < res) then none else some res

/-- `Convert.ToInt64( string, bool, long, long )` -/
def toInt64Within (value : List Char) (signed : Bool) (min max : Int64) : Option Int64 :=
  match trim value with
  | [] => none
  | c :: num =>
      let isNeg : Bool := c = '-'
      (parseDigits (threshold signed) 0 (if c = '-' ∨ c = '+' then num else c :: num)).bind
        (finish isNeg signed min max)

def toSByte (value : List Char) : Option Int8 :=
  (toInt64Within value true (-0x80) 0x7F).map Int64.toInt8
def toByte (value : List Char) : Option UInt8 :=
  (toInt64Within value false 0 0xFF).map fun res => res.toUInt64.toUInt8
def toInt16 (value : List Char) : Option Int16 :=
  (toInt64Within value true (-0x8000) 0x7FFF).map Int64.toInt16
def toUInt16 (value : List Char) : Option UInt16 :=
  (toInt64Within value false 0 0xFFFF).map fun res => res.toUInt64.toUInt16
def toInt32 (value : List Char) : Option Int32 :=
  (toInt64Within value true (-0x80000000) 0x7FFFFFFF).map Int64.toInt32
def toUInt32 (value : List Char) : Option UInt32 :=
  (toInt64Within value false 0 0xFFFFFFFF).map fun res => res.toUInt64.toUInt32
def toInt64 (value : List Char) : Option Int64 :=
  toInt64Within value true Int64.minValue Int64.maxValue
def toUInt64 (value : List Char) : Option UInt64 :=
  (toInt64Within value false 0 0).map Int64.toUInt64

end Source

section Numbers

inductive IntegerType where
  | sbyte | byte | int16 | uint16 | int32 | uint32 | int64 | uint64
  deriving DecidableEq, Repr

def IntegerType.signed : IntegerType → Bool
  | .sbyte | .int16 | .int32 | .int64 => true
  | .byte | .uint16 | .uint32 | .uint64 => false

def IntegerType.bits : IntegerType → ℕ
  | .sbyte | .byte => 8
  | .int16 | .uint16 => 16
  | .int32 | .uint32 => 32
  | .int64 | .uint64 => 64

def IntegerType.minimum (t : IntegerType) : ℤ := if t.signed then -2 ^ (t.bits - 1) else 0

def IntegerType.maximum (t : IntegerType) : ℤ :=
  if t.signed then 2 ^ (t.bits - 1) - 1 else 2 ^ t.bits - 1

/-- The method of each type, as a number. -/
def convert : IntegerType → List Char → Option ℤ
  | .sbyte, value => (toSByte value).map Int8.toInt
  | .byte, value => (toByte value).map fun r => (r.toNat : ℤ)
  | .int16, value => (toInt16 value).map Int16.toInt
  | .uint16, value => (toUInt16 value).map fun r => (r.toNat : ℤ)
  | .int32, value => (toInt32 value).map Int32.toInt
  | .uint32, value => (toUInt32 value).map fun r => (r.toNat : ℤ)
  | .int64, value => (toInt64 value).map Int64.toInt
  | .uint64, value => (toUInt64 value).map fun r => (r.toNat : ℤ)

/-- The value of a text of decimal digits behind a number. -/
def number (n : ℕ) (ds : List ℕ) : ℕ := ds.foldl (fun r d => 10 * r + d) n

def numeral (c : Char) : Option ℕ := if c.isDigit then some (c.toNat - '0'.toNat) else none

def numerals (num : List Char) : Option (List ℕ) := num.mapM numeral

def isNegative (text : List Char) : Bool := text.head? = some '-'

/-- The text behind an optional sign. -/
def unsignedPart (text : List Char) : List Char :=
  if text.head? = some '-' ∨ text.head? = some '+' then text.tail else text

/-- The exact value of a text, if it is an optional sign and one or more digits, and in range. -/
def exact (t : IntegerType) (value : List Char) : Option ℤ :=
  (numerals (unsignedPart (trim value))).bind fun ds =>
    let v : ℤ := if isNegative (trim value) then -(number 0 ds : ℤ) else number 0 ds
    if ds ≠ [] ∧ t.minimum ≤ v ∧ v ≤ t.maximum then some v else none

theorem number_append (n : ℕ) (ds es : List ℕ) : number n (ds ++ es) = number (number n ds) es :=
  List.foldl_append

theorem le_number (n : ℕ) (ds : List ℕ) : n ≤ number n ds := by
  induction ds generalizing n with
  | nil => exact le_rfl
  | cons d ds ih =>
      have := ih (10 * n + d)
      rw [number, List.foldl_cons]
      rw [number] at this
      omega

/-- Each further digit is a factor of ten. -/
theorem number_take_le (n : ℕ) {ds : List ℕ} {k : ℕ} (h : k < ds.length) :
    10 * number n (ds.take k) ≤ number n ds := by
  conv_rhs => rw [← List.take_append_drop k ds, number_append, List.drop_eq_getElem_cons h]
  apply le_trans _ (le_number (10 * number n (ds.take k) + ds[k]) (ds.drop (k + 1)))
  exact Nat.le_add_right _ _

theorem number_concat (n : ℕ) (ds : List ℕ) (d : ℕ) :
    number n (ds ++ [d]) = 10 * number n ds + d := number_append n ds [d]

theorem numeral_lt {c : Char} {d : ℕ} (h : numeral c = some d) : d < 10 := by
  rw [numeral] at h
  split at h
  · rename_i hdigit
    rw [Char.isDigit, Bool.and_eq_true, decide_eq_true_eq, decide_eq_true_eq] at hdigit
    cases h
    have hhigh : c.toNat ≤ 57 := hdigit.2
    have hzero : '0'.toNat = 48 := rfl
    omega
  · cases h

theorem digit_eq (c : Char) : digit c = (numeral c).map UInt64.ofNat := by
  by_cases hdigit : c.isDigit
  · rw [numeral, if_pos hdigit, Option.map_some]
    rw [Char.isDigit, Bool.and_eq_true, decide_eq_true_eq, decide_eq_true_eq] at hdigit
    have hlow : 48 ≤ c.toNat := hdigit.1
    have hhigh : c.toNat ≤ 57 := hdigit.2
    have hc : c = Char.ofNat c.toNat := c.ofNat_toNat.symm
    generalize c.toNat = n at hc hlow hhigh
    subst hc
    interval_cases n <;> rfl
  · rw [numeral, if_neg hdigit, Option.map_none]
    unfold digit
    split <;> first | rfl | exact absurd rfl hdigit

end Numbers

section Loop

/-- Every proper prefix passes the threshold test, as far as 64 bits tell. -/
def PassesTest (bound : ℕ) (n : ℕ) (ds : List ℕ) : Prop :=
  ∀ k < ds.length, number n (ds.take k) % 2 ^ 64 ≤ bound

instance (bound n : ℕ) (ds : List ℕ) : Decidable (PassesTest bound n ds) :=
  inferInstanceAs (Decidable (∀ k < ds.length, _))

theorem passesTest_cons (bound n d : ℕ) (ds : List ℕ) :
    PassesTest bound n (d :: ds) ↔ n % 2 ^ 64 ≤ bound ∧ PassesTest bound (10 * n + d) ds := by
  rw [PassesTest, List.length_cons, Nat.forall_lt_succ_left]
  rfl

theorem numerals_cons (c : Char) (num : List Char) :
    numerals (c :: num) = (numeral c).bind fun d => (numerals num).map (d :: ·) := by
  rw [numerals, List.mapM_cons]
  cases numeral c with
  | none => rfl
  | some d =>
      show (numerals num).bind (fun ds => some (d :: ds)) = (numerals num).map (d :: ·)
      cases numerals num <;> rfl

/-- The loop computes the value modulo `2 ^ 64`. -/
theorem parseDigits_eq (bound : UInt64) (n : ℕ) (num : List Char) :
    parseDigits bound (UInt64.ofNat n) num = (numerals num).bind fun ds =>
      if PassesTest bound.toNat n ds then some (UInt64.ofNat (number n ds)) else none := by
  induction num generalizing n with
  | nil =>
      have hpass : PassesTest bound.toNat n [] := fun k hk => absurd hk (Nat.not_lt_zero k)
      have hnil : numerals [] = some [] := List.mapM_nil
      rw [parseDigits, hnil, Option.bind_some, if_pos hpass]
      rfl
  | cons c num ih =>
      rw [parseDigits, digit_eq, numerals_cons]
      cases numeral c with
      | none => rfl
      | some d =>
          rw [Option.map_some, Option.bind_some, Option.bind_some]
          have hlt : bound < UInt64.ofNat n ↔ bound.toNat < n % 2 ^ 64 := by
            rw [UInt64.lt_iff_toNat_lt, UInt64.toNat_ofNat']
          have hnext : UInt64.ofNat n * 10 + UInt64.ofNat d = UInt64.ofNat (10 * n + d) := by
            rw [UInt64.ofNat_add, UInt64.ofNat_mul, UInt64.mul_comm]
            rfl
          rw [hnext, ih]
          cases numerals num with
          | none => split <;> rfl
          | some ds =>
              rw [Option.map_some, Option.bind_some, Option.bind_some]
              by_cases hpass : n % 2 ^ 64 ≤ bound.toNat
              · rw [if_neg (fun h => absurd (hlt.mp h) (not_lt.mpr hpass))]
                simp only [passesTest_cons, hpass, true_and]
                rfl
              · rw [if_pos (hlt.mpr (not_le.mp hpass)),
                  if_neg (fun h => hpass ((passesTest_cons _ _ _ _).mp h).1)]

/-- With the threshold of the signed types nothing wraps. -/
theorem passesTest_signed {ds : List ℕ} (hds : ∀ d ∈ ds, d < 10) :
    PassesTest (threshold true).toNat 0 ds ↔ number 0 ds ≤ 9223372036854775809 := by
  have hthreshold : (threshold true).toNat = 922337203685477580 := by decide
  rw [hthreshold]
  constructor
  · intro h
    have hall : ∀ k ≤ ds.length, number 0 (ds.take k) ≤ 9223372036854775809 := by
      intro k hk
      induction k with
      | zero => exact Nat.zero_le _
      | succ k ih =>
          have hpass := h k hk
          have hprefix := ih (by omega)
          rw [Nat.mod_eq_of_lt (by omega)] at hpass
          have hdigit := hds ds[k] (List.getElem_mem hk)
          rw [List.take_succ_eq_append_getElem hk, number_concat]
          omega
    have hlast := hall ds.length le_rfl
    rwa [List.take_length] at hlast
  · intro h k hk
    have hle := number_take_le 0 hk
    rw [Nat.mod_eq_of_lt (by omega)]
    omega

/-- A value of 64 bits passes the test of the unsigned types. -/
theorem passesTest_of_lt {ds : List ℕ} (h : number 0 ds < 2 ^ 64) :
    PassesTest (threshold false).toNat 0 ds := by
  intro k hk
  have hle := number_take_le 0 hk
  have hthreshold : (threshold false).toNat = 1844674407370955161 := by decide
  rw [hthreshold, Nat.mod_eq_of_lt (by omega)]
  omega

end Loop

section Checks

theorem toInt_toInt64 (result : UInt64) : result.toInt64.toInt =
    if result.toNat < 2 ^ 63 then (result.toNat : ℤ) else result.toNat - 2 ^ 64 := by
  rw [← Int64.toInt_toBitVec, UInt64.toBitVec_toInt64, BitVec.toInt_eq_toNat_cond,
    UInt64.toNat_toBitVec]
  split <;> split <;> omega

/-- A signed type takes the numbers in its range: the change of the sign finds the rest. -/
theorem finish_signed {isNeg : Bool} {min max : Int64} {result : UInt64} (hmax : 0 < max.toInt)
    (hresult : result.toNat ≤ 9223372036854775809) :
    (finish isNeg true min max result).map Int64.toInt =
      let v : ℤ := if isNeg then -(result.toNat : ℤ) else result.toNat
      if min.toInt ≤ v ∧ v ≤ max.toInt then some v else none := by
  have hmin := Int64.le_toInt min
  have hmax' := Int64.toInt_lt max
  have hne : max ≠ 0 := fun h => by
    rw [h] at hmax
    exact absurd hmax (by decide)
  have hnum := toInt_toInt64 result
  rw [finish, if_neg (by simp)]
  cases isNeg with
  | true =>
      have hneg : (-result.toInt64).toInt = if result.toNat ≤ 2 ^ 63 then -(result.toNat : ℤ)
          else 2 ^ 64 - result.toNat := by
        rw [Int64.toInt_neg, hnum, Int.bmod_def]
        split <;> split <;> omega
      simp only [if_true, hne, ne_eq, not_false_eq_true, true_and, Int64.lt_iff_toInt_lt, hneg,
        Int64.toInt_zero]
      by_cases hle : result.toNat ≤ 2 ^ 63
      · rw [if_pos hle, if_neg (by omega), Option.bind_some, hneg, if_pos hle]
        split
        · rw [Option.map_none, if_neg (by omega)]
        · rw [Option.map_some, hneg, if_pos hle, if_pos (by omega)]
      · rw [if_neg hle, if_pos (by omega), Option.bind_none, Option.map_none, if_neg (by omega)]
  | false =>
      simp only [Bool.false_eq_true, if_false, hne, ne_eq, not_false_eq_true, true_and,
        Int64.lt_iff_toInt_lt, hnum, Int64.toInt_zero]
      by_cases hlt : result.toNat < 2 ^ 63
      · rw [if_pos hlt, if_neg (by omega), Option.bind_some, hnum, if_pos hlt]
        split
        · rw [Option.map_none, if_neg (by omega)]
        · rw [Option.map_some, hnum, if_pos hlt, if_pos (by omega)]
      · rw [if_neg hlt, if_pos (by omega), Option.bind_none, Option.map_none, if_neg (by omega)]

/-- A smaller unsigned type takes what is left of the number modulo `2 ^ 64`. -/
theorem finish_unsigned {isNeg : Bool} {max : Int64} {result : UInt64} (hmax : 0 < max.toInt) :
    (finish isNeg false 0 max result).map Int64.toInt =
      if isNeg then if result.toNat = 0 then some 0 else none
      else if (result.toNat : ℤ) ≤ max.toInt then some (result.toNat : ℤ) else none := by
  have hmax' := Int64.toInt_lt max
  have hne : max ≠ 0 := fun h => by
    rw [h] at hmax
    exact absurd hmax (by decide)
  have hnum := toInt_toInt64 result
  have hlt := result.toNat_lt
  rw [finish]
  cases isNeg with
  | true =>
      by_cases hzero : result = 0
      · subst hzero
        rw [if_neg (by simp), if_pos rfl, if_pos rfl, if_pos (show (0 : UInt64).toNat = 0 from rfl)]
        simp only [hne, ne_eq, not_false_eq_true, true_and]
        rw [if_neg (by decide), Option.bind_some, if_neg, Option.map_some]
        · rfl
        · rw [Int64.lt_iff_toInt_lt, Int64.lt_iff_toInt_lt]
          intro h
          cases h with
          | inl h => exact absurd h (by decide)
          | inr h =>
              have hz : (-UInt64.toInt64 0).toInt = 0 := by decide
              omega
      · rw [if_pos ⟨rfl, rfl, hzero⟩, Option.map_none, if_pos rfl, if_neg]
        intro h
        exact hzero (UInt64.toNat_inj.mp h)
  | false =>
      rw [if_neg (by simp)]
      simp only [Bool.false_eq_true, if_false, hne, ne_eq, not_false_eq_true, true_and,
        Int64.lt_iff_toInt_lt, hnum, Int64.toInt_zero]
      by_cases hlt : result.toNat < 2 ^ 63
      · rw [if_pos hlt, if_neg (by omega), Option.bind_some, hnum, if_pos hlt]
        split
        · rw [Option.map_none, if_neg (by omega)]
        · rw [Option.map_some, hnum, if_pos hlt, if_pos (by omega)]
      · rw [if_neg hlt, if_pos (by omega), Option.bind_none, Option.map_none, if_neg (by omega)]

/-- The unsigned type of 64 bits has no checks but that of the sign. -/
theorem finish_uint64 {isNeg : Bool} {result : UInt64} :
    (finish isNeg false 0 0 result).map Int64.toUInt64 =
      if isNeg then if result.toNat = 0 then some 0 else none else some result := by
  rw [finish]
  cases isNeg with
  | true =>
      by_cases hzero : result = 0
      · subst hzero
        rfl
      · rw [if_pos ⟨rfl, rfl, hzero⟩, Option.map_none, if_pos rfl, if_neg]
        intro h
        exact hzero (UInt64.toNat_inj.mp h)
  | false =>
      rw [if_neg (by simp)]
      simp

end Checks

section Types

/-- The bounds that the method of a type passes on. -/
def IntegerType.bounds : IntegerType → Int64 × Int64
  | .sbyte => (-0x80, 0x7F)
  | .byte => (0, 0xFF)
  | .int16 => (-0x8000, 0x7FFF)
  | .uint16 => (0, 0xFFFF)
  | .int32 => (-0x80000000, 0x7FFFFFFF)
  | .uint32 => (0, 0xFFFFFFFF)
  | .int64 => (Int64.minValue, Int64.maxValue)
  | .uint64 => (0, 0)

/-- The cast of the method of a type, as a number. -/
def IntegerType.cast (t : IntegerType) (res : Int64) : ℤ :=
  if t.signed then res.toInt.bmod (2 ^ t.bits) else res.toInt % 2 ^ t.bits

theorem toNat_toUInt64 (res : Int64) : (res.toUInt64.toNat : ℤ) = res.toInt % 2 ^ 64 := by
  have hcond := BitVec.toInt_eq_toNat_cond res.toBitVec
  have hlt := res.toBitVec.isLt
  rw [Int64.toInt_toBitVec] at hcond
  change (res.toBitVec.toNat : ℤ) = _
  rw [hcond]
  split <;> omega

theorem convert_eq_within (t : IntegerType) (value : List Char) :
    convert t value =
      (toInt64Within value t.signed t.bounds.1 t.bounds.2).map t.cast := by
  have hself : ∀ r : Int64, r.toInt.bmod (2 ^ 64) = r.toInt := fun r =>
    Int.bmod_eq_of_le (Int64.le_toInt r) (Int64.toInt_lt r)
  cases t with
  | sbyte =>
      rw [convert, toSByte, Option.map_map]
      exact congrArg (Option.map · _) (funext Int64.toInt_toInt8)
  | int16 =>
      rw [convert, toInt16, Option.map_map]
      exact congrArg (Option.map · _) (funext Int64.toInt_toInt16)
  | int32 =>
      rw [convert, toInt32, Option.map_map]
      exact congrArg (Option.map · _) (funext Int64.toInt_toInt32)
  | int64 =>
      rw [convert, toInt64]
      exact congrArg (Option.map · _) (funext fun r => (hself r).symm)
  | byte =>
      rw [convert, toByte, Option.map_map]
      refine congrArg (Option.map · _) (funext fun r => ?_)
      show (r.toUInt64.toUInt8.toNat : ℤ) = r.toInt % 2 ^ 8
      rw [UInt64.toNat_toUInt8, Int.natCast_mod, toNat_toUInt64]
      omega
  | uint16 =>
      rw [convert, toUInt16, Option.map_map]
      refine congrArg (Option.map · _) (funext fun r => ?_)
      show (r.toUInt64.toUInt16.toNat : ℤ) = r.toInt % 2 ^ 16
      rw [UInt64.toNat_toUInt16, Int.natCast_mod, toNat_toUInt64]
      omega
  | uint32 =>
      rw [convert, toUInt32, Option.map_map]
      refine congrArg (Option.map · _) (funext fun r => ?_)
      show (r.toUInt64.toUInt32.toNat : ℤ) = r.toInt % 2 ^ 32
      rw [UInt64.toNat_toUInt32, Int.natCast_mod, toNat_toUInt64]
      omega
  | uint64 =>
      rw [convert, toUInt64, Option.map_map]
      exact congrArg (Option.map · _) (funext toNat_toUInt64)

/-- What a type makes of a sign and a number. -/
def accepted (t : IntegerType) (isNeg : Bool) (n : ℕ) : Option ℤ :=
  if t.signed then
    let v : ℤ := if isNeg then -(n : ℤ) else n
    if t.minimum ≤ v ∧ v ≤ t.maximum then some v else none
  else if isNeg then if n % 2 ^ 64 = 0 then some 0 else none
  else if ((n % 2 ^ 64 : ℕ) : ℤ) ≤ t.maximum then some ((n % 2 ^ 64 : ℕ) : ℤ) else none

theorem map_cast {o : Option Int64} {p : Option ℤ} {t : IntegerType} (h : o.map Int64.toInt = p)
    (hp : ∀ v ∈ p, (if t.signed then v.bmod (2 ^ t.bits) else v % 2 ^ t.bits) = v) :
    o.map t.cast = p := by
  subst h
  cases o with
  | none => rfl
  | some res => exact congrArg some (hp res.toInt rfl)

theorem mem_ite {α : Type} {p : Prop} [Decidable p] {a v : α}
    (h : v ∈ if p then some a else none) : p ∧ a = v := by
  split at h
  · rename_i hp
    exact ⟨hp, Option.mem_some_iff.mp h⟩
  · cases h

theorem bmod_of_range {t : IntegerType} (hsigned : t.signed = true) {v : ℤ}
    (h : t.minimum ≤ v ∧ v ≤ t.maximum) : v.bmod (2 ^ t.bits) = v := by
  rw [IntegerType.minimum, IntegerType.maximum, if_pos hsigned, if_pos hsigned] at h
  have hbits : t.bits = t.bits - 1 + 1 := by cases t <;> rfl
  have hcast : ((2 ^ (t.bits - 1) : ℕ) : ℤ) = 2 ^ (t.bits - 1) := Nat.cast_pow 2 _
  rw [hbits, pow_succ]
  apply Int.bmod_eq_of_le <;> omega

theorem bounds_signed : ∀ t : IntegerType, t.signed = true → 0 < t.bounds.2.toInt ∧
    t.bounds.1.toInt = t.minimum ∧ t.bounds.2.toInt = t.maximum := by
  intro t
  cases t <;> decide

theorem bounds_unsigned : ∀ t : IntegerType, t.signed = false → t ≠ .uint64 →
    0 < t.bounds.2.toInt ∧ t.bounds.1 = 0 ∧ t.bounds.2.toInt = t.maximum := by
  intro t
  cases t <;> decide

theorem emod_of_range {t : IntegerType} (hunsigned : t.signed = false) {v : ℤ}
    (h : 0 ≤ v ∧ v ≤ t.maximum) : v % 2 ^ t.bits = v := by
  rw [IntegerType.maximum, if_neg (by simp [hunsigned])] at h
  apply Int.emod_eq_of_lt h.1
  omega

theorem cast_finish (t : IntegerType) (isNeg : Bool) {n : ℕ}
    (hn : t.signed = true → n ≤ 9223372036854775809) :
    (finish isNeg t.signed t.bounds.1 t.bounds.2 (UInt64.ofNat n)).map t.cast =
      accepted t isNeg n := by
  rw [accepted]
  cases hsigned : t.signed with
  | true =>
      have hnat : (UInt64.ofNat n).toNat = n := UInt64.toNat_ofNat_of_lt' (by
        have := hn hsigned
        show n < 2 ^ 64
        omega)
      have hbounds := bounds_signed t hsigned
      rw [if_pos rfl]
      apply map_cast
      · rw [finish_signed hbounds.1 (hnat.le.trans (hn hsigned)), hnat, hbounds.2.1, hbounds.2.2]
      · intro v hv
        obtain ⟨hrange, rfl⟩ := mem_ite hv
        rw [if_pos hsigned]
        exact bmod_of_range hsigned hrange
  | false =>
      rw [if_neg (by decide)]
      have hnat : (UInt64.ofNat n).toNat = n % 2 ^ 64 := UInt64.toNat_ofNat'
      have hfinish : (finish isNeg false t.bounds.1 t.bounds.2 (UInt64.ofNat n)).map t.cast =
          if isNeg then if n % 2 ^ 64 = 0 then some 0 else none
          else if ((n % 2 ^ 64 : ℕ) : ℤ) ≤ t.maximum then some ((n % 2 ^ 64 : ℕ) : ℤ)
          else none := by
        by_cases h64 : t = .uint64
        · subst h64
          have hcast : IntegerType.uint64.cast =
              (fun r : UInt64 => (r.toNat : ℤ)) ∘ Int64.toUInt64 :=
            funext fun r => (toNat_toUInt64 r).symm
          have hlt : ((n % 2 ^ 64 : ℕ) : ℤ) ≤ IntegerType.uint64.maximum := by
            show ((n % 2 ^ 64 : ℕ) : ℤ) ≤ 2 ^ 64 - 1
            omega
          rw [hcast, ← Option.map_map]
          change ((finish isNeg false 0 0 (UInt64.ofNat n)).map Int64.toUInt64).map _ = _
          rw [finish_uint64, hnat]
          cases isNeg with
          | true =>
              rw [if_pos rfl, if_pos rfl]
              split <;> rfl
          | false =>
              rw [if_neg (by decide), if_neg (by decide), if_pos hlt, Option.map_some, hnat]
        · have hbounds := bounds_unsigned t hsigned h64
          rw [hbounds.2.1]
          apply map_cast
          · rw [finish_unsigned hbounds.1, hnat, hbounds.2.2]
          · intro v hv
            rw [if_neg (by simp [hsigned])]
            apply emod_of_range hsigned
            cases isNeg with
            | true =>
                obtain ⟨-, rfl⟩ := mem_ite hv
                exact ⟨le_rfl, hbounds.2.2 ▸ hbounds.1.le⟩
            | false =>
                obtain ⟨hle, rfl⟩ := mem_ite hv
                exact ⟨Int.natCast_nonneg _, hle⟩
      exact hfinish

end Types

section Claims

variable {t : IntegerType} {value : List Char} {ds : List ℕ}

/-- A sign without a digit. -/
def LoneSign (value : List Char) : Prop := trim value = ['-'] ∨ trim value = ['+']

/-- A number of `2 ^ 64` or more for an unsigned type, none of whose proper prefixes is above the
threshold modulo `2 ^ 64`, and which modulo `2 ^ 64` is in range. -/
def Wraps (t : IntegerType) (value : List Char) : Prop :=
  t.signed = false ∧ ∃ ds, numerals (unsignedPart (trim value)) = some ds ∧
    2 ^ 64 ≤ number 0 ds ∧
    (∀ k < ds.length, number 0 (ds.take k) % 2 ^ 64 ≤ 1844674407370955161) ∧
    if isNegative (trim value) then number 0 ds % 2 ^ 64 = 0
    else ((number 0 ds % 2 ^ 64 : ℕ) : ℤ) ≤ t.maximum

theorem numerals_lt {num : List Char} (h : numerals num = some ds) : ∀ d ∈ ds, d < 10 := by
  induction num generalizing ds with
  | nil =>
      cases h
      exact fun d hd => absurd hd List.not_mem_nil
  | cons c num ih =>
      rw [numerals_cons, Option.bind_eq_some_iff] at h
      obtain ⟨d, hd, hrest⟩ := h
      obtain ⟨es, hes, rfl⟩ := Option.map_eq_some_iff.mp hrest
      rw [List.forall_mem_cons]
      exact ⟨numeral_lt hd, ih hes⟩

theorem numerals_nil_iff {num : List Char} (h : numerals num = some ds) : ds = [] ↔ num = [] := by
  cases num with
  | nil =>
      cases h
      exact iff_of_true rfl rfl
  | cons c num =>
      rw [numerals_cons, Option.bind_eq_some_iff] at h
      obtain ⟨d, -, hrest⟩ := h
      obtain ⟨es, -, rfl⟩ := Option.map_eq_some_iff.mp hrest
      exact iff_of_false (List.cons_ne_nil d es) (List.cons_ne_nil c num)

/-- The method of a type in terms of the value of the digits. -/
theorem convert_eq (t : IntegerType) (h : trim value ≠ [])
    (hds : numerals (unsignedPart (trim value)) = some ds) :
    convert t value = if PassesTest (threshold t.signed).toNat 0 ds then
      accepted t (isNegative (trim value)) (number 0 ds) else none := by
  rw [convert_eq_within, toInt64Within]
  cases htrim : trim value with
  | nil => exact absurd htrim h
  | cons c num =>
      rw [htrim] at hds
      have hpart : (if c = '-' ∨ c = '+' then num else c :: num) = unsignedPart (c :: num) := by
        simp [unsignedPart]
      have hneg : (decide (c = '-') : Bool) = isNegative (c :: num) := by
        simp [isNegative]
      dsimp only
      rw [hpart, hneg, show (0 : UInt64) = UInt64.ofNat 0 from rfl, parseDigits_eq, hds,
        Option.bind_some]
      by_cases hpass : PassesTest (threshold t.signed).toNat 0 ds
      · rw [if_pos hpass, if_pos hpass, Option.bind_some]
        apply cast_finish
        intro hsigned
        rw [hsigned] at hpass
        exact (passesTest_signed (numerals_lt hds)).mp hpass
      · rw [if_neg hpass, if_neg hpass]
        rfl

theorem convert_none (t : IntegerType)
    (h : trim value = [] ∨ numerals (unsignedPart (trim value)) = none) :
    convert t value = none := by
  rw [convert_eq_within, toInt64Within]
  cases htrim : trim value with
  | nil => rfl
  | cons c num =>
      have hds : numerals (unsignedPart (c :: num)) = none :=
        htrim ▸ h.resolve_left (htrim ▸ List.cons_ne_nil c num)
      have hpart : (if c = '-' ∨ c = '+' then num else c :: num) = unsignedPart (c :: num) := by
        simp [unsignedPart]
      dsimp only
      rw [hpart, show (0 : UInt64) = UInt64.ofNat 0 from rfl, parseDigits_eq, hds]
      rfl

theorem unsignedPart_nil_iff (text : List Char) :
    unsignedPart text = [] ↔ text = [] ∨ text = ['-'] ∨ text = ['+'] := by
  cases text with
  | nil => simp [unsignedPart]
  | cons c num =>
      by_cases hsign : c = '-' ∨ c = '+'
      · simp only [unsignedPart, List.head?_cons, Option.some.injEq, hsign, if_true,
          List.tail_cons]
        cases hsign with
        | inl h => simp [h]
        | inr h => simp [h]
      · simp only [unsignedPart, List.head?_cons, Option.some.injEq, hsign, if_false]
        rw [not_or] at hsign
        simp [hsign.1, hsign.2]

/-- What is accepted of a number of 64 bits is what is in range. -/
theorem accepted_eq (isNeg : Bool) {n : ℕ} (hn : t.signed = false → n < 2 ^ 64) :
    accepted t isNeg n =
      let v : ℤ := if isNeg then -(n : ℤ) else n
      if t.minimum ≤ v ∧ v ≤ t.maximum then some v else none := by
  rw [accepted]
  cases hsigned : t.signed with
  | true => rfl
  | false =>
      have hmin : t.minimum = 0 := by rw [IntegerType.minimum, if_neg (by simp [hsigned])]
      have hmax : 0 ≤ t.maximum := by
        rw [IntegerType.maximum, if_neg (by simp [hsigned])]
        have : (0 : ℤ) < 2 ^ t.bits := by positivity
        omega
      rw [if_neg (by decide), Nat.mod_eq_of_lt (hn hsigned), hmin]
      cases isNeg with
      | true =>
          rw [if_pos rfl]
          dsimp only
          rw [if_pos rfl]
          by_cases hzero : n = 0
          · rw [if_pos hzero, if_pos (by omega), hzero]
            rfl
          · rw [if_neg hzero, if_neg (by omega)]
      | false =>
          simp only [Bool.false_eq_true, if_false]
          by_cases hle : (n : ℤ) ≤ t.maximum
          · rw [if_pos hle, if_pos ⟨Int.natCast_nonneg n, hle⟩]
          · rw [if_neg hle, if_neg (fun h => hle h.2)]

theorem zero_in_range (t : IntegerType) : t.minimum ≤ 0 ∧ 0 ≤ t.maximum := by
  cases t <;> decide

theorem maximum_lt (t : IntegerType) :
    -2 ^ 63 ≤ t.minimum ∧ t.maximum < if t.signed then 2 ^ 63 else 2 ^ 64 := by
  cases t <;> decide

/-- A number too large for the type is refused unless it wraps. -/
theorem wraps_iff (hds : numerals (unsignedPart (trim value)) = some ds)
    (hlarge : ¬number 0 ds < if t.signed then 9223372036854775810 else 2 ^ 64) :
    (if PassesTest (threshold t.signed).toNat 0 ds then
      accepted t (isNegative (trim value)) (number 0 ds) else none) = none ↔ ¬Wraps t value := by
  cases hsigned : t.signed with
  | true =>
      rw [hsigned, if_pos rfl] at hlarge
      have hpass : ¬PassesTest (threshold true).toNat 0 ds := by
        rw [passesTest_signed (numerals_lt hds)]
        omega
      rw [if_neg hpass]
      refine iff_of_true rfl fun h => ?_
      rw [h.1] at hsigned
      cases hsigned
  | false =>
      rw [hsigned, if_neg (by decide)] at hlarge
      have hwraps : Wraps t value ↔ PassesTest (threshold false).toNat 0 ds ∧
          if isNegative (trim value) then number 0 ds % 2 ^ 64 = 0
          else ((number 0 ds % 2 ^ 64 : ℕ) : ℤ) ≤ t.maximum := by
        constructor
        · intro h
          obtain ⟨-, es, hes, -, hpass, hrange⟩ := h
          rw [hds, Option.some.injEq] at hes
          rw [hes]
          exact ⟨hpass, hrange⟩
        · exact fun h => ⟨hsigned, ds, hds, not_lt.mp hlarge, h.1, h.2⟩
      rw [hwraps]
      by_cases hpass : PassesTest (threshold false).toNat 0 ds
      · rw [if_pos hpass, accepted, if_neg (by simp [hsigned]), and_iff_right hpass]
        cases isNegative (trim value) with
        | true =>
            simp only [if_true]
            by_cases hzero : number 0 ds % 2 ^ 64 = 0
            · rw [if_pos hzero]
              exact iff_of_false (Option.some_ne_none _) fun h => h hzero
            · rw [if_neg hzero]
              exact iff_of_true rfl hzero
        | false =>
            simp only [Bool.false_eq_true, if_false]
            by_cases hle : ((number 0 ds % 2 ^ 64 : ℕ) : ℤ) ≤ t.maximum
            · rw [if_pos hle]
              exact iff_of_false (Option.some_ne_none _) fun h => h hle
            · rw [if_neg hle]
              exact iff_of_true rfl hle
      · rw [if_neg hpass]
        exact iff_of_true rfl fun h => hpass h.1

/-- The value is exact, and nothing else is accepted, unless the text is a lone sign or a number
that the threshold test of the unsigned types lets wrap. -/
theorem convert_exact_iff (t : IntegerType) (value : List Char) :
    convert t value = exact t value ↔ ¬LoneSign value ∧ ¬Wraps t value := by
  rw [exact, LoneSign]
  cases hds : numerals (unsignedPart (trim value)) with
  | none =>
      rw [convert_none t (Or.inr hds), Option.bind_none]
      refine iff_of_true rfl ⟨fun h => ?_, fun h => ?_⟩
      · rw [(unsignedPart_nil_iff _).mpr (Or.inr h)] at hds
        cases hds
      · obtain ⟨-, ds, hsome, -⟩ := h
        rw [hds] at hsome
        cases hsome
  | some ds =>
      rw [Option.bind_some]
      dsimp only
      by_cases hnil : ds = []
      · have hpart := (numerals_nil_iff hds).mp hnil
        rw [if_neg (fun h => h.1 hnil)]
        have hwraps : ¬Wraps t value := by
          intro h
          obtain ⟨-, es, hes, hlarge, -⟩ := h
          rw [hds, Option.some.injEq] at hes
          rw [← hes, hnil] at hlarge
          exact absurd hlarge (by decide)
        cases (unsignedPart_nil_iff _).mp hpart with
        | inl hempty =>
            rw [convert_none t (Or.inl hempty)]
            exact iff_of_true rfl ⟨by rw [hempty]; simp, hwraps⟩
        | inr hsign =>
            have hne : trim value ≠ [] := by
              intro hempty
              rw [hempty] at hsign
              simp at hsign
            have hpass : PassesTest (threshold t.signed).toNat 0 [] :=
              fun k hk => absurd hk (Nat.not_lt_zero k)
            rw [convert_eq t hne hds, hnil, if_pos hpass, number, List.foldl_nil]
            refine iff_of_false (fun h => ?_) fun h => h.1 hsign
            have hzero : (if isNegative (trim value) then -((0 : ℕ) : ℤ)
                else ((0 : ℕ) : ℤ)) = 0 := by
              split <;> rfl
            rw [accepted_eq _ fun _ => by decide] at h
            dsimp only at h
            rw [hzero, if_pos (zero_in_range t)] at h
            cases h
      · have hpart : unsignedPart (trim value) ≠ [] := fun h => hnil ((numerals_nil_iff hds).mpr h)
        rw [Ne, unsignedPart_nil_iff, not_or] at hpart
        rw [convert_eq t hpart.1 hds, and_iff_right hpart.2]
        simp only [ne_eq, hnil, not_false_eq_true, true_and]
        have hmax := maximum_lt t
        have hmin := zero_in_range t
        by_cases hsmall : number 0 ds < if t.signed then 9223372036854775810 else 2 ^ 64
        · have hpass : PassesTest (threshold t.signed).toNat 0 ds := by
            cases hsigned : t.signed with
            | true =>
                rw [hsigned, if_pos rfl] at hsmall
                exact (passesTest_signed (numerals_lt hds)).mpr (by omega)
            | false =>
                rw [hsigned, if_neg (by decide)] at hsmall
                exact passesTest_of_lt hsmall
          rw [if_pos hpass, accepted_eq _ fun hsigned => by simpa [hsigned] using hsmall]
          refine iff_of_true rfl fun h => ?_
          obtain ⟨hsigned, es, hes, hlarge, -⟩ := h
          rw [hds, Option.some.injEq] at hes
          rw [hsigned, if_neg (by decide), hes] at hsmall
          omega
        · have hout : ¬(t.minimum ≤ (if isNegative (trim value) then -(number 0 ds : ℤ)
              else number 0 ds) ∧ (if isNegative (trim value) then -(number 0 ds : ℤ)
              else number 0 ds) ≤ t.maximum) := by
            cases hsigned : t.signed with
            | true =>
                rw [hsigned, if_pos rfl] at hsmall hmax
                split <;> omega
            | false =>
                rw [hsigned, if_neg (by decide)] at hsmall hmax
                have hzero : t.minimum = 0 := by
                  rw [IntegerType.minimum, if_neg (by simp [hsigned])]
                split <;> omega
          rw [if_neg hout]
          exact wraps_iff hds hsmall

/-- A lone sign is taken for zero, and `2 ^ 64` wraps to it. -/
theorem not_exact_sample :
    convert .int32 ['-'] ≠ exact .int32 ['-'] ∧
      convert .uint64 "18446744073709551616".toList ≠
        exact .uint64 "18446744073709551616".toList := by
  decide +kernel

end Claims

end TinyCLR.Framework.Convert
