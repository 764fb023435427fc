import Mathlib

/-!
# Numbers with a fixed point

The emulated floating-point numbers: an `R4` is a signed number of 32 bits that counts units of
`2^-10`, an `R8` one of 64 bits that counts units of `2^-16`. Overflow is told from the result and
the operands after the operation.
-/

namespace TinyCLR.HeapBlock

inductive FixedPoint where
  | r4
  | r8
  deriving DecidableEq

namespace FixedPoint

variable (f : FixedPoint)

def bits : Nat :=
  match f with
  | r4 => 32
  | r8 => 64

/-- `HB_FloatShift` and `HB_DoubleShift` -/
def shift : Nat :=
  match f with
  | r4 => 10
  | r8 => 16

def largest : Int := 2 ^ (f.bits - 1) - 1

def smallest : Int := -2 ^ (f.bits - 1)

/-- The signed number that is left of a result. -/
def wrap (x : Int) : Int := x.bmod (2 ^ f.bits)

/-! ## The operators of `R4` and `R8` -/

/-- `R4::operator*` -/
def mulR4 (x y : Int) : Int := r4.wrap (x * y / 2 ^ 10)

/-- `R4::operator/` -/
def divR4 (x y : Int) : Int := r4.wrap ((x * 2 ^ 10).tdiv y)

/-- `ACCUMULATE`: a product with 16 bits of the second operand, in 64 bits. -/
def part (op₁ op₂ k : Nat) : Nat := op₁ * (op₂ / 2 ^ (16 * k) % 2 ^ 16) % 2 ^ 64

/-- The sum of the four parts in 64 bits; the first one loses what is below the resolution. -/
def accumulate (op₁ op₂ : Nat) : Nat :=
  (part op₁ op₂ 0 / 2 ^ 16 + part op₁ op₂ 1 + part op₁ op₂ 2 * 2 ^ 16 +
    part op₁ op₂ 3 * 2 ^ 32) % 2 ^ 64

/-- `R8::operator*`, on the magnitudes of the operands. -/
def mulR8 (x y : Int) : Int :=
  let value := r8.wrap (accumulate x.natAbs y.natAbs)
  if decide (x < 0) != decide (y < 0) ∧ value ≠ 0 then r8.wrap (-value) else value

/-- `R8::operator/`: the quotient is shifted after the division. -/
def divR8 (x y : Int) : Int := r8.wrap (r8.wrap (x.tdiv y) * 2 ^ 16)

def mul (x y : Int) : Int :=
  match f with
  | r4 => mulR4 x y
  | r8 => mulR8 x y

def div (x y : Int) : Int :=
  match f with
  | r4 => divR4 x y
  | r8 => divR8 x y

/-! ## The operations of heap blocks -/

/-- What an overflow test puts in place of a result, when it finds an overflow. -/
abbrev Clamp := Option Int

/-- The test of `NumericAdd`. -/
def clampAdd (orig rhs value : Int) : Clamp :=
  if 0 < rhs ∧ 0 < orig ∧ value < orig then some f.largest
  else if rhs < 0 ∧ orig < 0 ∧ orig < value then some f.smallest
  else none

/-- The test of `NumericSub`. For an `R4` the source reads `orig` as an `R8`, whose lower half is
the same 32 bits. -/
def clampSub (orig rhs value : Int) : Clamp :=
  if rhs < 0 ∧ 0 < orig ∧ value < orig then some f.largest
  else if 0 < rhs ∧ orig < 0 ∧ orig < value then some f.smallest
  else none

/-- The test of `NumericMul`. -/
def clampMul (orig rhs value : Int) : Clamp :=
  if orig ≠ 0 ∧ rhs ≠ 0 then
    let isNeg := decide (orig < 0) != decide (rhs < 0)
    if isNeg = false ∧ (value < 0 ∨ value < orig ∨ value < rhs) then some f.largest
    else if isNeg = true ∧ (0 < value ∨ orig < value ∨ rhs < value) then some f.smallest
    else none
  else none

inductive Operation where
  | add
  | sub
  | mul
  | div
  deriving DecidableEq

/-- The result of an operation before its test. -/
def operate (op : Operation) (x y : Int) : Int :=
  match op with
  | .add => f.wrap (x + y)
  | .sub => f.wrap (x - y)
  | .mul => f.mul x y
  | .div => f.div x y

/-- The test behind an operation; `NumericDiv` has none. -/
def clamp (op : Operation) (x y : Int) : Clamp :=
  match op with
  | .add => f.clampAdd x y (f.operate .add x y)
  | .sub => f.clampSub x y (f.operate .sub x y)
  | .mul => f.clampMul x y (f.operate .mul x y)
  | .div => none

/-- `NumericAdd`, `NumericSub`, `NumericMul` and `NumericDiv` on the raw numbers of two blocks.
`none` is `CLR_E_DIVIDE_BY_ZERO`. -/
def numeric (op : Operation) (x y : BitVec f.bits) : Option Int :=
  if op = .div ∧ y = 0 then none
  else some ((f.clamp op x.toInt y.toInt).getD (f.operate op x.toInt y.toInt))

/-! ## What the numbers stand for -/

/-- The result of an operation as a number of units. -/
def exact (op : Operation) (x y : Int) : ℚ :=
  match op with
  | .add => x + y
  | .sub => x - y
  | .mul => x * y / 2 ^ f.shift
  | .div => x * 2 ^ f.shift / y

def Representable (x : ℚ) : Prop := f.smallest ≤ x ∧ x ≤ f.largest

/-- A result that can be represented is met but for less than one unit, and is not clamped. -/
def Sound (op : Operation) (x y : BitVec f.bits) : Prop :=
  ∀ value, f.numeric op x y = some value → f.Representable (f.exact op x.toInt y.toInt) →
    |(value : ℚ) - f.exact op x.toInt y.toInt| < 1 ∧ f.clamp op x.toInt y.toInt = none

/-- When the test of `NumericMul` takes no result for an overflow that is none, and no part of the
product is lost: of two operands with different signs the positive one has to be at least 1, of two
positive operands both. -/
def MulExact (x y : Int) : Prop :=
  x = 0 ∨ y = 0 ∨
    match f with
    | r4 => (x < 0 ∧ y < 0) ∨ (2 ^ 10 ≤ x ∧ 2 ^ 10 ≤ y) ∨
        (x < 0 ∧ 0 < y ∧ -x * (2 ^ 10 - y) < 2 ^ 10) ∨ (y < 0 ∧ 0 < x ∧ -y * (2 ^ 10 - x) < 2 ^ 10)
    | r8 => x.natAbs * (y.natAbs % 2 ^ 16) < 2 ^ 64 ∧
        ((x < 0 ∧ y < 0) ∨ (2 ^ 16 ≤ x ∧ 2 ^ 16 ≤ y) ∨ (x < 0 ∧ 2 ^ 16 ≤ y) ∨ (y < 0 ∧ 2 ^ 16 ≤ x))

/-- The operations and operands for which the result is right. -/
def Exact (op : Operation) (x y : Int) : Prop :=
  match op, f with
  | .add, _ => True
  | .sub, _ => True
  | .mul, _ => f.MulExact x y
  | .div, r4 => True
  | .div, r8 => 2 ^ 16 * (x.tmod y).natAbs < y.natAbs

variable {f} {x y : Int}

/-! ## Results that fit -/

theorem wrap_of_le (hsmallest : f.smallest ≤ x) (hlargest : x ≤ f.largest) : f.wrap x = x := by
  cases f with
  | r4 =>
      change -2 ^ 31 ≤ x at hsmallest
      change x ≤ 2 ^ 31 - 1 at hlargest
      change x.bmod (2 ^ 32) = x
      exact Int.bmod_eq_of_le (by omega) (by omega)
  | r8 =>
      change -2 ^ 63 ≤ x at hsmallest
      change x ≤ 2 ^ 63 - 1 at hlargest
      change x.bmod (2 ^ 64) = x
      exact Int.bmod_eq_of_le (by omega) (by omega)

theorem toInt_bounds (x : BitVec f.bits) : f.smallest ≤ x.toInt ∧ x.toInt ≤ f.largest := by
  have hle := BitVec.le_toInt x
  have hlt := BitVec.toInt_lt (x := x)
  exact ⟨hle, Int.le_sub_one_of_lt hlt⟩

theorem natAbs_toInt_lt (x : BitVec f.bits) : x.toInt.natAbs < 2 ^ 64 := by
  obtain ⟨hle, hge⟩ := toInt_bounds x
  cases f with
  | r4 =>
      change -2 ^ 31 ≤ _ at hle
      change _ ≤ 2 ^ 31 - 1 at hge
      omega
  | r8 =>
      change -2 ^ 63 ≤ _ at hle
      change _ ≤ 2 ^ 63 - 1 at hge
      omega

/-- A whole number of units. -/
theorem representable_intCast (n : Int) :
    f.Representable n ↔ f.smallest ≤ n ∧ n ≤ f.largest := by
  rw [Representable, Int.cast_le, Int.cast_le]

/-- A quotient of whole numbers. -/
theorem representable_div {n d : Int} (hd : 0 < d) :
    f.Representable ((n : ℚ) / d) ↔ f.smallest * d ≤ n ∧ n ≤ f.largest * d := by
  have hd' : (0 : ℚ) < d := Int.cast_pos.mpr hd
  rw [Representable, le_div_iff₀ hd', div_le_iff₀ hd']
  exact_mod_cast Iff.rfl

theorem abs_sub_div_lt_one {value n d : Int} (hd : 0 < d) :
    |(value : ℚ) - (n : ℚ) / d| < 1 ↔ |value * d - n| < d := by
  have hd' : (0 : ℚ) < d := Int.cast_pos.mpr hd
  have hsub : (value : ℚ) - (n : ℚ) / d = ((value * d - n : Int) : ℚ) / d := by
    push_cast
    field_simp
  rw [hsub, abs_div, abs_of_pos hd', div_lt_one hd']
  exact_mod_cast Iff.rfl

/-! ## Sums and differences -/

theorem clampAdd_eq_none (h : f.smallest ≤ x + y ∧ x + y ≤ f.largest) : f.clamp .add x y = none := by
  rw [clamp, operate, wrap_of_le h.1 h.2, clampAdd, if_neg (by omega), if_neg (by omega)]

theorem clampSub_eq_none (h : f.smallest ≤ x - y ∧ x - y ≤ f.largest) : f.clamp .sub x y = none := by
  rw [clamp, operate, wrap_of_le h.1 h.2, clampSub, if_neg (by omega), if_neg (by omega)]

/-! ## Products -/

/-- What the test of `NumericMul` leaves alone. -/
theorem clampMul_eq_none_iff {orig rhs value : Int} :
    f.clampMul orig rhs value = none ↔ orig = 0 ∨ rhs = 0 ∨
      (0 < orig ∧ 0 < rhs ∧ orig ≤ value ∧ rhs ≤ value) ∨
      (orig < 0 ∧ rhs < 0 ∧ 0 ≤ value) ∨
      (orig < 0 ∧ 0 < rhs ∧ value ≤ orig) ∨ (0 < orig ∧ rhs < 0 ∧ value ≤ rhs) := by
  rw [clampMul]
  rcases lt_trichotomy orig 0 with horig | horig | horig
  · rcases lt_trichotomy rhs 0 with hrhs | hrhs | hrhs
    · have hpos : ¬0 < orig := by omega
      simp [horig, hrhs, horig.ne, hrhs.ne, horig.not_gt, hrhs.not_gt]
      omega
    · simp [hrhs]
    · simp [horig, hrhs, horig.ne, hrhs.ne', horig.not_gt, hrhs.not_gt]
      omega
  · simp [horig]
  · rcases lt_trichotomy rhs 0 with hrhs | hrhs | hrhs
    · simp [horig, hrhs, horig.ne', hrhs.ne, horig.not_gt, hrhs.not_gt]
      omega
    · simp [hrhs]
    · simp [horig, hrhs, horig.ne', hrhs.ne', horig.not_gt, hrhs.not_gt]
      omega

/-- An `R4` product is rounded down. -/
theorem mulR4_of_representable (hle : r4.smallest * 2 ^ 10 ≤ x * y)
    (hlt : x * y ≤ r4.largest * 2 ^ 10) : mulR4 x y = x * y / 2 ^ 10 := by
  change -2 ^ 31 * 2 ^ 10 ≤ x * y at hle
  change x * y ≤ (2 ^ 31 - 1) * 2 ^ 10 at hlt
  apply wrap_of_le
  · change -2 ^ 31 ≤ _
    omega
  · change _ ≤ 2 ^ 31 - 1
    omega

/-- A product of positive numbers is not below its first factor when the other one is a unit. -/
theorem le_mul_div_iff {u : Int} (hu : 0 < u) (hx : 0 < x) : x ≤ x * y / u ↔ u ≤ y := by
  rw [Int.le_ediv_iff_mul_le hu]
  exact Int.mul_le_mul_left hx

theorem mul_div_le_iff {u : Int} (hu : 0 < u) : x * y / u ≤ x ↔ -x * (u - y) < u := by
  rw [← Int.lt_add_one_iff, Int.ediv_lt_iff_lt_mul hu]
  constructor <;> intro h <;> nlinarith

theorem clampMul_r4_eq_none_iff (hle : r4.smallest * 2 ^ 10 ≤ x * y)
    (hlt : x * y ≤ r4.largest * 2 ^ 10) : r4.clamp .mul x y = none ↔ r4.MulExact x y := by
  have hvalue := mulR4_of_representable hle hlt
  rw [clamp, operate, mul, hvalue, clampMul_eq_none_iff, MulExact]
  have hu : (0 : Int) < 2 ^ 10 := by norm_num
  have hswap : x * y / 2 ^ 10 = y * x / 2 ^ 10 := by rw [Int.mul_comm]
  constructor
  · rintro (h | h | ⟨hx, hy, hlex, hley⟩ | ⟨hx, hy, -⟩ | ⟨hx, hy, h⟩ | ⟨hx, hy, h⟩)
    · exact .inl h
    · exact .inr (.inl h)
    · rw [le_mul_div_iff hu hx] at hlex
      rw [hswap, le_mul_div_iff hu hy] at hley
      exact .inr (.inr (.inr (.inl ⟨hley, hlex⟩)))
    · exact .inr (.inr (.inl ⟨hx, hy⟩))
    · rw [mul_div_le_iff hu] at h
      exact .inr (.inr (.inr (.inr (.inl ⟨hx, hy, h⟩))))
    · rw [hswap, mul_div_le_iff hu] at h
      exact .inr (.inr (.inr (.inr (.inr ⟨hy, hx, h⟩))))
  · rintro (h | h | ⟨hx, hy⟩ | ⟨hx, hy⟩ | ⟨hx, hy, h⟩ | ⟨hy, hx, h⟩)
    · exact .inl h
    · exact .inr (.inl h)
    · have hpos : 0 ≤ x * y / 2 ^ 10 := Int.ediv_nonneg (by nlinarith) hu.le
      exact .inr (.inr (.inr (.inl ⟨hx, hy, hpos⟩)))
    · have hx' : 0 < x := by omega
      have hy' : 0 < y := by omega
      refine .inr (.inr (.inl ⟨hx', hy', ?_, ?_⟩))
      · exact (le_mul_div_iff hu hx').mpr hy
      · rw [hswap]
        exact (le_mul_div_iff hu hy').mpr hx
    · exact .inr (.inr (.inr (.inr (.inl ⟨hx, hy, (mul_div_le_iff hu).mpr h⟩))))
    · rw [← mul_div_le_iff hu, ← hswap] at h
      exact .inr (.inr (.inr (.inr (.inr ⟨hx, hy, h⟩))))

/-! ## Products of `R8` -/

theorem part_eq {op₁ op₂ k n : Nat} (hword : op₂ / 2 ^ (16 * k) % 2 ^ 16 = n)
    (hlt : op₁ * n < 2 ^ 64) : part op₁ op₂ k = op₁ * n := by
  rw [part, hword, Nat.mod_eq_of_lt hlt]

/-- The sum of the parts is the product without what the first part loses. -/
theorem accumulate_add_lost {op₁ op₂ : Nat} (hop₂ : op₂ < 2 ^ 64)
    (hproduct : op₁ * op₂ / 2 ^ 16 < 2 ^ 64) :
    accumulate op₁ op₂ + op₁ * (op₂ % 2 ^ 16) / 2 ^ 64 * 2 ^ 48 = op₁ * op₂ / 2 ^ 16 := by
  obtain ⟨w₀, h₀⟩ : ∃ w, op₂ % 2 ^ 16 = w := ⟨_, rfl⟩
  obtain ⟨w₁, h₁⟩ : ∃ w, op₂ / 2 ^ (16 * 1) % 2 ^ 16 = w := ⟨_, rfl⟩
  obtain ⟨w₂, h₂⟩ : ∃ w, op₂ / 2 ^ (16 * 2) % 2 ^ 16 = w := ⟨_, rfl⟩
  obtain ⟨w₃, h₃⟩ : ∃ w, op₂ / 2 ^ (16 * 3) % 2 ^ 16 = w := ⟨_, rfl⟩
  have hwords : op₂ = w₀ + 2 ^ 16 * (w₁ + w₂ * 2 ^ 16 + w₃ * 2 ^ 32) := by
    norm_num at h₁ h₂ h₃
    omega
  have hsplit : op₁ * op₂ / 2 ^ 16 =
      op₁ * w₀ / 2 ^ 16 + (op₁ * w₁ + op₁ * w₂ * 2 ^ 16 + op₁ * w₃ * 2 ^ 32) := by
    rw [hwords, Nat.mul_add, Nat.mul_left_comm, Nat.add_mul_div_left _ _ (by norm_num)]
    ring
  have hfirst : part op₁ op₂ 0 = op₁ * w₀ % 2 ^ 64 := by
    rw [part, Nat.mul_zero, pow_zero, Nat.div_one, h₀]
  rw [hsplit] at hproduct ⊢
  rw [accumulate, hfirst, part_eq h₁ (by omega), part_eq h₂ (by omega), part_eq h₃ (by omega), h₀]
  generalize op₁ * w₀ = first at *
  omega

theorem wrap_neg_wrap {sum : Nat} (hle : sum ≤ 2 ^ 63) :
    r8.wrap (-r8.wrap sum) = -(sum : Int) := by
  rcases hle.lt_or_eq with hlt | heq
  · have hsum : r8.wrap (sum : Int) = sum := by
      apply wrap_of_le
      · change -2 ^ 63 ≤ (sum : Int)
        omega
      · change (sum : Int) ≤ 2 ^ 63 - 1
        omega
    rw [hsum]
    apply wrap_of_le
    · change -2 ^ 63 ≤ -(sum : Int)
      omega
    · change -(sum : Int) ≤ 2 ^ 63 - 1
      omega
  · rw [heq]
    decide

/-- An `R8` product that fits is the sum of the parts, with its sign. -/
theorem mulR8_of_le {sum : Nat} (hsum : accumulate x.natAbs y.natAbs = sum)
    (hle : sum ≤ 2 ^ 63) (hlt : 0 ≤ x * y → sum < 2 ^ 63) (hzero : x * y = 0 → sum = 0) :
    mulR8 x y = if 0 ≤ x * y then (sum : Int) else -sum := by
  have hwrap (h : sum < 2 ^ 63) : r8.wrap (sum : Int) = sum := by
    apply wrap_of_le
    · change -2 ^ 63 ≤ (sum : Int)
      omega
    · change (sum : Int) ≤ 2 ^ 63 - 1
      omega
  rw [mulR8, hsum]
  by_cases hxy : 0 ≤ x * y
  · rw [if_pos hxy, hwrap (hlt hxy), if_neg]
    rintro ⟨hsign, hne⟩
    have hproduct : x * y ≠ 0 := fun h => hne (by rw [hzero h]; rfl)
    have hpos : 0 < x * y := lt_of_le_of_ne hxy hproduct.symm
    rcases Int.mul_pos_iff.mp hpos with ⟨hx, hy⟩ | ⟨hx, hy⟩
    · rw [decide_eq_false hx.not_gt, decide_eq_false hy.not_gt] at hsign
      cases hsign
    · rw [decide_eq_true hx, decide_eq_true hy] at hsign
      cases hsign
  · rw [if_neg hxy]
    have hneg : x * y < 0 := not_le.mp hxy
    have hsign : (decide (x < 0) != decide (y < 0)) = true := by
      rcases mul_neg_iff.mp hneg with ⟨hx, hy⟩ | ⟨hx, hy⟩
      · rw [decide_eq_false hx.not_gt, decide_eq_true hy]
        rfl
      · rw [decide_eq_true hx, decide_eq_false hy.not_gt]
        rfl
    by_cases hvalue : r8.wrap (sum : Int) = 0
    · have hsmall : sum < 2 ^ 63 := by
        apply lt_of_le_of_ne hle
        rintro rfl
        exact absurd hvalue (by decide)
      rw [if_neg fun h => h.2 hvalue, hvalue]
      rw [hwrap hsmall] at hvalue
      omega
    · rw [if_pos ⟨hsign, hvalue⟩]
      exact wrap_neg_wrap hle

/-- An `R8` product that fits is right when nothing of its first part is lost. -/
theorem mulR8_spec (hy : y.natAbs < 2 ^ 64) (hle : r8.smallest * 2 ^ 16 ≤ x * y)
    (hlt : x * y ≤ r8.largest * 2 ^ 16) :
    ∃ sum : Nat, mulR8 x y = (if 0 ≤ x * y then (sum : Int) else -sum) ∧
      sum ≤ x.natAbs * y.natAbs / 2 ^ 16 ∧
      (sum = x.natAbs * y.natAbs / 2 ^ 16 ↔ x.natAbs * (y.natAbs % 2 ^ 16) < 2 ^ 64) := by
  change -2 ^ 63 * 2 ^ 16 ≤ x * y at hle
  change x * y ≤ (2 ^ 63 - 1) * 2 ^ 16 at hlt
  have habs : ((x.natAbs * y.natAbs : Nat) : Int) = |x * y| := by
    rw [← Int.natAbs_mul, Int.natCast_natAbs]
  have hbound : x.natAbs * y.natAbs / 2 ^ 16 ≤ 2 ^ 63 := by
    have := abs_le.mpr ⟨show -(2 ^ 63 * 2 ^ 16) ≤ x * y by omega,
      show x * y ≤ 2 ^ 63 * 2 ^ 16 by omega⟩
    omega
  have hlost := @accumulate_add_lost x.natAbs y.natAbs hy (by omega)
  refine ⟨accumulate x.natAbs y.natAbs, mulR8_of_le rfl (by omega) ?_ ?_, by omega, ?_⟩
  · intro hpos
    rw [abs_of_nonneg hpos] at habs
    omega
  · intro hzero
    rw [hzero, abs_zero] at habs
    omega
  · rw [← Nat.div_eq_zero_iff_lt (by norm_num)]
    omega

/-- With its magnitude rounded down, a product of positive numbers as a number of units. -/
theorem natAbs_mul_div (x y : Int) :
    ((x.natAbs * y.natAbs / 2 ^ 16 : Nat) : Int) = |x * y| / 2 ^ 16 := by
  rw [Int.natCast_div, ← Int.natAbs_mul, Int.natCast_natAbs]
  rfl

/-- The test of `NumericMul` on a product whose magnitude is rounded down. -/
theorem clampMul_of_truncated {u value : Int} (hu : 0 < u)
    (hvalue : value = if 0 ≤ x * y then |x * y| / u else -(|x * y| / u)) :
    r8.clampMul x y value = none ↔ x = 0 ∨ y = 0 ∨
      ((x < 0 ∧ y < 0) ∨ (u ≤ x ∧ u ≤ y) ∨ (x < 0 ∧ u ≤ y) ∨ (y < 0 ∧ u ≤ x)) := by
  rw [clampMul_eq_none_iff]
  rcases lt_trichotomy x 0 with hx | hx | hx
  · rcases lt_trichotomy y 0 with hy | hy | hy
    · have hpos : 0 < x * y := mul_pos_of_neg_of_neg hx hy
      have hnonneg : 0 ≤ value := by
        rw [hvalue, if_pos hpos.le]
        exact Int.ediv_nonneg (abs_nonneg _) hu.le
      exact iff_of_true (.inr (.inr (.inr (.inl ⟨hx, hy, hnonneg⟩))))
        (.inr (.inr (.inl ⟨hx, hy⟩)))
    · simp only [hy, true_or, or_true]
    · have hneg : x * y < 0 := mul_neg_of_neg_of_pos hx hy
      have hle := le_mul_div_iff (y := y) hu (neg_pos.mpr hx)
      rw [if_neg hneg.not_ge, abs_of_neg hneg, ← Int.neg_mul] at hvalue
      generalize -x * y / u = quotient at hle hvalue
      omega
  · simp only [hx, true_or]
  · rcases lt_trichotomy y 0 with hy | hy | hy
    · have hneg : x * y < 0 := mul_neg_of_pos_of_neg hx hy
      have hle := le_mul_div_iff (y := x) hu (neg_pos.mpr hy)
      rw [if_neg hneg.not_ge, abs_of_neg hneg, Int.mul_comm x y, ← Int.neg_mul] at hvalue
      generalize -y * x / u = quotient at hle hvalue
      omega
    · simp only [hy, true_or, or_true]
    · have hpos : 0 < x * y := mul_pos hx hy
      have hlex := le_mul_div_iff (y := y) hu hx
      have hley := le_mul_div_iff (y := x) hu hy
      rw [Int.mul_comm y x] at hley
      rw [if_pos hpos.le, abs_of_pos hpos] at hvalue
      generalize x * y / u = quotient at hlex hley hvalue
      omega

theorem mulR8_iff (hy : y.natAbs < 2 ^ 64) (hle : r8.smallest * 2 ^ 16 ≤ x * y)
    (hlt : x * y ≤ r8.largest * 2 ^ 16) :
    (|r8.mul x y * 2 ^ 16 - x * y| < 2 ^ 16 ∧ r8.clamp .mul x y = none) ↔ r8.MulExact x y := by
  obtain ⟨sum, hvalue, hsum, hright⟩ := mulR8_spec hy hle hlt
  have hunits := natAbs_mul_div x y
  have hwithin : |mulR8 x y * 2 ^ 16 - x * y| < 2 ^ 16 ↔
      sum = x.natAbs * y.natAbs / 2 ^ 16 := by
    rw [hvalue, abs_lt]
    by_cases hxy : 0 ≤ x * y
    · rw [if_pos hxy]
      rw [abs_of_nonneg hxy] at hunits
      omega
    · rw [if_neg hxy]
      rw [abs_of_neg (not_le.mp hxy)] at hunits
      omega
  rw [clamp, operate, mul, hwithin, hright, MulExact]
  by_cases hlost : x.natAbs * (y.natAbs % 2 ^ 16) < 2 ^ 64
  · rw [hright.mpr hlost, hunits] at hvalue
    rw [clampMul_of_truncated (by norm_num) hvalue]
    simp only [hlost, true_and]
  · have hx : x ≠ 0 := by
      rintro rfl
      simp at hlost
    have hy : y ≠ 0 := by
      rintro rfl
      simp at hlost
    simp only [hlost, hx, hy, false_and, or_false]

/-! ## Quotients -/

/-- A quotient with a positive divisor. -/
theorem tdiv_eq_abs (x y : Int) : x.tdiv y = (x * y.sign).tdiv |y| := by
  rcases lt_trichotomy y 0 with hy | hy | hy
  · rw [Int.sign_eq_neg_one_of_neg hy, abs_of_neg hy, Int.mul_neg_one, Int.neg_tdiv_neg]
  · rw [hy, abs_zero, Int.tdiv_zero, Int.tdiv_zero]
  · rw [Int.sign_eq_one_of_pos hy, abs_of_pos hy, Int.mul_one]

theorem div_eq_abs {y : Int} (hy : y ≠ 0) (x : Int) :
    (x : ℚ) / y = ((x * y.sign : Int) : ℚ) / ((|y| : Int) : ℚ) := by
  rcases lt_or_gt_of_ne hy with hneg | hpos
  · rw [Int.sign_eq_neg_one_of_neg hneg, abs_of_neg hneg]
    push_cast
    rw [mul_neg_one, neg_div_neg_eq]
  · rw [Int.sign_eq_one_of_pos hpos, abs_of_pos hpos, Int.mul_one]

/-- A quotient rounded towards zero lies where the exact one does. -/
theorem tdiv_bounds {n d lo hi : Int} (hd : 0 < d) (hlo : lo ≤ 0) (hhi : 0 ≤ hi)
    (hle : lo * d ≤ n) (hge : n ≤ hi * d) : lo ≤ n.tdiv d ∧ n.tdiv d ≤ hi := by
  have hdiv := Int.mul_tdiv_add_tmod n d
  rcases le_or_gt 0 n with hn | hn
  · have hnonneg := Int.tdiv_nonneg hn hd.le
    have hrest := Int.tmod_nonneg d hn
    refine ⟨hlo.trans hnonneg, ?_⟩
    by_contra hgt
    nlinarith
  · have hnonpos : n.tdiv d ≤ 0 := by
      have := Int.tdiv_nonneg (neg_nonneg.mpr hn.le) hd.le
      rw [Int.neg_tdiv] at this
      omega
    have hrest : n.tmod d ≤ 0 := by
      have := Int.tmod_nonneg d (neg_nonneg.mpr hn.le)
      rw [Int.neg_tmod] at this
      omega
    refine ⟨?_, hnonpos.trans hhi⟩
    by_contra hlt
    nlinarith

theorem divR4_within (hy : y ≠ 0) (hle : r4.smallest * |y| ≤ x * 2 ^ 10 * y.sign)
    (hge : x * 2 ^ 10 * y.sign ≤ r4.largest * |y|) :
    |r4.div x y * |y| - x * 2 ^ 10 * y.sign| < |y| := by
  have hd : 0 < |y| := abs_pos.mpr hy
  have hbounds := tdiv_bounds hd (by decide) (by decide) hle hge
  rw [div, divR4, tdiv_eq_abs, wrap_of_le hbounds.1 hbounds.2]
  have hdiv := Int.mul_tdiv_add_tmod (x * 2 ^ 10 * y.sign) |y|
  have hlt := Int.tmod_lt_of_pos (x * 2 ^ 10 * y.sign) hd
  have hgt := Int.lt_tmod_of_pos (x * 2 ^ 10 * y.sign) hd
  rw [Int.mul_comm] at hdiv
  rw [abs_lt]
  constructor <;> omega

/-- The remainder of a quotient with a positive divisor. -/
theorem natAbs_tmod {y : Int} (hy : y ≠ 0) (x : Int) :
    (x.tmod y).natAbs = ((x * y.sign).tmod |y|).natAbs := by
  rcases lt_or_gt_of_ne hy with hneg | hpos
  · rw [Int.sign_eq_neg_one_of_neg hneg, abs_of_neg hneg, Int.mul_neg_one, Int.neg_tmod,
      Int.tmod_neg, Int.natAbs_neg]
  · rw [Int.sign_eq_one_of_pos hpos, abs_of_pos hpos, Int.mul_one]

/-- Before it is shifted the quotient of two `R8` has lost its fractional bits. -/
theorem divR8_within (hy : y ≠ 0) (hle : r8.smallest * |y| ≤ x * 2 ^ 16 * y.sign)
    (hge : x * 2 ^ 16 * y.sign ≤ r8.largest * |y|) :
    |r8.div x y * |y| - x * 2 ^ 16 * y.sign| < |y| ↔ 2 ^ 16 * (x.tmod y).natAbs < y.natAbs := by
  have hd : 0 < |y| := abs_pos.mpr hy
  have habs : (y.natAbs : Int) = |y| := Int.natCast_natAbs y
  have hcomm : x * 2 ^ 16 * y.sign = x * y.sign * 2 ^ 16 := by ring
  rw [natAbs_tmod hy, div, divR8, tdiv_eq_abs]
  rw [hcomm] at hle hge ⊢
  generalize x * y.sign = n at *
  generalize |y| = d at *
  change -2 ^ 63 * d ≤ n * 2 ^ 16 at hle
  change n * 2 ^ 16 ≤ (2 ^ 63 - 1) * d at hge
  have hbounds := @tdiv_bounds n d (-2 ^ 47) (2 ^ 47) hd (by norm_num) (by norm_num) (by omega)
    (by omega)
  have hdiv := Int.mul_tdiv_add_tmod n d
  have hlt := Int.tmod_lt_of_pos n hd
  have hgt := Int.lt_tmod_of_pos n hd
  have hless : n.tdiv d ≠ 2 ^ 47 := by
    intro heq
    rw [heq] at hdiv
    have hpos : 0 ≤ n := by omega
    have hrest := Int.tmod_nonneg d hpos
    omega
  have hquotient : r8.wrap (n.tdiv d) = n.tdiv d := by
    apply wrap_of_le
    · change -2 ^ 63 ≤ _
      omega
    · change _ ≤ 2 ^ 63 - 1
      omega
  have hvalue : r8.wrap (n.tdiv d * 2 ^ 16) = n.tdiv d * 2 ^ 16 := by
    apply wrap_of_le
    · change -2 ^ 63 ≤ _
      omega
    · change _ ≤ 2 ^ 63 - 1
      omega
  have hrest : n.tdiv d * 2 ^ 16 * d - n * 2 ^ 16 = -(n.tmod d * 2 ^ 16) := by
    nlinarith
  rw [hquotient, hvalue, hrest, abs_neg, abs_lt]
  omega

/-! ## When the operations are right -/

/-- Without a clamp the result is what the operator gives. -/
theorem sound_iff_operate {op : Operation} {x y : BitVec f.bits} (hy : op = .div → y ≠ 0) :
    f.Sound op x y ↔ (f.Representable (f.exact op x.toInt y.toInt) →
      |(f.operate op x.toInt y.toInt : ℚ) - f.exact op x.toInt y.toInt| < 1 ∧
        f.clamp op x.toInt y.toInt = none) := by
  have hrun : f.numeric op x y =
      some ((f.clamp op x.toInt y.toInt).getD (f.operate op x.toInt y.toInt)) :=
    if_neg fun h => hy h.1 h.2
  constructor
  · intro h hrep
    have hsound := h _ hrun hrep
    have hclamp := hsound.2
    rw [hclamp, Option.getD_none] at hsound
    exact ⟨hsound.1, hclamp⟩
  · intro h value hvalue hrep
    have hsound := h hrep
    rw [hrun, hsound.2, Option.getD_none] at hvalue
    exact Option.some.inj hvalue ▸ hsound

theorem add_right (h : f.Representable (f.exact .add x y)) :
    |(f.operate .add x y : ℚ) - f.exact .add x y| < 1 ∧ f.clamp .add x y = none := by
  have hexact : f.exact .add x y = ((x + y : Int) : ℚ) := (Int.cast_add x y).symm
  rw [hexact, representable_intCast] at h
  rw [clampAdd_eq_none h, operate, wrap_of_le h.1 h.2, hexact, sub_self, abs_zero]
  exact ⟨one_pos, rfl⟩

theorem sub_right (h : f.Representable (f.exact .sub x y)) :
    |(f.operate .sub x y : ℚ) - f.exact .sub x y| < 1 ∧ f.clamp .sub x y = none := by
  have hexact : f.exact .sub x y = ((x - y : Int) : ℚ) := (Int.cast_sub x y).symm
  rw [hexact, representable_intCast] at h
  rw [clampSub_eq_none h, operate, wrap_of_le h.1 h.2, hexact, sub_self, abs_zero]
  exact ⟨one_pos, rfl⟩

theorem exact_mul (x y : Int) :
    f.exact .mul x y = ((x * y : Int) : ℚ) / ((2 ^ f.shift : Int) : ℚ) := by
  rw [exact]
  push_cast
  rfl

theorem exact_div {y : Int} (hy : y ≠ 0) (x : Int) :
    f.exact .div x y = ((x * 2 ^ f.shift * y.sign : Int) : ℚ) / ((|y| : Int) : ℚ) := by
  rw [← div_eq_abs hy, exact]
  push_cast
  rfl

theorem mul_right_iff (hy : y.natAbs < 2 ^ 64) (h : f.Representable (f.exact .mul x y)) :
    (|(f.operate .mul x y : ℚ) - f.exact .mul x y| < 1 ∧ f.clamp .mul x y = none) ↔
      f.MulExact x y := by
  have hunit : (0 : Int) < 2 ^ f.shift := by positivity
  rw [exact_mul, representable_div hunit] at h
  rw [exact_mul, abs_sub_div_lt_one hunit]
  cases f with
  | r4 =>
      rw [clampMul_r4_eq_none_iff h.1 h.2]
      apply and_iff_right
      change |mulR4 x y * 2 ^ 10 - x * y| < 2 ^ 10
      rw [mulR4_of_representable h.1 h.2, abs_lt]
      omega
  | r8 => exact mulR8_iff hy h.1 h.2

theorem div_right_iff (hy : y ≠ 0) (h : f.Representable (f.exact .div x y)) :
    (|(f.operate .div x y : ℚ) - f.exact .div x y| < 1 ∧ f.clamp .div x y = none) ↔
      f.Exact .div x y := by
  have hd : 0 < |y| := abs_pos.mpr hy
  rw [exact_div hy, representable_div hd] at h
  rw [exact_div hy, abs_sub_div_lt_one hd]
  cases f with
  | r4 => exact iff_of_true ⟨divR4_within hy h.1 h.2, rfl⟩ trivial
  | r8 =>
      rw [Exact, ← divR8_within hy h.1 h.2]
      exact and_iff_left rfl

end FixedPoint

end TinyCLR.HeapBlock
