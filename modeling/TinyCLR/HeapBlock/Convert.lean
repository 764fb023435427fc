import Mathlib

/-!
# Conversions between numbers

`Convert_Internal` in the build with emulated floating-point numbers: every conversion between
formats goes through a number of 64 bits with 16 bits behind the point.
-/

namespace TinyCLR.HeapBlock

/-- The data types that are numbers. -/
inductive NumericType where
  | boolean
  | i1
  | u1
  | char
  | i2
  | u2
  | i4
  | u4
  | i8
  | u8
  | r4
  | r8
  deriving DecidableEq

namespace NumericType

variable (t : NumericType)

/-- `c_Signed` in the table of data types. -/
def isSigned : Bool :=
  match t with
  | i1 | i2 | i4 | i8 | r4 | r8 => true
  | _ => false

def sizeInBits : Nat :=
  match t with
  | boolean => 1
  | i1 | u1 => 8
  | char | i2 | u2 => 16
  | i4 | u4 | r4 => 32
  | i8 | u8 | r8 => 64

/-- How a number of this type is scaled: whole, as an `R4` or as an `R8`. -/
def scale : Int :=
  match t with
  | r4 => 1
  | r8 => 2
  | _ => 0

/-- The types whose number is extended from 32 to 64 bits before a conversion. -/
def isExtended : Bool :=
  match t with
  | i8 | u8 | r4 | r8 => false
  | _ => true

end NumericType

/-- A heap block with a number: its type and the 64 bits of its data. -/
structure NumericBlock where
  dataType : NumericType
  data : BitVec 64

namespace NumericBlock

variable (b : NumericBlock)

/-- A result as an `INT64`. -/
def wrap64 (x : Int) : Int := x.bmod (2 ^ 64)

/-- The lower 32 bits of the data as `u4`, and as `s4` or `r4`. -/
def lowWord : Nat := (b.data.setWidth 32).toNat

def lowInt : Int := (b.data.setWidth 32).toInt

/-- A store through `s4`, `u4` or `r4`, which leaves the upper half. -/
def storeLow (x : Int) : NumericBlock :=
  { b with data := (b.data.extractLsb' 32 32 ++ BitVec.ofInt 32 x : BitVec 64) }

/-- A store through `s8`, `u8` or `r8`. -/
def store (x : Int) : NumericBlock := { b with data := BitVec.ofInt 64 x }

/-- "Extend to maximum precision." -/
def extend (et : NumericType) : NumericBlock :=
  if b.dataType.isExtended then
    let res : Int := b.lowWord
    let shift := 64 - b.dataType.sizeInBits
    b.store (if b.dataType.isSigned && et.isSigned then wrap64 (res * 2 ^ shift) / 2 ^ shift else res)
  else b

/-- The number before the conversion. -/
def orig : Int := if b.dataType.scale = 1 then b.lowInt else b.data.toInt

/-- The number with 16 bits behind the point. -/
def val : Int :=
  if b.dataType.scale = 0 then wrap64 (b.orig * 2 ^ 16)
  else if b.dataType.scale = 1 then wrap64 (b.orig * 2 ^ 6)
  else b.orig

/-- The new number in the block. -/
def put (et : NumericType) : NumericBlock :=
  if et.scale = 0 then b.store (b.val / 2 ^ 16)
  else if et.scale = 1 then b.storeLow (b.val / 2 ^ 6)
  else b.store b.val

/-- The overflow tests, which compare the new number with the one before. -/
def clamp (et : NumericType) : NumericBlock :=
  let new := b.put et
  if b.dataType.scale = 0 ∧ et.scale = 1 then
    if b.orig ≠ new.lowInt / 2 ^ 10 ∨ 0 < b.orig ∧ new.lowInt < 0 then
      new.storeLow (if b.orig < 0 then -2 ^ 31 else 2 ^ 31 - 1)
    else new
  else if b.dataType.scale = 0 ∧ et.scale = 2 then
    if b.orig ≠ new.data.toInt / 2 ^ 16 ∨ 0 < b.orig ∧ new.data.toInt < 0 then
      new.store (if b.orig < 0 then -2 ^ 63 else 2 ^ 63 - 1)
    else new
  else if b.dataType.scale = 2 ∧ et.scale = 1 then
    if b.orig ≠ wrap64 (new.lowInt * 2 ^ 6) ∨ 0 < b.orig ∧ new.lowInt < 0 then
      new.storeLow (if b.orig < 0 then -2 ^ 31 else 2 ^ 31 - 1)
    else new
  else new

/-- `Promote`: the small types become an `I4`. -/
def promote : NumericBlock :=
  match b.dataType with
  | .i1 => { b.storeLow (b.data.setWidth 8).toInt with dataType := .i4 }
  | .i2 => { b.storeLow (b.data.setWidth 16).toInt with dataType := .i4 }
  | .boolean | .u1 => { b.storeLow (b.data.setWidth 8).toNat with dataType := .i4 }
  | .char | .u2 => { b.storeLow (b.data.setWidth 16).toNat with dataType := .i4 }
  | _ => b

/-- `Convert_Internal` -/
def convertInternal (et : NumericType) : NumericBlock :=
  let b := b.extend et
  let b := if et.scale ≠ b.dataType.scale then b.clamp et else b
  { b with dataType := et }.promote

end NumericBlock

/-! ## What the numbers stand for -/

namespace NumericType

variable (t : NumericType)

/-- The raw numbers of a type. -/
def InRange (v : Int) : Prop :=
  if t.isSigned then -2 ^ (t.sizeInBits - 1) ≤ v ∧ v < 2 ^ (t.sizeInBits - 1)
  else 0 ≤ v ∧ v < 2 ^ t.sizeInBits

/-- The bits behind the point. -/
def fraction : Nat :=
  match t with
  | r4 => 10
  | r8 => 16
  | _ => 0

/-- The bits of the data that hold a number of the type; small ones are kept in 32 bits. -/
def width : Nat :=
  match t with
  | i8 | u8 | r8 => 64
  | _ => 32

/-- The data of a block holds a raw number; its other bits may be anything. -/
def Holds (data : BitVec 64) (v : Int) : Prop :=
  t.InRange v ∧ data.setWidth t.width = BitVec.ofInt t.width v

/-- The raw number of type `et` for a raw number of type `t`, rounded down. -/
def truncated (et : NumericType) (v : Int) : Int := v * 2 ^ et.fraction / 2 ^ t.fraction

/-- A conversion gives the number truncated, or an extreme of `R4` or `R8`. -/
def Sound (et : NumericType) (data : BitVec 64) (v : Int) : Prop :=
  let result := (NumericBlock.convertInternal ⟨t, data⟩ et).data
  (et.InRange (t.truncated et v) → et.Holds result (t.truncated et v)) ∧
    (¬et.InRange (t.truncated et v) → 0 < et.scale →
      et.Holds result (if v < 0 then -2 ^ (et.sizeInBits - 1) else 2 ^ (et.sizeInBits - 1) - 1))

/-- The conversions that go wrong: a `U8` beyond the range of `I8` is taken for a negative number,
and an `R8` that is finer than an `R4` for one that is too large. -/
def Exact (et : NumericType) (v : Int) : Prop :=
  ¬(t = u8 ∧ 2 ^ 63 ≤ v ∧ 0 < et.scale) ∧
    ¬(t = r8 ∧ et = r4 ∧ v % 2 ^ 6 ≠ 0 ∧ -2 ^ 31 < v / 2 ^ 6 ∧ v / 2 ^ 6 < 2 ^ 31 - 1)

end NumericType

namespace NumericBlock

/-! ## Words and numbers -/

theorem setWidth_ofInt {n w : Nat} (h : n ≤ w) (x : Int) :
    (BitVec.ofInt w x).setWidth n = BitVec.ofInt n x := by
  have hdvd : ((2 ^ n : Nat) : Int) ∣ ((2 ^ w : Nat) : Int) :=
    Int.natCast_dvd_natCast.mpr (pow_dvd_pow 2 h)
  have hw : (0 : Int) ≤ x % (2 ^ w : Nat) := Int.emod_nonneg _ (by positivity)
  have hn : (0 : Int) ≤ x % (2 ^ n : Nat) := Int.emod_nonneg _ (by positivity)
  apply BitVec.eq_of_toNat_eq
  rw [BitVec.toNat_setWidth, BitVec.toNat_ofInt, BitVec.toNat_ofInt]
  apply Int.ofNat.inj
  change (((x % (2 ^ w : Nat)).toNat % 2 ^ n : Nat) : Int) = ((x % (2 ^ n : Nat)).toNat : Int)
  rw [Int.natCast_mod, Int.toNat_of_nonneg hw, Int.toNat_of_nonneg hn,
    Int.emod_emod_of_dvd _ hdvd]

theorem setWidth_storeLow (b : NumericBlock) (x : Int) :
    (b.storeLow x).data.setWidth 32 = BitVec.ofInt 32 x :=
  BitVec.setWidth_append_eq_right

theorem lowInt_storeLow (b : NumericBlock) (x : Int) :
    (b.storeLow x).lowInt = x.bmod (2 ^ 32) := by
  rw [lowInt, setWidth_storeLow, BitVec.toInt_ofInt]

theorem wrap64_of_le {x : Int} (hle : -2 ^ 63 ≤ x) (hlt : x < 2 ^ 63) : wrap64 x = x :=
  Int.bmod_eq_of_le (by omega) (by omega)

theorem toInt_ofInt {x : Int} (hle : -2 ^ 63 ≤ x) (hlt : x < 2 ^ 63) :
    (BitVec.ofInt 64 x).toInt = x :=
  BitVec.toInt_ofInt_eq_self (by norm_num) hle hlt

theorem bmod32_of_le {x : Int} (hle : -2 ^ 31 ≤ x) (hlt : x < 2 ^ 31) : x.bmod (2 ^ 32) = x :=
  Int.bmod_eq_of_le (by omega) (by omega)

theorem bmod32_bounds (x : Int) : -2 ^ 31 ≤ x.bmod (2 ^ 32) ∧ x.bmod (2 ^ 32) < 2 ^ 31 := by
  have hle := Int.le_bmod (x := x) (m := 2 ^ 32) (by norm_num)
  have hlt := Int.bmod_lt (x := x) (m := 2 ^ 32) (by norm_num)
  omega

/-- Words are equal when their numbers differ by a multiple of the modulus. -/
theorem ofInt_congr {n : Nat} {x y k : Int} (h : x = y + k * 2 ^ n) :
    BitVec.ofInt n x = BitVec.ofInt n y := by
  apply BitVec.eq_of_toInt_eq
  rw [BitVec.toInt_ofInt, BitVec.toInt_ofInt, h]
  have hpow : ((2 ^ n : Nat) : Int) = 2 ^ n := by push_cast; rfl
  rw [← hpow, Int.add_mul_bmod_self_right]

end NumericBlock

namespace NumericType

open NumericBlock

variable {t et : NumericType} {data : BitVec 64} {v : Int}

/-! ## The number before a conversion -/

theorem inRange_small (h : t.isExtended = true) (hv : t.InRange v) :
    -2 ^ 31 ≤ v ∧ v < 2 ^ 32 := by
  rw [InRange] at hv
  cases t <;> simp [isExtended, isSigned, sizeInBits] at h hv ⊢ <;> omega

/-- Shifted up and down again a number is extended with its sign. -/
theorem shift_extend {n : Nat} (hn : 0 < n) (hle32 : n ≤ 32) (hle : -2 ^ (n - 1) ≤ v)
    (hlt : v < 2 ^ (n - 1)) (k : Int) :
    wrap64 ((v + k * 2 ^ 32) * 2 ^ (64 - n)) / 2 ^ (64 - n) = v := by
  have hunit : (0 : Int) < 2 ^ (64 - n) := by positivity
  have hhalf : (2 : Int) ^ (n - 1) * 2 ^ (64 - n) = 2 ^ 63 := by
    rw [← pow_add]
    congr 1
    omega
  have hcast : ((2 ^ 64 : Nat) : Int) = (2 : Int) ^ 64 := by norm_num
  have hover : (2 : Int) ^ 32 * 2 ^ (64 - n) = 2 ^ (32 - n) * (2 ^ 64 : Nat) := by
    rw [hcast, ← pow_add, ← pow_add]
    congr 1
    omega
  have hsum : (v + k * 2 ^ 32) * 2 ^ (64 - n) =
      v * 2 ^ (64 - n) + k * 2 ^ (32 - n) * (2 ^ 64 : Nat) := by
    rw [Int.add_mul, Int.mul_assoc, hover, ← Int.mul_assoc]
  have hle63 : -2 ^ 63 ≤ v * 2 ^ (64 - n) := by
    rw [← hhalf, ← Int.neg_mul]
    exact Int.mul_le_mul_of_nonneg_right hle hunit.le
  have hlt63 : v * 2 ^ (64 - n) < 2 ^ 63 := by
    rw [← hhalf]
    exact Int.mul_lt_mul_of_pos_right hlt hunit
  rw [hsum, wrap64, Int.add_mul_bmod_self_right, ← wrap64, wrap64_of_le hle63 hlt63]
  exact Int.mul_ediv_cancel _ hunit.ne'

/-- A small number becomes a number of 64 bits, unless it is negative and the other type has no
sign. -/
theorem extend_of_holds (h : t.Holds data v) (hscale : t.scale = 0)
    (hsign : et.isSigned = true ∨ 0 ≤ v) :
    (NumericBlock.mk t data).extend et = ⟨t, BitVec.ofInt 64 v⟩ := by
  rw [extend]
  cases hext : t.isExtended with
  | false =>
      have hwidth : t.width = 64 := by
        cases t <;> first | rfl | exact absurd hscale (by decide) | cases hext
      have hdata := h.2
      rw [hwidth, BitVec.setWidth_eq] at hdata
      rw [if_neg Bool.false_ne_true, hdata]
  | true =>
      have hwidth : t.width = 32 := by
        cases t <;> first | rfl | cases hext
      have hdata := h.2
      rw [hwidth] at hdata
      have hbounds := inRange_small hext h.1
      have hlow : ((NumericBlock.mk t data).lowWord : Int) = v % 2 ^ 32 := by
        rw [lowWord, hdata, BitVec.toNat_ofInt]
        exact Int.toNat_of_nonneg (Int.emod_nonneg _ (by norm_num))
      rw [if_pos rfl]
      dsimp only
      rw [hlow]
      by_cases hboth : (t.isSigned && et.isSigned) = true
      · have hsigned := (Bool.and_eq_true_iff.mp hboth).1
        have hrange := h.1
        rw [InRange, if_pos hsigned] at hrange
        have hsize : 0 < t.sizeInBits ∧ t.sizeInBits ≤ 32 := by
          cases t <;> first | decide | cases hext
        have hmod : v % 2 ^ 32 = v + -(v / 2 ^ 32) * 2 ^ 32 := by omega
        rw [if_pos hboth, hmod, shift_extend hsize.1 hsize.2 hrange.1 hrange.2]
        rfl
      · have hpos : 0 ≤ v := by
          rcases hsign with hsign | hsign
          · have hunsigned : ¬t.isSigned = true := fun hs => hboth (by rw [hs, hsign]; rfl)
            have hrange := h.1
            rw [InRange, if_neg hunsigned] at hrange
            exact hrange.1
          · exact hsign
        rw [if_neg hboth, Int.emod_eq_of_lt hpos hbounds.2]
        rfl

/-! ## Small types -/

/-- The promotion keeps a number that is in the range of its type. -/
theorem promote_holds (hscale : et.scale = 0) (hv : et.InRange v) :
    et.Holds (NumericBlock.mk et (BitVec.ofInt 64 v)).promote.data v := by
  refine ⟨hv, ?_⟩
  have hword := setWidth_ofInt (show 32 ≤ 64 by norm_num) v
  have hhalf := setWidth_ofInt (show 16 ≤ 64 by norm_num) v
  have hbyte := setWidth_ofInt (show 8 ≤ 64 by norm_num) v
  rw [InRange] at hv
  have hlow (b : NumericBlock) {x : Int} (hx : x = v) :
      (b.storeLow x).data.setWidth 32 = BitVec.ofInt 32 v := by
    rw [setWidth_storeLow, hx]
  cases et with
  | i4 => exact hword
  | u4 => exact hword
  | i8 => exact BitVec.setWidth_eq _
  | u8 => exact BitVec.setWidth_eq _
  | r4 => exact absurd hscale (by decide)
  | r8 => exact absurd hscale (by decide)
  | i1 =>
      apply hlow
      rw [hbyte]
      exact BitVec.toInt_ofInt_eq_self (by norm_num) hv.1 hv.2
  | i2 =>
      apply hlow
      rw [hhalf]
      exact BitVec.toInt_ofInt_eq_self (by norm_num) hv.1 hv.2
  | boolean =>
      apply hlow
      rw [hbyte, BitVec.toNat_ofInt, Int.emod_eq_of_lt hv.1 (lt_trans hv.2 (by decide))]
      exact Int.toNat_of_nonneg hv.1
  | u1 =>
      apply hlow
      rw [hbyte, BitVec.toNat_ofInt, Int.emod_eq_of_lt hv.1 (lt_of_lt_of_le hv.2 (by decide))]
      exact Int.toNat_of_nonneg hv.1
  | char =>
      apply hlow
      rw [hhalf, BitVec.toNat_ofInt, Int.emod_eq_of_lt hv.1 (lt_of_lt_of_le hv.2 (by decide))]
      exact Int.toNat_of_nonneg hv.1
  | u2 =>
      apply hlow
      rw [hhalf, BitVec.toNat_ofInt, Int.emod_eq_of_lt hv.1 (lt_of_lt_of_le hv.2 (by decide))]
      exact Int.toNat_of_nonneg hv.1

theorem sound_of_scale_zero (h : t.Holds data v) (ht : t.scale = 0) (he : et.scale = 0) :
    t.Sound et data v := by
  have hone : t.truncated et v = v := by
    have hf : t.fraction = 0 := by cases t <;> first | rfl | exact absurd ht (by decide)
    have hg : et.fraction = 0 := by cases et <;> first | rfl | exact absurd he (by decide)
    rw [truncated, hf, hg]
    omega
  refine ⟨fun hrange => ?_, fun _ hpos => absurd hpos (by omega)⟩
  rw [hone] at hrange ⊢
  have hsign : et.isSigned = true ∨ 0 ≤ v := by
    by_cases hs : et.isSigned = true
    · exact .inl hs
    · rw [InRange, if_neg hs] at hrange
      exact .inr hrange.1
  rw [convertInternal, extend_of_holds h ht hsign]
  dsimp only
  rw [if_neg (by omega)]
  exact promote_holds he hrange

/-! ## Numbers with a point -/

theorem holds_r4 {x : Int} : r4.Holds data x ↔ (NumericBlock.mk .r4 data).lowInt = x := by
  constructor
  · intro h
    have hwidth : data.setWidth 32 = BitVec.ofInt 32 x := h.2
    rw [lowInt, hwidth]
    exact BitVec.toInt_ofInt_eq_self (by norm_num) h.1.1 h.1.2
  · intro h
    have hle := (data.setWidth 32).le_toInt
    have hlt := (data.setWidth 32).toInt_lt
    rw [lowInt] at h
    rw [h] at hle hlt
    refine ⟨⟨hle, hlt⟩, ?_⟩
    rw [← h]
    exact BitVec.ofInt_toInt.symm

theorem holds_r8 {x : Int} : r8.Holds data x ↔ data.toInt = x := by
  constructor
  · intro h
    have hwidth : data.setWidth 64 = BitVec.ofInt 64 x := h.2
    rw [BitVec.setWidth_eq] at hwidth
    rw [hwidth]
    exact toInt_ofInt h.1.1 h.1.2
  · intro h
    have hle := data.le_toInt
    have hlt := data.toInt_lt
    rw [h] at hle hlt
    refine ⟨⟨hle, hlt⟩, ?_⟩
    rw [← h]
    exact (BitVec.setWidth_eq data).trans BitVec.ofInt_toInt.symm

/-- A result that wraps differs by a multiple of the modulus. -/
theorem bmod_exists (x : Int) (m : Nat) : ∃ k : Int, x.bmod m = x + k * m := by
  rw [Int.bmod_def]
  have hx := Int.mul_ediv_add_emod x m
  split
  · refine ⟨-(x / m), ?_⟩
    linarith
  · refine ⟨-(x / m) - 1, ?_⟩
    linarith

/-- An integer with ten bits behind the point, or the extreme that the sign asks for. -/
theorem lowInt_clamp_r4 {b : NumericBlock} (hscale : b.dataType.scale = 0) :
    (b.clamp .r4).lowInt =
      if -2 ^ 21 ≤ b.data.toInt ∧ b.data.toInt < 2 ^ 21 then b.data.toInt * 2 ^ 10
      else if b.data.toInt < 0 then -2 ^ 31 else 2 ^ 31 - 1 := by
  have horig : b.orig = b.data.toInt := by rw [orig, if_neg (by omega)]
  have hput : (b.put .r4).lowInt = (b.data.toInt * 2 ^ 10).bmod (2 ^ 32) := by
    obtain ⟨k, hk⟩ := bmod_exists (b.data.toInt * 2 ^ 16) (2 ^ 64)
    have hval : b.val / 2 ^ 6 = b.data.toInt * 2 ^ 10 + k * 2 ^ 26 * (2 ^ 32 : Nat) := by
      rw [val, if_pos hscale, horig, wrap64]
      omega
    change (b.storeLow (b.val / 2 ^ 6)).lowInt = _
    rw [lowInt_storeLow, hval, Int.add_mul_bmod_self_right]
  have hbounds := bmod32_bounds (b.data.toInt * 2 ^ 10)
  obtain ⟨k, hk⟩ := bmod_exists (b.data.toInt * 2 ^ 10) (2 ^ 32)
  rw [clamp]
  rw [if_pos ⟨hscale, rfl⟩, horig, hput, apply_ite lowInt, lowInt_storeLow, hput]
  generalize (b.data.toInt * 2 ^ 10).bmod (2 ^ 32) = n at hbounds hk ⊢
  generalize b.data.toInt = o at hk ⊢
  by_cases hneg : o < 0
  · rw [if_pos hneg, bmod32_of_le (by omega) (by omega)]
    split <;> split <;> omega
  · rw [if_neg hneg, bmod32_of_le (by omega) (by omega)]
    split <;> split <;> omega

/-- An integer with sixteen bits behind the point, or the extreme that the sign asks for. -/
theorem toInt_clamp_r8 {b : NumericBlock} (hscale : b.dataType.scale = 0) :
    (b.clamp .r8).data.toInt =
      if -2 ^ 47 ≤ b.data.toInt ∧ b.data.toInt < 2 ^ 47 then b.data.toInt * 2 ^ 16
      else if b.data.toInt < 0 then -2 ^ 63 else 2 ^ 63 - 1 := by
  have horig : b.orig = b.data.toInt := by rw [orig, if_neg (by omega)]
  have hput : (b.put .r8).data.toInt = (b.data.toInt * 2 ^ 16).bmod (2 ^ 64) := by
    have hval : b.val = (b.data.toInt * 2 ^ 16).bmod (2 ^ 64) := by
      rw [val, if_pos hscale, horig, wrap64]
    change (BitVec.ofInt 64 b.val).toInt = _
    rw [BitVec.toInt_ofInt, hval, Int.bmod_bmod]
  have hle := Int.le_bmod (x := b.data.toInt * 2 ^ 16) (m := 2 ^ 64) (by norm_num)
  have hlt := Int.bmod_lt (x := b.data.toInt * 2 ^ 16) (m := 2 ^ 64) (by norm_num)
  obtain ⟨k, hk⟩ := bmod_exists (b.data.toInt * 2 ^ 16) (2 ^ 64)
  have hstore (c : NumericBlock) (x : Int) : (c.store x).data.toInt = x.bmod (2 ^ 64) :=
    @BitVec.toInt_ofInt 64 x
  rw [clamp]
  rw [if_neg (fun h => absurd h.2 (by decide)), if_pos ⟨hscale, rfl⟩, horig, hput,
    apply_ite NumericBlock.data, apply_ite BitVec.toInt, hstore, hput]
  generalize (b.data.toInt * 2 ^ 16).bmod (2 ^ 64) = n at hle hlt hk ⊢
  generalize b.data.toInt = o at hk ⊢
  have hself {x : Int} (hx : -2 ^ 63 ≤ x) (hx' : x < 2 ^ 63) : x.bmod (2 ^ 64) = x :=
    wrap64_of_le hx hx'
  by_cases hneg : o < 0
  · rw [if_pos hneg, hself (by omega) (by omega)]
    split <;> split <;> omega
  · rw [if_neg hneg, hself (by omega) (by omega)]
    split <;> split <;> omega

/-- An `R8` loses six bits; the test takes a number that had some of them for one that is too
large. -/
theorem lowInt_clamp_r8_r4 {b : NumericBlock} (hscale : b.dataType.scale = 2) :
    (b.clamp .r4).lowInt =
      if b.data.toInt % 2 ^ 6 = 0 ∧ -2 ^ 31 ≤ b.data.toInt / 2 ^ 6 ∧ b.data.toInt / 2 ^ 6 < 2 ^ 31
      then b.data.toInt / 2 ^ 6
      else if b.data.toInt < 0 then -2 ^ 31 else 2 ^ 31 - 1 := by
  have horig : b.orig = b.data.toInt := by rw [orig, if_neg (by omega)]
  have hput : (b.put .r4).lowInt = (b.data.toInt / 2 ^ 6).bmod (2 ^ 32) := by
    have hval : b.val = b.data.toInt := by
      rw [val, if_neg (by omega), if_neg (by omega), horig]
    change (b.storeLow (b.val / 2 ^ 6)).lowInt = _
    rw [lowInt_storeLow, hval]
  have hbounds := bmod32_bounds (b.data.toInt / 2 ^ 6)
  obtain ⟨k, hk⟩ := bmod_exists (b.data.toInt / 2 ^ 6) (2 ^ 32)
  rw [clamp]
  rw [if_neg (by omega), if_neg (by omega), if_pos ⟨hscale, rfl⟩, horig, hput,
    apply_ite lowInt, lowInt_storeLow, hput]
  generalize (b.data.toInt / 2 ^ 6).bmod (2 ^ 32) = n at hbounds hk ⊢
  generalize b.data.toInt = o at hk ⊢
  rw [wrap64_of_le (by omega) (by omega)]
  by_cases hneg : o < 0
  · rw [if_pos hneg, bmod32_of_le (by omega) (by omega)]
    split <;> split <;> omega
  · rw [if_neg hneg, bmod32_of_le (by omega) (by omega)]
    split <;> split <;> omega

/-! ## Conversions to numbers with a point -/

theorem extend_dataType (b : NumericBlock) : (b.extend et).dataType = b.dataType := by
  rw [extend]
  split <;> rfl

theorem convertInternal_r4 (ht : t.scale ≠ 1) :
    (convertInternal ⟨t, data⟩ .r4).data = (((NumericBlock.mk t data).extend .r4).clamp .r4).data := by
  rw [convertInternal, if_pos]
  · rfl
  · rw [extend_dataType]
    exact Ne.symm ht

theorem convertInternal_r8 (ht : t.scale ≠ 2) :
    (convertInternal ⟨t, data⟩ .r8).data = (((NumericBlock.mk t data).extend .r8).clamp .r8).data := by
  rw [convertInternal, if_pos]
  · rfl
  · rw [extend_dataType]
    exact Ne.symm ht

theorem lowInt_mk {b : NumericBlock} : (NumericBlock.mk t b.data).lowInt = b.lowInt := rfl

/-- An integer of 64 bits, read with a sign. -/
theorem toInt_of_inRange (ht : t.scale = 0) (hv : t.InRange v) :
    (BitVec.ofInt 64 v).toInt = if t = u8 ∧ 2 ^ 63 ≤ v then v - 2 ^ 64 else v := by
  rw [InRange] at hv
  by_cases htop : t = u8 ∧ 2 ^ 63 ≤ v
  · obtain ⟨rfl, hlarge⟩ := htop
    have hlt : v < 2 ^ 64 := hv.2
    rw [if_pos ⟨rfl, hlarge⟩, ofInt_congr (show v = v - 2 ^ 64 + 1 * 2 ^ 64 by omega)]
    exact toInt_ofInt (by omega) (by omega)
  · rw [if_neg htop]
    apply toInt_ofInt <;>
      cases t <;> simp [isSigned, sizeInBits] at hv htop ⊢ <;> omega

theorem sound_r4_iff : t.Sound r4 data v ↔
    (NumericBlock.mk r4 (convertInternal ⟨t, data⟩ .r4).data).lowInt =
      if -2 ^ 31 ≤ t.truncated r4 v ∧ t.truncated r4 v < 2 ^ 31 then t.truncated r4 v
      else if v < 0 then -2 ^ 31 else 2 ^ 31 - 1 := by
  have hrange : r4.InRange (t.truncated r4 v) ↔
      -2 ^ 31 ≤ t.truncated r4 v ∧ t.truncated r4 v < 2 ^ 31 := Iff.rfl
  have hpos : 0 < r4.scale := by decide
  rw [Sound, holds_r4, holds_r4, hrange]
  constructor
  · intro h
    split
    · exact h.1 ‹_›
    · exact h.2 ‹_› hpos
  · intro h
    constructor
    · intro hin
      rw [h, if_pos hin]
    · intro hout _
      rw [h, if_neg hout]
      rfl

theorem sound_r8_iff : t.Sound r8 data v ↔
    (convertInternal ⟨t, data⟩ .r8).data.toInt =
      if -2 ^ 63 ≤ t.truncated r8 v ∧ t.truncated r8 v < 2 ^ 63 then t.truncated r8 v
      else if v < 0 then -2 ^ 63 else 2 ^ 63 - 1 := by
  have hrange : r8.InRange (t.truncated r8 v) ↔
      -2 ^ 63 ≤ t.truncated r8 v ∧ t.truncated r8 v < 2 ^ 63 := Iff.rfl
  have hpos : 0 < r8.scale := by decide
  rw [Sound, holds_r8, holds_r8, hrange]
  constructor
  · intro h
    split
    · exact h.1 ‹_›
    · exact h.2 ‹_› hpos
  · intro h
    constructor
    · intro hin
      rw [h, if_pos hin]
    · intro hout _
      rw [h, if_neg hout]
      rfl

theorem fraction_of_integer (ht : t.scale = 0) : t.fraction = 0 := by
  cases t <;> first | rfl | exact absurd ht (by decide)

theorem bounds_of_integer (ht : t.scale = 0) (hv : t.InRange v) :
    -2 ^ 63 ≤ v ∧ v < 2 ^ 64 ∧ (2 ^ 63 ≤ v → t = u8) := by
  rw [InRange] at hv
  cases t <;> simp [scale, isSigned, sizeInBits] at ht hv ⊢ <;> omega

theorem sound_r4_of_integer (h : t.Holds data v) (ht : t.scale = 0) :
    t.Sound r4 data v ↔ ¬(t = u8 ∧ 2 ^ 63 ≤ v) := by
  have hresult := lowInt_clamp_r4 (b := ⟨t, BitVec.ofInt 64 v⟩) ht
  have htruncated : t.truncated r4 v = v * 2 ^ 10 := by
    rw [truncated, fraction_of_integer ht, pow_zero, Int.ediv_one]
    rfl
  have hbounds := bounds_of_integer ht h.1
  rw [sound_r4_iff, convertInternal_r4 (by omega), extend_of_holds h ht (.inl rfl), lowInt_mk,
    hresult, htruncated, toInt_of_inRange ht h.1]
  split
  · rename_i htop
    refine iff_of_false ?_ (not_not_intro htop)
    have hlarge := htop.2
    rw [if_neg (show ¬(-2 ^ 31 ≤ v * 2 ^ 10 ∧ v * 2 ^ 10 < 2 ^ 31) by omega),
      if_neg (show ¬v < 0 by omega)]
    split <;> omega
  · rename_i htop
    refine iff_of_true ?_ htop
    have hsmall : v < 2 ^ 63 := by
      by_contra hlarge
      exact htop ⟨hbounds.2.2 (not_lt.mp hlarge), not_lt.mp hlarge⟩
    split <;> split <;> omega

theorem sound_r8_of_integer (h : t.Holds data v) (ht : t.scale = 0) :
    t.Sound r8 data v ↔ ¬(t = u8 ∧ 2 ^ 63 ≤ v) := by
  have hresult := toInt_clamp_r8 (b := ⟨t, BitVec.ofInt 64 v⟩) ht
  have htruncated : t.truncated r8 v = v * 2 ^ 16 := by
    rw [truncated, fraction_of_integer ht, pow_zero, Int.ediv_one]
    rfl
  have hbounds := bounds_of_integer ht h.1
  rw [sound_r8_iff, convertInternal_r8 (by omega), extend_of_holds h ht (.inl rfl), hresult,
    htruncated, toInt_of_inRange ht h.1]
  split
  · rename_i htop
    refine iff_of_false ?_ (not_not_intro htop)
    have hlarge := htop.2
    rw [if_neg (show ¬(-2 ^ 63 ≤ v * 2 ^ 16 ∧ v * 2 ^ 16 < 2 ^ 63) by omega),
      if_neg (show ¬v < 0 by omega)]
    split <;> omega
  · rename_i htop
    refine iff_of_true ?_ htop
    have hsmall : v < 2 ^ 63 := by
      by_contra hlarge
      exact htop ⟨hbounds.2.2 (not_lt.mp hlarge), not_lt.mp hlarge⟩
    split <;> split <;> omega

/-! ## Conversions of numbers with a point -/

theorem clamp_integer {b : NumericBlock} (he : et.scale = 0) : b.clamp et = b.put et := by
  rw [clamp]
  simp [he]

/-- A number with a point becomes an integer by a shift that rounds down. -/
theorem sound_of_real_integer (h : t.Holds data v) (ht : t.scale ≠ 0) (he : et.scale = 0) :
    t.Sound et data v := by
  refine ⟨fun hrange => ?_, fun _ hpos => absurd hpos (by omega)⟩
  have hfraction := fraction_of_integer he
  rw [truncated, hfraction, pow_zero, Int.mul_one] at hrange ⊢
  have hextend : (NumericBlock.mk t data).extend et = ⟨t, data⟩ := by
    cases t <;> first | rfl | exact absurd rfl ht
  have hval : (NumericBlock.mk t data).val / 2 ^ 16 = v / 2 ^ t.fraction := by
    cases t with
    | r4 =>
        have horig : (NumericBlock.mk r4 data).orig = v := holds_r4.mp h
        have hv : -2 ^ 31 ≤ v ∧ v < 2 ^ 31 := h.1
        rw [val, if_neg (show ¬r4.scale = 0 by decide), if_pos (show r4.scale = 1 from rfl), horig,
          wrap64_of_le (by omega) (by omega)]
        change v * 2 ^ 6 / 2 ^ 16 = v / 2 ^ 10
        omega
    | r8 =>
        have horig : (NumericBlock.mk r8 data).orig = v := holds_r8.mp h
        rw [val, if_neg (show ¬r8.scale = 0 by decide), if_neg (show ¬r8.scale = 1 by decide), horig]
        rfl
    | _ => exact absurd rfl ht
  have hclamp : (NumericBlock.mk t data).clamp et = ⟨t, BitVec.ofInt 64 (v / 2 ^ t.fraction)⟩ := by
    rw [clamp_integer he, put, if_pos he, hval]
    rfl
  rw [convertInternal, hextend, if_pos (show et.scale ≠ t.scale by omega), hclamp]
  exact promote_holds he hrange

theorem sound_r8_of_r4 (h : r4.Holds data v) : r4.Sound r8 data v := by
  have horig : (NumericBlock.mk r4 data).orig = v := holds_r4.mp h
  have hv : -2 ^ 31 ≤ v ∧ v < 2 ^ 31 := h.1
  have htruncated : r4.truncated r8 v = v * 2 ^ 6 := by
    change v * 2 ^ 16 / 2 ^ 10 = v * 2 ^ 6
    omega
  have hval : (NumericBlock.mk r4 data).val = v * 2 ^ 6 := by
    rw [val, if_neg (show ¬r4.scale = 0 by decide), if_pos (show r4.scale = 1 from rfl), horig,
      wrap64_of_le (by omega) (by omega)]
  rw [sound_r8_iff, htruncated, if_pos (by omega)]
  change (BitVec.ofInt 64 (NumericBlock.mk r4 data).val).toInt = v * 2 ^ 6
  rw [hval]
  exact toInt_ofInt (by omega) (by omega)

theorem sound_r4_of_r8 (h : r8.Holds data v) :
    r8.Sound r4 data v ↔ ¬(v % 2 ^ 6 ≠ 0 ∧ -2 ^ 31 < v / 2 ^ 6 ∧ v / 2 ^ 6 < 2 ^ 31 - 1) := by
  have hresult := lowInt_clamp_r8_r4 (b := ⟨r8, data⟩) rfl
  have hdata : data.toInt = v := holds_r8.mp h
  have htruncated : r8.truncated r4 v = v / 2 ^ 6 := by
    change v * 2 ^ 10 / 2 ^ 16 = v / 2 ^ 6
    omega
  have hextend : (NumericBlock.mk r8 data).extend .r4 = ⟨r8, data⟩ := rfl
  rw [sound_r4_iff, convertInternal_r4 (by decide), hextend, lowInt_mk, hresult, htruncated]
  dsimp only
  rw [hdata]
  split <;> split <;> (try split) <;> omega

/-- A real number stays as it is when the type does. -/
theorem sound_self (h : t.Holds data v) (ht : t.scale ≠ 0) : t.Sound t data v := by
  have hsame : t.truncated t v = v := Int.mul_ediv_cancel _ (by positivity)
  have hextend : (NumericBlock.mk t data).extend t = ⟨t, data⟩ := by
    cases t with
    | r4 => rfl
    | r8 => rfl
    | _ => exact absurd rfl ht
  have hresult : (convertInternal ⟨t, data⟩ t).data = data := by
    rw [convertInternal, hextend, if_neg (show ¬t.scale ≠ t.scale from fun hne => hne rfl)]
    cases t with
    | r4 => rfl
    | r8 => rfl
    | _ => exact absurd rfl ht
  rw [Sound, hresult, hsame]
  exact ⟨fun _ => h, fun hout => absurd h.1 hout⟩

/-- A conversion gives the truncated number, or the extreme for one that is too large, just when
it is neither from the upper half of the `U8` nor from an `R8` to the shorter `R4` with bits that
are lost. -/
theorem sound_iff_exact (t et : NumericType) (data : BitVec 64) (v : Int) (h : t.Holds data v) :
    t.Sound et data v ↔ t.Exact et v := by
  rw [Exact]
  by_cases ht : t.scale = 0
  · by_cases he : et.scale = 0
    · refine iff_of_true (sound_of_scale_zero h ht he) ⟨fun hu => ?_, fun hr => ?_⟩
      · exact absurd hu.2.2 (by omega)
      · exact absurd ht (by rw [hr.1]; decide)
    · have hnot : t ≠ r8 := by
        rintro rfl
        exact absurd ht (by decide)
      have hfrom : t.Sound et data v ↔ ¬(t = u8 ∧ 2 ^ 63 ≤ v) := by
        cases et with
        | r4 => exact sound_r4_of_integer h ht
        | r8 => exact sound_r8_of_integer h ht
        | _ => exact absurd rfl he
      have hpos : 0 < et.scale := by
        cases et <;> first | decide | exact absurd rfl he
      rw [hfrom]
      tauto
  · have hnot : t ≠ u8 := by
      rintro rfl
      exact ht rfl
    by_cases he : et.scale = 0
    · refine iff_of_true (sound_of_real_integer h ht he) ⟨fun hu => hnot hu.1, fun hr => ?_⟩
      exact absurd he (by rw [hr.2.1]; decide)
    · cases t with
      | r4 =>
          have hsound : r4.Sound et data v := by
            cases et with
            | r4 => exact sound_self h (by decide)
            | r8 => exact sound_r8_of_r4 h
            | _ => exact absurd rfl he
          exact iff_of_true hsound ⟨nofun, nofun⟩
      | r8 =>
          cases et with
          | r4 =>
              rw [sound_r4_of_r8 h]
              simp only [reduceCtorEq, false_and, not_false_eq_true, true_and]
          | r8 => exact iff_of_true (sound_self h (by decide)) ⟨nofun, nofun⟩
          | _ => exact absurd rfl he
      | _ => exact absurd rfl ht

/-- The smallest `R8` becomes the largest `R4`. -/
theorem not_sound_least :
    ¬∀ (t et : NumericType) (data : BitVec 64) (v : Int), t.Holds data v → t.Sound et data v := by
  intro h
  have hholds : r8.Holds 1 1 := holds_r8.mpr (by decide)
  have hsound := sound_r4_iff.mp (h r8 r4 1 1 hholds)
  revert hsound
  decide +kernel

theorem sound_least : r8.Sound r4 1 1 ↔ r8.Exact r4 1 :=
  sound_iff_exact r8 r4 1 1 (holds_r8.mpr (by decide))

end NumericType

end TinyCLR.HeapBlock
