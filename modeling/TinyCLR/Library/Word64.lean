import Mathlib

/-!
# Words of 64 bits as numbers

A word is read as a signed or an unsigned number; results that do not fit are reduced. Shifting a
word up and down again leaves the number in its lowest bits.
-/

namespace Word64

/-- The number that a word stands for. -/
def num (signed : Bool) (w : BitVec 64) : Int := if signed then w.toInt else w.toNat

/-- The number that is left of a result. -/
def reduce (signed : Bool) (x : Int) : Int := if signed then x.bmod (2 ^ 64) else x % 2 ^ 64

/-- The numbers of so many bits. -/
def InWidth (signed : Bool) (bits : Nat) (x : Int) : Prop :=
  if signed then -2 ^ (bits - 1) ≤ x ∧ x < 2 ^ (bits - 1) else 0 ≤ x ∧ x < 2 ^ bits

instance (signed : Bool) (bits : Nat) (x : Int) : Decidable (InWidth signed bits x) :=
  inferInstanceAs (Decidable (if signed = true then -2 ^ (bits - 1) ≤ x ∧ x < 2 ^ (bits - 1) else
    0 ≤ x ∧ x < 2 ^ bits))

/-- The lowest bits, extended to a whole word. -/
def extend (signed : Bool) (bits : Nat) (w : BitVec 64) : BitVec 64 :=
  let shift := 64 - bits
  if shift = 0 then w
  else if signed then (w <<< shift).sshiftRight shift
  else (w <<< shift) >>> shift

variable {signed : Bool} {bits : Nat} {x y : Int} {w : BitVec 64}

theorem num_ofInt (x : Int) : num signed (BitVec.ofInt 64 x) = reduce signed x := by
  cases signed with
  | true => exact BitVec.toInt_ofInt x
  | false =>
      simp only [num, reduce, Bool.false_eq_true, if_false, BitVec.toNat_ofInt]
      rw [Int.toNat_of_nonneg (Int.emod_nonneg _ (by decide))]
      rfl

theorem num_true (w : BitVec 64) : num true w = w.toInt := rfl

theorem num_false (w : BitVec 64) : num false w = w.toNat := rfl

theorem ofInt_num (w : BitVec 64) : BitVec.ofInt 64 (num signed w) = w := by
  cases signed with
  | true => exact BitVec.ofInt_toInt
  | false => rw [num_false, BitVec.ofInt_natCast, BitVec.ofNat_toNat, BitVec.setWidth_eq]

theorem inWidth_unsigned : InWidth false bits x ↔ 0 ≤ x ∧ x < 2 ^ bits := Iff.rfl

theorem inWidth_num (w : BitVec 64) : InWidth signed 64 (num signed w) := by
  cases signed with
  | true => exact ⟨BitVec.le_toInt w, BitVec.toInt_lt⟩
  | false => exact ⟨Int.natCast_nonneg _, Int.ofNat_lt.mpr w.isLt⟩

theorem reduce_of_inWidth (h : InWidth signed 64 x) : reduce signed x = x := by
  cases signed with
  | true =>
      obtain ⟨hle, hlt⟩ := h
      exact Int.bmod_eq_of_le (by omega) (by omega)
  | false => exact Int.emod_eq_of_lt h.1 h.2

theorem inWidth_reduce (x : Int) : InWidth signed 64 (reduce signed x) := by
  rw [← num_ofInt]
  exact inWidth_num _

theorem dvd_reduce_sub (x : Int) : (2 : Int) ^ 64 ∣ reduce signed x - x := by
  cases signed with
  | true => exact Int.dvd_bmod_sub_self
  | false =>
      have h := Int.dvd_self_sub_emod (x := x) (m := 2 ^ 64)
      exact (dvd_sub_comm).mp h

theorem eq_of_dvd_sub (hx : InWidth signed 64 x) (hy : InWidth signed 64 y)
    (h : (2 : Int) ^ 64 ∣ x - y) : x = y := by
  obtain ⟨k, hk⟩ := h
  cases signed with
  | true =>
      obtain ⟨hle, hlt⟩ := hx
      obtain ⟨hle', hlt'⟩ := hy
      omega
  | false =>
      obtain ⟨hle, hlt⟩ := hx
      obtain ⟨hle', hlt'⟩ := hy
      omega

theorem reduce_congr (h : (2 : Int) ^ 64 ∣ x - y) : reduce signed x = reduce signed y := by
  apply eq_of_dvd_sub (inWidth_reduce x) (inWidth_reduce y)
  have hx := @dvd_reduce_sub signed x
  have hy := @dvd_reduce_sub signed y
  have hsplit : reduce signed x - reduce signed y =
      reduce signed x - x - (reduce signed y - y) + (x - y) := by ring
  rw [hsplit]
  exact dvd_add (dvd_sub hx hy) h

theorem num_sub (signed' : Bool) (w b : BitVec 64) :
    num signed (w - b) = reduce signed (num signed w - num signed' b) := by
  have hsub : BitVec.ofInt 64 (num signed w - num signed' b) = w - b := by
    rw [sub_eq_add_neg, BitVec.ofInt_add, BitVec.ofInt_neg, ofInt_num, ofInt_num,
      BitVec.sub_eq_add_neg]
  rw [← hsub, num_ofInt]

/-! ## Extension -/

/-- The lowest bits of a number. -/
theorem dvd_field_sub (hle : bits ≤ 64) (x : Int) :
    (2 : Int) ^ bits ∣ (((BitVec.ofInt 64 x).toNat % 2 ^ bits : Nat) : Int) - x := by
  have hword : ((BitVec.ofInt 64 x).toNat : Int) = x % 2 ^ 64 := @num_ofInt false x
  have hdvd : (2 : Int) ^ bits ∣ 2 ^ 64 := pow_dvd_pow 2 hle
  rw [Int.natCast_emod, hword, Nat.cast_pow, Nat.cast_two, Int.emod_emod_of_dvd x hdvd]
  exact dvd_sub_comm.mp Int.dvd_self_sub_emod

theorem InWidth.mono {bits' : Nat} (h : InWidth signed bits x) (hle : bits ≤ bits') :
    InWidth signed bits' x := by
  cases signed with
  | true =>
      have hpow : (2 : Int) ^ (bits - 1) ≤ 2 ^ (bits' - 1) :=
        pow_le_pow_right₀ (by decide) (Nat.sub_le_sub_right hle 1)
      exact ⟨le_trans (neg_le_neg hpow) h.1, lt_of_lt_of_le h.2 hpow⟩
  | false => exact ⟨h.1, lt_of_lt_of_le h.2 (pow_le_pow_right₀ (by decide) hle)⟩

theorem sshiftRight_shiftLeft {field shift : Nat} {k : Int} (hle : shift ≤ 63)
    (hword : (BitVec.ofNat 64 field).toNat = field)
    (hfield : (field : Int) * 2 ^ shift = x * 2 ^ shift + 2 ^ 64 * k)
    (h : InWidth true (64 - shift) x) :
    (BitVec.ofNat 64 field <<< shift).sshiftRight shift = BitVec.ofInt 64 x := by
  obtain ⟨hlow, hhigh⟩ := h
  have hpos : (0 : Int) < 2 ^ shift := by positivity
  have hsplit : (2 : Int) ^ (64 - shift - 1) * 2 ^ shift = 2 ^ 63 := by
    rw [← pow_add]
    congr 1
    omega
  have hbelow : -2 ^ 63 ≤ x * 2 ^ shift := by
    rw [← hsplit, ← neg_mul]
    exact mul_le_mul_of_nonneg_right hlow hpos.le
  have habove : x * 2 ^ shift < 2 ^ 63 := by
    rw [← hsplit]
    exact mul_lt_mul_of_pos_right hhigh hpos
  have hshifted : ((field : Int) * 2 ^ shift).bmod (2 ^ 64) = x * 2 ^ shift := by
    rw [hfield, Int.bmod_eq_iff (by decide)]
    refine ⟨by omega, by omega, -k, ?_⟩
    push_cast
    ring
  have hwhole : InWidth true 64 x := @InWidth.mono true (64 - shift) x 64 ⟨hlow, hhigh⟩ (by omega)
  apply BitVec.eq_of_toInt_eq
  rw [BitVec.toInt_sshiftRight, BitVec.toInt_shiftLeft, hword, Int.shiftRight_eq_div_pow,
    Nat.shiftLeft_eq, Nat.cast_mul, Nat.cast_pow, Nat.cast_two, hshifted,
    Int.mul_ediv_cancel _ hpos.ne']
  exact (reduce_of_inWidth hwhole).symm.trans (num_ofInt x).symm

theorem ushiftRight_shiftLeft {field shift : Nat} (hle : shift ≤ 64) (h : field < 2 ^ (64 - shift)) :
    (BitVec.ofNat 64 field <<< shift) >>> shift = BitVec.ofNat 64 field := by
  have hpow : (2 : Nat) ^ (64 - shift) * 2 ^ shift = 2 ^ 64 := by
    rw [← pow_add, Nat.sub_add_cancel hle]
  have hpos : 0 < 2 ^ shift := by positivity
  have hshifted : field * 2 ^ shift < 2 ^ 64 := by
    rw [← hpow]
    exact Nat.mul_lt_mul_of_pos_right h hpos
  have hword : field < 2 ^ 64 := lt_of_le_of_lt (Nat.le_mul_of_pos_right field hpos) hshifted
  apply BitVec.eq_of_toNat_eq
  rw [BitVec.toNat_ushiftRight, BitVec.toNat_shiftLeft, BitVec.toNat_ofNat,
    Nat.mod_eq_of_lt hword, Nat.shiftLeft_eq, Nat.mod_eq_of_lt hshifted, Nat.shiftRight_eq_div_pow,
    Nat.mul_div_cancel _ hpos]

/-- A number of so many bits is extended from them. -/
theorem extend_field (hpos : 0 < bits) (hle : bits ≤ 64) (h : InWidth signed bits x) :
    extend signed bits (BitVec.ofNat 64 ((BitVec.ofInt 64 x).toNat % 2 ^ bits)) =
      BitVec.ofInt 64 x := by
  obtain ⟨k, hk⟩ := dvd_field_sub hle x
  have hlow : (BitVec.ofInt 64 x).toNat % 2 ^ bits < 2 ^ bits := Nat.mod_lt _ (by positivity)
  rw [extend]
  by_cases hshift : 64 - bits = 0
  · obtain rfl : bits = 64 := by omega
    rw [if_pos hshift, Nat.mod_eq_of_lt (BitVec.isLt _), BitVec.ofNat_toNat, BitVec.setWidth_eq]
  · generalize (BitVec.ofInt 64 x).toNat % 2 ^ bits = field at hk hlow ⊢
    have hback : 64 - (64 - bits) = bits := by omega
    rw [if_neg hshift]
    cases signed with
    | true =>
        have hfits : field < 2 ^ 64 := lt_of_lt_of_le hlow (Nat.pow_le_pow_right (by decide) hle)
        have hpow : (2 : Int) ^ bits * 2 ^ (64 - bits) = 2 ^ 64 := by
          rw [← pow_add, Nat.add_sub_of_le hle]
        rw [if_pos rfl]
        apply sshiftRight_shiftLeft (k := k) (by omega)
        · rw [BitVec.toNat_ofNat, Nat.mod_eq_of_lt hfits]
        · rw [← hpow, sub_eq_iff_eq_add.mp hk]
          ring
        · rwa [hback]
    | false =>
        obtain ⟨hnonneg, hhigh⟩ := h
        have hsame : (field : Int) = x := by
          have hmod : (field : Int) % 2 ^ bits = x % 2 ^ bits :=
            Int.emod_eq_emod_iff_emod_sub_eq_zero.mpr (Int.emod_eq_zero_of_dvd ⟨k, hk⟩)
          have hfield : (field : Int) < 2 ^ bits := mod_cast hlow
          rwa [Int.emod_eq_of_lt (Int.natCast_nonneg field) hfield,
            Int.emod_eq_of_lt hnonneg hhigh] at hmod
        rw [if_neg Bool.false_ne_true, ushiftRight_shiftLeft (by omega) (by rwa [hback]), ← hsame,
          BitVec.ofInt_natCast]

end Word64
