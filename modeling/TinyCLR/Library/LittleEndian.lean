import Mathlib

/-!
# Little-endian fields in memory

A memory maps addresses to bytes. A field of some width is read as a natural number, its lowest
byte first, and writing one changes the bytes of its own range only.
-/

namespace LittleEndian

abbrev Memory := Nat → BitVec 8

/-- The number in the `width` bytes from `a` on. -/
def get (m : Memory) (a : Nat) : Nat → Nat
  | 0 => 0
  | width + 1 => (m a).toNat + 256 * get m (a + 1) width

/-- The memory after the lowest `width` bytes of `v` have been written from `a` on. -/
def put (m : Memory) (a width v : Nat) : Memory :=
  fun i => if a ≤ i ∧ i < a + width then BitVec.ofNat 8 (v / 256 ^ (i - a)) else m i

/-- The memory after the given bytes have been written from `a` on. -/
def putBytes (m : Memory) (a : Nat) (bytes : List (BitVec 8)) : Memory :=
  fun i => if a ≤ i ∧ i < a + bytes.length then bytes.getD (i - a) 0 else m i

variable {m m' : Memory}

theorem get_lt (m : Memory) (a width : Nat) : get m a width < 256 ^ width := by
  induction width generalizing a with
  | zero => exact Nat.one_pos
  | succ width ih =>
      have hbyte := (m a).isLt
      have hrest := ih (a + 1)
      rw [get, pow_succ]
      omega

theorem get_congr {a width : Nat} (h : ∀ i, a ≤ i → i < a + width → m i = m' i) :
    get m a width = get m' a width := by
  induction width generalizing a with
  | zero => rfl
  | succ width ih =>
      have hbyte := h a le_rfl (by omega)
      have hrest := ih (a := a + 1) fun i hi hlt => h i (by omega) (by omega)
      rw [get, get, hbyte, hrest]

theorem get_eq_zero {a width : Nat} (h : ∀ i, a ≤ i → i < a + width → m i = 0) :
    get m a width = 0 := by
  induction width generalizing a with
  | zero => rfl
  | succ width ih =>
      rw [get, h a le_rfl (by omega), ih fun i hi hlt => h i (by omega) (by omega)]
      rfl

/-- The first byte of a field decides whether it can be zero. -/
theorem get_ne_zero {a width : Nat} (h : m a ≠ 0) : get m a (width + 1) ≠ 0 := by
  have hne : (m a).toNat ≠ 0 := fun hzero => h (BitVec.eq_of_toNat_eq hzero)
  rw [get]
  omega

theorem put_outside {a width v i : Nat} (h : i < a ∨ a + width ≤ i) :
    put m a width v i = m i :=
  if_neg (by omega)

theorem get_put_disjoint {a width v b width' : Nat} (h : b + width' ≤ a ∨ a + width ≤ b) :
    get (put m a width v) b width' = get m b width' :=
  get_congr fun _ _ _ => put_outside (by omega)

theorem get_putBytes_disjoint {a b width : Nat} {bytes : List (BitVec 8)}
    (h : b + width ≤ a ∨ a + bytes.length ≤ b) :
    get (putBytes m a bytes) b width = get m b width :=
  get_congr fun _ _ _ => if_neg (by omega)

/-- A field reads back what was written to it. -/
theorem get_put_same (m : Memory) (a width v : Nat) :
    get (put m a width v) a width = v % 256 ^ width := by
  suffices h : ∀ (m' : Memory) (w b v : Nat),
      (∀ i, i < w → m' (b + i) = BitVec.ofNat 8 (v / 256 ^ i)) → get m' b w = v % 256 ^ w by
    refine h _ width a v fun i hi => ?_
    simp only [put, if_pos (show a ≤ a + i ∧ a + i < a + width by omega), Nat.add_sub_cancel_left]
  intro m' w
  induction w with
  | zero => exact fun b v _ => (Nat.mod_one v).symm
  | succ w ih =>
      intro b v hbytes
      have hfirst := hbytes 0 (Nat.succ_pos w)
      have hrest : get m' (b + 1) w = v / 256 % 256 ^ w := by
        refine ih (b + 1) (v / 256) fun i hi => ?_
        have := hbytes (i + 1) (by omega)
        rw [show b + 1 + i = b + (i + 1) by omega, this, pow_succ', Nat.div_div_eq_div_mul]
      rw [get, hrest]
      simp only [Nat.add_zero, pow_zero, Nat.div_one] at hfirst
      rw [hfirst, BitVec.toNat_ofNat, show 256 ^ (w + 1) = 256 * 256 ^ w from pow_succ' 256 w,
        Nat.mod_mul]

end LittleEndian
