import Mathlib

/-!
# Windows over a text

A ring of `size` cells shows the latest symbols of a text, symbol `j` in the cell `j % size`. The
text goes on to the left without end, so that a window is full from the beginning.
-/

namespace SlidingWindow

variable {α : Type*}

/-- The cell of a symbol. -/
def cell (size : Nat) (j : Int) : Nat := (j % size).toNat

/-- The window behind the symbols in front of `r`; there are no cells from `size` on. -/
def contents (text : Int → α) (blank : α) (size : Nat) (r : Int) (i : Nat) : α :=
  if i < size then text (r - 1 - (r - 1 - i) % size) else blank

variable {size : Nat}

theorem cell_lt (hsize : 0 < size) (j : Int) : cell size j < size := by
  have hpos : (0 : Int) < size := Int.natCast_pos.mpr hsize
  have hlt := Int.emod_lt_of_pos j hpos
  have hnonneg := Int.emod_nonneg j hpos.ne'
  rw [cell]
  omega

theorem cast_cell (hsize : 0 < size) (j : Int) : (cell size j : Int) = j % size :=
  Int.toNat_of_nonneg (Int.emod_nonneg j (Int.natCast_pos.mpr hsize).ne')

/-- Two symbols that are less than a window apart share a cell only if they are the same. -/
theorem cell_inj (hsize : 0 < size) {j k : Int} (hlow : j - size < k) (hhigh : k < j + size) :
    cell size j = cell size k ↔ j = k := by
  constructor
  · intro h
    have hmod : j % size = k % size := by rw [← cast_cell hsize, ← cast_cell hsize, h]
    have hdvd : (size : Int) ∣ j - k :=
      Int.dvd_of_emod_eq_zero (Int.emod_eq_emod_iff_emod_sub_eq_zero.mp hmod)
    have habs : |j - k| < size := abs_lt.mpr ⟨by omega, by omega⟩
    exact Int.sub_eq_zero.mp (Int.eq_zero_of_abs_lt_dvd hdvd habs)
  · rintro rfl
    rfl

@[simp] theorem cell_natCast (size n : Nat) : cell size n = n % size := by
  rw [cell, ← Int.natCast_emod, Int.toNat_natCast]

theorem cell_add (hsize : 0 < size) (j : Int) (k : Nat) :
    (cell size j + k) % size = cell size (j + k) := by
  rw [← cell_natCast size (cell size j + k), cell, Int.natCast_add, cast_cell hsize,
    Int.emod_add_emod]
  rfl

theorem cell_add_size (j : Int) : cell size (j + size) = cell size j := by
  rw [cell, cell, Int.add_emod_right]

theorem cell_sub_size (j : Int) : cell size (j - size) = cell size j := by
  rw [← cell_add_size (j - size), Int.sub_add_cancel]

variable {text : Int → α} {blank : α}

/-- A symbol that is recent enough stands in its cell. -/
theorem contents_cell (hsize : 0 < size) {r j : Int} (hlow : r - size ≤ j) (hhigh : j < r) :
    contents text blank size r (cell size j) = text j := by
  rw [contents, if_pos (cell_lt hsize j), cast_cell hsize]
  congr 1
  have hmod : (r - 1 - j % size) % size = r - 1 - j := by
    rw [Int.sub_emod, Int.emod_emod_of_dvd _ dvd_rfl, ← Int.sub_emod]
    exact Int.emod_eq_of_lt (by omega) (by omega)
  rw [hmod]
  omega

/-- The windows before and after a symbol differ in its cell only. -/
theorem contents_of_ne (hsize : 0 < size) {r : Int} {i : Nat} (h : i ≠ cell size r) :
    contents text blank size (r + 1) i = contents text blank size r i := by
  by_cases hi : i < size
  · obtain ⟨j, hlow, hhigh, rfl⟩ : ∃ j : Int, r - size ≤ j ∧ j < r ∧ i = cell size j := by
      have hpos : (0 : Int) < size := Int.natCast_pos.mpr hsize
      have hnonneg := Int.emod_nonneg (r - 1 - i) hpos.ne'
      have hlt := Int.emod_lt_of_pos (r - 1 - i) hpos
      refine ⟨r - 1 - (r - 1 - i) % size, by omega, by omega, ?_⟩
      have hcast : (i : Int) = (r - 1 - (r - 1 - i) % size) % size := by
        rw [Int.sub_emod, Int.emod_emod_of_dvd _ dvd_rfl, ← Int.sub_emod, Int.sub_sub_self]
        exact (Int.emod_eq_of_lt (Int.natCast_nonneg i) (by omega)).symm
      rw [cell, ← hcast, Int.toNat_natCast]
    have hne : j ≠ r - size := by
      rintro rfl
      exact h (cell_sub_size r)
    rw [contents_cell hsize hlow hhigh, contents_cell hsize (by omega) (by omega)]
  · rw [contents, contents, if_neg hi, if_neg hi]

variable (text blank)

/-- A symbol is written into the cell of the one that leaves the window. -/
theorem contents_push (hsize : 0 < size) (r : Int) :
    Function.update (contents text blank size r) (cell size r) (text r) =
      contents text blank size (r + 1) := by
  funext i
  by_cases h : i = cell size r
  · subst h
    rw [Function.update_self, contents_cell hsize (by omega) (by omega)]
  · rw [Function.update_of_ne h, contents_of_ne hsize h]

/-- The symbol that has left the window is put back. -/
theorem contents_pop (hsize : 0 < size) (r : Int) :
    Function.update (contents text blank size (r + 1)) (cell size r) (text (r - size)) =
      contents text blank size r := by
  funext i
  by_cases h : i = cell size r
  · subst h
    rw [Function.update_self, ← cell_sub_size r, contents_cell hsize (by omega) (by omega)]
  · rw [Function.update_of_ne h, contents_of_ne hsize h]

end SlidingWindow
