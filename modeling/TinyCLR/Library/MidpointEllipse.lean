import Mathlib

/-!
# The midpoint walk along a quarter of an ellipse

The quarter of `x² / a² + y² / b² = 1` with `0 ≤ x` and `0 ≤ y`, walked pixel by pixel from
`(0, b)`: east or south-east while the arc is flat, south or south-east once it is steep. Every
quantity is four times the value of `b² x² + a² y² - a² b²` at a point halfway between two pixels,
so that it is an integer.
-/

namespace MidpointEllipse

/-- The polynomial of the ellipse half a row below the pixel. -/
def below (a b x y : ℤ) : ℤ := 4 * b ^ 2 * x ^ 2 + a ^ 2 * (2 * y - 1) ^ 2 - 4 * a ^ 2 * b ^ 2

/-- The polynomial half a column to the right of the next row's pixel. -/
def rightOfNext (a b x y : ℤ) : ℤ :=
  b ^ 2 * (2 * x + 1) ^ 2 + 4 * a ^ 2 * (y - 1) ^ 2 - 4 * a ^ 2 * b ^ 2

/-- Positive as long as the arc falls by less than a row for each column. -/
def flatness (a b x y : ℤ) : ℤ := 4 * a ^ 2 * (2 * y - 1) - 8 * b ^ 2 * x

variable {a b x y : ℤ}

theorem below_east : below a b (x + 1) y = below a b x y + 4 * b ^ 2 * (2 * x + 1) := by
  unfold below
  ring

theorem below_southEast :
    below a b (x + 1) (y - 1) = below a b (x + 1) y - 8 * a ^ 2 * (y - 1) := by
  unfold below
  ring

theorem below_southEast_eq_flatness : below a b (x + 1) (y - 1) =
    below a b x y + 4 * b ^ 2 + 4 * a ^ 2 - flatness a b x y := by
  unfold below flatness
  ring

theorem flatness_east : flatness a b (x + 1) y = flatness a b x y - 8 * b ^ 2 := by
  unfold flatness
  ring

theorem flatness_southEast :
    flatness a b (x + 1) (y - 1) = flatness a b x y - (8 * a ^ 2 + 8 * b ^ 2) := by
  unfold flatness
  ring

theorem flatness_south : flatness a b x (y - 1) = flatness a b x y - 8 * a ^ 2 := by
  unfold flatness
  ring

theorem rightOfNext_eq_below : rightOfNext a b x y =
    below a b x y + 4 * b ^ 2 * x + b ^ 2 + 3 * a ^ 2 - 4 * a ^ 2 * y := by
  unfold rightOfNext below
  ring

theorem rightOfNext_southEast : rightOfNext a b (x + 1) (y - 1) =
    rightOfNext a b x y + 8 * b ^ 2 * (x + 1) + 4 * a ^ 2 * (3 - 2 * y) := by
  unfold rightOfNext
  ring

theorem rightOfNext_south :
    rightOfNext a b x (y - 1) = rightOfNext a b x y + 4 * a ^ 2 * (3 - 2 * y) := by
  unfold rightOfNext
  ring

/-- Where the walk can be while it chooses between east and south-east. -/
structure Flat (a b x y : ℤ) : Prop where
  x_nonneg : 0 ≤ x
  x_le : x ≤ a
  y_nonneg : 0 ≤ y
  y_le : y ≤ b
  inside : 0 < flatness a b x y → below a b x y < 0
  below_lt : below a b x y < 4 * a ^ 2 + 4 * b ^ 2
  le_below : -(8 * a ^ 2 * y) ≤ below a b x y
  start_le_below : -(4 * a ^ 2 * (2 * b - 1)) ≤ below a b x y
  lt_flatness : -(8 * a ^ 2 + 8 * b ^ 2) < flatness a b x y
  flatness_le : flatness a b x y ≤ 4 * a ^ 2 * (2 * b - 1)

/-- Where the walk can be while it chooses between south and south-east. -/
structure Steep (a b x y : ℤ) : Prop where
  x_nonneg : 0 ≤ x
  x_le : x ≤ a
  y_nonneg : 0 ≤ y
  y_le : y ≤ b
  flatness_nonpos : flatness a b x y ≤ 0
  le_rightOfNext : -(8 * a * b ^ 2 + 3 * a ^ 2) ≤ rightOfNext a b x y
  rightOfNext_lt : 0 < y → rightOfNext a b x y < 8 * b ^ 2 * (a + 1) + 12 * a ^ 2

/-- The walk starts at the top of the ellipse. -/
theorem Flat.top (ha : 0 < a) (hb : 0 < b) : Flat a b 0 b := by
  have ha2 : 0 < a ^ 2 := by positivity
  have hb2 : 0 < b ^ 2 := by positivity
  have htop : below a b 0 b = a ^ 2 - 4 * (a ^ 2 * b) := by
    unfold below
    ring
  have hflat : flatness a b 0 b = 4 * a ^ 2 * (2 * b - 1) := by
    unfold flatness
    ring
  have hab : a ^ 2 ≤ a ^ 2 * b := le_mul_of_one_le_right ha2.le hb
  constructor
  · exact le_rfl
  · exact ha.le
  · exact hb.le
  · exact le_rfl
  · intro _
    rw [htop]
    linarith
  · rw [htop]
    linarith
  · rw [htop]
    linarith
  · rw [htop]
    linarith
  · rw [hflat]
    linarith
  · exact hflat.le

/-- Under the arc's flat part there is still a column to the right. -/
theorem Flat.x_lt (h : Flat a b x y) (hflat : 0 < flatness a b x y) : x < a := by
  have hin := h.inside hflat
  have ha : 0 ≤ a := h.x_nonneg.trans h.x_le
  have hb : b ^ 2 * x ^ 2 < b ^ 2 * a ^ 2 := by
    have hrow : 0 ≤ a ^ 2 * (2 * y - 1) ^ 2 := by positivity
    unfold below at hin
    linarith
  exact lt_of_pow_lt_pow_left₀ 2 ha (lt_of_mul_lt_mul_left hb (sq_nonneg b))

theorem Flat.east (h : Flat a b x y) (hflat : 0 < flatness a b x y)
    (hbelow : below a b (x + 1) y < 0) : Flat a b (x + 1) y := by
  have hgrow : 0 ≤ 4 * b ^ 2 * (2 * x + 1) := by
    have := h.x_nonneg
    positivity
  have heast := below_east (a := a) (b := b) (x := x) (y := y)
  constructor
  · linarith [h.x_nonneg]
  · exact h.x_lt hflat
  · exact h.y_nonneg
  · exact h.y_le
  · intro _
    exact hbelow
  · nlinarith [sq_nonneg a, sq_nonneg b]
  · linarith [h.le_below]
  · linarith [h.start_le_below]
  · rw [flatness_east]
    nlinarith [sq_nonneg a]
  · rw [flatness_east]
    linarith [h.flatness_le, sq_nonneg b]

theorem Flat.southEast (h : Flat a b x y) (hflat : 0 < flatness a b x y)
    (hbelow : 0 ≤ below a b (x + 1) y) : Flat a b (x + 1) (y - 1) := by
  have hy : 0 < y := by
    by_contra hy
    have hx : 0 ≤ 8 * b ^ 2 * x := by
      have := h.x_nonneg
      positivity
    unfold flatness at hflat
    nlinarith [sq_nonneg a]
  have hin := h.inside hflat
  have hlow : -(8 * a ^ 2 * (y - 1)) ≤ below a b (x + 1) (y - 1) := by
    rw [below_southEast]
    linarith
  have hhigh : a ^ 2 * y ≤ a ^ 2 * b := mul_le_mul_of_nonneg_left h.y_le (sq_nonneg a)
  constructor
  · linarith [h.x_nonneg]
  · exact h.x_lt hflat
  · omega
  · linarith [h.y_le]
  · intro hnext
    rw [flatness_southEast] at hnext
    rw [below_southEast_eq_flatness]
    nlinarith [sq_nonneg a, sq_nonneg b]
  · rw [below_southEast_eq_flatness]
    linarith
  · exact hlow
  · nlinarith [sq_nonneg a]
  · rw [flatness_southEast]
    linarith
  · rw [flatness_southEast]
    linarith [h.flatness_le, sq_nonneg a, sq_nonneg b]

/-- What the walk compares with zero stays small on the flat part. -/
theorem Flat.below_east_bounds (h : Flat a b x y) :
    -(4 * a ^ 2 * (2 * b - 1)) ≤ below a b (x + 1) y ∧
      below a b (x + 1) y < 8 * b ^ 2 * (a + 1) + 12 * a ^ 2 := by
  have hx : b ^ 2 * x ≤ b ^ 2 * a := mul_le_mul_of_nonneg_left h.x_le (sq_nonneg b)
  have hx0 : 0 ≤ b ^ 2 * x := mul_nonneg (sq_nonneg b) h.x_nonneg
  rw [below_east]
  constructor
  · nlinarith [h.start_le_below, sq_nonneg b]
  · nlinarith [h.below_lt, sq_nonneg a, sq_nonneg b]

/-- Once the arc falls faster than it runs, the walk goes on by rows. -/
theorem Flat.steep (h : Flat a b x y) (hflat : flatness a b x y ≤ 0) : Steep a b x y := by
  have hx : b ^ 2 * x ≤ b ^ 2 * a := mul_le_mul_of_nonneg_left h.x_le (sq_nonneg b)
  have hy0 : 0 ≤ a ^ 2 * y := mul_nonneg (sq_nonneg a) h.y_nonneg
  have hnext := rightOfNext_eq_below (a := a) (b := b) (x := x) (y := y)
  have hs := hflat
  unfold flatness at hs
  constructor
  · exact h.x_nonneg
  · exact h.x_le
  · exact h.y_nonneg
  · exact h.y_le
  · exact hflat
  · nlinarith [h.le_below, sq_nonneg a, sq_nonneg b]
  · intro _
    have hx0 : 0 ≤ b ^ 2 * x := mul_nonneg (sq_nonneg b) h.x_nonneg
    nlinarith [h.below_lt, sq_nonneg a, sq_nonneg b]

theorem Steep.southEast (h : Steep a b x y) (hy : 0 < y) (hnext : rightOfNext a b x y < 0) :
    Steep a b (x + 1) (y - 1) := by
  have ha : 0 ≤ a := h.x_nonneg.trans h.x_le
  have hflat := h.flatness_nonpos
  have hx : x < a := by
    have hlt : b ^ 2 * (2 * x + 1) ^ 2 < b ^ 2 * (2 * a) ^ 2 := by
      unfold rightOfNext at hnext
      nlinarith [mul_nonneg (sq_nonneg a) (sq_nonneg (y - 1))]
    have := lt_of_pow_lt_pow_left₀ 2 (by positivity) (lt_of_mul_lt_mul_left hlt (sq_nonneg b))
    omega
  have hbx : b ^ 2 * (x + 1) ≤ b ^ 2 * a := mul_le_mul_of_nonneg_left hx (sq_nonneg b)
  have hay : a ^ 2 ≤ a ^ 2 * y := le_mul_of_one_le_right (sq_nonneg a) hy
  have hstep := rightOfNext_southEast (a := a) (b := b) (x := x) (y := y)
  have hs := hflat
  unfold flatness at hs
  constructor
  · linarith [h.x_nonneg]
  · exact hx
  · omega
  · linarith [h.y_le]
  · rw [flatness_southEast]
    linarith [sq_nonneg a, sq_nonneg b]
  · nlinarith [h.le_rightOfNext, sq_nonneg a, sq_nonneg b]
  · intro _
    nlinarith [sq_nonneg a, sq_nonneg b]

theorem Steep.south (h : Steep a b x y) (hy : 0 < y) (hnext : 0 ≤ rightOfNext a b x y) :
    Steep a b x (y - 1) := by
  have hflat := h.flatness_nonpos
  have hbx : b ^ 2 * x ≤ b ^ 2 * a := mul_le_mul_of_nonneg_left h.x_le (sq_nonneg b)
  have hs := hflat
  unfold flatness at hs
  constructor
  · exact h.x_nonneg
  · exact h.x_le
  · omega
  · linarith [h.y_le]
  · rw [flatness_south]
    linarith [sq_nonneg a]
  · rw [rightOfNext_south]
    nlinarith [sq_nonneg a]
  · intro hpos
    have hay : a ^ 2 * 2 ≤ a ^ 2 * y := mul_le_mul_of_nonneg_left (by omega) (sq_nonneg a)
    rw [rightOfNext_south]
    linarith [h.rightOfNext_lt hy, sq_nonneg a]

end MidpointEllipse
