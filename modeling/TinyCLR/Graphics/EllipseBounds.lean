import Mathlib
import TinyCLR.Library.MidpointEllipse
import TinyCLR.Graphics.Ellipse

/-!
# Where the outline of an ellipse goes

As long as no `int` overflows, the two loops follow the midpoint walk: they end after a row or a
column for each callback, and no callback leaves the quarter's bounding box.
-/

namespace TinyCLR.Graphics

open MidpointEllipse

def InInt (n : ℤ) : Prop := -2 ^ 31 ≤ n ∧ n < 2 ^ 31

theorem toInt_ofInt {n : ℤ} (h : InInt n) : (Int32.ofInt n).toInt = n :=
  Int32.toInt_ofInt_of_le h.1 h.2

theorem inInt_toInt (v : Int32) : InInt v.toInt :=
  ⟨v.le_toInt, v.toInt_lt⟩

theorem ofInt_le {m n : ℤ} (hm : InInt m) (hn : InInt n) :
    Int32.ofInt m ≤ Int32.ofInt n ↔ m ≤ n := by
  rw [Int32.le_iff_toInt_le, toInt_ofInt hm, toInt_ofInt hn]

theorem add_one_eq {v : Int32} {n : ℤ} (h : v = .ofInt n) : v + 1 = .ofInt (n + 1) := by
  rw [h, Int32.ofInt_add]
  rfl

theorem sub_one_eq {v : Int32} {n : ℤ} (h : v = .ofInt n) : v - 1 = .ofInt (n - 1) := by
  rw [h, Int32.ofInt_sub]
  rfl

theorem ofInt_pos {n : ℤ} (h : InInt n) : 0 < Int32.ofInt n ↔ 0 < n := by
  rw [Int32.lt_iff_toInt_lt, toInt_ofInt h, Int32.toInt_zero]

theorem ofInt_nonneg {n : ℤ} (h : InInt n) : 0 ≤ Int32.ofInt n ↔ 0 ≤ n := by
  rw [Int32.le_iff_toInt_le, toInt_ofInt h, Int32.toInt_zero]

theorem ofInt_negative {n : ℤ} (h : InInt n) : Int32.ofInt n < 0 ↔ n < 0 := by
  rw [Int32.lt_iff_toInt_lt, toInt_ofInt h, Int32.toInt_zero]

/-- The offsets lie in the bounding box of the quarter. -/
def Call.Inside (radiusX radiusY : Int32) (c : Call) : Prop :=
  0 ≤ c.x ∧ c.x ≤ radiusX ∧ 0 ≤ c.y ∧ c.y ≤ radiusY

instance (radiusX radiusY : Int32) (c : Call) : Decidable (c.Inside radiusX radiusY) :=
  inferInstanceAs (Decidable (_ ∧ _))

/-- The next callback is not to the left and not above. -/
def Call.Falls (c c' : Call) : Prop :=
  c.x ≤ c'.x ∧ c'.y ≤ c.y

theorem inside_ofInt {radiusX radiusY : Int32} {x y : ℤ} (hx : 0 ≤ x)
    (hxr : x ≤ radiusX.toInt) (hy : 0 ≤ y) (hyr : y ≤ radiusY.toInt) :
    Call.Inside radiusX radiusY ⟨.ofInt x, .ofInt y⟩ := by
  have hX := inInt_toInt radiusX
  have hY := inInt_toInt radiusY
  have hxi : InInt x := ⟨by linarith, hxr.trans_lt hX.2⟩
  have hyi : InInt y := ⟨by linarith, hyr.trans_lt hY.2⟩
  refine ⟨?_, ?_, ?_, ?_⟩
  · exact (ofInt_nonneg hxi).mpr hx
  · rw [Int32.le_iff_toInt_le, toInt_ofInt hxi]
    exact hxr
  · exact (ofInt_nonneg hyi).mpr hy
  · rw [Int32.le_iff_toInt_le, toInt_ofInt hyi]
    exact hyr

section Circle

/-- The circle's loop at `x` and `y`. A radius of `2 ^ 31 - 1` makes `p` wrap at the start, and
the row is left at once. -/
structure CircleLoop.At (radius x y : ℤ) (s : CircleLoop) : Prop where
  x_eq : s.x = .ofInt x
  y_eq : s.y = .ofInt y
  yNext_eq : s.yNext = .ofInt y
  x_nonneg : 0 ≤ x
  x_lt : x < 2 ^ 31
  y_ge : -1 ≤ y
  y_le : y ≤ radius
  y_lt : y < 2 ^ 31
  falls : y = 2 ^ 31 - 1 → x = 0 ∧ ¬s.p < 0

variable {radius : Int32} {x y : ℤ} {s : CircleLoop}

theorem CircleLoop.at_start (h : 0 < radius) :
    (CircleLoop.start radius).At radius.toInt 0 radius.toInt := by
  have hpos : 0 < radius.toInt := Int32.lt_iff_toInt_lt.mp h
  constructor
  · rfl
  · exact (Int32.ofInt_toInt radius).symm
  · exact (Int32.ofInt_toInt radius).symm
  · exact le_rfl
  · norm_num
  · linarith
  · exact le_rfl
  · exact radius.toInt_lt
  · intro htop
    have hmax : radius = 2147483647 := by
      rw [← Int32.ofInt_toInt radius, htop]
      rfl
    subst hmax
    exact ⟨rfl, by decide⟩

theorem CircleLoop.At.step (h : s.At radius.toInt x y) (hxy : x ≤ y) :
    ∃ y' ≤ y, s.step.At radius.toInt (x + 1) y' := by
  have hone := add_one_eq h.x_eq
  have hfall := sub_one_eq h.yNext_eq
  have hx := h.x_nonneg
  have hle := h.y_le
  have hlt := h.y_lt
  by_cases hp : s.p < 0
  · have htop : y ≠ 2 ^ 31 - 1 := by
      intro htop
      exact (h.falls htop).2 hp
    refine ⟨y, le_rfl, ?_⟩
    rw [CircleLoop.step, if_pos hp]
    constructor
    · exact hone
    · exact h.yNext_eq
    · exact h.yNext_eq
    · omega
    · omega
    · exact h.y_ge
    · exact hle
    · exact hlt
    · intro h
      exact absurd h htop
  · refine ⟨y - 1, by omega, ?_⟩
    rw [CircleLoop.step, if_neg hp]
    constructor
    · exact hone
    · exact hfall
    · exact hfall
    · omega
    · have htop := h.falls
      omega
    · omega
    · omega
    · omega
    · omega

theorem CircleLoop.At.calls (h : s.At radius.toInt x y) (hxy : x ≤ y) :
    s.calls.length ≤ 2 ∧ ∀ c ∈ s.calls, c.Inside radius radius := by
  have hle := h.y_le
  have hx := h.x_nonneg
  have hout : Call.Inside radius radius ⟨s.x, s.y⟩ := by
    rw [h.x_eq, h.y_eq]
    exact inside_ofInt hx (hxy.trans hle) (hx.trans hxy) hle
  have hmirror : Call.Inside radius radius ⟨s.y, s.x⟩ :=
    ⟨hout.2.2.1, hout.2.2.2, hout.1, hout.2.1⟩
  unfold CircleLoop.calls
  split <;> simp [hout, hmirror]

theorem circleLoop_run (fuel : ℕ) (h : s.At radius.toInt x y)
    (hfuel : (y + 1 - x).toNat < fuel) :
    ∃ calls, circleLoop fuel s = some calls ∧ calls.length ≤ 2 * (y + 1 - x).toNat ∧
      ∀ c ∈ calls, c.Inside radius radius := by
  induction fuel generalizing s x y with
  | zero => omega
  | succ fuel ih =>
      have hxi : InInt x := ⟨by linarith [h.x_nonneg], h.x_lt⟩
      have hyi : InInt y := ⟨by linarith [h.y_ge], h.y_lt⟩
      have htest : s.x ≤ s.y ↔ x ≤ y := by
        rw [h.x_eq, h.y_eq]
        exact ofInt_le hxi hyi
      rw [circleLoop]
      by_cases hxy : x ≤ y
      · rw [if_pos (htest.mpr hxy)]
        obtain ⟨y', hle, hnext⟩ := h.step hxy
        obtain ⟨rest, hrest, hlen, hin⟩ := ih hnext (by omega)
        obtain ⟨hcount, hcalls⟩ := h.calls hxy
        refine ⟨s.calls ++ rest, by rw [hrest]; rfl, ?_, ?_⟩
        · rw [List.length_append]
          omega
        · intro c hc
          rcases List.mem_append.mp hc with hc | hc
          · exact hcalls c hc
          · exact hin c hc
      · rw [if_neg (mt htest.mp hxy)]
        exact ⟨[], rfl, by simp, by simp⟩

end Circle

section Ellipse

/-- No `int` of the loops overflows: the largest values are the first `G` and the last
`deltaSE`. -/
def NoOverflow (radiusX radiusY : ℤ) : Prop :=
  4 * radiusX ^ 2 * (2 * radiusY - 1) < 2 ^ 31 ∧
    8 * radiusY ^ 2 * (radiusX + 1) + 12 * radiusX ^ 2 < 2 ^ 31

instance (radiusX radiusY : ℤ) : Decidable (NoOverflow radiusX radiusY) :=
  inferInstanceAs (Decidable (_ ∧ _))

/-- The loop over the columns has reached `x` and `y`. -/
structure ColumnLoop.At (a b x y : ℤ) (s : ColumnLoop) : Prop where
  x_eq : s.x = .ofInt x
  y_eq : s.y = .ofInt y
  D_eq : s.D = .ofInt (below a b (x + 1) y)
  G_eq : s.G = .ofInt (flatness a b x y)
  deltaE_eq : s.deltaE = .ofInt (4 * b ^ 2 * (2 * x + 3))
  deltaSE_eq : s.deltaSE = .ofInt (4 * b ^ 2 * (2 * x + 3) + 8 * a ^ 2 * (1 - y))

/-- The loop over the rows has reached `x` and `y`. -/
structure RowLoop.At (a b x y : ℤ) (s : RowLoop) : Prop where
  x_eq : s.x = .ofInt x
  y_eq : s.y = .ofInt y
  D_eq : s.D = .ofInt (rightOfNext a b x y)
  deltaS_eq : s.deltaS = .ofInt (4 * a ^ 2 * (3 - 2 * y))
  deltaSE_eq : s.deltaSE = .ofInt (8 * b ^ 2 * (x + 1) + 4 * a ^ 2 * (3 - 2 * y))

variable {a b x y : ℤ}

theorem literal_eq (n : ℕ) : (OfNat.ofNat n : Int32) = .ofInt (OfNat.ofNat n) :=
  Int32.ofInt_eq_ofNat.symm

/-- Sums and products of `int`s are those of the integers, taken to 32 bits at the end. -/
theorem column_start : (ColumnLoop.start (.ofInt a) (.ofInt b)).At a b 0 b := by
  constructor
  · rfl
  · rfl
  all_goals
    simp only [ColumnLoop.start, fourASqr, fourBSqr, eightASqr, eightBSqr, aSqr, bSqr, literal_eq,
      ← Int32.ofInt_mul, ← Int32.ofInt_add, ← Int32.ofInt_sub]
    congr 1
  · unfold below
    ring
  · unfold flatness
    ring
  · ring
  · ring

theorem ColumnLoop.At.selectE {s : ColumnLoop} (h : s.At a b x y) :
    (s.selectE (.ofInt b)).At a b (x + 1) y := by
  constructor
  · exact add_one_eq h.x_eq
  · exact h.y_eq
  all_goals
    simp only [ColumnLoop.selectE, eightBSqr, bSqr, h.D_eq, h.G_eq, h.deltaE_eq, h.deltaSE_eq,
      literal_eq, ← Int32.ofInt_mul, ← Int32.ofInt_add, ← Int32.ofInt_sub]
    congr 1
  · unfold below
    ring
  · unfold flatness
    ring
  · ring
  · ring

theorem ColumnLoop.At.selectSE {s : ColumnLoop} (h : s.At a b x y) :
    (s.selectSE (.ofInt a) (.ofInt b)).At a b (x + 1) (y - 1) := by
  constructor
  · exact add_one_eq h.x_eq
  · exact sub_one_eq h.y_eq
  all_goals
    simp only [ColumnLoop.selectSE, eightASqr, eightBSqr, aSqr, bSqr, h.D_eq, h.G_eq, h.deltaE_eq,
      h.deltaSE_eq, literal_eq, ← Int32.ofInt_mul, ← Int32.ofInt_add, ← Int32.ofInt_sub]
    congr 1
  · unfold below
    ring
  · unfold flatness
    ring
  · ring
  · ring

/-- Between the loops the decision variable moves from the edge below to the edge at the right. -/
theorem ColumnLoop.At.rowLoop {s : ColumnLoop} (h : s.At a b x y) :
    (RowLoop.start (.ofInt a) (.ofInt b) s).At a b x y := by
  constructor
  · exact h.x_eq
  · exact h.y_eq
  all_goals
    simp only [RowLoop.start, fourASqr, eightBSqr, aSqr, bSqr, h.x_eq, h.y_eq, h.D_eq, literal_eq,
      ← Int32.ofInt_neg, ← Int32.ofInt_mul, ← Int32.ofInt_add, ← Int32.ofInt_sub]
    congr 1
  · unfold below rightOfNext
    ring
  · ring
  · ring

theorem RowLoop.At.selectSE {s : RowLoop} (h : s.At a b x y) :
    (s.selectSE (.ofInt a) (.ofInt b)).At a b (x + 1) (y - 1) := by
  constructor
  · exact add_one_eq h.x_eq
  · exact sub_one_eq h.y_eq
  all_goals
    simp only [RowLoop.selectSE, eightASqr, eightBSqr, aSqr, bSqr, h.D_eq, h.deltaS_eq,
      h.deltaSE_eq, literal_eq, ← Int32.ofInt_mul, ← Int32.ofInt_add]
    congr 1
  · unfold rightOfNext
    ring
  · ring
  · ring

theorem RowLoop.At.selectS {s : RowLoop} (h : s.At a b x y) :
    (s.selectS (.ofInt a)).At a b x (y - 1) := by
  constructor
  · exact h.x_eq
  · exact sub_one_eq h.y_eq
  all_goals
    simp only [RowLoop.selectS, eightASqr, aSqr, h.D_eq, h.deltaS_eq, h.deltaSE_eq, literal_eq,
      ← Int32.ofInt_mul, ← Int32.ofInt_add]
    congr 1
  · unfold rightOfNext
    ring
  · ring
  · ring

section Runs

variable {radiusX radiusY : Int32}

/-- The lower bounds of the decision variables follow from the upper ones. -/
theorem NoOverflow.inInt (hbound : NoOverflow a b) {D : ℤ}
    (hlow : -(4 * a ^ 2 * (2 * b - 1)) ≤ D ∨ -(8 * b ^ 2 * (a + 1) + 12 * a ^ 2) ≤ D)
    (hhigh : D < 8 * b ^ 2 * (a + 1) + 12 * a ^ 2) : InInt D := by
  have h1 := hbound.1
  have h2 := hbound.2
  constructor
  · rcases hlow with hlow | hlow <;> linarith
  · linarith

theorem falls_ofInt {x' y' : ℤ} (hx : 0 ≤ x) (hxx : x ≤ x') (hx' : x' ≤ radiusX.toInt)
    (hy' : 0 ≤ y') (hyy : y' ≤ y) (hy : y ≤ radiusY.toInt) :
    Call.Falls ⟨.ofInt x, .ofInt y⟩ ⟨.ofInt x', .ofInt y'⟩ := by
  have hX := radiusX.toInt_lt
  have hY := radiusY.toInt_lt
  constructor
  · apply (ofInt_le _ _).mpr hxx <;> constructor <;> omega
  · apply (ofInt_le _ _).mpr hyy <;> constructor <;> omega

theorem RowLoop.At.inside {s : RowLoop} (h : s.At radiusX.toInt radiusY.toInt x y)
    (hsteep : Steep radiusX.toInt radiusY.toInt x y) :
    Call.Inside radiusX radiusY ⟨s.x, s.y⟩ := by
  rw [h.x_eq, h.y_eq]
  exact inside_ofInt hsteep.x_nonneg hsteep.x_le hsteep.y_nonneg hsteep.y_le

theorem ColumnLoop.At.inside {s : ColumnLoop} (h : s.At radiusX.toInt radiusY.toInt x y)
    (hflat : Flat radiusX.toInt radiusY.toInt x y) : Call.Inside radiusX radiusY ⟨s.x, s.y⟩ := by
  rw [h.x_eq, h.y_eq]
  exact inside_ofInt hflat.x_nonneg hflat.x_le hflat.y_nonneg hflat.y_le

/-- One turn of the loop over the rows goes down one row. -/
theorem RowLoop.At.step (hbound : NoOverflow radiusX.toInt radiusY.toInt) {s : RowLoop}
    (h : s.At radiusX.toInt radiusY.toInt x y)
    (hsteep : Steep radiusX.toInt radiusY.toInt x y) (hy : 0 < y) :
    ∃ x' ≥ x, (s.step radiusX radiusY).At radiusX.toInt radiusY.toInt x' (y - 1) ∧
      Steep radiusX.toInt radiusY.toInt x' (y - 1) := by
  have hD : s.D < 0 ↔ rightOfNext radiusX.toInt radiusY.toInt x y < 0 := by
    rw [h.D_eq]
    apply ofInt_negative
    apply hbound.inInt
    · right
      nlinarith [hsteep.le_rightOfNext, sq_nonneg radiusX.toInt, sq_nonneg radiusY.toInt]
    · exact hsteep.rightOfNext_lt hy
  unfold RowLoop.step
  by_cases hnext : s.D < 0
  · rw [if_pos hnext]
    have hSE := h.selectSE
    rw [Int32.ofInt_toInt, Int32.ofInt_toInt] at hSE
    exact ⟨x + 1, by omega, hSE, hsteep.southEast hy (hD.mp hnext)⟩
  · rw [if_neg hnext]
    have hS := h.selectS
    rw [Int32.ofInt_toInt] at hS
    exact ⟨x, le_rfl, hS, hsteep.south hy (not_lt.mp (mt hD.mpr hnext))⟩

theorem rowLoop_run (hbound : NoOverflow radiusX.toInt radiusY.toInt) (fuel : ℕ) {s : RowLoop}
    (h : s.At radiusX.toInt radiusY.toInt x y)
    (hsteep : Steep radiusX.toInt radiusY.toInt x y) (hfuel : y.toNat < fuel) :
    ∃ calls, rowLoop radiusX radiusY fuel s = some calls ∧ (calls.length : ℤ) = y ∧
      (∀ c ∈ calls, c.Inside radiusX radiusY) ∧
      (⟨s.x, s.y⟩ :: calls).IsChain Call.Falls := by
  induction fuel generalizing s x y with
  | zero => omega
  | succ fuel ih =>
      have hyi : InInt y := ⟨by linarith [hsteep.y_nonneg],
        hsteep.y_le.trans_lt radiusY.toInt_lt⟩
      have htest : 0 < s.y ↔ 0 < y := by
        rw [h.y_eq]
        exact ofInt_pos hyi
      rw [rowLoop]
      by_cases hy : 0 < y
      · rw [if_pos (htest.mpr hy)]
        obtain ⟨x', hxx, hnext, hsteep'⟩ := h.step hbound hsteep hy
        obtain ⟨rest, hrest, hlen, hin, hfalls⟩ := ih hnext hsteep' (by omega)
        refine ⟨⟨(s.step radiusX radiusY).x, (s.step radiusX radiusY).y⟩ :: rest,
          by simp only [hrest, Option.map_some], ?_, ?_, ?_⟩
        · rw [List.length_cons]
          omega
        · intro c hc
          rcases List.mem_cons.mp hc with rfl | hc
          · exact hnext.inside hsteep'
          · exact hin c hc
        · refine List.isChain_cons_cons.mpr ⟨?_, hfalls⟩
          rw [h.x_eq, h.y_eq, hnext.x_eq, hnext.y_eq]
          exact falls_ofInt hsteep.x_nonneg hxx hsteep'.x_le hsteep'.y_nonneg (by omega)
            hsteep.y_le
      · rw [if_neg (mt htest.mp hy)]
        have hy0 := hsteep.y_nonneg
        exact ⟨[], rfl, by simp only [List.length_nil]; omega, by simp, List.isChain_singleton _⟩

/-- One turn of the loop over the columns goes right one column. -/
theorem ColumnLoop.At.step (hbound : NoOverflow radiusX.toInt radiusY.toInt) {s : ColumnLoop}
    (h : s.At radiusX.toInt radiusY.toInt x y)
    (hflat : Flat radiusX.toInt radiusY.toInt x y)
    (hG : 0 < flatness radiusX.toInt radiusY.toInt x y) :
    ∃ y' ≤ y, (s.step radiusX radiusY).At radiusX.toInt radiusY.toInt (x + 1) y' ∧
      Flat radiusX.toInt radiusY.toInt (x + 1) y' := by
  have hD : s.D < 0 ↔ below radiusX.toInt radiusY.toInt (x + 1) y < 0 := by
    rw [h.D_eq]
    apply ofInt_negative
    apply hbound.inInt
    · exact .inl hflat.below_east_bounds.1
    · exact hflat.below_east_bounds.2
  unfold ColumnLoop.step
  by_cases hnext : s.D < 0
  · rw [if_pos hnext]
    have hE := h.selectE
    rw [Int32.ofInt_toInt] at hE
    exact ⟨y, le_rfl, hE, hflat.east hG (hD.mp hnext)⟩
  · rw [if_neg hnext]
    have hSE := h.selectSE
    rw [Int32.ofInt_toInt, Int32.ofInt_toInt] at hSE
    exact ⟨y - 1, by omega, hSE, hflat.southEast hG (not_lt.mp (mt hD.mpr hnext))⟩

theorem columnLoop_run (hbound : NoOverflow radiusX.toInt radiusY.toInt) (fuel : ℕ)
    {s : ColumnLoop} (h : s.At radiusX.toInt radiusY.toInt x y)
    (hflat : Flat radiusX.toInt radiusY.toInt x y)
    (hfuel : (radiusX.toInt - x + radiusY.toInt).toNat + 1 < fuel) :
    ∃ calls, columnLoop radiusX radiusY fuel s = some calls ∧
      (calls.length : ℤ) ≤ radiusX.toInt - x + radiusY.toInt ∧
      (∀ c ∈ calls, c.Inside radiusX radiusY) ∧
      (⟨s.x, s.y⟩ :: calls).IsChain Call.Falls := by
  induction fuel generalizing s x y with
  | zero => omega
  | succ fuel ih =>
      have hx := hflat.x_le
      have hy := hflat.y_le
      have hG : 0 < s.G ↔ 0 < flatness radiusX.toInt radiusY.toInt x y := by
        rw [h.G_eq]
        apply ofInt_pos
        have ha : 0 ≤ radiusY.toInt ^ 2 * radiusX.toInt :=
          mul_nonneg (sq_nonneg _) (hflat.x_nonneg.trans hx)
        constructor
        · linarith [hflat.lt_flatness, hbound.2, sq_nonneg radiusX.toInt]
        · exact hflat.flatness_le.trans_lt hbound.1
      rw [columnLoop]
      by_cases hpos : 0 < s.G
      · rw [if_pos hpos]
        obtain ⟨y', hyy, hnext, hflat'⟩ := h.step hbound hflat (hG.mp hpos)
        have hx' := hflat'.x_le
        have hy0 := hflat'.y_nonneg
        obtain ⟨rest, hrest, hlen, hin, hfalls⟩ := ih hnext hflat' (by omega)
        refine ⟨⟨(s.step radiusX radiusY).x, (s.step radiusX radiusY).y⟩ :: rest,
          by simp only [hrest, Option.map_some], ?_, ?_, ?_⟩
        · rw [List.length_cons]
          omega
        · intro c hc
          rcases List.mem_cons.mp hc with rfl | hc
          · exact hnext.inside hflat'
          · exact hin c hc
        · refine List.isChain_cons_cons.mpr ⟨?_, hfalls⟩
          rw [h.x_eq, h.y_eq, hnext.x_eq, hnext.y_eq]
          exact falls_ofInt hflat.x_nonneg (by omega) hx' hy0 hyy hy
      · rw [if_neg hpos]
        have hrow := h.rowLoop
        rw [Int32.ofInt_toInt, Int32.ofInt_toInt] at hrow
        obtain ⟨calls, hcalls, hlen, hin, hfalls⟩ :=
          rowLoop_run hbound fuel hrow (hflat.steep (not_lt.mp (mt hG.mpr hpos))) (by omega)
        exact ⟨calls, hcalls, by omega, hin, hfalls⟩

end Runs

end Ellipse

section Outline

variable (radiusX radiusY : Int32)

/-- The loops end, after the promised number of callbacks and inside the bounding box. -/
def StaysInside : Prop :=
  ∃ fuel calls, ellipseAlgorithm radiusX radiusY fuel = some calls ∧
    (calls.length : ℤ) ≤ (if radiusX = radiusY then 2 else 1) *
      (radiusX.toInt + radiusY.toInt + 1) ∧
    ∀ c ∈ calls, c.Inside radiusX radiusY

variable {radiusX radiusY}

theorem circle_staysInside (h : 0 < radiusX) : StaysInside radiusX radiusX := by
  have hpos : 0 < radiusX.toInt := Int32.lt_iff_toInt_lt.mp h
  obtain ⟨calls, hcalls, hlen, hin⟩ := circleLoop_run (radiusX.toInt.toNat + 2)
    (CircleLoop.at_start h) (by omega)
  refine ⟨radiusX.toInt.toNat + 2, calls, ?_, ?_, hin⟩
  · rw [ellipseAlgorithm, if_neg (by simpa using h), if_pos rfl]
    exact hcalls
  · rw [if_pos rfl]
    omega

/-- The outline of an ellipse is walked from the top to the right, never back. -/
theorem ellipse_run (hX : 0 < radiusX) (hY : 0 < radiusY) (hne : radiusX ≠ radiusY)
    (hbound : NoOverflow radiusX.toInt radiusY.toInt) :
    ∃ fuel rest, ellipseAlgorithm radiusX radiusY fuel = some (⟨0, radiusY⟩ :: rest) ∧
      (rest.length : ℤ) ≤ radiusX.toInt + radiusY.toInt ∧
      (∀ c ∈ (⟨0, radiusY⟩ :: rest : List Call), c.Inside radiusX radiusY) ∧
      (⟨0, radiusY⟩ :: rest : List Call).IsChain Call.Falls := by
  have ha : 0 < radiusX.toInt := Int32.lt_iff_toInt_lt.mp hX
  have hb : 0 < radiusY.toInt := Int32.lt_iff_toInt_lt.mp hY
  have hstart := column_start (a := radiusX.toInt) (b := radiusY.toInt)
  rw [Int32.ofInt_toInt, Int32.ofInt_toInt] at hstart
  obtain ⟨rest, hrest, hlen, hin, hfalls⟩ := columnLoop_run hbound
    ((radiusX.toInt + radiusY.toInt).toNat + 2) hstart (Flat.top ha hb) (by omega)
  refine ⟨(radiusX.toInt + radiusY.toInt).toNat + 2, rest, ?_, by omega, ?_, hfalls⟩
  · rw [ellipseAlgorithm, if_neg (by simp [hX, hY]), if_neg hne]
    simp only [hrest, Option.map_some]
    rfl
  · intro c hc
    rcases List.mem_cons.mp hc with rfl | hc
    · exact hstart.inside (Flat.top ha hb)
    · exact hin c hc

theorem ellipse_staysInside (hX : 0 < radiusX) (hY : 0 < radiusY) (hne : radiusX ≠ radiusY)
    (hbound : NoOverflow radiusX.toInt radiusY.toInt) : StaysInside radiusX radiusY := by
  obtain ⟨fuel, rest, hrun, hlen, hin, -⟩ := ellipse_run hX hY hne hbound
  refine ⟨fuel, _, hrun, ?_, hin⟩
  rw [if_neg hne, List.length_cons]
  omega

/-- Every circle is safe, and every ellipse whose radii let no `int` overflow. -/
theorem outline_staysInside (hX : 0 < radiusX) (hY : 0 < radiusY)
    (h : radiusX = radiusY ∨ NoOverflow radiusX.toInt radiusY.toInt) :
    StaysInside radiusX radiusY := by
  by_cases heq : radiusX = radiusY
  · subst heq
    exact circle_staysInside hX
  · exact ellipse_staysInside hX hY heq (h.resolve_left heq)

theorem outline_staysInside_flat : StaysInside 40 25 :=
  outline_staysInside (by decide) (by decide) (.inr (by decide))

theorem rowLoop_more {fuel more : ℕ} (hle : fuel ≤ more) {s : RowLoop} {calls : List Call}
    (h : rowLoop radiusX radiusY fuel s = some calls) :
    rowLoop radiusX radiusY more s = some calls := by
  induction fuel generalizing more s calls with
  | zero => simp [rowLoop] at h
  | succ fuel ih =>
      obtain ⟨more, rfl⟩ : ∃ m, more = m + 1 := ⟨more - 1, by omega⟩
      rw [rowLoop] at h ⊢
      split
      · rw [if_pos ‹_›] at h
        obtain ⟨rest, hrest, rfl⟩ := Option.map_eq_some_iff.mp h
        have hmore := ih (Nat.le_of_succ_le_succ hle) hrest
        simp only [hmore, Option.map_some]
      · rw [if_neg ‹_›] at h
        exact h

theorem columnLoop_more {fuel more : ℕ} (hle : fuel ≤ more) {s : ColumnLoop}
    {calls : List Call} (h : columnLoop radiusX radiusY fuel s = some calls) :
    columnLoop radiusX radiusY more s = some calls := by
  induction fuel generalizing more s calls with
  | zero => simp [columnLoop] at h
  | succ fuel ih =>
      obtain ⟨more, rfl⟩ : ∃ m, more = m + 1 := ⟨more - 1, by omega⟩
      rw [columnLoop] at h ⊢
      split
      · rw [if_pos ‹_›] at h
        obtain ⟨rest, hrest, rfl⟩ := Option.map_eq_some_iff.mp h
        have hmore := ih (Nat.le_of_succ_le_succ hle) hrest
        simp only [hmore, Option.map_some]
      · rw [if_neg ‹_›] at h
        exact rowLoop_more (by omega) h

/-- The result of a run that ends does not depend on the fuel it is given. -/
theorem columnLoop_unique {fuel fuel' : ℕ} {s : ColumnLoop} {calls calls' : List Call}
    (h : columnLoop radiusX radiusY fuel s = some calls)
    (h' : columnLoop radiusX radiusY fuel' s = some calls') : calls = calls' := by
  have hmax := columnLoop_more (le_max_left fuel fuel') h
  rw [columnLoop_more (le_max_right fuel fuel') h'] at hmax
  exact (Option.some.inj hmax).symm

/-- `D` overflows, and the loop over the rows goes on to the right past `radiusX`. -/
theorem not_staysInside_tall :
    ¬∀ radiusX radiusY : Int32, 0 < radiusX → 0 < radiusY → StaysInside radiusX radiusY := by
  intro hall
  obtain ⟨fuel, calls, hrun, -, hin⟩ := hall 395 835 (by decide) (by decide)
  rw [ellipseAlgorithm, if_neg (by decide), if_neg (by decide)] at hrun
  obtain ⟨rest, hrest, rfl⟩ := Option.map_eq_some_iff.mp hrun
  have hout : (columnLoop 395 835 1300 (.start 395 835)).map
      (·.any (¬·.Inside 395 835)) = some true := by
    decide +kernel
  obtain ⟨calls, hcalls, hany⟩ := Option.map_eq_some_iff.mp hout
  obtain rfl := columnLoop_unique hcalls hrest
  obtain ⟨c, hc, hcout⟩ := List.any_eq_true.mp hany
  have hleft : ¬c.Inside 395 835 := by simpa using hcout
  apply hleft
  apply hin
  exact List.mem_cons_of_mem _ hc

end Outline

end TinyCLR.Graphics
