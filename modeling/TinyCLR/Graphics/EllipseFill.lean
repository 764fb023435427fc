import Mathlib
import TinyCLR.Graphics.Ellipse
import TinyCLR.Graphics.EllipseBounds

/-!
# The fill pass of an ellipse

`DrawEllipseNative` fills before it draws the outline: `Draw4PointsEllipse` takes each callback of
the outline as one scan line above and one below the center, unless the callback before it was on
the same line.
-/

namespace TinyCLR.Graphics

section Pixels

structure Rect where
  left : Int32
  top : Int32
  right : Int32
  bottom : Int32
  deriving Repr, DecidableEq

/-- A bitmap with 16 bits for each pixel. -/
structure Bitmap where
  clipping : Rect
  pixel : Int32 × Int32 → UInt16

structure Brush where
  gradientStartColor : UInt32
  gradientStartX : Int32
  gradientStartY : Int32
  gradientEndColor : UInt32
  gradientEndX : Int32
  gradientEndY : Int32
  opacity : UInt16
  deriving Repr, DecidableEq

def opacityTransparent : UInt16 := 0
def opacityOpaque : UInt16 := 256

def isPixelVisible (clipping : Rect) (p : Int32 × Int32) : Bool :=
  clipping.left ≤ p.1 && p.1 < clipping.right && clipping.top ≤ p.2 && p.2 < clipping.bottom

def getPixelNative (bitmap : Bitmap) (p : Int32 × Int32) : UInt32 :=
  if isPixelVisible bitmap.clipping p then (bitmap.pixel p).toUInt32 else 0

/-- A native color has 16 bits. -/
def setPixelNative (bitmap : Bitmap) (p : Int32 × Int32) (color : UInt32) : Bitmap :=
  if isPixelVisible bitmap.clipping p then
    { bitmap with pixel := Function.update bitmap.pixel p color.toUInt16 }
  else bitmap

def nativeColorRValue (color : UInt32) : UInt8 := ((color &&& 0xF800) >>> 11).toUInt8
def nativeColorGValue (color : UInt32) : UInt8 := ((color &&& 0x07E0) >>> 5).toUInt8
def nativeColorBValue (color : UInt32) : UInt8 := (color &&& 0x1F).toUInt8

def nativeColorFromRGB (r g b : UInt8) : UInt32 :=
  (r.toUInt32 <<< 11) ||| (g.toUInt32 <<< 5) ||| b.toUInt32

def nativeColorInterpolate (colorTo colorFrom : UInt32) (scalar : UInt16) : UInt32 :=
  let scalar := if opacityOpaque < scalar then opacityOpaque else scalar
  if scalar = opacityOpaque then colorTo
  else if scalar = opacityTransparent then colorFrom
  else
    let mix (value : UInt32 → UInt8) : UInt8 :=
      (((value colorTo).toUInt32 * scalar.toUInt32 +
        (value colorFrom).toUInt32 * (opacityOpaque - scalar).toUInt32) >>> 8).toUInt8
    nativeColorFromRGB (mix nativeColorRValue) (mix nativeColorGValue) (mix nativeColorBValue)

end Pixels

section Fill

/-- The bitmap in the fill pass, the field of the parameters that changes, and the pixels blended
so far. -/
structure Fill where
  bitmap : Bitmap
  lastFillOffsetY : Int32
  blended : List (Int32 × Int32)

variable (brush : Brush) (centerX centerY : Int32)

def Brush.IsSolid : Prop :=
  brush.gradientStartColor = brush.gradientEndColor ∨
    (brush.gradientEndX - brush.gradientStartX = 0 ∧ brush.gradientEndY - brush.gradientStartY = 0)

instance : Decidable brush.IsSolid := inferInstanceAs (Decidable (_ ∨ _))

def Brush.IsTranslucent : Prop :=
  opacityTransparent < brush.opacity ∧ brush.opacity < opacityOpaque

instance : Decidable brush.IsTranslucent := inferInstanceAs (Decidable (_ ∧ _))

/-- What a translucent pixel becomes: `interpolated` has 16 bits. -/
def blendColor (color : UInt32) : UInt32 :=
  (nativeColorInterpolate brush.gradientStartColor color brush.opacity).toUInt16.toUInt32

def fillPixel (s : Fill) (p : Int32 × Int32) : Fill :=
  if brush.opacity = opacityOpaque then
    { s with bitmap := setPixelNative s.bitmap p brush.gradientStartColor }
  else
    { s with
      bitmap := setPixelNative s.bitmap p (blendColor brush (getPixelNative s.bitmap p))
      blended := s.blended ++ [p] }

/-- The columns of `for (int col = startX; col < endX; col++)`. -/
def columns (startX endX : Int32) : List Int32 :=
  (List.range (endX.toInt - startX.toInt).toNat).map fun i => startX + .ofNat i

def fillRow (s : Fill) (startX endX row : Int32) : Fill :=
  ((columns startX endX).map (·, row)).foldl (fillPixel brush) s

/-- The part of `Draw4PointsEllipse` for a brush. -/
def draw4PointsEllipse (s : Fill) (c : Call) : Fill :=
  if brush.opacity ≠ opacityTransparent ∧ s.lastFillOffsetY ≠ c.y then
    let startX := centerX - c.x + 1
    let endX := centerX + c.x
    let s := { s with lastFillOffsetY := c.y }
    if brush.IsSolid then
      let s := fillRow brush s startX endX (centerY - c.y)
      if c.y = 0 then s else fillRow brush s startX endX (centerY + c.y)
    else s
  else s

/-- The first `EllipseAlgorithm` of `DrawEllipseNative`, with the callbacks it makes. -/
def fillPass (bitmap : Bitmap) (calls : List Call) : Fill :=
  calls.foldl (draw4PointsEllipse brush centerX centerY)
    { bitmap, lastFillOffsetY := -1, blended := [] }

end Fill

section Specification

variable (brush : Brush) (centerX centerY radiusX radiusY : Int32)

/-- Strictly between the left and the right pixels of the outline on its scan line. -/
def Interior (calls : List Call) (p : Int32 × Int32) : Prop :=
  (∃ c ∈ calls, |p.2.toInt - centerY.toInt| = c.y.toInt) ∧
    ∀ c ∈ calls, |p.2.toInt - centerY.toInt| = c.y.toInt → |p.1.toInt - centerX.toInt| < c.x.toInt

instance (calls : List Call) (p : Int32 × Int32) : Decidable (Interior centerX centerY calls p) :=
  inferInstanceAs (Decidable (_ ∧ _))

/-- The pass ends, blends each interior pixel once and no other pixel, and leaves the
interpolation of what was there. -/
def FillsOnce : Prop :=
  ∃ fuel calls, ellipseAlgorithm radiusX radiusY fuel = some calls ∧
    ∀ bitmap, let s := fillPass brush centerX centerY bitmap calls
      (∀ p, s.blended.count p = if Interior centerX centerY calls p then 1 else 0) ∧
      ∀ p, s.bitmap.pixel p =
        if Interior centerX centerY calls p ∧ isPixelVisible bitmap.clipping p then
          (blendColor brush (bitmap.pixel p).toUInt32).toUInt16
        else bitmap.pixel p

end Specification

section Trace

variable (brush : Brush) (centerX centerY : Int32)

def blendPixel (bitmap : Bitmap) (p : Int32 × Int32) : Bitmap :=
  setPixelNative bitmap p (blendColor brush (getPixelNative bitmap p))

/-- The pixels of the two scan lines of a callback, or of the one through the center. -/
def scanLines (c : Call) : List (Int32 × Int32) :=
  (columns (centerX - c.x + 1) (centerX + c.x)).map (·, centerY - c.y) ++
    if c.y = 0 then [] else (columns (centerX - c.x + 1) (centerX + c.x)).map (·, centerY + c.y)

/-- What the callbacks blend when the last one filled was at `last`. -/
def fillPositions (last : Int32) : List Call → List (Int32 × Int32)
  | [] => []
  | c :: calls =>
      (if last = c.y then [] else scanLines centerX centerY c) ++ fillPositions c.y calls

variable {brush centerX centerY}

theorem Brush.IsTranslucent.ne_opaque (h : brush.IsTranslucent) :
    brush.opacity ≠ opacityOpaque :=
  UInt16.ne_of_lt h.2

theorem Brush.IsTranslucent.ne_transparent (h : brush.IsTranslucent) :
    brush.opacity ≠ opacityTransparent :=
  (UInt16.ne_of_lt h.1).symm

theorem foldl_fillPixel (ht : brush.IsTranslucent) (ps : List (Int32 × Int32)) (s : Fill) :
    ps.foldl (fillPixel brush) s =
      { s with
        bitmap := ps.foldl (blendPixel brush) s.bitmap
        blended := s.blended ++ ps } := by
  have hne := ht.ne_opaque
  induction ps generalizing s with
  | nil => simp
  | cons p ps ih =>
      rw [List.foldl_cons, ih, fillPixel, if_neg hne]
      simp [blendPixel]

theorem draw4PointsEllipse_eq (ht : brush.IsTranslucent) (hs : brush.IsSolid) (s : Fill)
    (c : Call) : draw4PointsEllipse brush centerX centerY s c =
      { bitmap := (fillPositions centerX centerY s.lastFillOffsetY [c]).foldl (blendPixel brush)
          s.bitmap
        lastFillOffsetY := c.y
        blended := s.blended ++ fillPositions centerX centerY s.lastFillOffsetY [c] } := by
  have hne := ht.ne_transparent
  unfold draw4PointsEllipse fillPositions
  by_cases hlast : s.lastFillOffsetY = c.y
  · rw [if_neg (by simp [hlast]), if_pos hlast]
    simp [fillPositions, ← hlast]
  · rw [if_pos ⟨hne, hlast⟩, if_neg hlast]
    simp only [if_pos hs, fillRow, foldl_fillPixel ht, scanLines, fillPositions,
      List.append_nil]
    split
    · simp
    · simp [List.foldl_append]

theorem fillPass_eq (ht : brush.IsTranslucent) (hs : brush.IsSolid) (calls : List Call)
    (s : Fill) : calls.foldl (draw4PointsEllipse brush centerX centerY) s =
      { bitmap := (fillPositions centerX centerY s.lastFillOffsetY calls).foldl (blendPixel brush)
          s.bitmap
        lastFillOffsetY := calls.foldl (fun _ c => c.y) s.lastFillOffsetY
        blended := s.blended ++ fillPositions centerX centerY s.lastFillOffsetY calls } := by
  induction calls generalizing s with
  | nil => simp [fillPositions]
  | cons c calls ih =>
      rw [List.foldl_cons, ih, draw4PointsEllipse_eq ht hs]
      simp [fillPositions, List.foldl_append]

end Trace

section ScanLines

theorem toInt_add_of {u v : Int32} (h : InInt (u.toInt + v.toInt)) :
    (u + v).toInt = u.toInt + v.toInt := by
  conv_lhs => rw [← Int32.ofInt_toInt u, ← Int32.ofInt_toInt v, ← Int32.ofInt_add]
  exact toInt_ofInt h

theorem toInt_sub_of {u v : Int32} (h : InInt (u.toInt - v.toInt)) :
    (u - v).toInt = u.toInt - v.toInt := by
  conv_lhs => rw [← Int32.ofInt_toInt u, ← Int32.ofInt_toInt v, ← Int32.ofInt_sub]
  exact toInt_ofInt h

theorem toInt_column {startX endX : Int32} {i : ℕ}
    (hi : i < (endX.toInt - startX.toInt).toNat) :
    (startX + .ofNat i).toInt = startX.toInt + i := by
  have hlow := startX.le_toInt
  have hhigh := endX.toInt_lt
  have hin : InInt (startX.toInt + i) := ⟨by omega, by omega⟩
  rw [← Int32.ofInt_eq_ofNat]
  conv_lhs => rw [← Int32.ofInt_toInt startX, ← Int32.ofInt_add]
  exact toInt_ofInt hin

theorem mem_columns {startX endX q : Int32} :
    q ∈ columns startX endX ↔ startX.toInt ≤ q.toInt ∧ q.toInt < endX.toInt := by
  unfold columns
  rw [List.mem_map]
  constructor
  · rintro ⟨i, hi, rfl⟩
    rw [List.mem_range] at hi
    rw [toInt_column hi]
    omega
  · rintro ⟨hlow, hhigh⟩
    have hi : (q.toInt - startX.toInt).toNat < (endX.toInt - startX.toInt).toNat := by omega
    refine ⟨(q.toInt - startX.toInt).toNat, List.mem_range.mpr hi, ?_⟩
    apply Int32.toInt_inj.mp
    rw [toInt_column hi]
    omega

theorem columns_nodup (startX endX : Int32) : (columns startX endX).Nodup := by
  apply List.Nodup.map_on _ List.nodup_range
  intro i hi j hj heq
  rw [List.mem_range] at hi hj
  have := congrArg Int32.toInt heq
  rw [toInt_column hi, toInt_column hj] at this
  omega

/-- No coordinate in the ellipse's bounding box overflows. -/
def CenterFits (centerX centerY radiusX radiusY : Int32) : Prop :=
  -2 ^ 31 ≤ centerX.toInt - radiusX.toInt ∧ centerX.toInt + radiusX.toInt < 2 ^ 31 ∧
    -2 ^ 31 ≤ centerY.toInt - radiusY.toInt ∧ centerY.toInt + radiusY.toInt < 2 ^ 31

instance (centerX centerY radiusX radiusY : Int32) :
    Decidable (CenterFits centerX centerY radiusX radiusY) :=
  inferInstanceAs (Decidable (_ ∧ _))

variable {centerX centerY radiusX radiusY : Int32} {c : Call} {p : Int32 × Int32}

theorem Call.Inside.toInt (h : c.Inside radiusX radiusY) :
    0 ≤ c.x.toInt ∧ c.x.toInt ≤ radiusX.toInt ∧ 0 ≤ c.y.toInt ∧ c.y.toInt ≤ radiusY.toInt := by
  simpa [Call.Inside, Int32.le_iff_toInt_le] using h

/-- The columns of a scan line lie strictly between the outline's pixels. -/
theorem mem_lineColumns (hfits : CenterFits centerX centerY radiusX radiusY)
    (hX : 0 < radiusX.toInt) (hin : c.Inside radiusX radiusY) {q : Int32} :
    q ∈ columns (centerX - c.x + 1) (centerX + c.x) ↔ |q.toInt - centerX.toInt| < c.x.toInt := by
  obtain ⟨hlow, hhigh, -, -⟩ := hfits
  obtain ⟨hx, hxr, -, -⟩ := hin.toInt
  have hleft : (centerX - c.x).toInt = centerX.toInt - c.x.toInt :=
    toInt_sub_of ⟨by omega, by omega⟩
  have hstart : (centerX - c.x + 1).toInt = centerX.toInt - c.x.toInt + 1 := by
    have hone : (1 : Int32).toInt = 1 := rfl
    rw [toInt_add_of, hleft, hone]
    rw [hleft, hone]
    constructor <;> omega
  have hend : (centerX + c.x).toInt = centerX.toInt + c.x.toInt :=
    toInt_add_of ⟨by omega, by omega⟩
  rw [mem_columns, hstart, hend, abs_lt]
  omega

theorem eq_zero_iff (v : Int32) : v = 0 ↔ v.toInt = 0 := by
  rw [← Int32.toInt_inj]
  rfl

theorem mem_scanLines (hfits : CenterFits centerX centerY radiusX radiusY)
    (hX : 0 < radiusX.toInt) (hin : c.Inside radiusX radiusY) :
    p ∈ scanLines centerX centerY c ↔
      |p.2.toInt - centerY.toInt| = c.y.toInt ∧ |p.1.toInt - centerX.toInt| < c.x.toInt := by
  have hcols := mem_lineColumns hfits hX hin (q := p.1)
  obtain ⟨-, -, hlow, hhigh⟩ := hfits
  obtain ⟨-, -, hy, hyr⟩ := hin.toInt
  have habove : p.2 = centerY - c.y ↔ p.2.toInt = centerY.toInt - c.y.toInt := by
    rw [← Int32.toInt_inj, toInt_sub_of ⟨by omega, by omega⟩]
  have hunder : p.2 = centerY + c.y ↔ p.2.toInt = centerY.toInt + c.y.toInt := by
    rw [← Int32.toInt_inj, toInt_add_of ⟨by omega, by omega⟩]
  have hline : |p.2.toInt - centerY.toInt| = c.y.toInt ↔
      p.2 = centerY - c.y ∨ c.y ≠ 0 ∧ p.2 = centerY + c.y := by
    rw [habove, hunder, Ne, eq_zero_iff, abs_eq hy]
    omega
  have hmap (row : Int32) : p ∈ (columns (centerX - c.x + 1) (centerX + c.x)).map (·, row) ↔
      p.1 ∈ columns (centerX - c.x + 1) (centerX + c.x) ∧ p.2 = row := by
    simp only [List.mem_map, Prod.ext_iff]
    constructor
    · rintro ⟨q, hq, rfl, rfl⟩
      exact ⟨hq, rfl⟩
    · intro h
      exact ⟨p.1, h.1, rfl, h.2.symm⟩
  unfold scanLines
  rw [List.mem_append, hmap, hline, ← hcols]
  by_cases hzero : c.y = 0
  · simp [hzero, and_comm]
  · rw [if_neg hzero, hmap]
    tauto

theorem scanLines_nodup (hfits : CenterFits centerX centerY radiusX radiusY)
    (hin : c.Inside radiusX radiusY) : (scanLines centerX centerY c).Nodup := by
  have hnodup (row : Int32) :
      ((columns (centerX - c.x + 1) (centerX + c.x)).map (·, row)).Nodup :=
    (columns_nodup _ _).map (fun _ _ h => congrArg Prod.fst h)
  unfold scanLines
  by_cases hzero : c.y = 0
  · rw [if_pos hzero, List.append_nil]
    exact hnodup _
  · rw [if_neg hzero]
    apply List.Nodup.append (hnodup _) (hnodup _)
    intro q hq hq'
    obtain ⟨col, _, rfl⟩ := List.mem_map.mp hq
    obtain ⟨col', _, heq⟩ := List.mem_map.mp hq'
    obtain ⟨-, -, hlow, hhigh⟩ := hfits
    obtain ⟨-, -, hy, hyr⟩ := hin.toInt
    have hrow := congrArg (fun v => v.2.toInt) heq
    rw [toInt_sub_of ⟨by omega, by omega⟩, toInt_add_of ⟨by omega, by omega⟩] at hrow
    exact hzero ((eq_zero_iff _).mpr (by omega))

theorem Call.Falls.toInt {c c' : Call} (h : c.Falls c') :
    c.x.toInt ≤ c'.x.toInt ∧ c'.y.toInt ≤ c.y.toInt := by
  simpa [Call.Falls, Int32.le_iff_toInt_le] using h

instance : IsTrans Call Call.Falls where
  trans _ _ _ h h' := ⟨Int32.le_trans h.1 h'.1, Int32.le_trans h'.2 h.2⟩

theorem later_of_falls {calls : List Call} (h : (c :: calls).IsChain Call.Falls) :
    ∀ c' ∈ calls, c.x.toInt ≤ c'.x.toInt ∧ c'.y.toInt ≤ c.y.toInt := by
  intro c' hc'
  exact (List.rel_of_pairwise_cons (List.isChain_iff_pairwise.mp h) hc').toInt

/-- The leftmost outline pixel of a line is the first one. -/
theorem interior_cons {calls : List Call}
    (hlater : ∀ c' ∈ calls, c.x.toInt ≤ c'.x.toInt ∧ c'.y.toInt ≤ c.y.toInt) :
    Interior centerX centerY (c :: calls) p ↔
      if |p.2.toInt - centerY.toInt| = c.y.toInt then |p.1.toInt - centerX.toInt| < c.x.toInt
      else Interior centerX centerY calls p := by
  unfold Interior
  simp only [List.exists_mem_cons_iff, List.forall_mem_cons]
  split
  · rename_i hc
    constructor
    · intro h
      exact h.2.1 hc
    · intro h
      refine ⟨.inl hc, fun _ => h, fun c' hc' _ => ?_⟩
      exact h.trans_le (hlater c' hc').1
  · rename_i hc
    simp [hc]

/-- Every line is met for the first time at its leftmost outline pixel, and filled then. -/
theorem mem_fillPositions (hfits : CenterFits centerX centerY radiusX radiusY)
    (hX : 0 < radiusX.toInt) {calls : List Call}
    (hin : ∀ c' ∈ calls, c'.Inside radiusX radiusY) (hfalls : (c :: calls).IsChain Call.Falls) :
    p ∈ fillPositions centerX centerY c.y calls ↔
      |p.2.toInt - centerY.toInt| ≠ c.y.toInt ∧ Interior centerX centerY calls p := by
  induction calls generalizing c with
  | nil => simp [fillPositions, Interior]
  | cons d calls ih =>
      have hcd := (List.isChain_cons_cons.mp hfalls).1.toInt
      have hrest := (List.isChain_cons_cons.mp hfalls).2
      have hlater := later_of_falls hrest
      have hmem := mem_scanLines (p := p) hfits hX (hin d List.mem_cons_self)
      rw [fillPositions, List.mem_append, ih (fun c' h => hin c' (List.mem_cons_of_mem d h)) hrest]
      have hhead := @interior_cons centerX centerY d p calls hlater
      by_cases hd : |p.2.toInt - centerY.toInt| = d.y.toInt
      · rw [hhead, if_pos hd]
        by_cases hlast : c.y = d.y
        · simp [hlast, hd]
        · have hne : c.y.toInt ≠ d.y.toInt := fun h => hlast (Int32.toInt_inj.mp h)
          rw [if_neg hlast, hmem]
          simp [hd, hne.symm]
      · rw [hhead, if_neg hd]
        have hout : p ∉ if c.y = d.y then [] else scanLines centerX centerY d := by
          split
          · exact List.not_mem_nil
          · simp [hmem, hd]
        -- a line of a later callback is under `d`, so it is not the line of `c` either
        have hbelow : Interior centerX centerY calls p →
            |p.2.toInt - centerY.toInt| ≠ c.y.toInt := by
          rintro ⟨⟨c', hc', heq⟩, -⟩ hc
          have := (hlater c' hc').2
          omega
        tauto

theorem fillPositions_nodup (hfits : CenterFits centerX centerY radiusX radiusY)
    (hX : 0 < radiusX.toInt) {calls : List Call}
    (hin : ∀ c' ∈ calls, c'.Inside radiusX radiusY) (hfalls : (c :: calls).IsChain Call.Falls) :
    (fillPositions centerX centerY c.y calls).Nodup := by
  induction calls generalizing c with
  | nil => exact List.nodup_nil
  | cons d calls ih =>
      have hrest := (List.isChain_cons_cons.mp hfalls).2
      have hd := hin d List.mem_cons_self
      have hin' : ∀ c' ∈ calls, c'.Inside radiusX radiusY :=
        fun c' h => hin c' (List.mem_cons_of_mem d h)
      rw [fillPositions]
      apply List.Nodup.append _ (ih hin' hrest)
      · intro q hq hq'
        split at hq
        · exact List.not_mem_nil hq
        · exact ((mem_fillPositions hfits hX hin' hrest).mp hq').1
            ((mem_scanLines hfits hX hd).mp hq).1
      · split
        · exact List.nodup_nil
        · exact scanLines_nodup hfits hd

theorem mem_fillPositions_start (hfits : CenterFits centerX centerY radiusX radiusY)
    (hX : 0 < radiusX.toInt) {calls : List Call} {last : Int32} (hlast : last ≠ c.y)
    (hin : ∀ c' ∈ c :: calls, c'.Inside radiusX radiusY)
    (hfalls : (c :: calls).IsChain Call.Falls) :
    p ∈ fillPositions centerX centerY last (c :: calls) ↔
      Interior centerX centerY (c :: calls) p := by
  obtain ⟨hc, hin⟩ := List.forall_mem_cons.mp hin
  rw [fillPositions, if_neg hlast, List.mem_append, mem_scanLines hfits hX hc,
    mem_fillPositions hfits hX hin hfalls, interior_cons (later_of_falls hfalls)]
  split
  · rename_i hd
    simp [hd]
  · rename_i hd
    simp [hd]

theorem fillPositions_start_nodup (hfits : CenterFits centerX centerY radiusX radiusY)
    (hX : 0 < radiusX.toInt) {calls : List Call} {last : Int32} (hlast : last ≠ c.y)
    (hin : ∀ c' ∈ c :: calls, c'.Inside radiusX radiusY)
    (hfalls : (c :: calls).IsChain Call.Falls) :
    (fillPositions centerX centerY last (c :: calls)).Nodup := by
  obtain ⟨hc, hin⟩ := List.forall_mem_cons.mp hin
  rw [fillPositions, if_neg hlast]
  apply List.Nodup.append (scanLines_nodup hfits hc) (fillPositions_nodup hfits hX hin hfalls)
  intro q hq hq'
  exact ((mem_fillPositions hfits hX hin hfalls).mp hq').1 ((mem_scanLines hfits hX hc).mp hq).1

end ScanLines

section Bitmap

variable {brush : Brush}

@[simp] theorem clipping_blendPixel (bitmap : Bitmap) (p : Int32 × Int32) :
    (blendPixel brush bitmap p).clipping = bitmap.clipping := by
  unfold blendPixel setPixelNative
  split <;> rfl

theorem pixel_blendPixel_of_ne {bitmap : Bitmap} {p q : Int32 × Int32} (h : q ≠ p) :
    (blendPixel brush bitmap p).pixel q = bitmap.pixel q := by
  unfold blendPixel setPixelNative
  split
  · exact Function.update_of_ne h _ _
  · rfl

theorem pixel_blendPixel_self (bitmap : Bitmap) (p : Int32 × Int32) :
    (blendPixel brush bitmap p).pixel p = if isPixelVisible bitmap.clipping p then
      (blendColor brush (bitmap.pixel p).toUInt32).toUInt16 else bitmap.pixel p := by
  unfold blendPixel setPixelNative getPixelNative
  split
  · exact Function.update_self _ _ _
  · rfl

/-- Blending different pixels one after the other interpolates each of them once. -/
theorem pixel_foldl_blendPixel {ps : List (Int32 × Int32)} (hnodup : ps.Nodup)
    (bitmap : Bitmap) (p : Int32 × Int32) :
    (ps.foldl (blendPixel brush) bitmap).pixel p =
      if p ∈ ps ∧ isPixelVisible bitmap.clipping p then
        (blendColor brush (bitmap.pixel p).toUInt32).toUInt16
      else bitmap.pixel p := by
  induction ps generalizing bitmap with
  | nil => simp
  | cons q ps ih =>
      obtain ⟨hq, hps⟩ := List.nodup_cons.mp hnodup
      rw [List.foldl_cons, ih hps, clipping_blendPixel]
      by_cases hpq : p = q
      · subst hpq
        rw [if_neg (fun h => hq h.1), pixel_blendPixel_self]
        simp
      · rw [pixel_blendPixel_of_ne hpq]
        simp [hpq]

end Bitmap

section Pass

variable {brush : Brush} {centerX centerY radiusX radiusY : Int32}

/-- An outline that only goes down and to the right is filled without overlap. -/
theorem fillsOnce_of_falls (ht : brush.IsTranslucent) (hs : brush.IsSolid)
    (hfits : CenterFits centerX centerY radiusX radiusY) (hX : 0 < radiusX.toInt)
    {fuel : ℕ} {c : Call} {calls : List Call}
    (hrun : ellipseAlgorithm radiusX radiusY fuel = some (c :: calls)) (htop : -1 ≠ c.y)
    (hin : ∀ c' ∈ c :: calls, c'.Inside radiusX radiusY)
    (hfalls : (c :: calls).IsChain Call.Falls) :
    FillsOnce brush centerX centerY radiusX radiusY := by
  have hnodup := fillPositions_start_nodup hfits hX htop hin hfalls
  refine ⟨fuel, c :: calls, hrun, fun bitmap => ⟨fun p => ?_, fun p => ?_⟩⟩
  · rw [fillPass, fillPass_eq ht hs, List.nil_append, hnodup.count]
    simp only [mem_fillPositions_start hfits hX htop hin hfalls]
  · rw [fillPass, fillPass_eq ht hs, pixel_foldl_blendPixel hnodup]
    simp only [mem_fillPositions_start hfits hX htop hin hfalls]

theorem ellipse_fillsOnce (ht : brush.IsTranslucent) (hs : brush.IsSolid)
    (hX : 0 < radiusX) (hY : 0 < radiusY) (hne : radiusX ≠ radiusY)
    (hfits : CenterFits centerX centerY radiusX radiusY)
    (hbound : NoOverflow radiusX.toInt radiusY.toInt) :
    FillsOnce brush centerX centerY radiusX radiusY := by
  have hb : 0 < radiusY.toInt := Int32.lt_iff_toInt_lt.mp hY
  obtain ⟨fuel, rest, hrun, -, hin, hfalls⟩ := ellipse_run hX hY hne hbound
  apply fillsOnce_of_falls ht hs hfits (Int32.lt_iff_toInt_lt.mp hX) hrun _ hin hfalls
  intro (h : -1 = radiusY)
  have hneg : (-1 : Int32).toInt = -1 := rfl
  rw [← h, hneg] at hb
  omega

theorem point_fillsOnce (ht : brush.IsTranslucent) (hs : brush.IsSolid)
    (hfits : CenterFits centerX centerY 1 1) : FillsOnce brush centerX centerY 1 1 := by
  have hrun : ellipseAlgorithm 1 1 2 = some [⟨0, 1⟩, ⟨1, 0⟩] := by decide
  apply fillsOnce_of_falls ht hs hfits (by decide) hrun (by decide)
  · decide
  · simp [Call.Falls, Int32.le_iff_toInt_le]

theorem shiftLeft_one (v : Int32) : v <<< (1 : Int32) = v + v := by
  have hshift : (Int32.toBitVec 1).smod 32 = 1#32 := by decide
  apply Int32.toBitVec_inj.mp
  apply BitVec.eq_of_toNat_eq
  simp only [Int32.toBitVec_shiftLeft, Int32.toBitVec_add, BitVec.toNat_add, hshift]
  simp [BitVec.toNat_shiftLeft, Nat.shiftLeft_eq]
  omega

theorem circleLoop_turn {fuel : ℕ} {s : CircleLoop} {calls : List Call} (hxy : s.x ≤ s.y)
    (h : circleLoop fuel s = some calls) :
    ∃ fuel' rest, circleLoop fuel' s.step = some rest ∧ calls = s.calls ++ rest := by
  cases fuel with
  | zero => simp [circleLoop] at h
  | succ fuel =>
      rw [circleLoop, if_pos hxy] at h
      obtain ⟨rest, hrest, rfl⟩ := Option.map_eq_some_iff.mp h
      exact ⟨fuel, rest, hrest, rfl⟩

/-- From a radius of two on, a circle comes back to its top line at the second column. -/
theorem circle_run (h : 1 < radiusX) (hbound : 2 * radiusX.toInt ≤ 2 ^ 31) {fuel : ℕ}
    {calls : List Call} (hrun : ellipseAlgorithm radiusX radiusX fuel = some calls) :
    ∃ rest, calls = ⟨0, radiusX⟩ :: ⟨radiusX, 0⟩ :: ⟨1, radiusX⟩ :: rest := by
  have hr : 1 < radiusX.toInt := Int32.lt_iff_toInt_lt.mp h
  have hzero : (0 : Int32) < radiusX := Int32.lt_iff_toInt_lt.mpr (by
    rw [Int32.toInt_zero]
    omega)
  have hp : (CircleLoop.start radiusX).p < 0 := by
    have hstart : (CircleLoop.start radiusX).p = .ofInt (3 - (radiusX.toInt + radiusX.toInt)) := by
      rw [Int32.ofInt_sub, Int32.ofInt_add, Int32.ofInt_toInt, ← shiftLeft_one]
      rfl
    rw [hstart]
    exact (ofInt_negative ⟨by omega, by omega⟩).mpr (by omega)
  rw [ellipseAlgorithm, if_neg (by simpa using hzero), if_pos rfl] at hrun
  have hone : (0 + 1 : Int32) = 1 := by decide
  have hstep : (CircleLoop.start radiusX).step = ⟨1, radiusX,
      (CircleLoop.start radiusX).p + (0 <<< (2 : Int32) + 6), radiusX⟩ := by
    rw [CircleLoop.step, if_pos hp]
    simp only [CircleLoop.start, hone]
  obtain ⟨fuel, rest, hrest, rfl⟩ :=
    circleLoop_turn (s := CircleLoop.start radiusX) (Int32.le_of_lt hzero) hrun
  rw [hstep] at hrest
  obtain ⟨fuel, rest, -, rfl⟩ :=
    circleLoop_turn (s := ⟨1, radiusX, _, radiusX⟩) (Int32.le_of_lt h) hrest
  have hfirst : (CircleLoop.start radiusX).calls = [⟨0, radiusX⟩, ⟨radiusX, 0⟩] :=
    congrArg (List.cons (Call.mk 0 radiusX)) (if_pos hzero)
  rw [hfirst]
  exact ⟨_, rfl⟩

/-- The second fill of the top line blends the outline's own pixel in the middle. -/
theorem circle_not_fillsOnce (ht : brush.IsTranslucent) (hs : brush.IsSolid) (h : 1 < radiusX)
    (hbound : 2 * radiusX.toInt ≤ 2 ^ 31) (hfits : CenterFits centerX centerY radiusX radiusX) :
    ¬FillsOnce brush centerX centerY radiusX radiusX := by
  rintro ⟨fuel, calls, hrun, hfill⟩
  have hr : 1 < radiusX.toInt := Int32.lt_iff_toInt_lt.mp h
  obtain ⟨rest, rfl⟩ := circle_run h hbound hrun
  obtain ⟨hcount, -⟩ := hfill ⟨⟨0, 0, 0, 0⟩, fun _ => 0⟩
  have htop := hcount (centerX, centerY - radiusX)
  have hrow : (centerY - radiusX).toInt = centerY.toInt - radiusX.toInt :=
    toInt_sub_of ⟨hfits.2.2.1, by have := centerY.toInt_lt; omega⟩
  have hline : |(centerY - radiusX).toInt - centerY.toInt| = radiusX.toInt := by
    rw [hrow, abs_eq (by omega)]
    omega
  have hout : ¬Interior centerX centerY
      (⟨0, radiusX⟩ :: ⟨radiusX, 0⟩ :: ⟨1, radiusX⟩ :: rest) (centerX, centerY - radiusX) := by
    intro hinterior
    have := hinterior.2 ⟨0, radiusX⟩ List.mem_cons_self hline
    simp at this
  have hpos : (0 : Int32) < radiusX := Int32.lt_trans (by decide) h
  have hleft : (0 : Int32) ≤ 1 := by decide
  have hin : Call.Inside radiusX radiusX ⟨1, radiusX⟩ :=
    ⟨hleft, Int32.le_of_lt h, Int32.le_of_lt hpos, Int32.le_refl _⟩
  have hmem : (centerX, centerY - radiusX) ∈ scanLines centerX centerY ⟨1, radiusX⟩ :=
    (mem_scanLines hfits (by omega) hin).mpr ⟨hline, by simp⟩
  have hne : (0 : Int32) ≠ radiusX := by
    rintro rfl
    simp at hr
  rw [fillPass, fillPass_eq ht hs, if_neg hout, List.nil_append, List.count_eq_zero] at htop
  apply htop
  simp only [fillPositions, if_neg hne, List.mem_append]
  exact .inr (.inr (.inl hmem))

/-- As long as no `int` overflows, the translucent fill is right for every ellipse and for the
smallest circle, and for no other circle. -/
theorem translucent_fill_iff (ht : brush.IsTranslucent) (hs : brush.IsSolid)
    (hX : 0 < radiusX) (hY : 0 < radiusY) (hfits : CenterFits centerX centerY radiusX radiusY)
    (hbound : if radiusX = radiusY then 2 * radiusX.toInt ≤ 2 ^ 31
      else NoOverflow radiusX.toInt radiusY.toInt) :
    FillsOnce brush centerX centerY radiusX radiusY ↔ radiusX ≠ radiusY ∨ radiusX = 1 := by
  by_cases heq : radiusX = radiusY
  · subst heq
    rw [if_pos rfl] at hbound
    constructor
    · intro hfill
      by_contra hne
      have hone : radiusX ≠ 1 := fun h => hne (.inr h)
      have hlarge : 1 < radiusX := by
        rw [Int32.lt_iff_toInt_lt] at hX ⊢
        rw [Ne, ← Int32.toInt_inj] at hone
        have h0 : (0 : Int32).toInt = 0 := rfl
        have h1 : (1 : Int32).toInt = 1 := rfl
        omega
      exact circle_not_fillsOnce ht hs hlarge hbound hfits hfill
    · rintro (hne | rfl)
      · exact absurd rfl hne
      · exact point_fillsOnce ht hs hfits
  · rw [if_neg heq] at hbound
    exact iff_of_true (ellipse_fillsOnce ht hs hX hY heq hfits hbound) (.inl heq)

theorem translucent_fill_flat :
    FillsOnce ⟨0xF800, 0, 0, 0xF800, 0, 0, 128⟩ 60 50 40 25 :=
  (translucent_fill_iff (by decide) (by decide) (by decide) (by decide) (by decide)
    (by decide)).mpr (by decide)

theorem circleLoop_more {fuel more : ℕ} (hle : fuel ≤ more) {s : CircleLoop} {calls : List Call}
    (h : circleLoop fuel s = some calls) : circleLoop more s = some calls := by
  induction fuel generalizing more s calls with
  | zero => simp [circleLoop] at h
  | succ fuel ih =>
      obtain ⟨more, rfl⟩ : ∃ m, more = m + 1 := ⟨more - 1, by omega⟩
      rw [circleLoop] at h ⊢
      split
      · rw [if_pos ‹_›] at h
        obtain ⟨rest, hrest, rfl⟩ := Option.map_eq_some_iff.mp h
        rw [ih (Nat.le_of_succ_le_succ hle) hrest]
        rfl
      · rw [if_neg ‹_›] at h
        exact h

/-- In a circle of radius 4 the line three above the center is met at two columns, and filled
twice up to the first of them. -/
theorem not_fillsOnce_circle :
    ¬∀ (brush : Brush) (centerX centerY radiusX radiusY : Int32), 0 < radiusX → 0 < radiusY →
      brush.IsSolid → brush.IsTranslucent →
      FillsOnce brush centerX centerY radiusX radiusY := by
  intro hall
  obtain ⟨fuel, calls, hrun, hfill⟩ := hall ⟨0xF800, 0, 0, 0xF800, 0, 0, 128⟩ 10 10 4 4
    (by decide) (by decide) (by decide) (by decide)
  rw [ellipseAlgorithm, if_neg (by decide), if_pos rfl] at hrun
  have hcalls : circleLoop 5 (.start 4) =
      some [⟨0, 4⟩, ⟨4, 0⟩, ⟨1, 4⟩, ⟨4, 1⟩, ⟨2, 3⟩, ⟨3, 2⟩, ⟨3, 3⟩] := by
    decide +kernel
  have hmax := circleLoop_more (le_max_left fuel 5) hrun
  rw [circleLoop_more (le_max_right fuel 5) hcalls] at hmax
  obtain rfl := Option.some.inj hmax
  have hcount := (hfill ⟨⟨0, 0, 0, 0⟩, fun _ => 0⟩).1 (10, 7)
  rw [fillPass, fillPass_eq (by decide) (by decide)] at hcount
  revert hcount
  decide +kernel

end Pass

end TinyCLR.Graphics
