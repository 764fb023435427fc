import Mathlib
import TinyCLR.Library.MidpointEllipse

/-!
# The outline of an ellipse

`Graphics_Driver::EllipseAlgorithm` calls back once for each pixel of a quarter of the outline, as
offsets from the center. An `int` has 32 bits and wraps.
-/

namespace TinyCLR.Graphics

/-- The offsets handed to one `ellipseCallback`. -/
structure Call where
  x : Int32
  y : Int32
  deriving Repr, DecidableEq

section Circle

/-- The variables of the loop for equal radii. -/
structure CircleLoop where
  x : Int32
  y : Int32
  p : Int32
  yNext : Int32
  deriving Repr, DecidableEq

def CircleLoop.start (radiusX : Int32) : CircleLoop where
  x := 0
  y := radiusX
  p := 3 - (radiusX <<< (1 : Int32))
  yNext := radiusX

def CircleLoop.step (s : CircleLoop) : CircleLoop :=
  if s.p < 0 then
    { x := s.x + 1, y := s.yNext, p := s.p + ((s.x <<< (2 : Int32)) + 6), yNext := s.yNext }
  else
    { x := s.x + 1, y := s.yNext - 1, p := s.p + (((s.x - s.y) <<< (2 : Int32)) + 10),
      yNext := s.yNext - 1 }

/-- The second octant is the mirror image, without the pixel on the diagonal. -/
def CircleLoop.calls (s : CircleLoop) : List Call :=
  ⟨s.x, s.y⟩ :: if s.x < s.y then [⟨s.y, s.x⟩] else []

def circleLoop : ℕ → CircleLoop → Option (List Call)
  | 0, _ => none
  | fuel + 1, s =>
      if s.x ≤ s.y then (circleLoop fuel s.step).map (s.calls ++ ·) else some []

end Circle

section Ellipse

variable (radiusX radiusY : Int32)

def aSqr : Int32 := radiusX * radiusX
def bSqr : Int32 := radiusY * radiusY
def fourASqr : Int32 := 4 * aSqr radiusX
def fourBSqr : Int32 := 4 * bSqr radiusY
def eightASqr : Int32 := 8 * aSqr radiusX
def eightBSqr : Int32 := 8 * bSqr radiusY

/-- The variables of the loop over the columns. -/
structure ColumnLoop where
  x : Int32
  y : Int32
  D : Int32
  G : Int32
  deltaE : Int32
  deltaSE : Int32
  deriving Repr, DecidableEq

def ColumnLoop.start : ColumnLoop where
  x := 0
  y := radiusY
  D := fourBSqr radiusY - fourASqr radiusX * radiusY + aSqr radiusX
  G := fourASqr radiusX * (2 * radiusY - 1)
  deltaE := fourBSqr radiusY + eightBSqr radiusY
  deltaSE := fourBSqr radiusY + eightBSqr radiusY + eightASqr radiusX * (1 - radiusY)

def ColumnLoop.selectE (s : ColumnLoop) : ColumnLoop where
  x := s.x + 1
  y := s.y
  D := s.D + s.deltaE
  G := s.G - eightBSqr radiusY
  deltaE := s.deltaE + eightBSqr radiusY
  deltaSE := s.deltaSE + eightBSqr radiusY

def ColumnLoop.selectSE (s : ColumnLoop) : ColumnLoop where
  x := s.x + 1
  y := s.y - 1
  D := s.D + s.deltaSE
  G := s.G - (eightASqr radiusX + eightBSqr radiusY)
  deltaE := s.deltaE + eightBSqr radiusY
  deltaSE := s.deltaSE + (eightBSqr radiusY + eightASqr radiusX)

def ColumnLoop.step (s : ColumnLoop) : ColumnLoop :=
  if s.D < 0 then s.selectE radiusY else s.selectSE radiusX radiusY

/-- The variables of the loop over the rows. -/
structure RowLoop where
  x : Int32
  y : Int32
  D : Int32
  deltaS : Int32
  deltaSE : Int32
  deriving Repr, DecidableEq

/-- `D` moves from the row's lower edge to the column's right edge. -/
def RowLoop.start (s : ColumnLoop) : RowLoop :=
  let deltaS := fourASqr radiusX * (-2 * s.y + 3)
  { x := s.x
    y := s.y
    D := s.D + (aSqr radiusX * (3 - 4 * s.y) - bSqr radiusY * (3 + 4 * s.x))
    deltaS := deltaS
    deltaSE := eightBSqr radiusY * (s.x + 1) + deltaS }

def RowLoop.selectSE (s : RowLoop) : RowLoop where
  x := s.x + 1
  y := s.y - 1
  D := s.D + s.deltaSE
  deltaS := s.deltaS + eightASqr radiusX
  deltaSE := s.deltaSE + (eightASqr radiusX + eightBSqr radiusY)

def RowLoop.selectS (s : RowLoop) : RowLoop where
  x := s.x
  y := s.y - 1
  D := s.D + s.deltaS
  deltaS := s.deltaS + eightASqr radiusX
  deltaSE := s.deltaSE + eightASqr radiusX

def RowLoop.step (s : RowLoop) : RowLoop :=
  if s.D < 0 then s.selectSE radiusX radiusY else s.selectS radiusX

def rowLoop : ℕ → RowLoop → Option (List Call)
  | 0, _ => none
  | fuel + 1, s =>
      if 0 < s.y then
        let next := s.step radiusX radiusY
        (rowLoop fuel next).map (⟨next.x, next.y⟩ :: ·)
      else some []

/-- The loop over the columns, and then the one over the rows with the fuel that is left. -/
def columnLoop : ℕ → ColumnLoop → Option (List Call)
  | 0, _ => none
  | fuel + 1, s =>
      if 0 < s.G then
        let next := s.step radiusX radiusY
        (columnLoop fuel next).map (⟨next.x, next.y⟩ :: ·)
      else rowLoop radiusX radiusY fuel (RowLoop.start radiusX radiusY s)

/-- The callbacks in their order, or `none` when the loops are still running. -/
def ellipseAlgorithm (fuel : ℕ) : Option (List Call) :=
  if radiusX ≤ 0 ∨ radiusY ≤ 0 then some []
  else if radiusX = radiusY then circleLoop fuel (.start radiusX)
  else
    let s := ColumnLoop.start radiusX radiusY
    (columnLoop radiusX radiusY fuel s).map (⟨s.x, s.y⟩ :: ·)

end Ellipse

end TinyCLR.Graphics
