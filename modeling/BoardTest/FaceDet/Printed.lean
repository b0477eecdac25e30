import BoardTest.FaceDet.Bounds
import BoardTest.Lib.Rounding

/-!
# What is printed of the faces

`postprocess_face_det` rounds every coordinate of the network to an integer, and `main` of
`npu_detect_face.c` multiplies that integer by the scale of its axis and rounds again. Both add 0.5
and cut towards zero (`Lib/Rounding`), and a box or landmark may reach over the upper or left edge
of the image, where that is no rounding to nearest.
-/

namespace BoardTest.FaceDet

variable {K : Type} [Field K] [LinearOrder K]

section Main

variable [FloorRing K]

end Main

/-- The integer is as near to the scaled coordinate as two roundings to nearest leave it. -/
structure Near (scale exact : K) (printed : Int) : Prop where
  abs_le : |(printed : K) - exact * scale| ≤ (scale + 1) / 2

section Reach

variable [FloorRing K]

/-- The integer that both steps make of a coordinate of a box. -/
def pixel (scale exact : K) : Int := cutHalf ((cutHalf exact : K) * scale)

variable [IsStrictOrderedRing K] {scale exact : K}

end Reach

section Near

variable [FloorRing K] [IsStrictOrderedRing K]

end Near

/-! ## A face over the upper left corner -/

section Corner

variable {exp : K → K}

end Corner

end BoardTest.FaceDet
