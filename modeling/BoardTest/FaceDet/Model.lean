import BoardTest.FaceDet.Sort
import Mathlib.Algebra.Order.Floor.Defs
import Mathlib.Algebra.Order.Field.Basic

/-!
# Cells, suppression and faces

The parts of `face_det_postprocess.cpp` over an ordered field `K`: the arithmetic is exact, and
`exp` is a parameter. What a cell of a tensor adds to the proposals, what the suppression keeps, and
what is written to `outputs->faces`. The fields of `AW_Box` are printed as `int`s and taken to be
that; `ldmk.cx` and `ldmk.cy` are arrays of `short` (`awf_detection.cpp:420-421`).
-/

namespace BoardTest.FaceDet

/-- `BBox` (line 12) -/
structure BBox (K : Type*) where
  tlX : K
  tlY : K
  brX : K
  brY : K
  area : K

/-- `LDMKPoint` (line 21) -/
structure LdmkPoint (K : Type*) where
  x : K
  y : K
  prob : K

/-- `FaceObject` (line 28), with `NUM_KEYPOINTS` landmarks -/
structure FaceObject (K : Type*) where
  bbox : BBox K
  score : K
  landmark : Fin 5 → LdmkPoint K

variable {K : Type*} [Field K] [LinearOrder K]

/-- `intersection_area` (line 34) -/
def intersectionArea (a b : BBox K) : K :=
  if a.tlX > b.brX ∨ a.brX < b.tlX ∨ a.tlY > b.brY ∨ a.brY < b.tlY then 0
  else (min a.brX b.brX - max a.tlX b.tlX) * (min a.brY b.brY - max a.tlY b.tlY)

section Proposals

variable (exp : K → K)

/-- `sigmoid` (line 52) -/
def sigmoid (x : K) : K := 1 / (1 + exp (-x))

/-- The box of a cell (lines 92 to 106): `ptr` is what the channels hold there. -/
def cellBox (ptr : Int → K) (anchorW anchorH : K) (i j : Nat) (stride : Int) : BBox K :=
  let dx := sigmoid exp (ptr 0)
  let dy := sigmoid exp (ptr 1)
  let dw := sigmoid exp (ptr 2)
  let dh := sigmoid exp (ptr 3)
  let pbCx := (dx * 2 - 1 / 2 + j) * stride
  let pbCy := (dy * 2 - 1 / 2 + i) * stride
  let pbW := (dw * 2) ^ 2 * anchorW
  let pbH := (dh * 2) ^ 2 * anchorH
  { tlX := pbCx - pbW * (1 / 2)
    tlY := pbCy - pbH * (1 / 2)
    brX := pbCx + pbW * (1 / 2)
    brY := pbCy + pbH * (1 / 2)
    area := pbH * pbW }

/-- The landmarks of a cell (lines 108 to 116). -/
def cellLandmark (ptr : Int → K) (i j : Nat) (stride : Int) (l : Fin 5) : LdmkPoint K where
  x := (ptr (l * 3 + 6) * 2 - 1 / 2 + j) * stride
  y := (ptr (l * 3 + 7) * 2 - 1 / 2 + i) * stride
  prob := ptr (l * 3 + 8)

/-- The body of the three loops (line 84): what a cell adds to the proposals. -/
def cellProposal (ptr : Int → K) (anchorW anchorH : K) (i j : Nat) (stride : Int) (thresh : K) :
    Option (FaceObject K) :=
  let bboxScore := sigmoid exp (ptr 4)
  if bboxScore > thresh then
    let confidence := sigmoid exp (ptr 4) * sigmoid exp (ptr 5)
    if confidence > thresh then
      some
        { bbox := cellBox exp ptr anchorW anchorH i j stride
          score := confidence
          landmark := cellLandmark ptr i j stride }
    else none
  else none

/-- `int channels = 21;` -/
def channels : Int := 21

end Proposals

/-- The quotient of lines 148 to 150. -/
def iouQuotient (a b : BBox K) : K :=
  let interArea := intersectionArea a b
  let unionArea := a.area + b.area - interArea
  interArea / unionArea

/-- The inner loop of `nms_sorted_bboxes` (line 140), which goes on when `keep` is 0. -/
def keepFace (faceobjects : List (FaceObject K)) (nmsThreshold : K)
    (picked : List (Fin faceobjects.length)) (i : Fin faceobjects.length) : Bool :=
  picked.foldl (fun keep j =>
    if iouQuotient (faceobjects.get i).bbox (faceobjects.get j).bbox > nmsThreshold then false
    else keep) true

/-- `nms_sorted_bboxes` (line 126) -/
def nmsSortedBboxes (faceobjects : List (FaceObject K)) (nmsThreshold : K) :
    List (Fin faceobjects.length) :=
  (List.finRange faceobjects.length).foldl (fun picked i =>
    if keepFace faceobjects nmsThreshold picked i then picked ++ [i] else picked) []

/-- The box of `outputs->faces[i]`. -/
structure DetBox where
  tlX : Int
  tlY : Int
  brX : Int
  brY : Int
  width : Int
  height : Int
  deriving DecidableEq

/-- What is written of `outputs->faces[i]`. -/
structure DetFace (K : Type*) where
  bbox : DetBox
  confidScore : K
  cx : Fin 5 → Int
  cy : Fin 5 → Int

/-- What is written of `outputs`. -/
structure DetOutputs (K : Type*) where
  num : Nat
  faces : List (DetFace K)

section Outputs

variable {K : Type} [Field K] [LinearOrder K] [FloorRing K]

/-- The integer part of `x`, cut towards zero. -/
def truncInt (x : K) : Int := if 0 ≤ x then ⌊x⌋ else ⌈x⌉

/-- `int(x)`, which is undefined for an integer part outside of `int` -/
def toInt (x : K) : Option Int := inInt (truncInt x)

/-- A loop that fills an array. -/
def allSome {α : Type*} {n : Nat} (f : Fin n → Option α) : Option (Fin n → α) :=
  if h : ∀ j, (f j).isSome then some fun j => (f j).get (h j) else none

/-- The body of the last loop (line 236). -/
def detFace (face : FaceObject K) : Option (DetFace K) := do
  let tlX ← toInt (face.bbox.tlX + 1 / 2)
  let tlY ← toInt (face.bbox.tlY + 1 / 2)
  let brX ← toInt (face.bbox.brX + 1 / 2)
  let brY ← toInt (face.bbox.brY + 1 / 2)
  let width ← inInt (brX - tlX)
  let height ← inInt (brY - tlY)
  let cx ← allSome fun j => (toInt ((face.landmark j).x + 1 / 2)).map toShort
  let cy ← allSome fun j => (toInt ((face.landmark j).y + 1 / 2)).map toShort
  pure
    { bbox := ⟨tlX, tlY, brX, brY, width, height⟩, confidScore := face.score, cx := cx, cy := cy }

/-- The entries written for the faces kept (lines 234 to 250). -/
def detOutputs (kept : List (FaceObject K)) : Option (DetOutputs K) := do
  let faces ← kept.mapM detFace
  pure ⟨kept.length, faces⟩

end Outputs

end BoardTest.FaceDet
