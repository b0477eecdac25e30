import BoardTest.FaceDet.Postprocess
import BoardTest.Lib.Region

/-!
# Overlaps, and a second suppression

What `intersection_area` and the quotient of `nms_sorted_bboxes` are for any two boxes of positive
sides, as sets of points; and that the faces which the suppression kept are kept by a second one,
whatever the boxes and the order.
-/

namespace BoardTest.FaceDet

variable {K : Type*} [Field K] [LinearOrder K]

/-- `tl` lies before `br` in both coordinates, and `area` is the product of the sides. -/
structure BBox.Proper (b : BBox K) : Prop where
  tlX_lt_brX : b.tlX < b.brX
  tlY_lt_brY : b.tlY < b.brY
  area_eq : b.area = (b.brX - b.tlX) * (b.brY - b.tlY)

/-- The points of a box. -/
def BBox.region (b : BBox K) : Set (K × K) := Set.Icc b.tlX b.brX ×ˢ Set.Icc b.tlY b.brY

/-- Its points without the border. -/
def BBox.inner (b : BBox K) : Set (K × K) := Set.Ioo b.tlX b.brX ×ˢ Set.Ioo b.tlY b.brY

/-- The faces that `nms_sorted_bboxes` keeps. -/
def pickedFaces (faceobjects : List (FaceObject K)) (nmsThreshold : K) : List (FaceObject K) :=
  (nmsSortedBboxes faceobjects nmsThreshold).map faceobjects.get

/-- What is computed for two boxes is what it is to be. -/
structure SoundOverlap (a b : BBox K) : Prop where
  hasArea : HasArea (a.region ∩ b.region) (intersectionArea a b)
  eq_zero : a.inner ∩ b.inner = ∅ → intersectionArea a b = 0
  comm : intersectionArea a b = intersectionArea b a
  union_pos : 0 < a.area + b.area - intersectionArea a b
  nonneg : 0 ≤ iouQuotient a b
  le_one : iouQuotient a b ≤ 1

/-- A second suppression keeps every face, in the same order. -/
structure Stable (faceobjects : List (FaceObject K)) (nmsThreshold : K) : Prop where
  indices : nmsSortedBboxes (pickedFaces faceobjects nmsThreshold) nmsThreshold =
    List.finRange (pickedFaces faceobjects nmsThreshold).length
  faces : pickedFaces (pickedFaces faceobjects nmsThreshold) nmsThreshold =
    pickedFaces faceobjects nmsThreshold

/-- A proper box is a rectangle. -/
def BBox.Proper.rect {b : BBox K} (h : b.Proper) : Rect K :=
  ⟨b.tlX, b.tlY, b.brX, b.brY, h.tlX_lt_brX, h.tlY_lt_brY⟩

theorem BBox.Proper.frames {b : BBox K} (h : b.Proper) : b.Frames h.rect :=
  ⟨rfl, rfl, rfl, rfl, h.area_eq⟩

theorem soundOverlap [IsStrictOrderedRing K] {a b : BBox K} (ha : a.Proper) (hb : b.Proper) :
    SoundOverlap a b := by
  have hinter := intersectionArea_eq ha.frames hb.frames
  have hquotient := iouQuotient_eq ha.frames hb.frames
  refine ⟨?_, ?_, ?_, ?_, ?_, ?_⟩
  · rw [hinter]
    exact ha.rect.hasArea_inter hb.rect
  · intro hdisjoint
    rw [hinter]
    exact Rect.inter_eq_zero_iff.mpr hdisjoint
  · rw [hinter, intersectionArea_eq hb.frames ha.frames, Rect.inter_comm]
  · rw [hinter, ha.frames.area_eq, hb.frames.area_eq]
    exact ha.rect.union_pos hb.rect
  · rw [hquotient]
    exact ha.rect.iou_nonneg hb.rect
  · rw [hquotient]
    exact ha.rect.iou_le_one hb.rect

variable (faceobjects : List (FaceObject K)) (nmsThreshold : K)

/-- Of the faces that are kept, none overlaps one before it too far. -/
theorem pickedFaces_apart : (pickedFaces faceobjects nmsThreshold).Pairwise fun f g =>
    ¬ nmsThreshold < iouQuotient g.bbox f.bbox := by
  have hany : (List.finRange faceobjects.length).Pairwise fun _ _ => True :=
    List.pairwise_of_forall fun _ _ => trivial
  obtain ⟨dropped, h⟩ := exists_greedySelection (suppresses faceobjects nmsThreshold) hany
  rw [pickedFaces, nmsSortedBboxes_eq, List.pairwise_map]
  exact h.apart.imp fun hij => of_decide_eq_false hij

/-- Where no face overlaps one before it too far, every face is kept. -/
theorem nmsSortedBboxes_of_apart {faceobjects : List (FaceObject K)} {nmsThreshold : K}
    (h : faceobjects.Pairwise fun f g => ¬ nmsThreshold < iouQuotient g.bbox f.bbox) :
    nmsSortedBboxes faceobjects nmsThreshold = List.finRange faceobjects.length := by
  rw [← List.map_get_finRange faceobjects, List.pairwise_map] at h
  rw [nmsSortedBboxes_eq]
  exact greedy_eq_self_of_pairwise (h.imp fun hij => decide_eq_false hij)

theorem stable : Stable faceobjects nmsThreshold := by
  have hindices := nmsSortedBboxes_of_apart (pickedFaces_apart faceobjects nmsThreshold)
  refine ⟨hindices, ?_⟩
  rw [pickedFaces, hindices, List.map_get_finRange]

/-- For all boxes: the intersection is that of the points, the quotient is one in earnest between
0 and 1, and a second suppression keeps what the first one kept. -/
theorem overlap_and_suppression [IsStrictOrderedRing K] (faceobjects : List (FaceObject K))
    (hproper : ∀ f ∈ faceobjects, f.bbox.Proper) :
    (∀ f ∈ faceobjects, ∀ g ∈ faceobjects, SoundOverlap f.bbox g.bbox) ∧
      ∀ nmsThreshold, Stable faceobjects nmsThreshold :=
  ⟨fun f hf g hg => soundOverlap (hproper f hf) (hproper g hg), stable faceobjects⟩

/-- A face of one square unit. -/
def unitFace (x y : ℚ) : FaceObject ℚ := ⟨⟨x, y, x + 1, y + 1, 1⟩, 1, fun _ => ⟨x, y, 1⟩⟩

theorem unitFace_proper (x y : ℚ) : (unitFace x y).bbox.Proper := by
  refine ⟨?_, ?_, ?_⟩
  · exact lt_add_one x
  · exact lt_add_one y
  · change (1 : ℚ) = (x + 1 - x) * (y + 1 - y)
    ring

/-- Two faces that touch at a corner. -/
theorem overlap_and_suppression_touching :
    (∀ f ∈ [unitFace 0 0, unitFace 1 1], ∀ g ∈ [unitFace 0 0, unitFace 1 1],
        SoundOverlap f.bbox g.bbox) ∧
      ∀ nmsThreshold, Stable [unitFace 0 0, unitFace 1 1] nmsThreshold := by
  refine overlap_and_suppression _ ?_
  simp only [List.forall_mem_cons, unitFace_proper, List.not_mem_nil, false_imp_iff, implies_true,
    and_self]

end BoardTest.FaceDet
