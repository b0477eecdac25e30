import BoardTest.FaceDet.Proposals
import BoardTest.Lib.Greedy
import BoardTest.Lib.Rect
import Mathlib.Algebra.Order.Archimedean.Real.Basic
import Mathlib.Analysis.Complex.Exponential
import Mathlib.Data.List.FinRange
import Mathlib.Data.List.GetD
import Mathlib.Data.Rat.Floor
import Mathlib.Tactic.Ring

/-!
# Which faces are kept

`postprocess_face_det` over the tensors of an image. Where an `int` holds every index of them
(`ImageSize.IndicesFit`), the proposals are those of the three grids (`faceProposals_eq`). Every box
among them is a rectangle of positive sides whose area stands in the box, so that the quotient of
`nms_sorted_bboxes` is the intersection over union of two rectangles. Over the sorted proposals the
suppression is a greedy selection (`Lib/Greedy`), and what it keeps is as `Suppression` says.
-/

namespace BoardTest.FaceDet

section Program

variable {K : Type} [Field K] [LinearOrder K]

/-- The proposals of the three tensors (lines 209 to 226). -/
def faceProposals (exp : K → K) (inputs : Fin 3 → List K) (width height : Int)
    (confidThresh : K) : Option (List (FaceObject K)) := do
  let anchor0 := [4, 5, 6, 8, 10, 12]
  let anchor1 := [15, 19, 23, 30, 39, 52]
  let anchor2 := [72, 97, 123, 164, 209, 297]
  let faceObjects ← generateProposals exp (inputs 0) anchor0 width height 8 confidThresh []
  let faceObjects ←
    generateProposals exp (inputs 1) anchor1 width height 16 confidThresh faceObjects
  generateProposals exp (inputs 2) anchor2 width height 32 confidThresh faceObjects

/-- The faces that are kept, as the network has them (lines 207 to 232). -/
def keptFaces (exp : K → K) (inputs : Fin 3 → List K) (width height : Int)
    (confidThresh nmsThresh : K) : Option (List (FaceObject K)) := do
  let faceObjects ← faceProposals exp inputs width height confidThresh
  let faceObjects ← qsortDescentInplace FaceObject.score faceObjects
  pure ((nmsSortedBboxes faceObjects nmsThresh).map faceObjects.get)

/-- `postprocess_face_det` (line 206) -/
def postprocessFaceDet [FloorRing K] (exp : K → K) (inputs : Fin 3 → List K) (width height : Int)
    (confidThresh nmsThresh : K) : Option (DetOutputs K) := do
  detOutputs (← keptFaces exp inputs width height confidThresh nmsThresh)

end Program

variable {K : Type*} [Field K] [LinearOrder K]

/-! ## The tensors of an image -/

/-- `width` and `height`, two `int`s -/
structure ImageSize where
  width : Nat
  height : Nat
  widthInt : width < 2 ^ 31
  heightInt : height < 2 ^ 31

/-- The strides of the three grids. -/
def stride : Fin 3 → Nat
  | 0 => 8
  | 1 => 16
  | 2 => 32

namespace ImageSize

variable (s : ImageSize)

/-- The cells of a grid. -/
def cells (stride : Nat) : Nat := s.height / stride * (s.width / stride)

/-- An `int` holds every index of the tensors: of the 21 channels of 3 anchors in the cells of the
finest grid. -/
def IndicesFit : Prop := 63 * s.cells 8 ≤ 2 ^ 31

instance : Decidable s.IndicesFit := inferInstanceAs (Decidable (_ ≤ _))

/-- The cells of the three grids, with three anchors each. -/
def gridAnchors : Nat := 3 * s.cells 8 + 3 * s.cells 16 + 3 * s.cells 32

theorem cells_le {stride : Nat} (h : 8 ≤ stride) : s.cells stride ≤ s.cells 8 :=
  Nat.mul_le_mul (Nat.div_le_div_left h (by decide)) (Nat.div_le_div_left h (by decide))

variable {s}

theorem gridAnchors_le (h : s.IndicesFit) : s.gridAnchors ≤ 2 ^ 30 + 1 := by
  have hfit : 63 * s.cells 8 ≤ 2 ^ 31 := h
  have h16 := s.cells_le (by decide : 8 ≤ 16)
  have h32 := s.cells_le (by decide : 8 ≤ 32)
  rw [gridAnchors]
  omega

theorem fits (h : s.IndicesFit) {stride : Nat} (hstride : 8 ≤ stride) :
    Fits 3 (s.height / stride) (s.width / stride) := by
  have hfit : 63 * s.cells 8 ≤ 2 ^ 31 := h
  have hcells := s.cells_le hstride
  rw [cells] at hcells
  refine ⟨by decide, by omega, ?_⟩
  calc 21 * 3 * (s.height / stride) * (s.width / stride)
      = 63 * (s.height / stride * (s.width / stride)) := by ring
    _ ≤ 2 ^ 31 := by omega

end ImageSize

/-- The outputs of the network for an image: a tensor for each stride, of 21 channels for each of 3
anchors. -/
structure Tensors (K : Type*) (s : ImageSize) where
  data : Fin 3 → List K
  length_data : ∀ t, (data t).length = 63 * s.cells (stride t)

/-- The box is the rectangle, and has its area. -/
structure BBox.Frames (b : BBox K) (r : Rect K) : Prop where
  tlX_eq : b.tlX = r.left
  tlY_eq : b.tlY = r.top
  brX_eq : b.brX = r.right
  brY_eq : b.brY = r.bottom
  area_eq : b.area = r.area

/-- A face with the rectangle of its box. -/
structure BoxedFace (K : Type*) [Field K] [LinearOrder K] where
  face : FaceObject K
  rect : Rect K
  frames : face.bbox.Frames rect

section Boxes

variable [IsStrictOrderedRing K] {a b : BBox K} {r s : Rect K}

theorem intersectionArea_eq (ha : a.Frames r) (hb : b.Frames s) :
    intersectionArea a b = r.inter s := by
  rw [intersectionArea, ha.tlX_eq, ha.tlY_eq, ha.brX_eq, ha.brY_eq, hb.tlX_eq, hb.tlY_eq,
    hb.brX_eq, hb.brY_eq]
  split
  · rename_i happart
    rw [← or_assoc] at happart
    rcases happart with hx | hy
    · rw [Rect.inter, overlap_eq_zero hx, zero_mul]
    · rw [Rect.inter, overlap_eq_zero hy, mul_zero]
  · rename_i hmeet
    simp only [not_or, not_lt] at hmeet
    obtain ⟨hx, hx', hy, hy'⟩ := hmeet
    rw [Rect.inter, overlap_eq_sub r.left_lt_right.le s.left_lt_right.le hx hx',
      overlap_eq_sub r.top_lt_bottom.le s.top_lt_bottom.le hy hy']

theorem iouQuotient_eq (ha : a.Frames r) (hb : b.Frames s) : iouQuotient a b = r.iou s := by
  simp only [iouQuotient, intersectionArea_eq ha hb, ha.area_eq, hb.area_eq, Rect.iou, Rect.union]

end Boxes

theorem length_flatMap_le {α β : Type*} {l : List α} {f : α → List β} {m : Nat}
    (h : ∀ x ∈ l, (f x).length ≤ m) : (l.flatMap f).length ≤ l.length * m := by
  induction l with
  | nil => simp
  | cons x l ih =>
    rw [List.forall_mem_cons] at h
    have hrest := ih h.2
    rw [List.flatMap_cons, List.length_append, List.length_cons, Nat.succ_mul]
    omega

section Grids

variable (exp : K → K)

/-- The proposals of the three grids, for tensors without a size. -/
def gridFaces (inputs : Fin 3 → Int → K) (width height : Int) (confidThresh : K) :
    List (FaceObject K) :=
  gridProposals exp (inputs 2) [72, 97, 123, 164, 209, 297] width height 32 confidThresh
    (gridProposals exp (inputs 1) [15, 19, 23, 30, 39, 52] width height 16 confidThresh
      (gridProposals exp (inputs 0) [4, 5, 6, 8, 10, 12] width height 8 confidThresh []))

theorem length_gridProposals_le (inputs : Int → K) (anchor : List Int) (s : ImageSize)
    (stride : Nat) (thresh : K) (proposals : List (FaceObject K)) :
    (gridProposals exp inputs anchor s.width s.height stride thresh proposals).length ≤
      proposals.length + anchor.length / 2 * s.cells stride := by
  rw [gridProposals, List.length_append, ImageSize.cells]
  simp only [← Int.ofNat_tdiv, Int.toNat_natCast]
  apply Nat.add_le_add_left
  have hanchor := length_flatMap_le (l := List.range (anchor.length / 2))
    (m := s.height / stride * (s.width / stride)) (f := fun c =>
      (List.range (s.height / stride)).flatMap fun i =>
        (List.range (s.width / stride)).filterMap fun j =>
          cellProposal exp (fun channel => inputs (elementNumber (s.width / stride : Nat)
            (s.height / stride : Nat) c channel i j)) (anchor.getD (c * 2) 0 : Int)
            (anchor.getD (c * 2 + 1) 0 : Int) i j stride thresh) ?_
  · rwa [List.length_range] at hanchor
  · intro c _
    refine (length_flatMap_le (m := s.width / stride) ?_).trans_eq (by rw [List.length_range])
    intro i _
    exact (List.length_filterMap_le _ _).trans_eq List.length_range

theorem length_gridFaces_le (inputs : Fin 3 → Int → K) (s : ImageSize) (confidThresh : K) :
    (gridFaces exp inputs s.width s.height confidThresh).length ≤ s.gridAnchors := by
  have h8 := length_gridProposals_le exp (inputs 0) [4, 5, 6, 8, 10, 12] s 8 confidThresh []
  have h16 := length_gridProposals_le exp (inputs 1) [15, 19, 23, 30, 39, 52] s 16
    confidThresh (gridProposals exp (inputs 0) [4, 5, 6, 8, 10, 12] s.width s.height 8
      confidThresh [])
  have h32 := length_gridProposals_le exp (inputs 2) [72, 97, 123, 164, 209, 297] s 32
    confidThresh (gridProposals exp (inputs 1) [15, 19, 23, 30, 39, 52] s.width s.height 16
      confidThresh (gridProposals exp (inputs 0) [4, 5, 6, 8, 10, 12] s.width s.height 8
        confidThresh []))
  simp only [List.length_cons, List.length_nil, Nat.reduceAdd, Nat.reduceDiv, Nat.cast_ofNat]
    at h8 h16 h32
  rw [gridFaces, ImageSize.gridAnchors]
  omega

end Grids

section Proposals

variable [IsStrictOrderedRing K] {exp : K → K} (hexp : ∀ x, 0 < exp x)

include hexp

theorem sigmoid_pos (x : K) : 0 < sigmoid exp x := by
  have := hexp (-x)
  rw [sigmoid]
  positivity

/-- The box of a cell has positive sides: a square times the side of an anchor. -/
theorem exists_frames_cellBox (ptr : Int → K) {anchorW anchorH : K} (hw : 0 < anchorW)
    (hh : 0 < anchorH) (i j : Nat) (stride : Int) :
    ∃ r, (cellBox exp ptr anchorW anchorH i j stride).Frames r := by
  have hdw := sigmoid_pos hexp (ptr 2)
  have hdh := sigmoid_pos hexp (ptr 3)
  have hpbW : 0 < (sigmoid exp (ptr 2) * 2) ^ 2 * anchorW := by positivity
  have hpbH : 0 < (sigmoid exp (ptr 3) * 2) ^ 2 * anchorH := by positivity
  refine ⟨⟨_, _, _, _, ?_, ?_⟩, rfl, rfl, rfl, rfl, ?_⟩
  · simp only [cellBox]
    linarith
  · simp only [cellBox]
    linarith
  · simp only [cellBox, Rect.area]
    ring

theorem exists_frames_of_cellProposal {ptr : Int → K} {anchorW anchorH : K} (hw : 0 < anchorW)
    (hh : 0 < anchorH) {i j : Nat} {stride : Int} {thresh : K} {f : FaceObject K}
    (hf : cellProposal exp ptr anchorW anchorH i j stride thresh = some f) :
    ∃ r, f.bbox.Frames r := by
  simp only [cellProposal] at hf
  split at hf
  · split at hf
    · obtain rfl := Option.some.inj hf
      exact exists_frames_cellBox hexp ptr hw hh i j stride
    · cases hf
  · cases hf

theorem gridProposals_framed {inputs : Int → K} {anchor : List Int}
    (hanchor : ∀ a ∈ anchor, 0 < a) {inputW inputH stride : Int} {thresh : K}
    {proposals : List (FaceObject K)} (hprop : ∀ f ∈ proposals, ∃ r, f.bbox.Frames r) :
    ∀ f ∈ gridProposals exp inputs anchor inputW inputH stride thresh proposals,
      ∃ r, f.bbox.Frames r := by
  have hside : ∀ k < anchor.length, (0 : K) < (anchor.getD k 0 : Int) := by
    intro k hk
    rw [List.getD_eq_getElem _ _ hk]
    exact Int.cast_pos.mpr (hanchor _ (List.getElem_mem hk))
  intro f hf
  simp only [gridProposals, List.mem_append, List.mem_flatMap, List.mem_filterMap,
    List.mem_range] at hf
  rcases hf with hf | ⟨c, hc, i, -, j, -, hf⟩
  · exact hprop f hf
  · apply exists_frames_of_cellProposal hexp _ _ hf
    · exact hside _ (by omega)
    · exact hside _ (by omega)

theorem gridFaces_framed (inputs : Fin 3 → Int → K) (width height : Int) (confidThresh : K) :
    ∀ f ∈ gridFaces exp inputs width height confidThresh, ∃ r, f.bbox.Frames r := by
  apply gridProposals_framed hexp (by decide)
  apply gridProposals_framed hexp (by decide)
  apply gridProposals_framed hexp (by decide)
  simp

end Proposals

section Suppression

variable (faceobjects : List (FaceObject K)) (nmsThreshold : K)

/-- What keeps a face out: a quotient above the threshold. -/
def suppresses (i j : Fin faceobjects.length) : Bool :=
  nmsThreshold < iouQuotient (faceobjects.get i).bbox (faceobjects.get j).bbox

theorem keepFace_eq (picked : List (Fin faceobjects.length)) (i : Fin faceobjects.length) :
    keepFace faceobjects nmsThreshold picked i =
      !picked.any (suppresses faceobjects nmsThreshold i) := by
  have hloop : ∀ keep : Bool, picked.foldl (fun keep j =>
      if iouQuotient (faceobjects.get i).bbox (faceobjects.get j).bbox > nmsThreshold then false
      else keep) keep = (keep && !picked.any (suppresses faceobjects nmsThreshold i)) := by
    induction picked with
    | nil => simp
    | cons j picked ih =>
      intro keep
      rw [List.foldl_cons, ih, List.any_cons, suppresses]
      split
      · rename_i hgt
        rw [decide_eq_true hgt, Bool.true_or, Bool.not_true, Bool.and_false, Bool.false_and]
      · rename_i hle
        rw [decide_eq_false hle, Bool.false_or]
  exact hloop true

/-- The suppression is a greedy selection from the indices. -/
theorem nmsSortedBboxes_eq : nmsSortedBboxes faceobjects nmsThreshold =
    greedy (suppresses faceobjects nmsThreshold) (List.finRange faceobjects.length) := by
  rw [nmsSortedBboxes, greedy]
  congr 1
  funext picked i
  rw [keepFace_eq, greedyStep]
  cases picked.any (suppresses faceobjects nmsThreshold i) <;> rfl

/-- The proposals are split into faces kept and faces dropped: the kept ones stand in order of their
score and overlap at most as far as the threshold allows, and for each dropped one a face with at
least its score is kept that it overlaps farther. -/
structure Suppression (proposals : List (FaceObject K)) (nmsThresh : K)
    (kept dropped : List (BoxedFace K)) : Prop where
  perm : proposals.Perm ((kept ++ dropped).map BoxedFace.face)
  descending : kept.Pairwise (fun a b => b.face.score ≤ a.face.score)
  apart : kept.Pairwise (fun a b => a.rect.iou b.rect ≤ nmsThresh)
  covered : ∀ d ∈ dropped, ∃ k ∈ kept,
    nmsThresh < d.rect.iou k.rect ∧ d.face.score ≤ k.face.score

/-- The suppression of a rearrangement of the proposals is one of the proposals. -/
theorem Suppression.of_perm {proposals sorted : List (FaceObject K)} {nmsThresh : K}
    {kept dropped : List (BoxedFace K)} (h : Suppression sorted nmsThresh kept dropped)
    (hperm : sorted.Perm proposals) : Suppression proposals nmsThresh kept dropped :=
  { h with perm := hperm.symm.trans h.perm }

variable {faceobjects} [IsStrictOrderedRing K]

/-- The suppression of sorted faces, index by index. -/
theorem exists_suppression (hframed : ∀ f ∈ faceobjects, ∃ r, f.bbox.Frames r)
    (hsorted : faceobjects.Pairwise (fun a b => b.score ≤ a.score)) :
    ∃ kept dropped, Suppression faceobjects nmsThreshold kept dropped ∧
      (nmsSortedBboxes faceobjects nmsThreshold).map faceobjects.get =
        kept.map BoxedFace.face := by
  have hboxed : ∀ i, ∃ b : BoxedFace K, b.face = faceobjects.get i := by
    intro i
    obtain ⟨r, hr⟩ := hframed _ (List.get_mem faceobjects i)
    exact ⟨⟨faceobjects.get i, r, hr⟩, rfl⟩
  choose box hbox using hboxed
  have hquot : ∀ i j, suppresses faceobjects nmsThreshold i j =
      decide (nmsThreshold < (box i).rect.iou (box j).rect) := by
    intro i j
    rw [suppresses, ← hbox i, ← hbox j, iouQuotient_eq (box i).frames (box j).frames]
  have hmap : ∀ l : List (Fin faceobjects.length),
      (l.map box).map BoxedFace.face = l.map faceobjects.get := by
    intro l
    rw [List.map_map]
    exact List.map_congr_left fun i _ => hbox i
  -- along the indices the scores go down
  have horder : (List.finRange faceobjects.length).Pairwise
      (fun i j => (box j).face.score ≤ (box i).face.score) := by
    simp only [hbox]
    rwa [← List.map_get_finRange faceobjects, List.pairwise_map] at hsorted
  obtain ⟨dropped, h⟩ := exists_greedySelection (suppresses faceobjects nmsThreshold) horder
  rw [← nmsSortedBboxes_eq] at h
  refine ⟨_, dropped.map box, ⟨?_, ?_, ?_, ?_⟩, (hmap _).symm⟩
  · rw [← List.map_append, hmap]
    have := h.perm.map faceobjects.get
    rwa [List.map_get_finRange] at this
  · rw [List.pairwise_map]
    exact horder.sublist h.sublist
  · rw [List.pairwise_map]
    apply h.apart.imp
    intro i j hij
    rw [hquot, decide_eq_false_iff_not, not_lt] at hij
    rwa [Rect.iou_comm]
  · intro d hd
    obtain ⟨i, hi, rfl⟩ := List.mem_map.mp hd
    obtain ⟨k, hk, hconf, hle⟩ := h.covered i hi
    rw [hquot, decide_eq_true_eq] at hconf
    exact ⟨box k, List.mem_map_of_mem hk, hconf, hle⟩

end Suppression

section Kept

variable {K : Type} [Field K] [LinearOrder K] {exp : K → K} {s : ImageSize}

/-- A tensor of an image is read within its bounds. -/
theorem generateProposals_eq_grid (exp : K → K) (hfit : s.IndicesFit) (inputs : Tensors K s)
    (t : Fin 3) {step : Int} (hstep : step = stride t) {anchor : List Int}
    (hanchor : anchor.length / 2 = 3) (confidThresh : K) (proposals : List (FaceObject K)) :
    generateProposals exp (inputs.data t) anchor s.width s.height step confidThresh proposals =
      some (gridProposals exp (tensor (inputs.data t)) anchor s.width s.height step confidThresh
        proposals) := by
  subst hstep
  have hstride : 8 ≤ stride t := by
    revert t
    decide
  have hlen : 21 * 3 * (s.height / stride t) * (s.width / stride t) = (inputs.data t).length := by
    rw [inputs.length_data, ImageSize.cells]
    ring
  apply generateProposals_eq (H := s.height / stride t) (W := s.width / stride t)
  · rw [hanchor]
    exact ImageSize.fits hfit hstride
  · rw [hanchor]
    exact hlen.le
  · exact_mod_cast (by omega : 1 ≤ stride t)
  · exact (Int.ofNat_tdiv _ _).symm
  · exact (Int.ofNat_tdiv _ _).symm

/-- The proposals are those of the three grids. -/
theorem faceProposals_eq (exp : K → K) (hfit : s.IndicesFit) (inputs : Tensors K s)
    (confidThresh : K) :
    faceProposals exp inputs.data s.width s.height confidThresh =
      some (gridFaces exp (fun t => tensor (inputs.data t)) s.width s.height confidThresh) := by
  have h8 : (8 : Int) = stride 0 := rfl
  have h16 : (16 : Int) = stride 1 := rfl
  have h32 : (32 : Int) = stride 2 := rfl
  rw [faceProposals, Option.bind_eq_bind,
    bind_of_eq_some (generateProposals_eq_grid exp hfit inputs 0 h8 rfl confidThresh []),
    bind_of_eq_some (generateProposals_eq_grid exp hfit inputs 1 h16 rfl confidThresh _)]
  exact generateProposals_eq_grid exp hfit inputs 2 h32 rfl confidThresh _

/-- The sorted proposals, and the faces kept of them. -/
theorem exists_keptFaces (exp : K → K) (hfit : s.IndicesFit) (inputs : Tensors K s)
    (confidThresh nmsThresh : K) :
    ∃ sorted, sorted.Perm
        (gridFaces exp (fun t => tensor (inputs.data t)) s.width s.height confidThresh) ∧
      sorted.Pairwise (fun a b => b.score ≤ a.score) ∧
      keptFaces exp inputs.data s.width s.height confidThresh nmsThresh =
        some ((nmsSortedBboxes sorted nmsThresh).map sorted.get) := by
  have hlen := (length_gridFaces_le exp (fun t => tensor (inputs.data t)) s
    confidThresh).trans (ImageSize.gridAnchors_le hfit)
  obtain ⟨sorted, hrun, hperm, hsorted⟩ := qsortDescentInplace_spec FaceObject.score _ hlen
  refine ⟨sorted, hperm, hsorted, ?_⟩
  rw [keptFaces, faceProposals_eq exp hfit inputs, Option.bind_eq_bind, Option.bind_some, hrun]
  rfl

/-- What `postprocess_face_det` keeps of the proposals is as it is to be, and what it writes are the
faces kept. -/
def KeepsBest [FloorRing K] (exp : K → K) (inputs : Tensors K s) (confidThresh nmsThresh : K) :
    Prop :=
  ∃ proposals kept dropped,
    faceProposals exp inputs.data s.width s.height confidThresh = some proposals ∧
    Suppression proposals nmsThresh kept dropped ∧
    keptFaces exp inputs.data s.width s.height confidThresh nmsThresh =
      some (kept.map BoxedFace.face) ∧
    postprocessFaceDet exp inputs.data s.width s.height confidThresh nmsThresh =
      detOutputs (kept.map BoxedFace.face)

/-- The faces that are kept, for all tensors whose indices an `int` holds and all thresholds. -/
theorem postprocessFaceDet_suppression [FloorRing K] [IsStrictOrderedRing K]
    (hexp : ∀ x, 0 < exp x) (hfit : s.IndicesFit) (inputs : Tensors K s)
    (confidThresh nmsThresh : K) : KeepsBest exp inputs confidThresh nmsThresh := by
  obtain ⟨sorted, hperm, hsorted, hrun⟩ :=
    exists_keptFaces exp hfit inputs confidThresh nmsThresh
  have hframed : ∀ f ∈ sorted, ∃ r, f.bbox.Frames r := by
    intro f hf
    exact gridFaces_framed hexp _ _ _ confidThresh f (hperm.mem_iff.mp hf)
  obtain ⟨kept, dropped, h, hkept⟩ := exists_suppression nmsThresh hframed hsorted
  rw [hkept] at hrun
  refine ⟨_, kept, dropped, faceProposals_eq exp hfit inputs confidThresh, h.of_perm hperm, hrun,
    ?_⟩
  rw [postprocessFaceDet, hrun]
  rfl

/-- Tensors of zeros. -/
def zeroTensors (K : Type*) [Zero K] (s : ImageSize) : Tensors K s where
  data t := List.replicate (63 * s.cells (stride t)) 0
  length_data _ := List.length_replicate

/-- An image of 8 by 8 pixels: one cell, with a proposal for each anchor. -/
def cellSize : ImageSize := ⟨8, 8, by decide, by decide⟩

theorem postprocessFaceDet_cell :
    KeepsBest Real.exp (zeroTensors ℝ cellSize) (1 / 5) (9 / 20) :=
  postprocessFaceDet_suppression Real.exp_pos (by decide) _ _ _

/-- An image with `2 ^ 32` cells. -/
def vastSize : ImageSize := ⟨524288, 524288, by decide, by decide⟩

/-- The number of its cells is no `int`. -/
theorem vastSize_not_kept : ¬ ∀ (s : ImageSize) (inputs : Tensors ℚ s) (confidThresh nmsThresh : ℚ),
    KeepsBest (fun _ => 1) inputs confidThresh nmsThresh := by
  intro h
  obtain ⟨proposals, -, -, hprop, -⟩ := h vastSize (zeroTensors ℚ vastSize) 0 0
  have hcells : inInt (Int.tdiv 524288 8 * Int.tdiv 524288 8) = none := by decide
  have hnone : visits (fun _ => (1 : ℚ)) ((zeroTensors ℚ vastSize).data 0) [4, 5, 6, 8, 10, 12]
      524288 524288 8 0 = none := by
    rw [visits, quotInt_of_pos (by decide), Option.bind_eq_bind, Option.bind_some,
      Option.bind_some, hcells]
    rfl
  have hgenerate : generateProposals (fun _ => (1 : ℚ)) ((zeroTensors ℚ vastSize).data 0)
      [4, 5, 6, 8, 10, 12] (vastSize.width : Int) (vastSize.height : Int) 8 0 [] = none := by
    rw [generateProposals]
    exact congrArg (Option.map (pushProposals [])) hnone
  rw [faceProposals, hgenerate] at hprop
  cases hprop

end Kept

end BoardTest.FaceDet
