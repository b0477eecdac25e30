import BoardTest.FaceDet.Postprocess
import Mathlib.Data.List.Perm.Basic

/-!
# Where the faces are written

`awf_make_det_container` (`awf_detection.cpp:417-422`) allocates `MAX_DET_NUM` entries of
`outputs->faces`; `postprocess_face_det` writes one for every face it keeps. The constant belongs to
the vendor's header and is a parameter here. Tensors of zeros fill every cell of an image with faces
of one score, so that an image is safe only when it has no more cells and anchors than that
(`writesInside_iff`).
-/

namespace BoardTest.FaceDet

section Zero

variable {K : Type*} [Field K] [LinearOrder K] [IsStrictOrderedRing K] {exp : K → K}

theorem sigmoid_zero (h : exp 0 = 1) : sigmoid exp 0 = 1 / 2 := by
  rw [sigmoid, neg_zero, h]
  norm_num

/-- In a tensor of zeros every cell is a proposal of score 1/4. -/
theorem isSome_cellProposal_zero (h : exp 0 = 1) (anchorW anchorH : K) (i j : Nat)
    (stride : Int) : (cellProposal exp (fun _ => 0) anchorW anchorH i j stride (1 / 5)).isSome := by
  have hscore : sigmoid exp 0 > 1 / 5 := by
    rw [sigmoid_zero h]
    norm_num
  have hconfidence : sigmoid exp 0 * sigmoid exp 0 > 1 / 5 := by
    rw [sigmoid_zero h]
    norm_num
  rw [cellProposal]
  simp only [if_pos hscore, if_pos hconfidence, Option.isSome_some]

theorem length_gridProposals_zero (h : exp 0 = 1) {inputs : Int → K} (hzero : ∀ k, inputs k = 0)
    (anchor : List Int) (s : ImageSize) (stride : Nat) (proposals : List (FaceObject K)) :
    (gridProposals exp inputs anchor s.width s.height stride (1 / 5) proposals).length =
      proposals.length + anchor.length / 2 * s.cells stride := by
  have hrow (anchorW anchorH : K) (i w : Nat) : ((List.range w).filterMap fun j =>
      cellProposal exp (fun _ => 0) anchorW anchorH i j stride (1 / 5)).length = w := by
    rw [List.filterMap_length_eq_length.mpr, List.length_range]
    exact fun j _ => isSome_cellProposal_zero h anchorW anchorH i j stride
  simp only [gridProposals, hzero, List.length_append, List.length_flatMap, ← Int.ofNat_tdiv,
    Int.toNat_natCast, hrow, List.map_const', List.sum_replicate_nat, List.length_range,
    ImageSize.cells]

theorem length_gridFaces_zero (h : exp 0 = 1) {inputs : Fin 3 → Int → K}
    (hzero : ∀ t k, inputs t k = 0) (s : ImageSize) :
    (gridFaces exp inputs s.width s.height (1 / 5)).length = s.gridAnchors := by
  have h8 := length_gridProposals_zero h (hzero 0) [4, 5, 6, 8, 10, 12] s 8 []
  have h16 := length_gridProposals_zero h (hzero 1) [15, 19, 23, 30, 39, 52] s 16
    (gridProposals exp (inputs 0) [4, 5, 6, 8, 10, 12] s.width s.height 8 (1 / 5) [])
  have h32 := length_gridProposals_zero h (hzero 2) [72, 97, 123, 164, 209, 297] s 32
    (gridProposals exp (inputs 1) [15, 19, 23, 30, 39, 52] s.width s.height 16 (1 / 5)
      (gridProposals exp (inputs 0) [4, 5, 6, 8, 10, 12] s.width s.height 8 (1 / 5) []))
  simp only [List.length_cons, List.length_nil, Nat.reduceAdd, Nat.reduceDiv, Nat.cast_ofNat]
    at h8 h16 h32
  rw [gridFaces, ImageSize.gridAnchors]
  omega

/-- No two boxes share more than all of their area: with a threshold of 1 every face is kept. -/
theorem nmsSortedBboxes_one {faceobjects : List (FaceObject K)}
    (hframed : ∀ f ∈ faceobjects, ∃ r, f.bbox.Frames r) :
    nmsSortedBboxes faceobjects 1 = List.finRange faceobjects.length := by
  rw [nmsSortedBboxes_eq]
  apply greedy_eq_self
  intro i _ j _
  obtain ⟨r, hr⟩ := hframed _ (List.get_mem faceobjects i)
  obtain ⟨s, hs⟩ := hframed _ (List.get_mem faceobjects j)
  rw [suppresses, iouQuotient_eq hr hs, decide_eq_false_iff_not, not_lt]
  exact r.iou_le_one s

end Zero

section Overflow

variable {K : Type} [Field K] [LinearOrder K] [IsStrictOrderedRing K] {exp : K → K}
variable {A H W n : Nat} {stride : Int}

omit [LinearOrder K] [IsStrictOrderedRing K] in
theorem eq_zero_of_at? {k : Int} {x : K} (h : at? (List.replicate n 0) k = some x) : x = 0 := by
  obtain ⟨m, rfl, hget⟩ := at?_eq_some_iff.mp h
  exact List.eq_of_mem_replicate (List.mem_of_getElem? hget)

omit [LinearOrder K] [IsStrictOrderedRing K] in
/-- The probability of the last landmark is read at the last channel. -/
theorem element_lt_of_readLandmark {inputs : List K} {index : Nat} {i j : Nat}
    {landmark landmark' : Fin 5 → LdmkPoint K} {r : List Int}
    (h : Yields
      (readLandmark inputs (H * W : Nat) ((A * 21 : Nat) : Int) index i j stride landmark 4)
      landmark' r) : H * W * (A * 21 + 20) + index < 2 ^ 31 := by
  rw [readLandmark] at h
  obtain ⟨_, -, _, h⟩ := h.of_bind
  obtain ⟨_, -, _, h⟩ := h.of_bind
  obtain ⟨_, -, _, h⟩ := h.of_bind
  obtain ⟨_, -, _, h⟩ := h.of_bind
  obtain ⟨_, ⟨_, he⟩, -⟩ := h.of_bind
  obtain ⟨base, hbase, he⟩ := Option.bind_eq_some_iff.mp he.of_lift
  obtain ⟨offset, hoffset, he⟩ := Option.bind_eq_some_iff.mp he
  obtain ⟨channel, hchannel, hoffset⟩ := Option.bind_eq_some_iff.mp hoffset
  obtain ⟨-, rfl⟩ := inInt_eq_some_iff.mp hbase
  obtain ⟨-, rfl⟩ := inInt_eq_some_iff.mp hchannel
  obtain ⟨-, rfl⟩ := inInt_eq_some_iff.mp hoffset
  obtain ⟨⟨-, hlt⟩, -⟩ := inInt_eq_some_iff.mp he
  have hplace : ((H * W : Nat) : Int) * (((A * 21 : Nat) : Int) + ((4 : Fin 5) : Int) * 3 + 8) +
      index = (H * W * (A * 21 + 20) + index : Nat) := by
    have hfour : ((4 : Fin 5) : Int) = 4 := rfl
    rw [hfour]
    push_cast
    ring
  rw [hplace] at hlt
  exact_mod_cast hlt

/-- In a tensor of zeros the landmarks of every cell are read. -/
theorem element_lt_of_readCell (hexp : exp 0 = 1) {ptr : Planes} {anchorW anchorH : K} {i j : Nat}
    {r : Option (FaceObject K) × List Int}
    (h : (readCell exp (List.replicate n 0) ptr anchorW anchorH W (H * W : Nat)
      ((A * 21 : Nat) : Int) i j stride (1 / 5)).run = some r) :
    H * W * (A * 21 + 20) + (i * W + j) < 2 ^ 31 := by
  have hscore : sigmoid exp 0 > 1 / 5 := by
    rw [sigmoid_zero hexp]
    norm_num
  have hconfidence : sigmoid exp 0 * sigmoid exp 0 > 1 / 5 := by
    rw [sigmoid_zero hexp]
    norm_num
  have h' : Yields (readCell exp (List.replicate n 0) ptr anchorW anchorH W (H * W : Nat)
      ((A * 21 : Nat) : Int) i j stride (1 / 5)) r.1 r.2 := h
  rw [readCell] at h'
  obtain ⟨row, ⟨_, hrow⟩, _, h'⟩ := h'.of_bind
  obtain ⟨-, rfl⟩ := inInt_eq_some_iff.mp hrow.of_lift
  obtain ⟨index, ⟨_, hindex⟩, _, h'⟩ := h'.of_bind
  obtain ⟨-, rfl⟩ := inInt_eq_some_iff.mp hindex.of_lift
  obtain ⟨score, ⟨_, hs⟩, _, h'⟩ := h'.of_bind
  obtain rfl := eq_zero_of_at? hs.of_look
  rw [if_pos hscore] at h'
  obtain ⟨s, ⟨_, hs⟩, _, h'⟩ := h'.of_bind
  obtain rfl := eq_zero_of_at? hs.of_look
  obtain ⟨c, ⟨_, hc⟩, _, h'⟩ := h'.of_bind
  obtain rfl := eq_zero_of_at? hc.of_look
  rw [if_pos hconfidence] at h'
  obtain ⟨_, -, _, h'⟩ := h'.of_bind
  obtain ⟨_, -, _, h'⟩ := h'.of_bind
  obtain ⟨_, -, _, h'⟩ := h'.of_bind
  obtain ⟨_, -, _, h'⟩ := h'.of_bind
  obtain ⟨landmark, ⟨_, hlandmark⟩, -⟩ := h'.of_bind
  obtain ⟨c, c', r, hlast⟩ := hlandmark.of_foldlM (List.mem_finRange 4)
  have hcast : ((i : Int) * (W : Int) + (j : Int)) = ((i * W + j : Nat) : Int) := by push_cast; rfl
  rw [hcast] at hlast
  exact element_lt_of_readLandmark hlast

/-- A run over zeros comes to its end only when an `int` holds the last element. -/
theorem elements_le_of_visits (hexp : exp 0 = 1) {anchor : List Int} (hA : 0 < anchor.length / 2)
    (hH : 0 < H) (hW : 0 < W) (hstride : 1 ≤ stride) {inputW inputH : Int}
    (hw : inputW.tdiv stride = W) (hh : inputH.tdiv stride = H) {vs : List (Visit K)}
    (h : visits exp (List.replicate n 0) anchor inputW inputH stride (1 / 5) = some vs) :
    21 * (anchor.length / 2) * (H * W) ≤ 2 ^ 31 := by
  rw [visits, quotInt_of_pos hstride, quotInt_of_pos hstride, hw, hh, Option.bind_eq_bind,
    Option.bind_some, Option.bind_some] at h
  obtain ⟨featSz, hsize, h⟩ := Option.bind_eq_some_iff.mp h
  obtain ⟨-, rfl⟩ := inInt_eq_some_iff.mp hsize
  obtain ⟨anchors, hanchors, -⟩ := Option.bind_eq_some_iff.mp h
  obtain ⟨A, hA'⟩ := Nat.exists_eq_add_one.mpr hA
  obtain ⟨rounds, hrounds⟩ := exists_of_mapM (x := A) (by rw [List.mem_range]; omega) hanchors
  rw [visitAnchor] at hrounds
  simp only [Option.bind_eq_bind, Option.bind_eq_some_iff] at hrounds
  obtain ⟨_, -, _, -, _, -, _, -, _, -, cIndex, hcIndex, ptr, -, rows, hrows, -⟩ := hrounds
  obtain ⟨-, rfl⟩ := inInt_eq_some_iff.mp hcIndex
  have hsz : (H : Int) * (W : Int) = (H * W : Nat) := (Int.natCast_mul H W).symm
  have hc : (A : Int) * channels = (A * 21 : Nat) := (Int.natCast_mul A 21).symm
  rw [Int.toNat_natCast, Int.toNat_natCast, hsz, hc] at hrows
  obtain ⟨row, hrow⟩ := exists_of_mapM (x := H - 1) (by rw [List.mem_range]; omega) hrows
  obtain ⟨round, hround⟩ := exists_of_mapM (x := W - 1) (by rw [List.mem_range]; omega) hrow
  obtain ⟨r, hr, -⟩ := Option.map_eq_some_iff.mp hround
  have hlast := element_lt_of_readCell (A := A) hexp hr
  have hcells : (H - 1) * W + (W - 1) + 1 = H * W := by
    obtain ⟨H, rfl⟩ := Nat.exists_eq_add_one.mpr hH
    rw [Nat.add_sub_cancel, Nat.succ_mul]
    omega
  have hall : 21 * (A + 1) * (H * W) = H * W * (A * 21 + 20) + H * W := by ring
  rw [hA', hall]
  omega

end Overflow

/-! ## The entries that are written -/

section Bounds

variable {K : Type} [Field K] [LinearOrder K] {exp : K → K} {s : ImageSize}

/-- Every entry that `postprocess_face_det` writes was allocated: the faces kept are so many that
their numbers are below `MAX_DET_NUM`. -/
def WritesInside (maxDetNum : Nat) (exp : K → K) (inputs : Tensors K s)
    (confidThresh nmsThresh : K) : Prop :=
  ∃ kept, keptFaces exp inputs.data s.width s.height confidThresh nmsThresh = some kept ∧
    ∀ i < kept.length, i < maxDetNum

/-- Few cells are no danger. -/
theorem writesInside_of_few (hfit : s.IndicesFit) {maxDetNum : Nat}
    (h : s.gridAnchors ≤ maxDetNum) (inputs : Tensors K s) (confidThresh nmsThresh : K) :
    WritesInside maxDetNum exp inputs confidThresh nmsThresh := by
  obtain ⟨sorted, hperm, -, hkept⟩ := exists_keptFaces exp hfit inputs confidThresh nmsThresh
  refine ⟨_, hkept, ?_⟩
  have hpicked : (nmsSortedBboxes sorted nmsThresh).length ≤ sorted.length := by
    rw [nmsSortedBboxes_eq]
    exact (greedy_sublist _ _).length_le.trans_eq List.length_finRange
  have hproposals := length_gridFaces_le exp (fun t => tensor (inputs.data t)) s confidThresh
  rw [← hperm.length_eq] at hproposals
  intro i hi
  rw [List.length_map] at hi
  omega

variable [IsStrictOrderedRing K]

omit [LinearOrder K] [IsStrictOrderedRing K] in
theorem tensor_zero (t : Fin 3) (k : Int) : tensor ((zeroTensors K s).data t) k = 0 := by
  rw [tensor]
  cases hk : at? ((zeroTensors K s).data t) k with
  | none => rfl
  | some x => exact eq_zero_of_at? hk

variable (exp) in
/-- Of tensors of zeros every face is kept. -/
theorem keptFaces_zero (hexp : ∀ x, 0 < exp x) (h : exp 0 = 1) (hfit : s.IndicesFit) :
    ∃ kept, keptFaces exp (zeroTensors K s).data s.width s.height (1 / 5) 1 = some kept ∧
      kept.Perm (gridFaces exp (fun t => tensor ((zeroTensors K s).data t)) s.width s.height
        (1 / 5)) ∧ kept.length = s.gridAnchors := by
  obtain ⟨sorted, hperm, -, hkept⟩ := exists_keptFaces exp hfit (zeroTensors K s) (1 / 5) 1
  have hframed : ∀ f ∈ sorted, ∃ r, f.bbox.Frames r := by
    intro f hf
    exact gridFaces_framed hexp _ _ _ _ f (hperm.mem_iff.mp hf)
  rw [nmsSortedBboxes_one hframed, List.map_get_finRange] at hkept
  exact ⟨sorted, hkept, hperm, hperm.length_eq.trans (length_gridFaces_zero h tensor_zero s)⟩

/-- Tensors of zeros fill every cell of the image. -/
theorem gridAnchors_le_of_writesInside (hexp : ∀ x, 0 < exp x) (h : exp 0 = 1)
    (hfit : s.IndicesFit) {maxDetNum : Nat}
    (hinside : WritesInside maxDetNum exp (zeroTensors K s) (1 / 5) 1) :
    s.gridAnchors ≤ maxDetNum := by
  obtain ⟨kept, hkept, hlt⟩ := hinside
  obtain ⟨kept', hkept', -, hlen⟩ := keptFaces_zero exp hexp h hfit
  obtain rfl := Option.some.inj (hkept.symm.trans hkept')
  by_contra hmany
  exact lt_irrefl _ (hlt maxDetNum (by omega))

/-- Over zeros the indices of a larger image leave `int`. -/
theorem indicesFit_of_writesInside (h : exp 0 = 1) {maxDetNum : Nat}
    (hinside : WritesInside maxDetNum exp (zeroTensors K s) (1 / 5) 1) : s.IndicesFit := by
  obtain ⟨kept, hkept, -⟩ := hinside
  rw [keptFaces] at hkept
  obtain ⟨proposals, hprop, -⟩ := Option.bind_eq_some_iff.mp hkept
  rw [faceProposals] at hprop
  obtain ⟨faces, hfaces, -⟩ := Option.bind_eq_some_iff.mp hprop
  rw [generateProposals] at hfaces
  obtain ⟨vs, hvs, -⟩ := Option.map_eq_some_iff.mp hfaces
  rw [ImageSize.IndicesFit, ImageSize.cells]
  rcases Nat.eq_zero_or_pos (s.height / 8 * (s.width / 8)) with hzero | hpos
  · rw [hzero]
    decide
  · exact elements_le_of_visits h (by decide) (Nat.pos_of_mul_pos_right hpos)
      (Nat.pos_of_mul_pos_left hpos) (by decide) (Int.ofNat_tdiv _ _).symm (Int.ofNat_tdiv _ _).symm
      hvs

/-- The entries written lie inside the allocation for all tensors of an image and all thresholds
exactly when an `int` holds every index of the tensors and the image has at most `MAX_DET_NUM` cells
and anchors. -/
theorem writesInside_iff (hexp : ∀ x, 0 < exp x) (h : exp 0 = 1) (maxDetNum : Nat) (s : ImageSize) :
    (∀ (inputs : Tensors K s) (confidThresh nmsThresh : K),
        WritesInside maxDetNum exp inputs confidThresh nmsThresh) ↔
      s.IndicesFit ∧ s.gridAnchors ≤ maxDetNum := by
  constructor
  · intro hinside
    have hzero := hinside (zeroTensors K s) (1 / 5) 1
    have hfit := indicesFit_of_writesInside h hzero
    exact ⟨hfit, gridAnchors_le_of_writesInside hexp h hfit hzero⟩
  · rintro ⟨hfit, hfew⟩ inputs confidThresh nmsThresh
    exact writesInside_of_few hfit hfew inputs confidThresh nmsThresh

theorem writesInside_iff_cell :
    (∀ (inputs : Tensors ℝ cellSize) (confidThresh nmsThresh : ℝ),
        WritesInside 3 Real.exp inputs confidThresh nmsThresh) ↔
      cellSize.IndicesFit ∧ cellSize.gridAnchors ≤ 3 :=
  writesInside_iff Real.exp_pos Real.exp_zero 3 cellSize

/-- No constant below the number of cells and anchors of some image keeps the writes inside. -/
theorem no_constant_inside : ¬ ∃ maxDetNum : Nat, 0 < maxDetNum ∧
    (∃ s : ImageSize, s.IndicesFit ∧ maxDetNum < s.gridAnchors) ∧
    ∀ (s : ImageSize) (inputs : Tensors ℝ s) (confidThresh nmsThresh : ℝ),
      WritesInside maxDetNum Real.exp inputs confidThresh nmsThresh := by
  rintro ⟨maxDetNum, -, ⟨s, hfit, hlt⟩, hinside⟩
  have hle := gridAnchors_le_of_writesInside Real.exp_pos Real.exp_zero hfit
    (hinside s (zeroTensors ℝ s) (1 / 5) 1)
  omega

end Bounds

end BoardTest.FaceDet
