import BoardTest.FaceDet.Model
import BoardTest.Lib.Lookups
import BoardTest.Lib.Raster
import Mathlib.Algebra.Order.Field.Rat
import Mathlib.Data.List.Nodup
import Mathlib.Data.List.ProdSigma
import Mathlib.Tactic.Ring

/-!
# What `generate_proposals` reads

The loops of `generate_proposals` over a tensor that is a vector, with every index computed in `int`
as the source does: an element outside of the tensor and arithmetic beyond `int` are undefined
behaviour. A round of the three loops is a `Visit` of a cell, with the elements it reads.
-/

namespace BoardTest.FaceDet

section Program

variable {K : Type} [Field K] [LinearOrder K] (exp : K → K)

/-- `inputs + feat_sz * (c_index + k)`, as an index -/
def plane (featSz cIndex k : Int) : Option Int :=
  (inInt (cIndex + k)).bind fun channel => inInt (featSz * channel)

/-- `feat_sz * (c_index + l * 3 + k) + index` (lines 110 to 114) -/
def ldmkElement (featSz cIndex index : Int) (l : Fin 5) (k : Int) : Option Int :=
  (inInt (cIndex + (l : Int) * 3)).bind fun base =>
    (plane featSz base k).bind fun offset => inInt (offset + index)

/-- A round of the loop of line 108. -/
def readLandmark (inputs : List K) (featSz cIndex index : Int) (i j : Nat) (stride : Int)
    (landmark : Fin 5 → LdmkPoint K) (l : Fin 5) : Lookups (Fin 5 → LdmkPoint K) := do
  let ldmkX ← look inputs (← ldmkElement featSz cIndex index l 6)
  let x := (ldmkX * (2 : Nat) - 1 / (2 : Nat) + j) * stride
  let ldmkY ← look inputs (← ldmkElement featSz cIndex index l 7)
  let y := (ldmkY * (2 : Nat) - 1 / (2 : Nat) + i) * stride
  let prob ← look inputs (← ldmkElement featSz cIndex index l 8)
  pure (Function.update landmark l ⟨x, y, prob⟩)

/-- `ptr_x` to `ptr_c` (lines 71 to 76) -/
structure Planes where
  ptrX : Int
  ptrY : Int
  ptrW : Int
  ptrH : Int
  ptrS : Int
  ptrC : Int

def planes (featSz cIndex : Int) : Option Planes := do
  let ptrX ← plane featSz cIndex 0
  let ptrY ← plane featSz cIndex 1
  let ptrW ← plane featSz cIndex 2
  let ptrH ← plane featSz cIndex 3
  let ptrS ← plane featSz cIndex 4
  let ptrC ← plane featSz cIndex 5
  pure ⟨ptrX, ptrY, ptrW, ptrH, ptrS, ptrC⟩

/-- The body of the three loops (lines 82 to 120): the face that is pushed back, if there is one. -/
def readCell (inputs : List K) (ptr : Planes) (anchorW anchorH : K) (featW featSz cIndex : Int)
    (i j : Nat) (stride : Int) (thresh : K) : Lookups (Option (FaceObject K)) := do
  let row ← inInt (i * featW)
  let index ← inInt (row + j)
  let bboxScore := sigmoid exp (← look inputs (ptr.ptrS + index))
  if bboxScore > thresh then
    let s ← look inputs (ptr.ptrS + index)
    let c ← look inputs (ptr.ptrC + index)
    let confidence := sigmoid exp s * sigmoid exp c
    if confidence > thresh then
      let dx := sigmoid exp (← look inputs (ptr.ptrX + index))
      let dy := sigmoid exp (← look inputs (ptr.ptrY + index))
      let dw := sigmoid exp (← look inputs (ptr.ptrW + index))
      let dh := sigmoid exp (← look inputs (ptr.ptrH + index))
      let pbCx := (dx * (2 : Nat) - 1 / (2 : Nat) + j) * stride
      let pbCy := (dy * (2 : Nat) - 1 / (2 : Nat) + i) * stride
      let pbW := (dw * (2 : Nat)) ^ 2 * anchorW
      let pbH := (dh * (2 : Nat)) ^ 2 * anchorH
      let landmark ← (List.finRange 5).foldlM
        (readLandmark inputs featSz cIndex index i j stride) fun _ => ⟨0, 0, 0⟩
      pure (some
        { bbox :=
            { tlX := pbCx - pbW * (1 / (2 : Nat))
              tlY := pbCy - pbH * (1 / (2 : Nat))
              brX := pbCx + pbW * (1 / (2 : Nat))
              brY := pbCy + pbH * (1 / (2 : Nat))
              area := pbH * pbW }
          score := confidence
          landmark := landmark })
    else pure none
  else pure none

/-- A round of the three loops: the cell, the elements read and the proposal. -/
structure Visit (K : Type) where
  cell : Nat × Nat × Nat
  reads : List Int
  proposal : Option (FaceObject K)

/-- The body of the loop of line 66: the rounds for an anchor. -/
def visitAnchor (inputs : List K) (anchor : List Int) (featW featH featSz stride : Int)
    (thresh : K) (c : Nat) : Option (List (Visit K)) := do
  let first ← inInt (c * 2)
  let anchorW ← at? anchor (← inInt (first + 0))
  let anchorH ← at? anchor (← inInt (first + 1))
  let cIndex ← inInt (c * channels)
  let ptr ← planes featSz cIndex
  let rows ← (List.range featH.toNat).mapM fun (i : Nat) =>
    (List.range featW.toNat).mapM fun (j : Nat) =>
      (readCell exp inputs ptr anchorW anchorH featW featSz cIndex i j stride thresh).run.map
        fun r => (⟨(c, i, j), r.2, r.1⟩ : Visit K)
  pure rows.flatten

/-- The rounds of `generate_proposals` (line 58). -/
def visits (inputs : List K) (anchor : List Int) (inputW inputH stride : Int) (thresh : K) :
    Option (List (Visit K)) := do
  let featW ← quotInt inputW stride
  let featH ← quotInt inputH stride
  let featSz ← inInt (featH * featW)
  let anchors ← (List.range (anchor.length / 2)).mapM
    (visitAnchor exp inputs anchor featW featH featSz stride thresh)
  pure anchors.flatten

/-- What `generate_proposals` leaves in `proposals`. -/
def pushProposals (proposals : List (FaceObject K)) (vs : List (Visit K)) : List (FaceObject K) :=
  proposals ++ vs.filterMap Visit.proposal

/-- `generate_proposals` (line 58) -/
def generateProposals (inputs : List K) (anchor : List Int) (inputW inputH stride : Int)
    (thresh : K) (proposals : List (FaceObject K)) : Option (List (FaceObject K)) :=
  (visits exp inputs anchor inputW inputH stride thresh).map (pushProposals proposals)

end Program

/-- The number of the element of channel `channel` of anchor `c` in the cell `i`, `j`, counted
without a bound: where an `int` holds it, it is the index that is read. -/
def elementNumber (featW featH : Int) (c : Nat) (channel : Int) (i j : Nat) : Int :=
  featH * featW * (c * channels + channel) + (i * featW + j)

/-- The proposals of a grid of cells, for a tensor without a size. -/
def gridProposals {K : Type*} [Field K] [LinearOrder K] (exp : K → K) (inputs : Int → K)
    (anchor : List Int) (inputW inputH stride : Int) (thresh : K)
    (proposals : List (FaceObject K)) : List (FaceObject K) :=
  let featW := inputW.tdiv stride
  let featH := inputH.tdiv stride
  proposals ++ (List.range (anchor.length / 2)).flatMap fun c =>
    (List.range featH.toNat).flatMap fun i =>
      (List.range featW.toNat).filterMap fun j =>
        cellProposal exp (fun channel => inputs (elementNumber featW featH c channel i j))
          (anchor.getD (c * 2) 0 : Int) (anchor.getD (c * 2 + 1) 0 : Int) i j stride thresh

section Indices

variable {A H W c c' k k' i i' j j' : Nat}

/-- A tensor whose channels, cells and elements an `int` counts. -/
structure Fits (A H W : Nat) : Prop where
  channels : 21 * A ≤ 2 ^ 31
  cells : H * W < 2 ^ 31
  elements : 21 * A * H * W ≤ 2 ^ 31

/-- An element is a place in its plane, and a plane one of 21 of an anchor. -/
theorem elementNumber_eq :
    elementNumber W H c k i j = ((c * 21 + k) * (W * H) + (i * W + j) : Nat) := by
  rw [elementNumber, channels]
  push_cast
  ring

theorem channel_lt (hc : c < A) (hk : k < 21) : c * 21 + k < 21 * A := raster_lt hk hc

theorem element_lt (hc : c < A) (hk : k < 21) (hi : i < H) (hj : j < W) :
    (c * 21 + k) * (W * H) + (i * W + j) < 21 * A * H * W := by
  have hlt := raster_lt (raster_lt hj hi) (channel_lt hc hk)
  calc (c * 21 + k) * (W * H) + (i * W + j) < W * H * (21 * A) := hlt
    _ = 21 * A * H * W := by ring

theorem elementNumber_bounds (hc : c < A) (hk : k < 21) (hi : i < H) (hj : j < W) :
    0 ≤ elementNumber W H c k i j ∧ elementNumber W H c k i j < (21 * A * H * W : Nat) := by
  rw [elementNumber_eq]
  exact ⟨by omega, by exact_mod_cast element_lt hc hk hi hj⟩

/-- The index of an element tells its anchor, its channel and its cell. -/
theorem elementNumber_inj (hk : k < 21) (hk' : k' < 21) (hi : i < H) (hi' : i' < H) (hj : j < W)
    (hj' : j' < W) (h : elementNumber W H c k i j = elementNumber W H c' k' i' j') :
    c = c' ∧ k = k' ∧ i = i' ∧ j = j' := by
  rw [elementNumber_eq, elementNumber_eq, Nat.cast_inj] at h
  obtain ⟨hplane, hplace⟩ := raster_inj (raster_lt hj hi) (raster_lt hj' hi') h
  obtain ⟨hanchor, hchannel⟩ := raster_inj hk hk' hplane
  obtain ⟨hrow, hcol⟩ := raster_inj hj hj' hplace
  exact ⟨hanchor, hchannel, hrow, hcol⟩

theorem plane_lt (h : Fits A H W) (hc : c < A) (hk : k < 21) : H * W * (c * 21 + k) < 2 ^ 31 := by
  have hchannel := channel_lt hc hk
  rcases Nat.eq_zero_or_pos (H * W) with hzero | hpos
  · rw [hzero, Nat.zero_mul]
    exact Nat.two_pow_pos 31
  · calc H * W * (c * 21 + k) < H * W * (21 * A) := Nat.mul_lt_mul_of_pos_left hchannel hpos
      _ = 21 * A * H * W := by ring
      _ ≤ 2 ^ 31 := h.elements

/-- Where a plane begins. -/
def planeIndex (H W c k : Nat) : Int := (H * W * (c * 21 + k) : Nat)

theorem elementNumber_eq_add :
    elementNumber W H c k i j = planeIndex H W c k + (i * W + j : Nat) := by
  rw [elementNumber, planeIndex, channels]
  push_cast
  ring

theorem plane_eq (h : Fits A H W) (hc : c < A) {base : Nat} (hk : base + k < 21) :
    plane (H * W : Nat) (c * 21 + base : Nat) k = some (planeIndex H W c (base + k)) := by
  have hchannel := channel_lt hc hk
  have hfit := h.channels
  have hsum : ((c * 21 + base : Nat) : Int) + (k : Nat) = (c * 21 + (base + k) : Nat) := by
    push_cast
    ring
  rw [plane, hsum, inInt_natCast (by omega), Option.bind_some, ← Nat.cast_mul,
    inInt_natCast (plane_lt h hc hk), planeIndex]

theorem planes_eq (h : Fits A H W) (hc : c < A) :
    planes (H * W : Nat) (c * 21 : Nat) =
      some ⟨planeIndex H W c 0, planeIndex H W c 1, planeIndex H W c 2, planeIndex H W c 3,
        planeIndex H W c 4, planeIndex H W c 5⟩ := by
  have hplane : ∀ k : Nat, k < 21 →
      plane (H * W : Nat) (c * 21 : Nat) k = some (planeIndex H W c k) := by
    intro k hk
    have hzero : 0 + k < 21 := by omega
    have heq := plane_eq h hc hzero
    rwa [Nat.add_zero, Nat.zero_add] at heq
  have h0 : plane (H * W : Nat) (c * 21 : Nat) 0 = _ := hplane 0 (by omega)
  have h1 : plane (H * W : Nat) (c * 21 : Nat) 1 = _ := hplane 1 (by omega)
  have h2 : plane (H * W : Nat) (c * 21 : Nat) 2 = _ := hplane 2 (by omega)
  have h3 : plane (H * W : Nat) (c * 21 : Nat) 3 = _ := hplane 3 (by omega)
  have h4 : plane (H * W : Nat) (c * 21 : Nat) 4 = _ := hplane 4 (by omega)
  have h5 : plane (H * W : Nat) (c * 21 : Nat) 5 = _ := hplane 5 (by omega)
  rw [planes, h0, h1, h2, h3, h4, h5]
  rfl

theorem inInt_element (h : Fits A H W) (hc : c < A) (hk : k < 21) (hi : i < H) (hj : j < W) :
    inInt (elementNumber W H c k i j) = some (elementNumber W H c k i j) := by
  obtain ⟨hlow, hhigh⟩ := elementNumber_bounds hc hk hi hj
  have hfit := h.elements
  exact inInt_of_bounds (by omega) (by omega)

theorem ldmkElement_eq (h : Fits A H W) (hc : c < A) (hi : i < H) (hj : j < W) (l : Fin 5)
    (hk : (l : Nat) * 3 + k < 21) :
    ldmkElement (H * W : Nat) (c * 21 : Nat) (i * W + j : Nat) l k =
      some (elementNumber W H c (l * 3 + k : Nat) i j) := by
  have hbase : ((c * 21 : Nat) : Int) + (l : Nat) * 3 = (c * 21 + l * 3 : Nat) := by
    push_cast
    ring
  have hchannel := channel_lt hc hk
  have hfit := h.channels
  rw [ldmkElement, hbase, inInt_natCast (by omega), Option.bind_some, plane_eq h hc hk,
    Option.bind_some, ← elementNumber_eq_add, inInt_element h hc hk hi hj]

end Indices

section Cell

variable {K : Type} [Field K] [LinearOrder K] {exp : K → K} {inputs : List K}
variable {A H W c k i j : Nat} {stride : Int} {thresh : K}

/-- The elements of some channels in a cell. -/
def elements (W H c i j : Nat) (ks : List Nat) : List Int :=
  ks.map fun (k : Nat) => elementNumber W H c k i j

/-- The tensor as a function of the index. -/
def tensor (inputs : List K) (index : Int) : K := (at? inputs index).getD 0

/-- What the channels hold in a cell. -/
def cellPtr (inputs : List K) (W H c i j : Nat) (channel : Int) : K :=
  tensor inputs (elementNumber W H c channel i j)

omit [LinearOrder K] in
theorem yields_look (hlen : 21 * A * H * W ≤ inputs.length) (hc : c < A) (hk : k < 21)
    (hi : i < H) (hj : j < W) :
    Yields (look inputs (elementNumber W H c k i j)) (cellPtr inputs W H c i j k)
      (elements W H c i j [k]) := by
  obtain ⟨hlow, hhigh⟩ := elementNumber_bounds hc hk hi hj
  obtain ⟨x, hx⟩ := exists_at? (l := inputs) hlow (lt_of_lt_of_le hhigh (Int.ofNat_le.mpr hlen))
  rw [cellPtr, tensor, hx, Option.getD_some]
  exact .look hx

/-- The channels of a landmark. -/
def ldmkChannels (l : Fin 5) : List Nat := [l * 3 + 6, l * 3 + 7, l * 3 + 8]

omit [LinearOrder K] in
theorem yields_readLandmark (h : Fits A H W) (hlen : 21 * A * H * W ≤ inputs.length) (hc : c < A)
    (hi : i < H) (hj : j < W) (l : Fin 5) (landmark : Fin 5 → LdmkPoint K) :
    Yields
      (readLandmark inputs (H * W : Nat) (c * 21 : Nat) (i * W + j : Nat) i j stride landmark l)
      (Function.update landmark l (cellLandmark (cellPtr inputs W H c i j) i j stride l))
      (elements W H c i j (ldmkChannels l)) := by
  have hl := l.isLt
  have helement : ∀ k : Nat, k ≤ 8 →
      Yields (liftM (ldmkElement (H * W : Nat) (c * 21 : Nat) (i * W + j : Nat) l k))
        (elementNumber W H c (l * 3 + k : Nat) i j) [] :=
    fun k hk => .lift (ldmkElement_eq h hc hi hj l (by omega))
  have hlook : ∀ k : Nat, k ≤ 8 →
      Yields (look inputs (elementNumber W H c (l * 3 + k : Nat) i j))
        (cellPtr inputs W H c i j (l * 3 + k : Nat)) (elements W H c i j [l * 3 + k]) :=
    fun k hk => yields_look hlen hc (by omega) hi hj
  refine .of_eq (.bind (helement 6 (by omega)) (.bind (hlook 6 (by omega))
    (.bind (helement 7 (by omega)) (.bind (hlook 7 (by omega))
      (.bind (helement 8 (by omega)) (.bind (hlook 8 (by omega)) (.pure _))))))) ?_ rfl
  simp only [cellLandmark, Nat.cast_add, Nat.cast_mul, Nat.cast_ofNat]

omit [LinearOrder K] in
theorem yields_landmarks (h : Fits A H W) (hlen : 21 * A * H * W ≤ inputs.length) (hc : c < A)
    (hi : i < H) (hj : j < W) (landmark : Fin 5 → LdmkPoint K) :
    Yields
      ((List.finRange 5).foldlM
        (readLandmark inputs (H * W : Nat) (c * 21 : Nat) (i * W + j : Nat) i j stride) landmark)
      (cellLandmark (cellPtr inputs W H c i j) i j stride)
      (elements W H c i j ((List.finRange 5).flatMap ldmkChannels)) := by
  refine .of_eq (.foldlM (fun l _ b => yields_readLandmark h hlen hc hi hj l b) landmark) ?_ ?_
  · funext l
    rw [foldl_update, if_pos (List.mem_finRange l)]
  · simp only [elements, List.map_flatMap]

/-- The channels that are read in a cell. -/
def cellChannels (exp : K → K) (ptr : Int → K) (thresh : K) : List Nat :=
  if sigmoid exp (ptr 4) > thresh then
    if sigmoid exp (ptr 4) * sigmoid exp (ptr 5) > thresh then
      [4, 4, 5, 0, 1, 2, 3] ++ (List.finRange 5).flatMap ldmkChannels
    else [4, 4, 5]
  else [4]

theorem cellChannels_lt {exp : K → K} {ptr : Int → K} {thresh : K} {k : Nat}
    (h : k ∈ cellChannels exp ptr thresh) : k < 21 := by
  have hall : ∀ k ∈ [4, 4, 5, 0, 1, 2, 3] ++ (List.finRange 5).flatMap ldmkChannels, k < 21 := by
    decide
  refine hall k ?_
  rw [cellChannels] at h
  split_ifs at h
  · exact h
  · exact List.mem_append_left _ (by simp at h ⊢; tauto)
  · exact List.mem_append_left _ (by simp at h ⊢; tauto)

/-- A cell: the proposal is that of the tensor, and what is read are channels of the cell. -/
theorem yields_readCell (h : Fits A H W) (hlen : 21 * A * H * W ≤ inputs.length) (hc : c < A)
    (hi : i < H) (hj : j < W) (anchorW anchorH : K) :
    Yields
      (readCell exp inputs
        ⟨planeIndex H W c 0, planeIndex H W c 1, planeIndex H W c 2, planeIndex H W c 3,
          planeIndex H W c 4, planeIndex H W c 5⟩
        anchorW anchorH W (H * W : Nat) (c * 21 : Nat) i j stride thresh)
      (cellProposal exp (cellPtr inputs W H c i j) anchorW anchorH i j stride thresh)
      (elements W H c i j (cellChannels exp (cellPtr inputs W H c i j) thresh)) := by
  have hcells := h.cells
  have hplace : i * W + j < H * W := Nat.mul_comm W H ▸ raster_lt hj hi
  have hrow : Yields (liftM (inInt ((i : Int) * (W : Int)))) ((i * W : Nat) : Int) [] := by
    rw [← Int.natCast_mul]
    exact .lift (inInt_natCast (by omega))
  have hindex : Yields (liftM (inInt (((i * W : Nat) : Int) + j)))
      ((i * W + j : Nat) : Int) [] := by
    rw [← Int.natCast_add]
    exact .lift (inInt_natCast (by omega))
  have hlook : ∀ k : Nat, k < 21 →
      Yields (look inputs (planeIndex H W c k + (i * W + j : Nat)))
        (cellPtr inputs W H c i j k) (elements W H c i j [k]) := by
    intro k hk
    rw [← elementNumber_eq_add]
    exact yields_look hlen hc hk hi hj
  by_cases hscore : sigmoid exp (cellPtr inputs W H c i j 4) > thresh
  · by_cases hconf : sigmoid exp (cellPtr inputs W H c i j 4) *
        sigmoid exp (cellPtr inputs W H c i j 5) > thresh
    · rw [cellProposal, cellChannels, if_pos hscore, if_pos hconf, if_pos hscore, if_pos hconf]
      refine .of_eq (.bind hrow (.bind hindex (.bind (hlook 4 (by omega)) (.ite_true hscore
        (.bind (hlook 4 (by omega)) (.bind (hlook 5 (by omega)) (.ite_true hconf
          (.bind (hlook 0 (by omega)) (.bind (hlook 1 (by omega)) (.bind (hlook 2 (by omega))
            (.bind (hlook 3 (by omega))
              (.bind (yields_landmarks h hlen hc hi hj _) (.pure _))))))))))))) rfl ?_
      simp only [elements, List.nil_append, List.append_nil, List.map_cons, List.map_nil,
        List.cons_append]
    · rw [cellProposal, cellChannels, if_pos hscore, if_neg hconf, if_pos hscore, if_neg hconf]
      exact .bind hrow (.bind hindex (.bind (hlook 4 (by omega)) (.ite_true hscore
        (.bind (hlook 4 (by omega)) (.bind (hlook 5 (by omega)) (.ite_false hconf (.pure _)))))))
  · rw [cellProposal, cellChannels, if_neg hscore, if_neg hscore]
    exact .bind hrow (.bind hindex (.bind (hlook 4 (by omega)) (.ite_false hscore (.pure _))))

end Cell

/-! ## The run -/

section Run

variable {K : Type} [Field K] [LinearOrder K] {exp : K → K} {inputs : List K} {anchor : List Int}
variable {H W : Nat} {inputW inputH stride : Int} {thresh : K}

/-- The visit of a cell. -/
def visitOf (exp : K → K) (inputs : List K) (anchor : List Int) (H W : Nat) (stride : Int)
    (thresh : K) (cell : Nat × Nat × Nat) : Visit K :=
  let (c, i, j) := cell
  let ptr := cellPtr inputs W H c i j
  { cell := cell
    reads := elements W H c i j (cellChannels exp ptr thresh)
    proposal := cellProposal exp ptr (anchor.getD (c * 2) 0 : Int)
      (anchor.getD (c * 2 + 1) 0 : Int) i j stride thresh }

/-- The visits for an anchor. -/
theorem visitAnchor_eq (h : Fits (anchor.length / 2) H W)
    (hlen : 21 * (anchor.length / 2) * H * W ≤ inputs.length) {c : Nat}
    (hc : c < anchor.length / 2) :
    visitAnchor exp inputs anchor W H (H * W : Nat) stride thresh c =
      some (((List.range H).map fun i => (List.range W).map fun j =>
        visitOf exp inputs anchor H W stride thresh (c, i, j)).flatten) := by
  have hchannels := h.channels
  have hfirst : inInt ((c : Int) * 2) = some ((c * 2 : Nat) : Int) :=
    inInt_natCast (n := c * 2) (by omega)
  have hw : inInt (((c * 2 : Nat) : Int) + 0) = some ((c * 2 : Nat) : Int) :=
    inInt_natCast (n := c * 2) (by omega)
  have hh : inInt (((c * 2 : Nat) : Int) + 1) = some ((c * 2 + 1 : Nat) : Int) :=
    inInt_natCast (n := c * 2 + 1) (by omega)
  have hindex : inInt ((c : Int) * channels) = some ((c * 21 : Nat) : Int) :=
    inInt_natCast (n := c * 21) (by omega)
  have hanchor : ∀ n < anchor.length, at? anchor n = some (anchor.getD n 0) := by
    intro n hn
    rw [at?_natCast, List.getD_eq_getElem?_getD, List.getElem?_eq_getElem hn, Option.getD_some]
  have hrows : ∀ i ∈ List.range H, (List.range W).mapM (fun (j : Nat) =>
      (readCell exp inputs ⟨planeIndex H W c 0, planeIndex H W c 1, planeIndex H W c 2,
        planeIndex H W c 3, planeIndex H W c 4, planeIndex H W c 5⟩
        (anchor.getD (c * 2) 0 : Int) (anchor.getD (c * 2 + 1) 0 : Int) W (H * W : Nat)
        (c * 21 : Nat) i j stride thresh).run.map fun r => (⟨(c, i, j), r.2, r.1⟩ : Visit K)) =
      some ((List.range W).map fun j =>
        visitOf exp inputs anchor H W stride thresh (c, i, j)) := by
    intro i hi
    apply mapM_eq_map
    intro j hj
    rw [List.mem_range] at hi hj
    rw [yields_readCell h hlen hc hi hj]
    rfl
  rw [visitAnchor, Option.bind_eq_bind, bind_of_eq_some hfirst, Option.bind_eq_bind,
    bind_of_eq_some hw, bind_of_eq_some (hanchor (c * 2) (by omega)), bind_of_eq_some hh,
    bind_of_eq_some (hanchor (c * 2 + 1) (by omega)), bind_of_eq_some hindex,
    bind_of_eq_some (planes_eq h hc)]
  rw [Int.toNat_natCast, Int.toNat_natCast, mapM_eq_map hrows]
  rfl

/-- The run examines the cells one after the other. -/
theorem visits_eq (h : Fits (anchor.length / 2) H W)
    (hlen : 21 * (anchor.length / 2) * H * W ≤ inputs.length) (hstride : 1 ≤ stride)
    (hW : inputW.tdiv stride = W) (hH : inputH.tdiv stride = H) :
    visits exp inputs anchor inputW inputH stride thresh =
      some ((List.range (anchor.length / 2) ×ˢ List.range H ×ˢ List.range W).map
        (visitOf exp inputs anchor H W stride thresh)) := by
  have hsize : inInt ((H : Int) * (W : Int)) = some ((H * W : Nat) : Int) := by
    rw [← Int.natCast_mul]
    exact inInt_natCast h.cells
  have hanchors : (List.range (anchor.length / 2)).mapM
      (visitAnchor exp inputs anchor W H (H * W : Nat) stride thresh) =
      some ((List.range (anchor.length / 2)).map fun c =>
        ((List.range H).map fun i => (List.range W).map fun j =>
          visitOf exp inputs anchor H W stride thresh (c, i, j)).flatten) :=
    mapM_eq_map fun c hc => visitAnchor_eq h hlen (List.mem_range.mp hc)
  rw [visits, quotInt_of_pos hstride, quotInt_of_pos hstride, hW, hH]
  rw [Option.bind_eq_bind, Option.bind_some, Option.bind_some, bind_of_eq_some hsize, hanchors]
  simp [SProd.sprod, List.product, List.flatMap_def, Function.comp_def]

/-- The proposals of the visits are those of the tensor. -/
theorem pushProposals_eq (proposals : List (FaceObject K)) (hW : inputW.tdiv stride = W)
    (hH : inputH.tdiv stride = H) :
    pushProposals proposals
        ((List.range (anchor.length / 2) ×ˢ List.range H ×ˢ List.range W).map
          (visitOf exp inputs anchor H W stride thresh)) =
      gridProposals exp (tensor inputs) anchor inputW inputH stride thresh proposals := by
  rw [pushProposals, gridProposals, hW, hH]
  simp only [SProd.sprod, List.product, Int.toNat_natCast, List.map_flatMap, List.filterMap_flatMap,
    List.map_map, List.filterMap_map]
  rfl

/-- For a size that an `int` can index, the program computes the proposals of the grid. -/
theorem generateProposals_eq (h : Fits (anchor.length / 2) H W)
    (hlen : 21 * (anchor.length / 2) * H * W ≤ inputs.length) (hstride : 1 ≤ stride)
    (hW : inputW.tdiv stride = W) (hH : inputH.tdiv stride = H) (proposals : List (FaceObject K)) :
    generateProposals exp inputs anchor inputW inputH stride thresh proposals =
      some (gridProposals exp (tensor inputs) anchor inputW inputH stride thresh proposals) := by
  rw [generateProposals, visits_eq h hlen hstride hW hH, Option.map_some,
    pushProposals_eq proposals hW hH]

/-- What the reads of a run are to be: each one in the tensor and a channel of the cell examined,
no two channels and cells with one element, and every cell examined once. -/
structure CellsRead (exp : K → K) (inputs : List K) (anchor : List Int)
    (inputW inputH stride : Int) (thresh : K) (H W : Nat) (vs : List (Visit K)) : Prop where
  run : visits exp inputs anchor inputW inputH stride thresh = some vs
  inside : ∀ v ∈ vs, ∀ index ∈ v.reads, 0 ≤ index ∧ index < (21 * (anchor.length / 2) * H * W : Nat)
  channel : ∀ v ∈ vs, ∀ index ∈ v.reads, ∃ k : Nat, k < 21 ∧
    index = elementNumber W H v.cell.1 k v.cell.2.1 v.cell.2.2
  injective : Set.InjOn
    (fun p : Nat × Nat × Nat × Nat => elementNumber W H p.1 p.2.1 p.2.2.1 p.2.2.2)
    {p | p.1 < anchor.length / 2 ∧ p.2.1 < 21 ∧ p.2.2.1 < H ∧ p.2.2.2 < W}
  once : ∀ c < anchor.length / 2, ∀ i < H, ∀ j < W, (vs.map Visit.cell).count (c, i, j) = 1
  cell : ∀ v ∈ vs, v.cell.1 < anchor.length / 2 ∧ v.cell.2.1 < H ∧ v.cell.2.2 < W
  proposals : ∀ proposals, pushProposals proposals vs =
    gridProposals exp (tensor inputs) anchor inputW inputH stride thresh proposals

/-- What `generate_proposals` reads, for every size that an `int` can index. -/
theorem generateProposals_cellsRead (exp : K → K) (thresh : K) (hstride : 1 ≤ stride)
    (hW : inputW.tdiv stride = W) (hH : inputH.tdiv stride = H)
    (hlen : 21 * (anchor.length / 2) * H * W ≤ inputs.length)
    (hfits : Fits (anchor.length / 2) H W) :
    ∃ vs, CellsRead exp inputs anchor inputW inputH stride thresh H W vs := by
  have hmem : ∀ v ∈ (List.range (anchor.length / 2) ×ˢ List.range H ×ˢ List.range W).map
      (visitOf exp inputs anchor H W stride thresh), ∃ c i j, c < anchor.length / 2 ∧ i < H ∧
        j < W ∧ v = visitOf exp inputs anchor H W stride thresh (c, i, j) := by
    intro v hv
    obtain ⟨⟨c, i, j⟩, hcell, rfl⟩ := List.mem_map.mp hv
    simp only [List.mem_product, List.mem_range] at hcell
    exact ⟨c, i, j, hcell.1, hcell.2.1, hcell.2.2, rfl⟩
  have hchannel : ∀ c i j, ∀ index ∈ (visitOf exp inputs anchor H W stride thresh (c, i, j)).reads,
      ∃ k : Nat, k < 21 ∧ index = elementNumber W H c k i j := by
    intro c i j index hindex
    obtain ⟨k, hk, rfl⟩ := List.mem_map.mp hindex
    exact ⟨k, cellChannels_lt hk, rfl⟩
  refine ⟨_, visits_eq hfits hlen hstride hW hH, ?inside, ?channel, ?injective,
    ?once, ?cell, ?proposals⟩
  case inside =>
    intro v hv index hindex
    obtain ⟨c, i, j, hc, hi, hj, rfl⟩ := hmem v hv
    obtain ⟨k, hk, rfl⟩ := hchannel c i j index hindex
    exact elementNumber_bounds hc hk hi hj
  case channel =>
    intro v hv index hindex
    obtain ⟨c, i, j, -, -, -, rfl⟩ := hmem v hv
    exact hchannel c i j index hindex
  case injective =>
    rintro ⟨c, k, i, j⟩ ⟨-, hk, hi, hj⟩ ⟨c', k', i', j'⟩ ⟨-, hk', hi', hj'⟩ heq
    obtain ⟨rfl, rfl, rfl, rfl⟩ := elementNumber_inj hk hk' hi hi' hj hj' heq
    rfl
  case once =>
    intro c hc i hi j hj
    have hcells : ((List.range (anchor.length / 2) ×ˢ List.range H ×ˢ List.range W).map
        (visitOf exp inputs anchor H W stride thresh)).map Visit.cell =
          List.range (anchor.length / 2) ×ˢ List.range H ×ˢ List.range W := by
      rw [List.map_map]
      exact List.map_id _
    rw [hcells]
    have hnodup : (List.range (anchor.length / 2) ×ˢ List.range H ×ˢ List.range W).Nodup :=
      List.Nodup.product List.nodup_range (List.Nodup.product List.nodup_range List.nodup_range)
    apply List.count_eq_one_of_mem hnodup
    simp only [List.mem_product, List.mem_range]
    exact ⟨hc, hi, hj⟩
  case cell =>
    intro v hv
    obtain ⟨c, i, j, hc, hi, hj, rfl⟩ := hmem v hv
    exact ⟨hc, hi, hj⟩
  case proposals => exact fun proposals => pushProposals_eq proposals hW hH

end Run

/-- Two anchors on an image of 17 by 30: the stride divides neither side. -/
theorem generateProposals_cellsRead_small :
    (1 ≤ (8 : Int) ∧ (17 : Int).tdiv 8 = (2 : Nat) ∧ (30 : Int).tdiv 8 = (3 : Nat) ∧
      21 * ([4, 5, 6, 8].length / 2) * 3 * 2 ≤ (List.replicate 252 (0 : ℚ)).length ∧
      Fits ([4, 5, 6, 8].length / 2) 3 2) ∧
    ∃ vs, CellsRead (fun _ => (1 : ℚ)) (List.replicate 252 0) [4, 5, 6, 8] 17 30 8 (1 / 5) 3 2 vs :=
  have hfits : Fits ([(4 : Int), 5, 6, 8].length / 2) 3 2 := ⟨by decide, by decide, by decide⟩
  ⟨⟨by decide, by decide, by decide, List.length_replicate.ge, hfits⟩,
    generateProposals_cellsRead _ _ (by decide) (by decide) (by decide)
      List.length_replicate.ge hfits⟩

/-- An image of 65536 by 65536 in cells of one pixel has more cells than an `int` counts. -/
theorem visits_overflow {K : Type} [Field K] [LinearOrder K] (exp : K → K) (inputs : List K)
    (anchor : List Int) (thresh : K) : visits exp inputs anchor 65536 65536 1 thresh = none := by
  have hsize : inInt (Int.tdiv 65536 1 * Int.tdiv 65536 1) = none := by decide
  rw [visits, quotInt_of_pos (by decide), Option.bind_eq_bind, Option.bind_some, Option.bind_some,
    hsize]
  rfl

theorem not_cellsRead_overflow :
    ¬ ∀ (inputs : List ℚ) (anchor : List Int) (inputW inputH stride : Int) (thresh : ℚ) (H W : Nat),
      1 ≤ stride → inputW.tdiv stride = W → inputH.tdiv stride = H →
      21 * (anchor.length / 2) * H * W ≤ inputs.length →
      ∃ vs, CellsRead (fun _ => 1) inputs anchor inputW inputH stride thresh H W vs := by
  intro h
  have hlen : 21 * ([(1 : Int), 1].length / 2) * 65536 * 65536 ≤
      (List.replicate (21 * 1 * 65536 * 65536) (0 : ℚ)).length := List.length_replicate.ge
  obtain ⟨vs, hvs⟩ := h _ [1, 1] 65536 65536 1 0 65536 65536 (by decide) (by decide) (by decide)
    hlen
  have hrun := hvs.run
  rw [visits_overflow] at hrun
  cases hrun

end BoardTest.FaceDet
