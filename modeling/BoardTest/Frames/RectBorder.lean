import BoardTest.Frames.RectRegion

/-!
# Where a rectangle is drawn

The stores of both routines against the frame, and the pixels that `i420_rect_region` paints against
a border of five pixels on every side. `nv12_rect_region` leaves the frame in its last byte; the
right and the lower side of the border come out four pixels wide.
-/

namespace BoardTest.Frames

namespace Region

variable (r : Region)

/-- Every store of either routine stays in the frame. -/
def StoresInside (c : Yuv) : Prop :=
  ∃ nv12 i420, r.nv12Writes c = some nv12 ∧ r.i420Writes c = some i420 ∧
    (∀ w ∈ nv12, w.1 < r.picW * r.picH * 3 / 2) ∧ ∀ w ∈ i420, w.1 < r.picW * r.picH * 3 / 2

/-- The rectangle is empty, does not reach the last column, or ends above the last two rows. -/
def ClearOfCorner : Prop :=
  r.rectW = 0 ∨ r.rectH = 0 ∨ r.rectX + r.rectW < r.picW ∨ r.rectY + r.rectH + 1 < r.picH

instance : Decidable r.ClearOfCorner := instDecidableOr

variable {r}

/-- In the last column of the rectangle every pixel is painted. -/
theorem painted_right {j k : Nat} (hj : r.rectY ≤ j) (hj' : j < r.rectY + r.rectH)
    (hk : r.rectX ≤ k) (hk' : k + 1 = r.rectX + r.rectW) : r.Painted j k :=
  ⟨hj, hj', hk, by omega, .inr (.inl (by simp only [border]; omega))⟩

theorem half_size : r.picW * r.picH / 2 = r.picH / 2 * r.picW := by
  rw [Nat.mul_div_assoc _ r.evenH, Nat.mul_comm]

/-- A pixel stores behind the frame only from the end of the last two rows. -/
theorem fits_pixel_iff {j k : Nat} (hj : j < r.picH) (hk : k < r.picW) :
    j / 2 * r.picW + k + 1 < r.picW * r.picH / 2 ↔ k + 1 < r.picW ∨ j / 2 + 1 < r.picH / 2 := by
  have hh : r.picH = 2 * (r.picH / 2) := (Nat.mul_div_cancel' r.evenH).symm
  rw [half_size]
  constructor
  · intro h
    by_contra hend
    have hlast : j / 2 + 1 = r.picH / 2 := by omega
    have hrows : r.picH / 2 * r.picW = j / 2 * r.picW + r.picW := by
      rw [← hlast, Nat.add_mul, Nat.one_mul]
    omega
  · rintro (hcol | hrow)
    · exact raster_lt_row hcol (by omega)
    · have hnext : j / 2 * r.picW + k < (j / 2 + 1) * r.picW := raster_lt_row hk (by omega)
      have hrest : (j / 2 + 1) * r.picW + r.picW ≤ r.picH / 2 * r.picW := by
        rw [← Nat.succ_mul]
        exact Nat.mul_le_mul_right _ hrow
      omega

theorem fits_iff : r.Fits ↔ r.ClearOfCorner := by
  have hw := r.insideW
  have hh := r.insideH
  have heven := r.evenH
  constructor
  · intro h
    by_contra hcorner
    simp only [ClearOfCorner, not_or, not_lt] at hcorner
    obtain ⟨hw0, hh0, hright, hbottom⟩ := hcorner
    have hp : r.Painted (r.rectY + r.rectH - 1) (r.rectX + r.rectW - 1) :=
      painted_right (by omega) (by omega) (by omega) (by omega)
    rcases (fits_pixel_iff hp.lt_picH hp.lt_picW).mp (h _ _ hp) with hcol | hrow <;> omega
  · intro h j k hp
    rw [fits_pixel_iff hp.lt_picH hp.lt_picW]
    obtain ⟨hj, hj', hk, hk', -⟩ := hp
    rcases h with h | h | h | h
    · omega
    · omega
    · exact .inl (by omega)
    · exact .inr (by omega)

/-- Both routines stay in the frame exactly when its size is an `int` and the rectangle keeps clear
of its lower right corner. -/
theorem stores_inside_iff (c : Yuv) : r.StoresInside c ↔ r.SizeInt ∧ r.ClearOfCorner := by
  have hframe : r.picW * r.picH * 3 / 2 = 6 * r.quarter := by
    rw [r.size_eq]
    omega
  rw [StoresInside, hframe, ← fits_iff]
  constructor
  · rintro ⟨nv12, i420, hnv12, -, hin, -⟩
    by_cases hsize : r.SizeInt
    · rw [nv12Writes_eq hsize, Option.some_inj] at hnv12
      exact ⟨hsize, fits_of_lt (hnv12 ▸ hin)⟩
    · rw [nv12Writes_none hsize] at hnv12
      cases hnv12
  · rintro ⟨hsize, hfits⟩
    exact ⟨_, _, nv12Writes_eq hsize c, i420Writes_eq hsize c, lt_of_fits c hfits, i420_lt c⟩

variable (r)

/-- The pixel is in the rectangle and within five pixels of one of its sides. -/
def Framed (j k : Nat) : Prop :=
  r.rectY ≤ j ∧ j < r.rectY + r.rectH ∧ r.rectX ≤ k ∧ k < r.rectX + r.rectW ∧
    (k < r.rectX + border ∨ r.rectX + r.rectW ≤ k + border ∨
      j < r.rectY + border ∨ r.rectY + r.rectH ≤ j + border)

instance (j k : Nat) : Decidable (r.Framed j k) := instDecidableAnd

/-- The fifth column from the right and the fifth row from below, as far as no other side covers
them. -/
def Gap (j k : Nat) : Prop :=
  (r.rectX + border ≤ k ∧ k + border ≤ r.rectX + r.rectW) ∧
    (r.rectY + border ≤ j ∧ j + border ≤ r.rectY + r.rectH) ∧
      (k + border = r.rectX + r.rectW ∨ j + border = r.rectY + r.rectH)

/-- The picture behind `i420_rect_region` is the one before with a border of five pixels on every
side: in Y the luma of its pixels, in U and V the samples of its blocks of two by two. -/
def PaintsBorder (c : Yuv) (f : Frame r) : Prop :=
  ∃ g, r.i420RectRegion c f.data = some g ∧ g.length = f.data.length ∧
    (∀ j < r.picH, ∀ k < r.picW,
      (r.Framed j k → g[j * r.picW + k]? = some c.y) ∧
        (¬ r.Framed j k → g[j * r.picW + k]? = f.data[j * r.picW + k]?)) ∧
    ∀ i < r.picH / 2, ∀ l < r.picW / 2,
      let u := r.picW * r.picH + (i * (r.picW / 2) + l)
      let v := u + r.picW * r.picH / 4
      ((∃ j k, j / 2 = i ∧ k / 2 = l ∧ r.Framed j k) →
        g[u]? = some c.u ∧ g[v]? = some c.v) ∧
        (¬ (∃ j k, j / 2 = i ∧ k / 2 = l ∧ r.Framed j k) →
          g[u]? = f.data[u]? ∧ g[v]? = f.data[v]?)

/-- What the border is missing has the colour already: the luma of each pixel of the gap, and the
samples of its block, unless a painted pixel lies in the block too. -/
def GapColoured (c : Yuv) (f : Frame r) : Prop :=
  ∀ j k, r.Gap j k → f.data[j * r.picW + k]? = some c.y ∧
    ((∃ j' k', j' / 2 = j / 2 ∧ k' / 2 = k / 2 ∧ r.Painted j' k') ∨
      (f.data[r.picW * r.picH + r.sample j k]? = some c.u ∧
        f.data[r.picW * r.picH + r.sample j k + r.picW * r.picH / 4]? = some c.v))

variable {r}

/-- The border of five pixels is what is painted and the gap. -/
theorem framed_iff {j k : Nat} : r.Framed j k ↔ r.Painted j k ∨ r.Gap j k := by
  simp only [Framed, Painted, OnBorder, Gap, border]
  omega

theorem not_painted_of_gap {j k : Nat} (h : r.Gap j k) : ¬ r.Painted j k := by
  simp only [Painted, OnBorder, Gap, border] at *
  omega

theorem Framed.lt_picW {j k : Nat} (h : r.Framed j k) : k < r.picW := by
  have := r.insideW
  have := h.2.2.2.1
  omega

theorem Framed.lt_picH {j k : Nat} (h : r.Framed j k) : j < r.picH := by
  have := r.insideH
  have := h.2.1
  omega

/-- Only a rectangle of at least ten by ten pixels has a gap. -/
theorem gapColoured_of_small (h : r.rectW < 10 ∨ r.rectH < 10) (c : Yuv) (f : Frame r) :
    r.GapColoured c f := by
  intro j k hgap
  simp only [Gap, border] at hgap
  omega

/-! ## What is painted, byte by byte -/

/-- Pixels stand at different places. -/
theorem pixel_unique {j k j' k' : Nat} (hk : k < r.picW) (hk' : k' < r.picW)
    (h : j' * r.picW + k' = j * r.picW + k) : j' = j ∧ k' = k := by
  have hdiv := congrArg (· / r.picW) h
  have hmod := congrArg (· % r.picW) h
  simp only [raster_div hk, raster_div hk', raster_mod hk, raster_mod hk'] at hdiv hmod
  exact ⟨hdiv, hmod⟩

/-- Samples stand at different places. -/
theorem sample_unique {j k i l : Nat} (hk : k < r.picW) (hl : l < r.picW / 2)
    (h : r.sample j k = i * (r.picW / 2) + l) : j / 2 = i ∧ k / 2 = l := by
  have hw := r.picW_eq
  have hk2 : k / 2 < r.picW / 2 := by omega
  rw [sample_eq] at h
  have hdiv := congrArg (· / (r.picW / 2)) h
  have hmod := congrArg (· % (r.picW / 2)) h
  simp only [raster_div hl, raster_div hk2, raster_mod hl, raster_mod hk2] at hdiv hmod
  exact ⟨hdiv, hmod⟩

open scoped Classical in
theorem lastStore_i420_luma (c : Yuv) {j k : Nat} (hj : j < r.picH) (hk : k < r.picW) :
    lastStore (r.loops (r.i420Stores c)) (j * r.picW + k) =
      if r.Painted j k then some c.y else none := by
  have hp : j * r.picW + k < 4 * r.quarter := by
    rw [← r.size_eq]
    exact raster_lt hk hj
  have hall : (∃ j' k', r.Painted j' k' ∧ j' * r.picW + k' = j * r.picW + k) ↔ r.Painted j k := by
    constructor
    · rintro ⟨j', k', hpaint, heq⟩
      obtain ⟨rfl, rfl⟩ := pixel_unique hk hpaint.lt_picW heq
      exact hpaint
    · exact fun hpaint => ⟨j, k, hpaint, rfl⟩
  rw [lastStore_loops (a := c.y) (P := fun j' k' => j' * r.picW + k' = j * r.picW + k)]
  · simp only [hall]
  · intro j' k' _ heq
    simp [i420Stores_eq, heq]
  · exact fun j' k' _ w hw hi => luma_of_mem_i420Stores hw hp hi

/-- A block of two by two pixels is painted. -/
theorem i420Paints_iff {s i l : Nat} (hl : l < r.picW / 2)
    (hs : s / 2 = i * (r.picW / 2) + l) :
    r.I420Paints s ↔ ∃ j k, j / 2 = i ∧ k / 2 = l ∧ r.Painted j k := by
  constructor
  · rintro ⟨j, k, hp, heq⟩
    obtain ⟨hj, hk⟩ := sample_unique hp.lt_picW hl (heq.trans hs)
    exact ⟨j, k, hj, hk, hp⟩
  · rintro ⟨j, k, rfl, rfl, hp⟩
    exact ⟨j, k, hp, by rw [hs, sample_eq]⟩

open scoped Classical in
/-- What `i420_rect_region` makes of a frame. -/
theorem exists_i420RectRegion (hsize : r.SizeInt) (c : Yuv) (f : Frame r) :
    ∃ g, r.i420RectRegion c f.data = some g ∧ g.length = f.data.length ∧
      (∀ j < r.picH, ∀ k < r.picW, g[j * r.picW + k]? =
        if r.Painted j k then some c.y else f.data[j * r.picW + k]?) ∧
      ∀ i < r.picH / 2, ∀ l < r.picW / 2,
        let u := r.picW * r.picH + (i * (r.picW / 2) + l)
        let v := u + r.picW * r.picH / 4
        (g[u]? = if ∃ j k, j / 2 = i ∧ k / 2 = l ∧ r.Painted j k then some c.u
          else f.data[u]?) ∧
        (g[v]? = if ∃ j k, j / 2 = i ∧ k / 2 = l ∧ r.Painted j k then some c.v
          else f.data[v]?) := by
  have hlen := r.length_frame f
  have hin : ∀ w ∈ r.loops (r.i420Stores c), w.1 < f.data.length := by
    rw [hlen]
    exact i420_lt c
  obtain ⟨g, hg⟩ := exists_stores hin
  refine ⟨g, (i420RectRegion_eq hsize c f.data).trans hg, length_stores hg, ?_, ?_⟩
  · intro j hj k hk
    have hlt : j * r.picW + k < 4 * r.quarter := by
      rw [← r.size_eq]
      exact raster_lt hk hj
    exact getElem?_stores_ite hg (by omega) (lastStore_i420_luma c hj hk)
  · intro i hi l hl u v
    have hm : i * (r.picW / 2) + l < r.quarter := raster_lt hl hi
    have hu : u = 4 * r.quarter + (i * (r.picW / 2) + l) := by rw [← r.size_eq]
    have hv : v = 4 * r.quarter + (r.quarter + (i * (r.picW / 2) + l)) := by
      have hquarter : r.picW * r.picH / 4 = r.quarter := by
        rw [r.size_eq]
        omega
      show u + r.picW * r.picH / 4 = _
      omega
    have heven : r.I420Paints (2 * (i * (r.picW / 2) + l)) ↔
        ∃ j k, j / 2 = i ∧ k / 2 = l ∧ r.Painted j k := i420Paints_iff hl (by omega)
    have hodd : r.I420Paints (2 * (i * (r.picW / 2) + l) + 1) ↔
        ∃ j k, j / 2 = i ∧ k / 2 = l ∧ r.Painted j k := i420Paints_iff hl (by omega)
    have hbyteU : pairByte c (2 * (i * (r.picW / 2) + l)) = c.u := if_pos (by omega)
    have hbyteV : pairByte c (2 * (i * (r.picW / 2) + l) + 1) = c.v := if_neg (by omega)
    constructor
    · rw [hu, getElem?_stores_ite hg (by omega) (lastStore_i420_u c hm), hbyteU]
      simp only [heven]
    · rw [hv, getElem?_stores_ite hg (by omega) (lastStore_i420_v c hm), hbyteV]
      simp only [hodd]

open scoped Classical in
/-- A place gets what it should when it is painted, is none of the border, or has the colour. -/
theorem right_iff {α : Type*} {P F G : Prop} {new old b : α} (hF : F ↔ P ∨ G)
    (hnew : new = if P then b else old) :
    ((F → new = b) ∧ (¬ F → new = old)) ↔ (G → P ∨ old = b) := by
  by_cases hP : P
  · have hF' : F := hF.mpr (.inl hP)
    simp [hP, hF', hnew]
  · rw [hF, hnew, if_neg hP]
    simp [hP]

open scoped Classical in
/-- A pixel comes out right when it is none of the gap or has the colour. -/
theorem pixel_right_iff {j k : Nat} {new old b : Option Byte}
    (h : new = if r.Painted j k then b else old) :
    ((r.Framed j k → new = b) ∧ (¬ r.Framed j k → new = old)) ↔ (r.Gap j k → old = b) := by
  rw [right_iff framed_iff h]
  exact forall_congr' fun hgap => or_iff_right (not_painted_of_gap hgap)

open scoped Classical in
/-- The samples of a block come out right when none of its pixels is of the gap, one of them is
painted, or they have the colour. -/
theorem block_right_iff {i l : Nat} {u v u' v' b b' : Option Byte}
    (hu : u' = if ∃ j k, j / 2 = i ∧ k / 2 = l ∧ r.Painted j k then b else u)
    (hv : v' = if ∃ j k, j / 2 = i ∧ k / 2 = l ∧ r.Painted j k then b' else v) :
    (((∃ j k, j / 2 = i ∧ k / 2 = l ∧ r.Framed j k) → u' = b ∧ v' = b') ∧
      (¬ (∃ j k, j / 2 = i ∧ k / 2 = l ∧ r.Framed j k) → u' = u ∧ v' = v)) ↔
    ((∃ j k, j / 2 = i ∧ k / 2 = l ∧ r.Gap j k) →
      (∃ j k, j / 2 = i ∧ k / 2 = l ∧ r.Painted j k) ∨ u = b ∧ v = b') := by
  have hblocks : (∃ j k, j / 2 = i ∧ k / 2 = l ∧ r.Framed j k) ↔
      (∃ j k, j / 2 = i ∧ k / 2 = l ∧ r.Painted j k) ∨
        ∃ j k, j / 2 = i ∧ k / 2 = l ∧ r.Gap j k := by
    simp only [framed_iff, and_or_left, exists_or]
  have hpair : (u', v') =
      if ∃ j k, j / 2 = i ∧ k / 2 = l ∧ r.Painted j k then (b, b') else (u, v) := by
    rw [hu, hv]
    split <;> rfl
  simpa only [Prod.mk.injEq] using right_iff hblocks hpair

/-- The border comes out five pixels wide exactly when what it is missing has the colour. -/
theorem paintsBorder_iff_gap (hsize : r.SizeInt) (c : Yuv) (f : Frame r) :
    r.PaintsBorder c f ↔ r.GapColoured c f := by
  obtain ⟨g, hrun, hlength, hluma, hchroma⟩ := exists_i420RectRegion hsize c f
  constructor
  · rintro ⟨g', hrun', -, hpixels, hblocks⟩
    obtain rfl := Option.some.inj (hrun.symm.trans hrun')
    intro j k hgap
    have hframed : r.Framed j k := framed_iff.mpr (.inr hgap)
    have hj := hframed.lt_picH
    have hk := hframed.lt_picW
    have hi : j / 2 < r.picH / 2 := by
      have := r.evenH
      omega
    have hl : k / 2 < r.picW / 2 := by
      have := r.evenW
      omega
    obtain ⟨hu, hv⟩ := hchroma _ hi _ hl
    rw [sample_eq]
    exact ⟨(pixel_right_iff (hluma j hj k hk)).mp (hpixels j hj k hk) hgap,
      (block_right_iff hu hv).mp (hblocks _ hi _ hl) ⟨j, k, rfl, rfl, hgap⟩⟩
  · intro hgap
    refine ⟨g, hrun, hlength, ?_, ?_⟩
    · intro j hj k hk
      exact (pixel_right_iff (hluma j hj k hk)).mpr fun h => (hgap j k h).1
    · intro i hi l hl
      obtain ⟨hu, hv⟩ := hchroma i hi l hl
      refine (block_right_iff hu hv).mpr ?_
      rintro ⟨j, k, rfl, rfl, h⟩
      have hsample := (hgap j k h).2
      rwa [sample_eq] at hsample

/-- The border is painted five pixels wide exactly when the size of the picture is an `int` and the
rectangle is less than ten pixels wide or high, or the missing pixels have the colour already. -/
theorem paintsBorder_iff (c : Yuv) (f : Frame r) :
    r.PaintsBorder c f ↔ r.SizeInt ∧ (r.rectW < 10 ∨ r.rectH < 10 ∨ r.GapColoured c f) := by
  have hsmall : (r.rectW < 10 ∨ r.rectH < 10 ∨ r.GapColoured c f) ↔ r.GapColoured c f := by
    rw [← or_assoc]
    exact or_iff_right_of_imp fun h => gapColoured_of_small h c f
  rw [hsmall]
  by_cases hsize : r.SizeInt
  · rw [and_iff_right hsize]
    exact paintsBorder_iff_gap hsize c f
  · refine iff_of_false ?_ (fun h => hsize h.1)
    rintro ⟨g, hrun, -⟩
    rw [i420RectRegion, i420Writes_none hsize] at hrun
    cases hrun

end Region

/-- A picture of 2 by 2 pixels as one rectangle. -/
def wholeRegion : Region where
  picW := 2
  picH := 2
  rectX := 0
  rectY := 0
  rectW := 2
  rectH := 2
  evenW := by decide
  evenH := by decide
  insideW := by decide
  insideH := by decide
  picWInt := by decide
  picHInt := by decide

/-- The V of the last pixel is stored behind the frame. -/
theorem wholeRegion_not_inside : ¬ ∀ (r : Region) (c : Yuv), r.StoresInside c := by
  intro h
  obtain ⟨nv12, _, hnv12, -, hin, -⟩ := h wholeRegion red
  have hlast : ((6, red.v) : Nat × Byte) ∈ wholeRegion.loops (wholeRegion.nv12Stores red) := by
    decide
  rw [Region.nv12Writes_eq (by decide), Option.some_inj] at hnv12
  exact absurd (hin _ (hnv12 ▸ hlast)) (by decide)

/-- A picture of 10 by 10 pixels as one rectangle. -/
def tenRegion : Region where
  picW := 10
  picH := 10
  rectX := 0
  rectY := 0
  rectW := 10
  rectH := 10
  evenW := by decide
  evenH := by decide
  insideW := by decide
  insideH := by decide
  picWInt := by decide
  picHInt := by decide

def tenFrame : Frame tenRegion := ⟨List.replicate 150 0, List.length_replicate⟩

/-- The pixel at (5, 5) is within five pixels of two sides and keeps its luma. -/
theorem tenRegion_gap : ¬ ∀ (r : Region) (c : Yuv) (f : Frame r), r.PaintsBorder c f := by
  intro h
  obtain ⟨g, hrun, -, hpixels, -⟩ := h tenRegion red tenFrame
  obtain ⟨g', hrun', -, hluma, -⟩ :=
    Region.exists_i420RectRegion (r := tenRegion) (by decide) red tenFrame
  obtain rfl := Option.some.inj (hrun.symm.trans hrun')
  have hwanted := (hpixels 5 (by decide) 5 (by decide)).1 (by decide)
  have hkept := hluma 5 (by decide) 5 (by decide)
  rw [hwanted, if_neg (by simp [Region.Painted, Region.OnBorder, Region.border, tenRegion]),
    tenFrame, List.getElem?_replicate] at hkept
  exact absurd hkept (by decide)

end BoardTest.Frames
