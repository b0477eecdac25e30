import BoardTest.Lib.CInt
import BoardTest.Lib.CString
import BoardTest.Lib.Raster
import BoardTest.Lib.Stores
import Mathlib.Algebra.Group.Nat.Even
import Mathlib.Data.List.GetD
import Mathlib.Data.List.Range

/-!
# Rectangles drawn into camera frames

`i420_rect_region` and `nv12_rect_region` of `fltest_v4l2_npu.cpp` draw the border of a rectangle
into a frame. They run over the same pixels and differ in where the chroma of a pixel stands: in
I420 a sample of the U plane and one of the V plane belong to a block of two by two pixels, in NV12
the two stand side by side. `nv12_rect_region` takes the column for the place of the pair, so that a
pixel in an odd column writes its U over the V of its pair, and its V over the U of the next one.
All indices are `int`s; the largest of them is the size `pic_w * pic_h` (`i420Writes_eq`,
`nv12Writes_eq`).
-/

namespace BoardTest.Frames

/-- Y, U and V as both routines compute them from R, G and B, cut to a byte. -/
structure Yuv where
  y : Byte
  u : Byte
  v : Byte

/-- A rectangle inside a picture of even width and height, both of them an `int`. -/
structure Region where
  picW : Nat
  picH : Nat
  rectX : Nat
  rectY : Nat
  rectW : Nat
  rectH : Nat
  evenW : 2 ∣ picW
  evenH : 2 ∣ picH
  insideW : rectX + rectW ≤ picW
  insideH : rectY + rectH ≤ picH
  picWInt : picW < 2 ^ 31
  picHInt : picH < 2 ^ 31

/-- A frame of the picture's size: a byte of luma for every pixel, two of chroma for every four. -/
structure Frame (r : Region) where
  data : List Byte
  length_data : data.length = r.picW * r.picH * 3 / 2

namespace Region

/-- `const int border = 5;` -/
def border : Nat := 5

variable (r : Region)

/-- The `if` of both loops (lines 222 and 262). -/
def OnBorder (j k : Nat) : Prop :=
  k < r.rectX + border ∨ r.rectX + r.rectW < k + border ∨
    j < r.rectY + border ∨ r.rectY + r.rectH < j + border

instance (j k : Nat) : Decidable (r.OnBorder j k) := instDecidableOr

/-- The `if` as it is evaluated, from the left and with sums of `int`. -/
def onBorder (j k : Nat) : Option Bool := do
  let left ← natInt (r.rectX + border)
  if k < left then pure true else do
    let right ← natInt (r.rectX + r.rectW)
    if right < k + border then pure true else do
      let top ← natInt (r.rectY + border)
      if j < top then pure true else do
        let bottom ← natInt (r.rectY + r.rectH)
        pure (decide (bottom < j + border))

/-- The two loops, with what is stored for a pixel as a parameter. -/
def pixelLoops (body : Nat → Nat → Option (List (Nat × Byte))) : Option (List (Nat × Byte)) := do
  let rows ← (List.range' r.rectY r.rectH).mapM fun j => do
    let pixels ← (List.range' r.rectX r.rectW).mapM fun k => do
      if ← r.onBorder j k then body j k else pure []
    pure pixels.flatten
  pure rows.flatten

/-- The stores of lines 229 to 235; `pChroma` stands `chroma` bytes behind `pLuma`. -/
def i420Pixel (chroma : Nat) (c : Yuv) (j k : Nat) : Option (List (Nat × Byte)) := do
  let yRow ← natInt (j * r.picW)
  let yIndex ← natInt (yRow + k)
  let uRow ← natInt (j / 2 * r.picW)
  let uIndex ← natInt (uRow / 2 + k / 2)
  let size ← natInt (r.picW * r.picH)
  let vIndex ← natInt (uIndex + size / 4)
  pure [(yIndex, c.y), (chroma + uIndex, c.u), (chroma + vIndex, c.v)]

/-- The stores of lines 269 to 275. -/
def nv12Pixel (chroma : Nat) (c : Yuv) (j k : Nat) : Option (List (Nat × Byte)) := do
  let yRow ← natInt (j * r.picW)
  let yIndex ← natInt (yRow + k)
  let uRow ← natInt (j / 2 * r.picW)
  let uIndex ← natInt (uRow + k)
  let vIndex ← natInt (uIndex + 1)
  pure [(yIndex, c.y), (chroma + uIndex, c.u), (chroma + vIndex, c.v)]

/-- What `i420_rect_region` stores, in its order. -/
def i420Writes (c : Yuv) : Option (List (Nat × Byte)) := do
  let chroma ← natInt (r.picW * r.picH)
  r.pixelLoops (r.i420Pixel chroma c)

/-- What `nv12_rect_region` stores, in its order. -/
def nv12Writes (c : Yuv) : Option (List (Nat × Byte)) := do
  let chroma ← natInt (r.picW * r.picH)
  r.pixelLoops (r.nv12Pixel chroma c)

/-- `i420_rect_region` (`fltest_v4l2_npu.cpp:201-240`) -/
def i420RectRegion (c : Yuv) (frm : List Byte) : Option (List Byte) := do
  stores frm (← r.i420Writes c)

/-- `nv12_rect_region` (`fltest_v4l2_npu.cpp:242-280`) -/
def nv12RectRegion (c : Yuv) (frm : List Byte) : Option (List Byte) := do
  stores frm (← r.nv12Writes c)

/-- A frame of NV12 as one of I420: the even bytes of its chroma, then the odd ones. -/
def toI420 (frm : List Byte) : List Byte :=
  let chroma := r.picW * r.picH
  frm.take chroma ++ (List.range (chroma / 4)).map (fun m => frm.getD (chroma + 2 * m) 0) ++
    (List.range (chroma / 4)).map (fun m => frm.getD (chroma + 2 * m + 1) 0)

/-- The loops over a pixel's stores. -/
def loops (body : Nat → Nat → List (Nat × Byte)) : List (Nat × Byte) :=
  (List.range' r.rectY r.rectH).flatMap fun j =>
    (List.range' r.rectX r.rectW).flatMap fun k => if r.OnBorder j k then body j k else []

/-- The stores of a pixel into an I420 frame. -/
def i420Stores (c : Yuv) (j k : Nat) : List (Nat × Byte) :=
  let chroma := r.picW * r.picH
  let uIndex := j / 2 * r.picW / 2 + k / 2
  [(j * r.picW + k, c.y), (chroma + uIndex, c.u),
    (chroma + (uIndex + r.picW * r.picH / 4), c.v)]

/-- The stores of a pixel into an NV12 frame. -/
def nv12Stores (c : Yuv) (j k : Nat) : List (Nat × Byte) :=
  let chroma := r.picW * r.picH
  let uIndex := j / 2 * r.picW + k
  [(j * r.picW + k, c.y), (chroma + uIndex, c.u), (chroma + (uIndex + 1), c.v)]

/-- The pixel is in the rectangle and on its border. -/
def Painted (j k : Nat) : Prop :=
  r.rectY ≤ j ∧ j < r.rectY + r.rectH ∧ r.rectX ≤ k ∧ k < r.rectX + r.rectW ∧ r.OnBorder j k

variable {r}

theorem Painted.lt_picW {j k : Nat} (h : r.Painted j k) : k < r.picW := by
  have := r.insideW
  have := h.2.2.2.1
  omega

theorem Painted.lt_picH {j k : Nat} (h : r.Painted j k) : j < r.picH := by
  have := r.insideH
  have := h.2.1
  omega

theorem mem_loops {body : Nat → Nat → List (Nat × Byte)} {w : Nat × Byte} :
    w ∈ r.loops body ↔ ∃ j k, r.Painted j k ∧ w ∈ body j k := by
  simp only [loops, List.mem_flatMap, List.mem_range'_1]
  constructor
  · rintro ⟨j, ⟨hj, hj'⟩, k, ⟨hk, hk'⟩, hw⟩
    split at hw
    · rename_i hborder
      exact ⟨j, k, ⟨hj, hj', hk, hk', hborder⟩, hw⟩
    · simp at hw
  · rintro ⟨j, k, ⟨hj, hj', hk, hk', hborder⟩, hw⟩
    exact ⟨j, ⟨hj, hj'⟩, k, ⟨hk, hk'⟩, by rwa [if_pos hborder]⟩

open scoped Classical in
/-- What the loops leave at an index that only the pixels `At` store to, all of them the same. -/
theorem lastStore_loops {body : Nat → Nat → List (Nat × Byte)} {i : Nat} {a : Byte}
    {P : Nat → Nat → Prop} (hmem : ∀ j k, r.Painted j k → P j k → (i, a) ∈ body j k)
    (hat : ∀ j k, r.Painted j k → ∀ w ∈ body j k, w.1 = i → P j k ∧ w.2 = a) :
    lastStore (r.loops body) i = if ∃ j k, r.Painted j k ∧ P j k then some a else none := by
  split
  · rename_i hsome
    obtain ⟨j, k, hp, hjk⟩ := hsome
    apply lastStore_eq_some_of_agree
    · exact ⟨(i, a), mem_loops.mpr ⟨j, k, hp, hmem j k hp hjk⟩, rfl⟩
    · intro w hw hi
      obtain ⟨j, k, hp, hw⟩ := mem_loops.mp hw
      exact (hat j k hp w hw hi).2
  · rename_i hnone
    apply lastStore_eq_none
    intro w hw hi
    obtain ⟨j, k, hp, hw⟩ := mem_loops.mp hw
    exact hnone ⟨j, k, hp, (hat j k hp w hw hi).1⟩

variable (r)

/-- The samples of a chroma plane. -/
def quarter : Nat := r.picW / 2 * (r.picH / 2)

/-- The chroma sample of a pixel. -/
def sample (j k : Nat) : Nat := j / 2 * r.picW / 2 + k / 2

theorem picW_eq : r.picW = 2 * (r.picW / 2) := (Nat.mul_div_cancel' r.evenW).symm

theorem size_eq : r.picW * r.picH = 4 * r.quarter := by
  have hh : r.picH = 2 * (r.picH / 2) := (Nat.mul_div_cancel' r.evenH).symm
  calc r.picW * r.picH = (2 * (r.picW / 2)) * (2 * (r.picH / 2)) := by rw [← r.picW_eq, ← hh]
    _ = 4 * r.quarter := by rw [Nat.mul_mul_mul_comm]; rfl

theorem length_frame (f : Frame r) : f.data.length = 6 * r.quarter := by
  have := f.length_data
  rw [r.size_eq] at this
  omega

theorem sample_eq (j k : Nat) : r.sample j k = j / 2 * (r.picW / 2) + k / 2 := by
  rw [sample, Nat.mul_div_assoc _ r.evenW]

/-- The place of a pixel in the NV12 chroma: that of its pair in an even column, one further in an
odd one. -/
theorem row_add_eq (j k : Nat) : j / 2 * r.picW + k = 2 * r.sample j k + k % 2 := by
  have hrow : j / 2 * r.picW = 2 * (j / 2 * (r.picW / 2)) := by
    conv => lhs; rw [r.picW_eq]
    rw [Nat.mul_left_comm]
  rw [hrow, r.sample_eq]
  omega

variable {r}

theorem Painted.luma_lt {j k : Nat} (h : r.Painted j k) : j * r.picW + k < 4 * r.quarter := by
  rw [← r.size_eq]
  exact raster_lt h.lt_picW h.lt_picH

theorem Painted.sample_lt {j k : Nat} (h : r.Painted j k) : r.sample j k < r.quarter := by
  have hk := h.lt_picW
  have hj := h.lt_picH
  have hw := r.picW_eq
  have hh : r.picH = 2 * (r.picH / 2) := (Nat.mul_div_cancel' r.evenH).symm
  rw [r.sample_eq]
  exact raster_lt (by omega) (by omega)

/-- The size of the luma plane is an `int`. -/
def SizeInt (r : Region) : Prop := r.picW * r.picH < 2 ^ 31

instance (r : Region) : Decidable r.SizeInt := inferInstanceAs (Decidable (_ < _))

section
variable {j k : Nat} (hsize : r.SizeInt)

include hsize

/-- The sums of the `if` are `int`s: a picture with a pixel behind `rect_x` has two rows at least,
and one with a pixel below `rect_y` two columns. -/
theorem onBorder_eq (hj : r.rectY ≤ j) (hj' : j < r.rectY + r.rectH) (hk : r.rectX ≤ k)
    (hk' : k < r.rectX + r.rectW) : r.onBorder j k = some (decide (r.OnBorder j k)) := by
  have hw := r.insideW
  have hh := r.insideH
  have hbound : r.picW * r.picH < 2 ^ 31 := hsize
  have hrows : r.picW * 2 ≤ r.picW * r.picH := by
    have := r.evenH
    exact Nat.mul_le_mul_left _ (by omega)
  have hcols : 2 * r.picH ≤ r.picW * r.picH := by
    have := r.evenW
    exact Nat.mul_le_mul_right _ (by omega)
  rw [onBorder, natInt_of_lt (by rw [border]; omega), natInt_of_lt (by omega),
    natInt_of_lt (by rw [border]; omega), natInt_of_lt (by omega)]
  simp only [Option.bind_eq_bind, Option.bind_some, OnBorder]
  split_ifs with h₁ h₂ h₃ <;> simp [*]

theorem Painted.i420Pixel_eq (hp : r.Painted j k) (c : Yuv) :
    r.i420Pixel (r.picW * r.picH) c j k = some (r.i420Stores c j k) := by
  have hbound : r.picW * r.picH < 2 ^ 31 := hsize
  have hsize4 := r.size_eq
  have hluma := hp.luma_lt
  have hsample := hp.sample_lt
  have hrow := r.row_add_eq j k
  rw [sample] at hsample hrow
  rw [i420Pixel, natInt_of_lt (by omega), Option.bind_eq_bind, Option.bind_some,
    natInt_of_lt (by omega), Option.bind_some, natInt_of_lt (by omega), Option.bind_some,
    natInt_of_lt (by omega), Option.bind_some, natInt_of_lt hbound, Option.bind_some,
    natInt_of_lt (by omega)]
  rfl

theorem Painted.nv12Pixel_eq (hp : r.Painted j k) (c : Yuv) :
    r.nv12Pixel (r.picW * r.picH) c j k = some (r.nv12Stores c j k) := by
  have hbound : r.picW * r.picH < 2 ^ 31 := hsize
  have hsize4 := r.size_eq
  have hluma := hp.luma_lt
  have hsample := hp.sample_lt
  have hrow := r.row_add_eq j k
  rw [nv12Pixel, natInt_of_lt (by omega), Option.bind_eq_bind, Option.bind_some,
    natInt_of_lt (by omega), Option.bind_some, natInt_of_lt (by omega), Option.bind_some,
    natInt_of_lt (by omega), Option.bind_some, natInt_of_lt (by omega)]
  rfl

/-- Loops over pixels whose stores are known. -/
theorem pixelLoops_eq {body : Nat → Nat → Option (List (Nat × Byte))}
    {writes : Nat → Nat → List (Nat × Byte)}
    (h : ∀ j k, r.Painted j k → body j k = some (writes j k)) :
    r.pixelLoops body = some (r.loops writes) := by
  have hpixel : ∀ j ∈ List.range' r.rectY r.rectH, ∀ k ∈ List.range' r.rectX r.rectW,
      (do if ← r.onBorder j k then body j k else pure []) =
        some (if r.OnBorder j k then writes j k else []) := by
    intro j hj k hk
    rw [List.mem_range'_1] at hj hk
    rw [onBorder_eq hsize hj.1 hj.2 hk.1 hk.2]
    by_cases hborder : r.OnBorder j k
    · simpa [hborder] using h j k ⟨hj.1, hj.2, hk.1, hk.2, hborder⟩
    · simp [hborder]
  have hrow : ∀ j ∈ List.range' r.rectY r.rectH,
      (do
        let pixels ← (List.range' r.rectX r.rectW).mapM fun k => do
          if ← r.onBorder j k then body j k else pure []
        pure pixels.flatten) =
        some ((List.range' r.rectX r.rectW).flatMap fun k =>
          if r.OnBorder j k then writes j k else []) := by
    intro j hj
    rw [mapM_eq_map (hpixel j hj)]
    rfl
  rw [pixelLoops, mapM_eq_map hrow]
  rfl

theorem i420Writes_eq (c : Yuv) : r.i420Writes c = some (r.loops (r.i420Stores c)) := by
  rw [i420Writes, natInt_of_lt hsize]
  exact pixelLoops_eq hsize fun j k hp => hp.i420Pixel_eq hsize c

theorem nv12Writes_eq (c : Yuv) : r.nv12Writes c = some (r.loops (r.nv12Stores c)) := by
  rw [nv12Writes, natInt_of_lt hsize]
  exact pixelLoops_eq hsize fun j k hp => hp.nv12Pixel_eq hsize c

theorem i420RectRegion_eq (c : Yuv) (frm : List Byte) :
    r.i420RectRegion c frm = stores frm (r.loops (r.i420Stores c)) := by
  rw [i420RectRegion, i420Writes_eq hsize]
  rfl

theorem nv12RectRegion_eq (c : Yuv) (frm : List Byte) :
    r.nv12RectRegion c frm = stores frm (r.loops (r.nv12Stores c)) := by
  rw [nv12RectRegion, nv12Writes_eq hsize]
  rfl

end

theorem i420Writes_none (hsize : ¬ r.SizeInt) (c : Yuv) : r.i420Writes c = none := by
  rw [i420Writes, natInt_of_le (Nat.le_of_not_lt hsize)]
  rfl

theorem nv12Writes_none (hsize : ¬ r.SizeInt) (c : Yuv) : r.nv12Writes c = none := by
  rw [nv12Writes, natInt_of_le (Nat.le_of_not_lt hsize)]
  rfl

theorem length_toI420 {frm : List Byte} (h : frm.length = 6 * r.quarter) :
    (r.toI420 frm).length = 6 * r.quarter := by
  simp only [toI420, r.size_eq, List.length_append, List.length_take, List.length_map,
    List.length_range, h]
  omega

theorem toI420_luma {frm : List Byte} (h : frm.length = 6 * r.quarter) {p : Nat}
    (hp : p < 4 * r.quarter) : (r.toI420 frm)[p]? = frm[p]? := by
  simp only [toI420, r.size_eq]
  rw [List.append_assoc, List.getElem?_append_left (by rw [List.length_take]; omega),
    List.getElem?_take_of_lt hp]

theorem toI420_u {frm : List Byte} (h : frm.length = 6 * r.quarter) {m : Nat}
    (hm : m < r.quarter) : (r.toI420 frm)[4 * r.quarter + m]? = frm[4 * r.quarter + 2 * m]? := by
  have hdiv : 4 * r.quarter / 4 = r.quarter := by omega
  have htake : (frm.take (4 * r.quarter)).length = 4 * r.quarter := by
    rw [List.length_take]
    omega
  simp only [toI420, r.size_eq, hdiv]
  rw [List.append_assoc, List.getElem?_append_right (by omega), htake, Nat.add_sub_cancel_left,
    List.getElem?_append_left (by simpa using hm), List.getElem?_map, List.getElem?_range hm,
    Option.map_some, List.getD_eq_getElem _ _ (by omega), List.getElem?_eq_getElem (by omega)]

theorem toI420_v {frm : List Byte} (h : frm.length = 6 * r.quarter) {m : Nat}
    (hm : m < r.quarter) :
    (r.toI420 frm)[4 * r.quarter + (r.quarter + m)]? = frm[4 * r.quarter + (2 * m + 1)]? := by
  have hdiv : 4 * r.quarter / 4 = r.quarter := by omega
  have htake : (frm.take (4 * r.quarter)).length = 4 * r.quarter := by
    rw [List.length_take]
    omega
  simp only [toI420, r.size_eq, hdiv]
  rw [List.append_assoc, List.getElem?_append_right (by omega), htake, Nat.add_sub_cancel_left,
    List.getElem?_append_right (by simp), List.length_map, List.length_range,
    Nat.add_sub_cancel_left, List.getElem?_map, List.getElem?_range hm, Option.map_some,
    Nat.add_assoc, List.getD_eq_getElem _ _ (by omega), List.getElem?_eq_getElem (by omega)]

/-- Equality with a converted frame, plane by plane. -/
theorem toI420_eq_iff {frm g : List Byte} (hf : frm.length = 6 * r.quarter)
    (hg : g.length = 6 * r.quarter) :
    r.toI420 frm = g ↔ (∀ p < 4 * r.quarter, frm[p]? = g[p]?) ∧
      ∀ m < r.quarter, frm[4 * r.quarter + 2 * m]? = g[4 * r.quarter + m]? ∧
        frm[4 * r.quarter + (2 * m + 1)]? = g[4 * r.quarter + (r.quarter + m)]? := by
  constructor
  · rintro rfl
    refine ⟨fun p hp => (toI420_luma hf hp).symm, fun m hm => ⟨?_, ?_⟩⟩
    · exact (toI420_u hf hm).symm
    · exact (toI420_v hf hm).symm
  · rintro ⟨hluma, hchroma⟩
    apply List.ext_getElem?
    intro p
    by_cases hp : p < 4 * r.quarter
    · rw [toI420_luma hf hp, hluma p hp]
    by_cases hp' : p < 5 * r.quarter
    · obtain ⟨m, rfl⟩ : ∃ m, p = 4 * r.quarter + m := ⟨p - 4 * r.quarter, by omega⟩
      have hm : m < r.quarter := by omega
      rw [toI420_u hf hm, (hchroma m hm).1]
    by_cases hp'' : p < 6 * r.quarter
    · obtain ⟨m, rfl⟩ : ∃ m, p = 4 * r.quarter + (r.quarter + m) :=
        ⟨p - 5 * r.quarter, by omega⟩
      have hm : m < r.quarter := by omega
      rw [toI420_v hf hm, (hchroma m hm).2]
    · have hlen := length_toI420 hf
      rw [List.getElem?_eq_none (by omega), List.getElem?_eq_none (by omega)]

theorem i420Stores_eq (c : Yuv) (j k : Nat) : r.i420Stores c j k =
    [(j * r.picW + k, c.y), (4 * r.quarter + r.sample j k, c.u),
      (4 * r.quarter + (r.sample j k + r.quarter), c.v)] := by
  have hdiv : 4 * r.quarter / 4 = r.quarter := by omega
  simp only [i420Stores, r.size_eq, hdiv, sample]

theorem nv12Stores_eq (c : Yuv) (j k : Nat) : r.nv12Stores c j k =
    [(j * r.picW + k, c.y), (4 * r.quarter + (2 * r.sample j k + k % 2), c.u),
      (4 * r.quarter + (2 * r.sample j k + k % 2 + 1), c.v)] := by
  simp only [nv12Stores, r.size_eq, row_add_eq]

theorem mem_i420Stores {c : Yuv} {j k : Nat} {w : Nat × Byte} :
    w ∈ r.i420Stores c j k ↔ w = (j * r.picW + k, c.y) ∨ w = (4 * r.quarter + r.sample j k, c.u) ∨
      w = (4 * r.quarter + (r.sample j k + r.quarter), c.v) := by
  rw [i420Stores_eq]
  simp only [List.mem_cons, List.not_mem_nil, or_false]

theorem mem_nv12Stores {c : Yuv} {j k : Nat} {w : Nat × Byte} :
    w ∈ r.nv12Stores c j k ↔ w = (j * r.picW + k, c.y) ∨
      w = (4 * r.quarter + (2 * r.sample j k + k % 2), c.u) ∨
      w = (4 * r.quarter + (2 * r.sample j k + k % 2 + 1), c.v) := by
  rw [nv12Stores_eq]
  simp only [List.mem_cons, List.not_mem_nil, or_false]

/-- A store of `i420_rect_region` to the luma. -/
theorem luma_of_mem_i420Stores {c : Yuv} {j k p : Nat} {w : Nat × Byte}
    (hw : w ∈ r.i420Stores c j k) (hp : p < 4 * r.quarter) (hi : w.1 = p) :
    j * r.picW + k = p ∧ w.2 = c.y := by
  rcases mem_i420Stores.mp hw with rfl | rfl | rfl
  · exact ⟨hi, rfl⟩
  · simp only at hi
    omega
  · simp only at hi
    omega

/-- A store of `nv12_rect_region` to the luma. -/
theorem luma_of_mem_nv12Stores {c : Yuv} {j k p : Nat} {w : Nat × Byte}
    (hw : w ∈ r.nv12Stores c j k) (hp : p < 4 * r.quarter) (hi : w.1 = p) :
    j * r.picW + k = p ∧ w.2 = c.y := by
  rcases mem_nv12Stores.mp hw with rfl | rfl | rfl
  · exact ⟨hi, rfl⟩
  · simp only at hi
    omega
  · simp only at hi
    omega

/-- The stores of `i420_rect_region` stay in the frame. -/
theorem i420_lt (c : Yuv) : ∀ w ∈ r.loops (r.i420Stores c), w.1 < 6 * r.quarter := by
  intro w hw
  obtain ⟨j, k, hp, hw⟩ := mem_loops.mp hw
  have := hp.luma_lt
  have := hp.sample_lt
  rcases mem_i420Stores.mp hw with rfl | rfl | rfl <;> simp only <;> omega

open scoped Classical in
/-- Of the luma both routines make the same. -/
theorem lastStore_luma (c : Yuv) {p : Nat} (hp : p < 4 * r.quarter) :
    lastStore (r.loops (r.nv12Stores c)) p = lastStore (r.loops (r.i420Stores c)) p := by
  rw [lastStore_loops (a := c.y) (P := fun j k => j * r.picW + k = p),
    lastStore_loops (a := c.y) (P := fun j k => j * r.picW + k = p)]
  · rintro j k - rfl
    simp [i420Stores_eq]
  · exact fun j k _ w hw hi => luma_of_mem_i420Stores hw hp hi
  · rintro j k - rfl
    simp [nv12Stores_eq]
  · exact fun j k _ w hw hi => luma_of_mem_nv12Stores hw hp hi

variable (r)

/-- A painted pixel lies in the block that chroma byte `s` belongs to. -/
def I420Paints (s : Nat) : Prop := ∃ j k, r.Painted j k ∧ r.sample j k = s / 2

/-- `nv12_rect_region` stores to chroma byte `s`. -/
def Nv12Paints (s : Nat) : Prop :=
  ∃ j k, r.Painted j k ∧ (j / 2 * r.picW + k = s ∨ j / 2 * r.picW + k + 1 = s)

variable {r}

/-- The component that belongs to a byte of the NV12 chroma. -/
def pairByte (c : Yuv) (s : Nat) : Byte := if s % 2 = 0 then c.u else c.v

open scoped Classical in
theorem lastStore_i420_u (c : Yuv) {m : Nat} (hm : m < r.quarter) :
    lastStore (r.loops (r.i420Stores c)) (4 * r.quarter + m) =
      if r.I420Paints (2 * m) then some (pairByte c (2 * m)) else none := by
  have hpair : pairByte c (2 * m) = c.u := if_pos (by omega)
  rw [hpair]
  apply lastStore_loops
  · intro j k _ hjk
    have : r.sample j k = m := by omega
    simp [i420Stores_eq, this]
  · intro j k hp w hw hi
    have := hp.luma_lt
    rcases mem_i420Stores.mp hw with rfl | rfl | rfl
    · simp only at hi
      omega
    · simp only at hi
      exact ⟨by omega, rfl⟩
    · simp only at hi
      omega

open scoped Classical in
theorem lastStore_i420_v (c : Yuv) {m : Nat} (hm : m < r.quarter) :
    lastStore (r.loops (r.i420Stores c)) (4 * r.quarter + (r.quarter + m)) =
      if r.I420Paints (2 * m + 1) then some (pairByte c (2 * m + 1)) else none := by
  have hpair : pairByte c (2 * m + 1) = c.v := if_neg (by omega)
  rw [hpair]
  apply lastStore_loops
  · intro j k _ hjk
    have : r.sample j k = m := by omega
    simp [i420Stores_eq, this, Nat.add_comm m]
  · intro j k hp w hw hi
    have := hp.luma_lt
    have := hp.sample_lt
    rcases mem_i420Stores.mp hw with rfl | rfl | rfl
    · simp only at hi
      omega
    · simp only at hi
      omega
    · simp only at hi
      exact ⟨by omega, rfl⟩

/-- What the stores of `nv12_rect_region` to a chroma byte are. -/
theorem mem_nv12Stores_chroma {c : Yuv} {j k s : Nat} (hp : r.Painted j k) {w : Nat × Byte}
    (hw : w ∈ r.nv12Stores c j k) (hi : w.1 = 4 * r.quarter + s) :
    (j / 2 * r.picW + k = s ∧ w.2 = c.u) ∨ (j / 2 * r.picW + k + 1 = s ∧ w.2 = c.v) := by
  have := hp.luma_lt
  have := r.row_add_eq j k
  rcases mem_nv12Stores.mp hw with rfl | rfl | rfl
  · simp only at hi
    omega
  · simp only at hi
    exact .inl ⟨by omega, rfl⟩
  · simp only at hi
    exact .inr ⟨by omega, rfl⟩

open scoped Classical in
/-- With one value for U and V every byte that is stored to holds it. -/
theorem lastStore_nv12_of_eq {c : Yuv} (huv : c.u = c.v) (s : Nat) :
    lastStore (r.loops (r.nv12Stores c)) (4 * r.quarter + s) =
      if r.Nv12Paints s then some (pairByte c s) else none := by
  have hpair : pairByte c s = c.u := by
    rw [pairByte, ← huv, ite_self]
  rw [hpair]
  apply lastStore_loops
  · intro j k _ hjk
    rw [nv12Stores_eq, ← r.row_add_eq]
    rcases hjk with rfl | rfl
    · simp
    · simp [huv, Nat.add_assoc]
  · intro j k hp w hw hi
    rcases mem_nv12Stores_chroma hp hw hi with ⟨hs, hv⟩ | ⟨hs, hv⟩
    · exact ⟨.inl hs, hv⟩
    · exact ⟨.inr hs, hv.trans huv.symm⟩

open scoped Classical in
/-- With painted pixels in even columns only, every pair that is stored to holds U and V. -/
theorem lastStore_nv12_of_even {c : Yuv} (heven : ∀ j k, r.Painted j k → k % 2 = 0) (s : Nat) :
    lastStore (r.loops (r.nv12Stores c)) (4 * r.quarter + s) =
      if r.I420Paints s then some (pairByte c s) else none := by
  apply lastStore_loops
  · intro j k hp hjk
    have hk := heven j k hp
    by_cases hs : s % 2 = 0
    · have : 2 * r.sample j k + k % 2 = s := by omega
      rw [nv12Stores_eq, this, pairByte, if_pos hs]
      simp
    · have : 2 * r.sample j k + k % 2 + 1 = s := by omega
      rw [nv12Stores_eq, this, pairByte, if_neg hs]
      simp
  · intro j k hp w hw hi
    have hk := heven j k hp
    have hrow := r.row_add_eq j k
    rcases mem_nv12Stores_chroma hp hw hi with ⟨hs, hv⟩ | ⟨hs, hv⟩
    · rw [hv, pairByte, if_pos (by omega)]
      exact ⟨by omega, rfl⟩
    · rw [hv, pairByte, if_neg (by omega)]
      exact ⟨by omega, rfl⟩

/-! ## Drawing and converting -/

variable (r)

/-- Drawing into the NV12 frame and converting it is converting it and drawing into the
I420 frame. -/
def Commutes (c : Yuv) (f : Frame r) : Prop :=
  ∃ g, r.nv12RectRegion c f.data = some g ∧
    r.i420RectRegion c (r.toI420 f.data) = some (r.toI420 g)

/-- No pixel in an odd column is painted. -/
def EvenColumns : Prop := ∀ j k, r.Painted j k → k % 2 = 0

/-- No painted pixel ends the last rows: its V would stand behind the frame. -/
def Fits : Prop := ∀ j k, r.Painted j k → j / 2 * r.picW + k + 1 < r.picW * r.picH / 2

/-- A chroma byte that one of the routines stores to and the other does not already holds the
colour's U. -/
def SamePaint (c : Yuv) (f : Frame r) : Prop :=
  ∀ s < r.picW * r.picH / 2,
    (r.Nv12Paints s ↔ r.I420Paints s) ∨ f.data[r.picW * r.picH + s]? = some c.u

variable {r}

theorem fits_of_lt {c : Yuv} (h : ∀ w ∈ r.loops (r.nv12Stores c), w.1 < 6 * r.quarter) :
    r.Fits := by
  intro j k hp
  have hmem : (4 * r.quarter + (2 * r.sample j k + k % 2 + 1), c.v) ∈ r.nv12Stores c j k := by
    simp [nv12Stores_eq]
  have := h _ (mem_loops.mpr ⟨j, k, hp, hmem⟩)
  rw [r.row_add_eq, r.size_eq]
  simp only at this
  omega

theorem lt_of_fits (c : Yuv) (h : r.Fits) :
    ∀ w ∈ r.loops (r.nv12Stores c), w.1 < 6 * r.quarter := by
  intro w hw
  obtain ⟨j, k, hp, hw⟩ := mem_loops.mp hw
  have := hp.luma_lt
  have := h j k hp
  rw [r.row_add_eq, r.size_eq] at this
  rw [nv12Stores_eq] at hw
  simp only [List.mem_cons, List.not_mem_nil, or_false] at hw
  rcases hw with rfl | rfl | rfl <;> simp only <;> omega

section Drawn

variable {c : Yuv} {f : Frame r} {g : List Byte} {m : Nat}

open scoped Classical in
/-- The U plane of a frame that is converted first and drawn on then. -/
theorem drawn_u (hg : stores (r.toI420 f.data) (r.loops (r.i420Stores c)) = some g)
    (hm : m < r.quarter) : g[4 * r.quarter + m]? =
      if r.I420Paints (2 * m) then some (pairByte c (2 * m))
      else f.data[4 * r.quarter + 2 * m]? := by
  have hlen := length_toI420 (r.length_frame f)
  rw [getElem?_stores_ite hg (by omega) (lastStore_i420_u c hm), toI420_u (r.length_frame f) hm]

open scoped Classical in
theorem drawn_v (hg : stores (r.toI420 f.data) (r.loops (r.i420Stores c)) = some g)
    (hm : m < r.quarter) : g[4 * r.quarter + (r.quarter + m)]? =
      if r.I420Paints (2 * m + 1) then some (pairByte c (2 * m + 1))
      else f.data[4 * r.quarter + (2 * m + 1)]? := by
  have hlen := length_toI420 (r.length_frame f)
  rw [getElem?_stores_ite hg (by omega) (lastStore_i420_v c hm), toI420_v (r.length_frame f) hm]

end Drawn

theorem Commutes.sizeInt {c : Yuv} {f : Frame r} (h : r.Commutes c f) : r.SizeInt := by
  by_contra hsize
  obtain ⟨g, hg, -⟩ := h
  rw [nv12RectRegion, nv12Writes_none hsize] at hg
  cases hg

open scoped Classical in
/-- The two orders agree when `nv12_rect_region` stays in the frame and leaves in every chroma byte
what belongs there. -/
theorem commutes_iff_chroma (hsize : r.SizeInt) (c : Yuv) (f : Frame r) :
    r.Commutes c f ↔ r.Fits ∧ ∀ s < 2 * r.quarter,
      (lastStore (r.loops (r.nv12Stores c)) (4 * r.quarter + s)).or f.data[4 * r.quarter + s]? =
        if r.I420Paints s then some (pairByte c s) else f.data[4 * r.quarter + s]? := by
  have hlen := r.length_frame f
  have hlen' := length_toI420 hlen
  have hdrawn : ∀ w ∈ r.loops (r.i420Stores c), w.1 < (r.toI420 f.data).length := by
    rw [hlen']
    exact i420_lt c
  obtain ⟨g, hg⟩ := exists_stores hdrawn
  rw [Commutes, i420RectRegion_eq hsize, hg, nv12RectRegion_eq hsize]
  by_cases hfits : r.Fits
  · have hin : ∀ w ∈ r.loops (r.nv12Stores c), w.1 < f.data.length := by
      rw [hlen]
      exact lt_of_fits c hfits
    obtain ⟨f', hf'⟩ := exists_stores hin
    have hflen : f'.length = 6 * r.quarter := (length_stores hf').trans hlen
    have hglen : g.length = 6 * r.quarter := (length_stores hg).trans hlen'
    -- what the bytes of both frames are
    have hbyte : ∀ i < 6 * r.quarter,
        f'[i]? = (lastStore (r.loops (r.nv12Stores c)) i).or f.data[i]? := by
      intro i hi
      exact getElem?_stores hf' (by omega)
    have hluma : ∀ p < 4 * r.quarter, f'[p]? = g[p]? := by
      intro p hp
      rw [hbyte p (by omega), getElem?_stores hg (by omega), toI420_luma hlen hp,
        lastStore_luma c hp]
    have hcomm : (∃ g', some f' = some g' ∧ some g = some (r.toI420 g')) ↔ r.toI420 f' = g := by
      constructor
      · rintro ⟨_, ⟨⟩, hdrawn⟩
        exact (Option.some.inj hdrawn).symm
      · rintro rfl
        exact ⟨f', rfl, rfl⟩
    rw [hf', hcomm, toI420_eq_iff hflen hglen]
    constructor
    · rintro ⟨-, hchroma⟩
      refine ⟨hfits, ?_⟩
      intro s hs
      rw [← hbyte _ (by omega)]
      obtain ⟨m, rfl | rfl⟩ := Nat.even_or_odd' s
      · rw [(hchroma m (by omega)).1, drawn_u hg (by omega)]
      · rw [(hchroma m (by omega)).2, drawn_v hg (by omega)]
    · rintro ⟨-, hchroma⟩
      refine ⟨hluma, ?_⟩
      intro m hm
      rw [hbyte _ (by omega), hbyte _ (by omega), drawn_u hg hm, drawn_v hg hm]
      exact ⟨hchroma (2 * m) (by omega), hchroma (2 * m + 1) (by omega)⟩
  · apply iff_of_false
    · rintro ⟨f', hrun, -⟩
      have hlt := lt_of_stores hrun
      rw [hlen] at hlt
      exact hfits (fits_of_lt hlt)
    · exact fun h => hfits h.1

/-! ## Pixels in odd columns -/

/-- In the first rows of the rectangle every pixel is painted. -/
theorem painted_top {j k : Nat} (hj : r.rectY ≤ j) (hj' : j < r.rectY + r.rectH)
    (htop : j < r.rectY + border) (hk : r.rectX ≤ k) (hk' : k < r.rectX + r.rectW) :
    r.Painted j k :=
  ⟨hj, hj', hk, hk', .inr (.inr (.inl htop))⟩

/-- That is so for an empty rectangle and for a single column at an even place. -/
theorem evenColumns_iff : r.EvenColumns ↔
    r.rectW = 0 ∨ r.rectH = 0 ∨ (r.rectW = 1 ∧ r.rectX % 2 = 0) := by
  constructor
  · intro h
    by_cases hempty : r.rectW = 0 ∨ r.rectH = 0
    · exact hempty.elim .inl fun h => .inr (.inl h)
    · have hleft : r.Painted r.rectY r.rectX :=
        painted_top le_rfl (by omega) (by simp [border]) le_rfl (by omega)
      have hx := h _ _ hleft
      by_cases hone : r.rectW = 1
      · exact .inr (.inr ⟨hone, hx⟩)
      · have hnext : r.Painted r.rectY (r.rectX + 1) :=
          painted_top le_rfl (by omega) (by simp [border]) (by omega) (by omega)
        have hx' := h _ _ hnext
        omega
  · rintro h j k ⟨hj, hj', hk, hk', -⟩
    omega

/-- The last row of the rectangle that shares its chroma with the first one. -/
theorem exists_lastOfPair (h : 0 < r.rectH) : ∃ j, r.rectY ≤ j ∧ j < r.rectY + r.rectH ∧
    j < r.rectY + border ∧ ∀ j', j < j' → j' < r.rectY + r.rectH → j / 2 < j' / 2 := by
  by_cases htwo : r.rectY % 2 = 0 ∧ 1 < r.rectH
  · refine ⟨r.rectY + 1, by omega, by omega, by simp [border], ?_⟩
    intro j' hj hj'
    omega
  · refine ⟨r.rectY, by omega, by omega, by simp [border], ?_⟩
    intro j' hj hj'
    omega

/-- The last store to the place of a pixel in that row is the U of the pixel. -/
theorem lastStore_nv12_lastOfPair (c : Yuv) {j k : Nat} (hp : r.Painted j k)
    (hlast : ∀ j', j < j' → j' < r.rectY + r.rectH → j / 2 < j' / 2) :
    lastStore (r.loops (r.nv12Stores c)) (4 * r.quarter + (j / 2 * r.picW + k)) = some c.u := by
  obtain ⟨hj, hj', hk, hk', hborder⟩ := hp
  rw [loops]
  apply lastStore_flatMap_of_last List.pairwise_lt_range' (List.mem_range'_1.mpr ⟨hj, hj'⟩)
  · apply lastStore_flatMap_of_last List.pairwise_lt_range' (List.mem_range'_1.mpr ⟨hk, hk'⟩)
    · rw [if_pos hborder, nv12Stores_eq, ← r.row_add_eq]
      simp [lastStore]
    · -- pixels further on in the row
      intro k₁ hk₁ hlt w hw hi
      split at hw
      · rename_i hborder₁
        have hin := List.mem_range'_1.mp hk₁
        have hp₁ : r.Painted j k₁ := ⟨hj, hj', hin.1, hin.2, hborder₁⟩
        rcases mem_nv12Stores_chroma hp₁ hw hi with ⟨hs, -⟩ | ⟨hs, -⟩ <;> omega
      · simp at hw
  · -- pixels of later rows
    intro j₁ hj₁ hlt w hw hi
    obtain ⟨k₁, hk₁, hw⟩ := List.mem_flatMap.mp hw
    split at hw
    · rename_i hborder₁
      have hjin := List.mem_range'_1.mp hj₁
      have hkin := List.mem_range'_1.mp hk₁
      have hp₁ : r.Painted j₁ k₁ := ⟨hjin.1, hjin.2, hkin.1, hkin.2, hborder₁⟩
      have hw' : k < r.picW := by
        have := r.insideW
        omega
      have hrow := raster_lt_row hw' (hlast j₁ hlt hjin.2)
      rcases mem_nv12Stores_chroma hp₁ hw hi with ⟨hs, -⟩ | ⟨hs, -⟩ <;> omega
    · simp at hw

/-- A pixel in an odd column needs a colour whose U and V are one byte. -/
theorem eq_of_odd {c : Yuv} {f : Frame r} (h : r.Commutes c f) {j k : Nat} (hp : r.Painted j k)
    (hodd : k % 2 = 1) : c.u = c.v := by
  have hchroma := ((commutes_iff_chroma h.sizeInt c f).mp h).2
  have hh : 0 < r.rectH := by
    have := hp.1
    have := hp.2.1
    omega
  obtain ⟨j₁, hj, hj', htop, hlast⟩ := exists_lastOfPair hh
  have hp₁ : r.Painted j₁ k := painted_top hj hj' htop hp.2.2.1 hp.2.2.2.1
  have hrow := r.row_add_eq j₁ k
  have hpaints : r.I420Paints (j₁ / 2 * r.picW + k) := ⟨j₁, k, hp₁, by omega⟩
  have hs := hchroma (j₁ / 2 * r.picW + k) (by have := hp₁.sample_lt; omega)
  rw [lastStore_nv12_lastOfPair c hp₁ hlast, if_pos hpaints, Option.some_or, pairByte,
    if_neg (by omega)] at hs
  exact Option.some.inj hs

open scoped Classical in
/-- A byte painted with the same value under two conditions. -/
theorem paint_eq_iff (N I : Prop) (b : Byte) (o : Option Byte) :
    ((if N then some b else none).or o = if I then some b else o) ↔ (N ↔ I) ∨ o = some b := by
  by_cases hN : N <;> by_cases hI : I <;> simp [hN, hI, eq_comm]

/-- Where no pixel in an odd column is painted, the routines agree. -/
theorem commutes_of_evenColumns (hsize : r.SizeInt) (heven : r.EvenColumns) (c : Yuv)
    (f : Frame r) : r.Commutes c f := by
  rw [commutes_iff_chroma hsize]
  constructor
  · intro j k hp
    have hk := heven j k hp
    have := hp.sample_lt
    rw [r.row_add_eq, r.size_eq]
    omega
  · intro s _
    rw [lastStore_nv12_of_even heven]
    split <;> rfl

/-- Where one is, the colour, the corner and the bytes that only one of them paints matter. -/
theorem commutes_iff_of_odd (hsize : r.SizeInt) {j k : Nat} (hp : r.Painted j k)
    (hodd : k % 2 = 1) (c : Yuv) (f : Frame r) :
    r.Commutes c f ↔ c.u = c.v ∧ r.Fits ∧ r.SamePaint c f := by
  by_cases huv : c.u = c.v
  · have hdiv : r.picW * r.picH / 2 = 2 * r.quarter := by
      rw [r.size_eq]
      omega
    have hbyte : ∀ s, pairByte c s = c.u := by
      intro s
      rw [pairByte, ← huv, ite_self]
    rw [commutes_iff_chroma hsize, SamePaint]
    simp only [lastStore_nv12_of_eq huv, hbyte, paint_eq_iff, hdiv, huv, true_and]
    rw [r.size_eq]
  · exact iff_of_false (fun h => huv (eq_of_odd h hp hodd)) (fun h => huv h.1)

/-- Drawing and converting can be exchanged exactly when the size of the picture is an `int` and no
pixel in an odd column is painted, or U and V of the colour are one byte, the drawing stays in the
frame, and the bytes that only one of the routines paints have this value already. -/
theorem commutes_iff (c : Yuv) (f : Frame r) :
    r.Commutes c f ↔
      r.SizeInt ∧ (r.EvenColumns ∨ (c.u = c.v ∧ r.Fits ∧ r.SamePaint c f)) := by
  by_cases hsize : r.SizeInt
  · rw [and_iff_right hsize]
    by_cases heven : r.EvenColumns
    · exact iff_of_true (commutes_of_evenColumns hsize heven c f) (.inl heven)
    · obtain ⟨j, k, hp, hk⟩ : ∃ j k, r.Painted j k ∧ k % 2 = 1 := by
        simp only [EvenColumns, not_forall] at heven
        obtain ⟨j, k, hp, hk⟩ := heven
        exact ⟨j, k, hp, by omega⟩
      rw [or_iff_right heven]
      exact commutes_iff_of_odd hsize hp hk c f
  · exact iff_of_false (fun h => hsize h.sizeInt) (fun h => hsize h.1)

end Region

/-- The upper left quarter of a picture of 4 by 4 pixels. -/
def smallRegion : Region where
  picW := 4
  picH := 4
  rectX := 0
  rectY := 0
  rectW := 2
  rectH := 2
  evenW := by decide
  evenH := by decide
  insideW := by decide
  insideH := by decide
  picWInt := by decide
  picHInt := by decide

def blackFrame : Frame smallRegion := ⟨List.replicate 24 0, by decide⟩

/-- Red: R = 255, G = 0, B = 0. -/
def red : Yuv := ⟨76, 84, 255⟩

/-- Red drawn into the NV12 frame loses its V. -/
theorem red_not_commutes :
    ¬ ∀ (r : Region) (c : Yuv) (f : Frame r), r.Commutes c f := by
  intro h
  obtain ⟨g, hg, hdrawn⟩ := h smallRegion red blackFrame
  have hsome : (smallRegion.nv12RectRegion red blackFrame.data).map smallRegion.toI420 =
      smallRegion.i420RectRegion red (smallRegion.toI420 blackFrame.data) := by
    rw [hg, hdrawn, Option.map_some]
  exact absurd hsome (by decide +kernel)

end BoardTest.Frames
