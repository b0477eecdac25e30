import BoardTest.Frames.Yuyv

/-!
# The picture for the model

`YUYV_2_NV12` of `fltest_v4l2_npu.cpp` copies the lower rows of the picture into `modbuf`, first the
luma and then the chroma. Its copies take `WIDTH` for the width of a row and `WIDTH * HEIGHT` for
the size of the luma, whatever the picture's own width and height are (`crops_iff`).
-/

namespace BoardTest.Frames

/-- `#define WIDTH 640` -/
def defineWidth : Nat := 640

/-- `#define HEIGHT 480` -/
def defineHeight : Nat := 480

/-- `YUYV_2_NV12` (`fltest_v4l2_npu.cpp:160-178`): what is in `dst` and in `modbuf` afterwards, or
`none` when a byte outside of a buffer is read or written or a product leaves `int`. `modwidth` is
never read. -/
def yuyv2Nv12 (src dst modbuf : List Byte) (width height _modwidth modheight : Nat) :
    Option (List Byte × List Byte) := do
  let made ← fillNv12 src width height
  let nv12 ← stores dst made
  let offset := height - modheight
  let start ← natInt (defineWidth * offset)
  let luma ← natInt (modheight * defineWidth)
  let modbuf ← memcpy modbuf 0 nv12 start luma
  let start' ← natInt (offset / 2 * defineWidth)
  let chroma ← natInt (modheight / 2 * defineWidth)
  let modbuf ← memcpy modbuf luma nv12 (defineWidth * defineHeight + start') chroma
  pure (nv12, modbuf)

/-- The sizes of a call; `modwidth` is the width of the picture. -/
structure CropSize extends PicSize where
  modheight : Nat
  evenM : 2 ∣ modheight
  le_height : modheight ≤ height

/-- The buffers of a call as the caller hands them over. -/
structure Buffers (c : CropSize) where
  dst : List Byte
  modbuf : List Byte
  length_dst : dst.length = c.width * c.height * 3 / 2
  length_modbuf : modbuf.length = c.width * c.modheight * 3 / 2

namespace CropSize

variable (c : CropSize)

/-- `(height - modheight)` -/
def offset : Nat := c.height - c.modheight

/-- The lower `modheight` rows of a picture. -/
def bottomRows (nv12 : List Byte) : List Byte :=
  (nv12.drop (c.width * c.offset)).take (c.width * c.modheight) ++
    (nv12.drop (c.width * c.height + c.width * (c.offset / 2))).take (c.width * (c.modheight / 2))

/-- No product of the call leaves `int`. -/
def IntsFit : Prop := c.Fits ∧ 640 * c.offset < 2 ^ 31 ∧ c.modheight * 640 < 2 ^ 31

/-- The call leaves the picture in `dst` and its lower rows in `modbuf`, whatever the frame and
whatever the buffers held. -/
def Crops : Prop :=
  ∀ (f : YuyvFrame c.toPicSize) (b : Buffers c), ∃ nv12 modbuf,
    yuyv2Nv12 f.data b.dst b.modbuf c.width c.height c.width c.modheight = some (nv12, modbuf) ∧
      IsPicture f .u .v nv12 ∧ modbuf = c.bottomRows nv12

variable {c}

theorem offset_div : c.offset / 2 + c.modheight / 2 = c.height / 2 := by
  have := c.evenH
  have := c.evenM
  have := c.le_height
  rw [offset]
  omega

theorem length_modbuf_eq : c.width * c.modheight * 3 / 2 =
    c.width * c.modheight + c.width * (c.modheight / 2) := by
  have h := size_eq ⟨c.width, c.modheight, c.evenW, c.evenM, c.widthInt,
    c.le_height.trans_lt c.heightInt⟩
  rw [Nat.mul_comm (c.modheight / 2)] at h
  exact h

theorem length_nv12 (f : YuyvFrame c.toPicSize) :
    (f.planes .u .v).length = c.width * c.height + c.width * (c.height / 2) := by
  rw [length_planes, Nat.mul_comm (c.height / 2)]

/-- The call is two copies from the picture. -/
theorem yuyv2Nv12_eq_some_iff (f : YuyvFrame c.toPicSize) (b : Buffers c)
    {nv12 modbuf : List Byte} :
    yuyv2Nv12 f.data b.dst b.modbuf c.width c.height c.width c.modheight = some (nv12, modbuf) ↔
      c.IntsFit ∧ nv12 = f.planes .u .v ∧ ∃ m,
        memcpy b.modbuf 0 (f.planes .u .v) (640 * c.offset) (c.modheight * 640) = some m ∧
        memcpy m (c.modheight * 640) (f.planes .u .v) (640 * 480 + c.offset / 2 * 640)
          (c.modheight / 2 * 640) = some modbuf := by
  by_cases hfit : c.Fits
  · have hfill : fillNv12 f.data c.width c.height = some (inOrder (f.planes .u .v)) :=
      convert_eq f hfit .u .v
    have hlen : b.dst.length = (f.planes .u .v).length := by
      rw [b.length_dst, (isPicture_planes f .u .v).length_out]
    rw [yuyv2Nv12, hfill]
    simp only [Option.bind_eq_bind, Option.bind_some, stores_inOrder hlen, Option.bind_eq_some_iff,
      natInt_eq_some_iff, defineWidth, defineHeight, Option.pure_def, Option.some_inj,
      Prod.mk.injEq, IntsFit, offset]
    constructor
    · rintro ⟨_, ⟨hstart, rfl⟩, _, ⟨hluma, rfl⟩, m, hm, _, ⟨-, rfl⟩, _, ⟨-, rfl⟩, _, hmodbuf, rfl,
        rfl⟩
      exact ⟨⟨hfit, hstart, hluma⟩, rfl, m, hm, hmodbuf⟩
    · rintro ⟨⟨-, hstart, hluma⟩, rfl, m, hm, hmodbuf⟩
      have hstart' : (c.height - c.modheight) / 2 * 640 < 2 ^ 31 :=
        (Nat.mul_le_mul_right _ (Nat.div_le_self _ 2)).trans_lt (Nat.mul_comm _ 640 ▸ hstart)
      have hchroma : c.modheight / 2 * 640 < 2 ^ 31 :=
        (Nat.mul_le_mul_right _ (Nat.div_le_self _ 2)).trans_lt hluma
      exact ⟨_, ⟨hstart, rfl⟩, _, ⟨hluma, rfl⟩, m, hm, _, ⟨hstart', rfl⟩, _, ⟨hchroma, rfl⟩, _,
        hmodbuf, rfl, rfl⟩
  · apply iff_of_false
    · rw [yuyv2Nv12, fillNv12, convert_none _ hfit]
      exact nofun
    · exact fun h => hfit h.1.1

/-- Without rows nothing is copied. -/
theorem crops_of_modheight_eq_zero (h : c.modheight = 0) (hfit : c.IntsFit) : c.Crops := by
  intro f b
  refine ⟨f.planes .u .v, b.modbuf, ?_, isPicture_planes f .u .v, ?_⟩
  · refine (yuyv2Nv12_eq_some_iff f b).mpr ⟨hfit, rfl, b.modbuf, ?_, ?_⟩
    · rw [h, Nat.zero_mul]
      exact memcpy_zero
    · rw [h, Nat.zero_div, Nat.zero_mul]
      exact memcpy_zero
  · have hempty : b.modbuf.length = 0 := by
      rw [b.length_modbuf, h, Nat.mul_zero, Nat.zero_mul, Nat.zero_div]
    rw [List.length_eq_zero_iff.mp hempty, bottomRows, h, Nat.zero_div, Nat.mul_zero,
      List.take_zero, List.take_zero, List.append_nil]

/-- Frames of the camera's own size. -/
theorem crops_of_size (hw : c.width = 640) (hh : c.height = 480) : c.Crops := by
  intro f b
  have hsrc := length_nv12 f
  have hdst := b.length_modbuf.trans length_modbuf_eq
  have hhalf := offset_div (c := c)
  have hoffset : c.offset + c.modheight = 480 := by
    have := c.le_height
    rw [offset]
    omega
  rw [hw] at hdst
  rw [hw, hh] at hsrc
  rw [hh] at hhalf
  obtain ⟨m, hluma, hchroma⟩ := exists_memcpy_two (n := 640 * c.modheight)
    (k := 640 * (c.modheight / 2)) hdst
    (by omega : 640 * c.offset + 640 * c.modheight ≤ (f.planes .u .v).length)
    (by omega : 640 * 480 + 640 * (c.offset / 2) + 640 * (c.modheight / 2) ≤
      (f.planes .u .v).length)
  refine ⟨f.planes .u .v, c.bottomRows (f.planes .u .v), ?_, isPicture_planes f .u .v, rfl⟩
  have hfit : c.IntsFit := by
    refine ⟨?_, by omega, by omega⟩
    rw [PicSize.Fits, hw, hh]
    decide
  rw [yuyv2Nv12_eq_some_iff, bottomRows, hw, hh, Nat.mul_comm c.modheight, Nat.mul_comm _ 640,
    Nat.mul_comm _ 640]
  exact ⟨hfit, rfl, m, hluma, hchroma⟩

/-! ## Where it does not -/

theorem zeroFrame_planes {s : PicSize} {p : Byte} (hp : p ∈ (zeroFrame s).planes .u .v) :
    p = 0 := by
  have hdata : ∀ i, (zeroFrame s).data.getD i 0 = 0 := by
    intro i
    rw [zeroFrame, List.getD_eq_getElem?_getD, List.getElem?_replicate]
    split <;> rfl
  have hmean : ∀ d k r, (zeroFrame s).rowMean d k r = 0 := by
    intro d k r
    rw [YuyvFrame.rowMean, YuyvFrame.sample, YuyvFrame.sample, hdata, hdata]
    rfl
  rw [YuyvFrame.planes, List.mem_append, List.mem_map] at hp
  rcases hp with ⟨i, -, rfl⟩ | hp
  · exact hdata _
  · obtain ⟨r, -, hr⟩ := List.mem_flatMap.mp hp
    obtain ⟨k, -, hk⟩ := List.mem_flatMap.mp hr
    rw [hmean, hmean] at hk
    simpa using hk

/-- Buffers of ones. -/
def oneBuffers (c : CropSize) : Buffers c where
  dst := List.replicate (c.width * c.height * 3 / 2) 1
  modbuf := List.replicate (c.width * c.modheight * 3 / 2) 1
  length_dst := List.length_replicate
  length_modbuf := List.length_replicate

theorem oneBuffers_modbuf {i : Nat} (h : i < c.width * c.modheight + c.width * (c.modheight / 2)) :
    (oneBuffers c).modbuf[i]? = some 1 := by
  rw [← length_modbuf_eq] at h
  exact (List.getElem?_replicate).trans (if_pos h)

/-- The products of the call are `int`s when it works for one frame. -/
theorem Crops.intsFit (h : c.Crops) : c.IntsFit := by
  obtain ⟨nv12, modbuf, hcall, -, -⟩ := h (zeroFrame _) (oneBuffers c)
  exact ((yuyv2Nv12_eq_some_iff _ _).mp hcall).1

/-- The bounds that both copies need. -/
theorem Crops.bounds (h : c.Crops) (hpos : 0 < c.modheight) :
    640 * 480 + 640 * (c.height / 2) ≤ c.width * c.height + c.width * (c.height / 2) ∧
      640 * c.modheight + 640 * (c.modheight / 2) ≤
        c.width * c.modheight + c.width * (c.modheight / 2) := by
  obtain ⟨nv12, modbuf, hcall, -, -⟩ := h (zeroFrame _) (oneBuffers c)
  obtain ⟨-, -, m, hluma, hchroma⟩ := (yuyv2Nv12_eq_some_iff _ _).mp hcall
  have hhalf : 0 < c.modheight / 2 := by
    have := c.evenM
    omega
  have hlen := length_memcpy hluma
  obtain ⟨hsrc, hdst⟩ := le_of_memcpy hchroma (by omega)
  rw [hlen, (oneBuffers c).length_modbuf, length_modbuf_eq] at hdst
  rw [length_nv12, ← offset_div (c := c)] at hsrc
  rw [← offset_div (c := c)]
  omega

theorem mem_of_mem_bottomRows {nv12 : List Byte} {p : Byte} (h : p ∈ c.bottomRows nv12) :
    p ∈ nv12 := by
  rcases List.mem_append.mp h with h | h
  · exact List.mem_of_mem_drop (List.mem_of_mem_take h)
  · exact List.mem_of_mem_drop (List.mem_of_mem_take h)

/-- In a wider picture the end of `modbuf` is left as it was. -/
theorem Crops.width_le (h : c.Crops) (hpos : 0 < c.modheight) : c.width ≤ 640 := by
  by_contra hgt
  obtain ⟨nv12, modbuf, hcall, -, hrows⟩ := h (zeroFrame _) (oneBuffers c)
  obtain ⟨-, rfl, m, hluma, hchroma⟩ := (yuyv2Nv12_eq_some_iff _ _).mp hcall
  have hfull : 641 * c.modheight ≤ c.width * c.modheight := Nat.mul_le_mul_right _ (by omega)
  have hhalf : 641 * (c.modheight / 2) ≤ c.width * (c.modheight / 2) :=
    Nat.mul_le_mul_right _ (by omega)
  have hone : modbuf[c.width * c.modheight + c.width * (c.modheight / 2) - 1]? = some 1 := by
    rw [getElem?_memcpy hchroma, if_neg (by omega), getElem?_memcpy hluma, if_neg (by omega),
      oneBuffers_modbuf (by omega)]
  have hmem : (1 : Byte) ∈ modbuf := List.mem_of_getElem? hone
  rw [hrows] at hmem
  exact absurd (zeroFrame_planes (mem_of_mem_bottomRows hmem)) (by decide)

/-- The place of the first U of row `r` of the chroma in the row `y` of a frame. -/
def IsMark (s : PicSize) (r i : Nat) : Prop :=
  i = 2 * r * (2 * s.width) + 1 ∨ i = (2 * r + 1) * (2 * s.width) + 1

instance (s : PicSize) (r i : Nat) : Decidable (IsMark s r i) := instDecidableOr

/-- A frame with the first U of row `r` of the chroma alone set. -/
def markedFrame (s : PicSize) (r : Nat) : YuyvFrame s where
  data := (List.range (2 * s.width * s.height)).map fun i => if IsMark s r i then 255 else 0
  length_data := by rw [List.length_map, List.length_range]

section
variable {s : PicSize} {r y : Nat}

theorem markedFrame_getD {i : Nat} (h : i < 2 * s.width * s.height) :
    (markedFrame s r).data.getD i 0 = if IsMark s r i then 255 else 0 := by
  rw [markedFrame, List.getD_eq_getElem?_getD, List.getElem?_map, List.getElem?_range h]
  rfl

theorem markedFrame_luma (hw : 0 < s.width) (hy : y < s.height) :
    (markedFrame s r).luma 0 y = 0 := by
  rw [YuyvFrame.luma, markedFrame_getD (raster_lt (by omega) hy), if_neg]
  have hplace : y * (2 * s.width) = 2 * (y * s.width) := by ring
  have hupper : 2 * r * (2 * s.width) = 2 * (2 * r * s.width) := by ring
  have hlower : (2 * r + 1) * (2 * s.width) = 2 * ((2 * r + 1) * s.width) := by ring
  rw [IsMark, hplace, hupper, hlower]
  omega

theorem markedFrame_sample (hw : 0 < s.width) (hy : y < s.height) :
    (markedFrame s r).sample .u 0 y = if y = 2 * r ∨ y = 2 * r + 1 then 255 else 0 := by
  have hcolumn : 4 * 0 + Chroma.u.offset < 2 * s.width := by
    have := s.evenW
    change 1 < 2 * s.width
    omega
  have hplace : ∀ y', y * (2 * s.width) + (4 * 0 + Chroma.u.offset) = y' * (2 * s.width) + 1 ↔
      y = y' := by
    intro y'
    change y * (2 * s.width) + 1 = y' * (2 * s.width) + 1 ↔ y = y'
    rw [Nat.add_right_cancel_iff, Nat.mul_left_inj (by omega)]
  rw [YuyvFrame.sample, markedFrame_getD (raster_lt hcolumn hy)]
  simp only [IsMark, hplace]

theorem markedFrame_rowMean {r' : Nat} (hw : 0 < s.width) (hr : r' < s.height / 2) :
    (markedFrame s r).rowMean .u 0 r' = if r' = r then 255 else 0 := by
  rw [YuyvFrame.rowMean, markedFrame_sample hw (by omega), markedFrame_sample hw (by omega)]
  by_cases heq : r' = r
  · rw [if_pos (by omega), if_pos (by omega), if_pos heq]
    rfl
  · rw [if_neg (by omega), if_neg (by omega), if_neg heq]
    rfl

end

/-- The first chroma byte of the lower rows. -/
theorem bottomRows_chroma {nv12 : List Byte}
    (hlen : nv12.length = c.width * c.height + c.width * (c.height / 2))
    (hpos : 0 < c.width * (c.modheight / 2)) :
    (c.bottomRows nv12)[c.width * c.modheight]? =
      nv12[c.width * c.height + c.width * (c.offset / 2)]? := by
  have hrows : c.width * c.offset + c.width * c.modheight = c.width * c.height := by
    rw [← Nat.mul_add, offset, Nat.sub_add_cancel c.le_height]
  have hluma : ((nv12.drop (c.width * c.offset)).take (c.width * c.modheight)).length =
      c.width * c.modheight := by
    rw [List.length_take, List.length_drop]
    omega
  rw [bottomRows, List.getElem?_append_right hluma.le, hluma, Nat.sub_self,
    List.getElem?_take_of_lt hpos, List.getElem?_drop, Nat.add_zero]

/-- In a higher picture the chroma comes from the place where that of a lower one begins. -/
theorem Crops.height_le (h : c.Crops) (hpos : 0 < c.modheight) (hw : c.width = 640) :
    c.height ≤ 480 := by
  by_contra hgt
  have hhalf : 0 < c.modheight / 2 := by
    have := c.evenM
    omega
  have hrow := offset_div (c := c)
  obtain ⟨nv12, modbuf, hcall, -, hrows⟩ := h (markedFrame _ (c.offset / 2)) (oneBuffers c)
  obtain ⟨-, rfl, m, hluma, hchroma⟩ := (yuyv2Nv12_eq_some_iff _ _).mp hcall
  have hsrc := length_nv12 (markedFrame c.toPicSize (c.offset / 2))
  -- what is copied, and what should have been
  have hcopied : modbuf[c.width * c.modheight]? =
      ((markedFrame c.toPicSize (c.offset / 2)).planes .u .v)[(480 + c.offset / 2) * c.width]? := by
    rw [getElem?_memcpy hchroma, if_pos (by rw [hw]; omega)]
    congr 1
    rw [hw]
    omega
  have hright : modbuf[c.width * c.modheight]? = some 255 := by
    rw [hrows, bottomRows_chroma hsrc (by rw [hw]; omega), Nat.mul_comm _ (c.offset / 2)]
    have hfirst := (isPicture_planes (markedFrame c.toPicSize (c.offset / 2)) .u .v).first 0
      (c.offset / 2) (by omega) (by omega)
    rwa [markedFrame_rowMean (by omega) (by omega), if_pos rfl] at hfirst
  have hleft : modbuf[c.width * c.modheight]? = some 0 := by
    rw [hcopied]
    have hpicture := isPicture_planes (markedFrame c.toPicSize (c.offset / 2)) .u .v
    by_cases hin : 480 + c.offset / 2 < c.height
    · have hzero := hpicture.luma 0 (480 + c.offset / 2) (by omega) hin
      rwa [markedFrame_luma (by omega) hin] at hzero
    · obtain ⟨r, hr⟩ : ∃ r, 480 + c.offset / 2 = c.height + r :=
        ⟨480 + c.offset / 2 - c.height, by omega⟩
      have hzero := hpicture.first 0 r (by omega) (by omega)
      rw [markedFrame_rowMean (by omega) (by omega), if_neg (by omega)] at hzero
      rwa [hr, Nat.add_mul, Nat.mul_comm c.height]
  rw [hleft] at hright
  cases hright

end CropSize

/-- The lower rows are copied exactly when there are none and no product leaves `int`, or the
picture has the size of the camera's frames. -/
theorem crops_iff (c : CropSize) :
    c.Crops ↔ (c.modheight = 0 ∧ c.width * c.height * 2 < 2 ^ 31 ∧ 640 * c.height < 2 ^ 31) ∨
      (c.width = 640 ∧ c.height = 480) := by
  have hints (hzero : c.modheight = 0) :
      c.IntsFit ↔ c.width * c.height * 2 < 2 ^ 31 ∧ 640 * c.height < 2 ^ 31 := by
    rw [CropSize.IntsFit, CropSize.offset, hzero, PicSize.Fits]
    omega
  constructor
  · intro h
    rcases Nat.eq_zero_or_pos c.modheight with hzero | hpos
    · exact .inl ⟨hzero, (hints hzero).mp h.intsFit⟩
    · right
      obtain ⟨hsrc, hdst⟩ := h.bounds hpos
      have hwidth : c.width = 640 := by
        apply le_antisymm (h.width_le hpos)
        rw [← Nat.mul_add, ← Nat.mul_add] at hdst
        exact Nat.le_of_mul_le_mul_right hdst (by omega)
      have hheight := h.height_le hpos hwidth
      have := c.evenH
      rw [hwidth] at hsrc
      omega
  · rintro (⟨hzero, hfit⟩ | ⟨hw, hh⟩)
    · exact CropSize.crops_of_modheight_eq_zero hzero ((hints hzero).mpr hfit)
    · exact CropSize.crops_of_size hw hh

theorem even_four : 2 ∣ 4 := by decide

theorem four_lt_int : 4 < 2 ^ 31 := by decide

/-- A picture of four by four pixels, all of them wanted. -/
def tinyCrop : CropSize where
  width := 4
  height := 4
  evenW := even_four
  evenH := even_four
  widthInt := four_lt_int
  heightInt := four_lt_int
  modheight := 4
  evenM := even_four
  le_height := Nat.le_refl 4

/-- The first copy reads 2560 bytes of a picture of 24. -/
theorem tinyCrop_not_cropped : ¬ ∀ c : CropSize, c.Crops := by
  intro h
  obtain ⟨hsrc, -⟩ := (h tinyCrop).bounds (by decide)
  exact absurd hsrc (by decide)

end BoardTest.Frames
