import BoardTest.Lib.CString
import BoardTest.Lib.Raster
import Mathlib.Data.List.GetD

/-!
# One picture and four

The decompose and the compose case of `g2d_test.cpp`: a picture of 2560 by 1440 pixels is cut into
four of 1280 by 720, and four such pictures are put together. Frames are NV21: a byte of luma for
each pixel, then for every two rows one row of V and U bytes. The blitter is a library; `G2dLib` is
what is assumed of it. All four cuts start at the same corner, so that the way there and back
repeats the upper left quarter (`byteAt_roundTrip`).
-/

namespace BoardTest.G2d

/-- The two planes of a frame. -/
inductive Plane
  | luma | chroma

/-- Where a plane begins in a frame of `size` pixels. -/
def Plane.start : Plane → Nat → Nat
  | .luma, _ => 0
  | .chroma, size => size

/-- The rows of a plane over `n` rows of pixels: two of them share one of V and U bytes. -/
def Plane.rows : Plane → Nat → Nat
  | .luma, n => n
  | .chroma, n => n / 2

/-- A byte of a plane, by column and row. -/
def byteAt (p : Plane) (frm : List Byte) (fullW fullH x y : Nat) : Option Byte :=
  frm[p.start (fullW * fullH) + (y * fullW + x)]?

/-- The rectangle of one side of a call: width, height, left, top, and the size of the frame. -/
structure Rect where
  w : Nat
  h : Nat
  x : Nat
  y : Nat
  fullW : Nat
  fullH : Nat

/-- The rectangle lies in the frame, and its corners between the blocks that share their chroma. -/
structure Rect.FitsIn (r : Rect) (frm : List Byte) : Prop where
  insideW : r.x + r.w ≤ r.fullW
  insideH : r.y + r.h ≤ r.fullH
  evenX : 2 ∣ r.x
  evenY : 2 ∣ r.y
  evenW : 2 ∣ r.w
  evenH : 2 ∣ r.h
  evenFullW : 2 ∣ r.fullW
  evenFullH : 2 ∣ r.fullH
  size : frm.length = r.fullW * r.fullH * 3 / 2

/-- `g2dClipByFd` of the G2D library: between rectangles of one size it copies. -/
structure G2dLib where
  clipByFd : List Byte → Rect → List Byte → Rect → List Byte
  length_clip : ∀ src s dst d, (clipByFd src s dst d).length = dst.length
  byteAt_clip : ∀ src s dst d, s.FitsIn src → d.FitsIn dst → s.w = d.w → s.h = d.h →
    ∀ (p : Plane) (x y : Nat), x < d.fullW → y < p.rows d.fullH →
      byteAt p (clipByFd src s dst d) d.fullW d.fullH x y =
        if (d.x ≤ x ∧ x < d.x + d.w) ∧ p.rows d.y ≤ y ∧ y < p.rows d.y + p.rows d.h
        then byteAt p src s.fullW s.fullH (s.x + (x - d.x)) (p.rows s.y + (y - p.rows d.y))
        else byteAt p dst d.fullW d.fullH x y

/-- `int iWidth = 2560, iHeight = 1440;` -/
def iWidth : Nat := 2560
def iHeight : Nat := 1440

/-- `int iSubWidth = 1280, iSubHeight = 720;` -/
def iSubWidth : Nat := 1280
def iSubHeight : Nat := 720

/-- A frame of the given size in its buffer. -/
structure Frame (w h : Nat) where
  data : List Byte
  length_data : data.length = w * h * 3 / 2

/-- The four buffers beside the large one. -/
structure Four where
  fd0 : Frame iSubWidth iSubHeight
  fd1 : Frame iSubWidth iSubHeight
  fd2 : Frame iSubWidth iSubHeight
  fd3 : Frame iSubWidth iSubHeight

def G2dLib.clip (g2d : G2dLib) {w h w' h' : Nat} (src : Frame w h) (s : Rect) (dst : Frame w' h')
    (d : Rect) : Frame w' h' where
  data := g2d.clipByFd src.data s dst.data d
  length_data := (g2d.length_clip _ _ _ _).trans dst.length_data

/-- The calls of `G2D_DECOMPOSE` (`g2d_test.cpp:304-314`): what the four buffers hold behind
them. -/
def decompose (g2d : G2dLib) (infd : Frame iWidth iHeight) (outfd : Four) : Four where
  fd0 := g2d.clip infd ⟨iSubWidth, iSubHeight, 0, 0, iWidth, iHeight⟩
    outfd.fd0 ⟨iSubWidth, iSubHeight, 0, 0, iSubWidth, iSubHeight⟩
  fd1 := g2d.clip infd ⟨iSubWidth, iSubHeight, 0, 0, iWidth, iHeight⟩
    outfd.fd1 ⟨iSubWidth, iSubHeight, 0, 0, iSubWidth, iSubHeight⟩
  fd2 := g2d.clip infd ⟨iSubWidth, iSubHeight, 0, 0, iWidth, iHeight⟩
    outfd.fd2 ⟨iSubWidth, iSubHeight, 0, 0, iSubWidth, iSubHeight⟩
  fd3 := g2d.clip infd ⟨iSubWidth, iSubHeight, 0, 0, iWidth, iHeight⟩
    outfd.fd3 ⟨iSubWidth, iSubHeight, 0, 0, iSubWidth, iSubHeight⟩

/-- The calls of `G2D_COMPOSE` (`g2d_test.cpp:369-376`). -/
def compose (g2d : G2dLib) (infd : Four) (outfd : Frame iWidth iHeight) : Frame iWidth iHeight :=
  let outfd := g2d.clip infd.fd0 ⟨iSubWidth, iSubHeight, 0, 0, iSubWidth, iSubHeight⟩
    outfd ⟨iSubWidth, iSubHeight, 0, 0, iWidth, iHeight⟩
  let outfd := g2d.clip infd.fd1 ⟨iSubWidth, iSubHeight, 0, 0, iSubWidth, iSubHeight⟩
    outfd ⟨iSubWidth, iSubHeight, iSubWidth, 0, iWidth, iHeight⟩
  let outfd := g2d.clip infd.fd2 ⟨iSubWidth, iSubHeight, 0, 0, iSubWidth, iSubHeight⟩
    outfd ⟨iSubWidth, iSubHeight, 0, iSubHeight, iWidth, iHeight⟩
  g2d.clip infd.fd3 ⟨iSubWidth, iSubHeight, 0, 0, iSubWidth, iSubHeight⟩
    outfd ⟨iSubWidth, iSubHeight, iSubWidth, iSubHeight, iWidth, iHeight⟩

section Copies

variable (g2d : G2dLib)

/-- A rectangle of a quarter's size at one of the four places of the large picture. -/
theorem fits_large (f : Frame iWidth iHeight) {x y : Nat} (hx : x = 0 ∨ x = iSubWidth)
    (hy : y = 0 ∨ y = iSubHeight) :
    (Rect.mk iSubWidth iSubHeight x y iWidth iHeight).FitsIn f.data := by
  simp only [iSubWidth, iSubHeight] at *
  refine ⟨?_, ?_, ?_, ?_, ?_, ?_, ?_, ?_, f.length_data⟩ <;> simp only [iWidth, iHeight] <;> omega

theorem fits_small (f : Frame iSubWidth iSubHeight) :
    (Rect.mk iSubWidth iSubHeight 0 0 iSubWidth iSubHeight).FitsIn f.data := by
  refine ⟨?_, ?_, ?_, ?_, ?_, ?_, ?_, ?_, f.length_data⟩ <;>
    simp only [iSubWidth, iSubHeight] <;> omega

/-- A cut holds the upper left quarter of the picture. -/
theorem byteAt_cut (infd : Frame iWidth iHeight) (outfd : Frame iSubWidth iSubHeight) (p : Plane)
    {x y : Nat} (hx : x < iSubWidth) (hy : y < p.rows iSubHeight) :
    byteAt p (g2d.clip infd ⟨iSubWidth, iSubHeight, 0, 0, iWidth, iHeight⟩
      outfd ⟨iSubWidth, iSubHeight, 0, 0, iSubWidth, iSubHeight⟩).data iSubWidth iSubHeight x y =
      byteAt p infd.data iWidth iHeight x y := by
  have h := g2d.byteAt_clip infd.data _ outfd.data _ (fits_large infd (.inl rfl) (.inl rfl))
    (fits_small outfd) rfl rfl p x y hx hy
  have hzero : p.rows 0 = 0 := by cases p <;> rfl
  simp only [hzero, Nat.zero_add, Nat.zero_le, true_and, Nat.sub_zero] at h
  rwa [if_pos ⟨hx, hy⟩] at h

/-- A paste changes its own quarter only. -/
theorem byteAt_paste (infd : Frame iSubWidth iSubHeight) (outfd : Frame iWidth iHeight)
    {dx dy : Nat} (hdx : dx = 0 ∨ dx = iSubWidth) (hdy : dy = 0 ∨ dy = iSubHeight) (p : Plane)
    {x y : Nat} (hx : x < iWidth) (hy : y < p.rows iHeight) :
    byteAt p (g2d.clip infd ⟨iSubWidth, iSubHeight, 0, 0, iSubWidth, iSubHeight⟩
      outfd ⟨iSubWidth, iSubHeight, dx, dy, iWidth, iHeight⟩).data iWidth iHeight x y =
      if (dx ≤ x ∧ x < dx + iSubWidth) ∧ p.rows dy ≤ y ∧ y < p.rows dy + p.rows iSubHeight
      then byteAt p infd.data iSubWidth iSubHeight (x - dx) (y - p.rows dy)
      else byteAt p outfd.data iWidth iHeight x y := by
  have h := g2d.byteAt_clip infd.data _ outfd.data _ (fits_small infd) (fits_large outfd hdx hdy)
    rfl rfl p x y hx hy
  have hzero : p.rows 0 = 0 := by cases p <;> rfl
  simp only [hzero, Nat.zero_add] at h
  exact h

end Copies

/-- A place in one of the quarters is the same place in the upper left one. -/
theorem quarter_place {p : Plane} {x y dx dy : Nat} (hdx : dx = 0 ∨ dx = iSubWidth)
    (hdy : dy = 0 ∨ dy = iSubHeight)
    (hin : (dx ≤ x ∧ x < dx + iSubWidth) ∧ p.rows dy ≤ y ∧ y < p.rows dy + p.rows iSubHeight) :
    x - dx = x % iSubWidth ∧ y - p.rows dy = y % p.rows iSubHeight := by
  cases p with
  | luma =>
    simp only [Plane.rows, iSubWidth, iSubHeight] at *
    omega
  | chroma =>
    simp only [Plane.rows, iSubWidth, iSubHeight] at *
    omega

/-- The quarters cover the picture. -/
theorem exists_quarter {p : Plane} {x y : Nat} (hx : x < iWidth) (hy : y < p.rows iHeight)
    (h : ∀ dx dy, (dx = 0 ∨ dx = iSubWidth) → (dy = 0 ∨ dy = iSubHeight) →
      ¬ ((dx ≤ x ∧ x < dx + iSubWidth) ∧ p.rows dy ≤ y ∧ y < p.rows dy + p.rows iSubHeight)) :
    False := by
  have h₀ := h 0 0 (.inl rfl) (.inl rfl)
  have h₁ := h iSubWidth 0 (.inr rfl) (.inl rfl)
  have h₂ := h 0 iSubHeight (.inl rfl) (.inr rfl)
  have h₃ := h iSubWidth iSubHeight (.inr rfl) (.inr rfl)
  cases p with
  | luma =>
    simp only [Plane.rows, iWidth, iHeight, iSubWidth, iSubHeight] at *
    omega
  | chroma =>
    simp only [Plane.rows, iWidth, iHeight, iSubWidth, iSubHeight] at *
    omega

section RoundTrip

variable (g2d : G2dLib) (f out : Frame iWidth iHeight) (outs : Four)

/-- What comes back of a picture repeats its upper left quarter. -/
theorem byteAt_roundTrip (p : Plane) {x y : Nat} (hx : x < iWidth) (hy : y < p.rows iHeight) :
    byteAt p (compose g2d (decompose g2d f outs) out).data iWidth iHeight x y =
      byteAt p f.data iWidth iHeight (x % iSubWidth) (y % p.rows iSubHeight) := by
  have hcut : ∀ (fd : Frame iSubWidth iSubHeight) (dx dy : Nat), (dx = 0 ∨ dx = iSubWidth) →
      (dy = 0 ∨ dy = iSubHeight) →
      (dx ≤ x ∧ x < dx + iSubWidth) ∧ p.rows dy ≤ y ∧ y < p.rows dy + p.rows iSubHeight →
      byteAt p (g2d.clip f ⟨iSubWidth, iSubHeight, 0, 0, iWidth, iHeight⟩
        fd ⟨iSubWidth, iSubHeight, 0, 0, iSubWidth, iSubHeight⟩).data iSubWidth iSubHeight
          (x - dx) (y - p.rows dy) =
        byteAt p f.data iWidth iHeight (x % iSubWidth) (y % p.rows iSubHeight) := by
    intro fd dx dy hdx hdy hin
    obtain ⟨hxm, hym⟩ := quarter_place hdx hdy hin
    rw [byteAt_cut _ _ _ _ (by omega) (by omega), hxm, hym]
  rw [compose, byteAt_paste g2d _ _ (.inr rfl) (.inr rfl) p hx hy,
    byteAt_paste g2d _ _ (.inl rfl) (.inr rfl) p hx hy,
    byteAt_paste g2d _ _ (.inr rfl) (.inl rfl) p hx hy,
    byteAt_paste g2d _ _ (.inl rfl) (.inl rfl) p hx hy]
  split
  · exact hcut outs.fd3 _ _ (.inr rfl) (.inr rfl) (by assumption)
  split
  · exact hcut outs.fd2 _ _ (.inl rfl) (.inr rfl) (by assumption)
  split
  · exact hcut outs.fd1 _ _ (.inr rfl) (.inl rfl) (by assumption)
  split
  · exact hcut outs.fd0 _ _ (.inl rfl) (.inl rfl) (by assumption)
  · exfalso
    apply exists_quarter hx hy
    rintro dx dy (rfl | rfl) (rfl | rfl) <;> assumption

end RoundTrip

/-- All four quarters of the picture are equal. -/
def Frame.QuartersEqual (f : Frame iWidth iHeight) : Prop :=
  ∀ (p : Plane) (x y : Nat), x < iWidth → y < p.rows iHeight →
    byteAt p f.data iWidth iHeight x y =
      byteAt p f.data iWidth iHeight (x % iSubWidth) (y % p.rows iSubHeight)

/-- Frames are equal when their planes are. -/
theorem data_eq_of_planes {f g : Frame iWidth iHeight}
    (h : ∀ (p : Plane) (x y : Nat), x < iWidth → y < p.rows iHeight →
      byteAt p f.data iWidth iHeight x y = byteAt p g.data iWidth iHeight x y) :
    f.data = g.data := by
  have hsize : iWidth * iHeight * 3 / 2 = iWidth * iHeight + iWidth * (iHeight / 2) := by decide
  have hf := f.length_data
  have hg := g.length_data
  apply List.ext_getElem?
  intro i
  by_cases hi : i < iWidth * iHeight
  · obtain ⟨y, x, hy, hx, rfl⟩ := exists_raster hi
    simpa only [byteAt, Plane.start, Nat.zero_add] using h .luma x y hx hy
  by_cases hi' : i - iWidth * iHeight < iWidth * (iHeight / 2)
  · obtain ⟨y, x, hy, hx, hq⟩ := exists_raster hi'
    obtain rfl : i = iWidth * iHeight + (y * iWidth + x) := by omega
    exact h .chroma x y hx hy
  · rw [List.getElem?_eq_none (by omega), List.getElem?_eq_none (by omega)]

/-- Cutting a picture and putting it together again gives it back exactly when its quarters are
equal, whatever the buffers held before. -/
theorem roundTrip_iff (g2d : G2dLib) (f out : Frame iWidth iHeight) (outs : Four) :
    (compose g2d (decompose g2d f outs) out).data = f.data ↔ f.QuartersEqual := by
  constructor
  · intro h p x y hx hy
    have := byteAt_roundTrip g2d f out outs p hx hy
    rwa [h] at this
  · intro h
    apply data_eq_of_planes
    intro p x y hx hy
    rw [byteAt_roundTrip g2d f out outs p hx hy, h p x y hx hy]

/-! ## A blitter in software -/

/-- Every byte of the destination, copied when it lies in the rectangle. -/
def softClip (src : List Byte) (s : Rect) (dst : List Byte) (d : Rect) : List Byte :=
  (List.range dst.length).map fun i =>
    let p : Plane := if i < d.fullW * d.fullH then .luma else .chroma
    let x := (i - p.start (d.fullW * d.fullH)) % d.fullW
    let y := (i - p.start (d.fullW * d.fullH)) / d.fullW
    if (d.x ≤ x ∧ x < d.x + d.w) ∧ p.rows d.y ≤ y ∧ y < p.rows d.y + p.rows d.h then
      (byteAt p src s.fullW s.fullH (s.x + (x - d.x)) (p.rows s.y + (y - p.rows d.y))).getD 0
    else dst.getD i 0

theorem index_lt {r : Rect} {frm : List Byte} (h : r.FitsIn frm) (p : Plane) {x y : Nat}
    (hx : x < r.fullW) (hy : y < p.rows r.fullH) :
    p.start (r.fullW * r.fullH) + (y * r.fullW + x) < frm.length := by
  have hlt := raster_lt hx hy
  obtain ⟨k, hk⟩ := h.evenFullH
  have hsize := h.size
  have htwice : r.fullW * (2 * k) = 2 * (r.fullW * k) := Nat.mul_left_comm _ _ _
  rw [hk, htwice] at hsize
  cases p with
  | luma =>
    simp only [Plane.start, Plane.rows, hk, htwice] at *
    omega
  | chroma =>
    have hhalf : 2 * k / 2 = k := by omega
    simp only [Plane.start, Plane.rows, hk, htwice, hhalf] at *
    omega

theorem byteAt_softClip {src dst : List Byte} {s d : Rect} (hs : s.FitsIn src) (hd : d.FitsIn dst)
    (hw : s.w = d.w) (hh : s.h = d.h) (p : Plane) {x y : Nat} (hx : x < d.fullW)
    (hy : y < p.rows d.fullH) :
    byteAt p (softClip src s dst d) d.fullW d.fullH x y =
      if (d.x ≤ x ∧ x < d.x + d.w) ∧ p.rows d.y ≤ y ∧ y < p.rows d.y + p.rows d.h
      then byteAt p src s.fullW s.fullH (s.x + (x - d.x)) (p.rows s.y + (y - p.rows d.y))
      else byteAt p dst d.fullW d.fullH x y := by
  have hi := index_lt hd p hx hy
  have hplane : (if p.start (d.fullW * d.fullH) + (y * d.fullW + x) < d.fullW * d.fullH
      then Plane.luma else Plane.chroma) = p := by
    cases p with
    | luma =>
      have hlt : Plane.luma.start (d.fullW * d.fullH) + (y * d.fullW + x) < d.fullW * d.fullH := by
        simp only [Plane.start, Nat.zero_add]
        exact raster_lt hx hy
      exact if_pos hlt
    | chroma =>
      have hge : ¬ Plane.chroma.start (d.fullW * d.fullH) + (y * d.fullW + x) <
          d.fullW * d.fullH := by
        simp only [Plane.start]
        omega
      exact if_neg hge
  rw [byteAt, softClip, List.getElem?_map, List.getElem?_range hi, Option.map_some]
  simp only [hplane, Nat.add_sub_cancel_left, raster_mod hx, raster_div hx]
  split
  · rename_i hin
    have hrow : p.rows s.y + (y - p.rows d.y) < p.rows s.fullH := by
      have := hs.insideH
      obtain ⟨a, ha⟩ := hs.evenY
      obtain ⟨b, hb⟩ := hs.evenH
      cases p <;> simp only [Plane.rows] at * <;> omega
    have hcol : s.x + (x - d.x) < s.fullW := by
      have := hs.insideW
      omega
    have hsrc := index_lt hs p hcol hrow
    rw [byteAt, List.getElem?_eq_getElem hsrc, Option.getD_some]
  · rw [byteAt, List.getElem?_eq_getElem hi, List.getD_eq_getElem _ _ hi]

def softG2d : G2dLib where
  clipByFd := softClip
  length_clip src s dst d := by rw [softClip, List.length_map, List.length_range]
  byteAt_clip src s dst d hs hd hw hh p x y hx hy := byteAt_softClip hs hd hw hh p hx hy

def blackFrame (w h : Nat) : Frame w h := ⟨List.replicate (w * h * 3 / 2) 0, List.length_replicate⟩

def blackFour : Four := ⟨blackFrame _ _, blackFrame _ _, blackFrame _ _, blackFrame _ _⟩

/-- A black picture with one light pixel, the first of its upper right quarter. -/
def lightPixel : Frame iWidth iHeight where
  data := (blackFrame iWidth iHeight).data.set iSubWidth 255
  length_data := by rw [List.length_set, (blackFrame iWidth iHeight).length_data]

/-- The light pixel does not come back. -/
theorem lightPixel_lost : ¬ ∀ (g2d : G2dLib) (f out : Frame iWidth iHeight) (outs : Four),
    (compose g2d (decompose g2d f outs) out).data = f.data := by
  intro h
  have hback := h softG2d lightPixel (blackFrame _ _) blackFour
  have hpixel := byteAt_roundTrip softG2d lightPixel (blackFrame _ _) blackFour .luma
    (x := iSubWidth) (y := 0) (by decide) (by decide)
  rw [hback] at hpixel
  have hlen : (blackFrame iWidth iHeight).data.length = 5529600 := List.length_replicate
  have hlight : lightPixel.data[iSubWidth]? = some 255 := by
    rw [lightPixel, List.getElem?_set_self (by rw [hlen]; decide)]
  have hdark : lightPixel.data[0]? = some 0 := by
    rw [lightPixel, List.getElem?_set_ne (by decide), blackFrame, List.getElem?_replicate,
      if_pos (by decide)]
  simp only [byteAt, Plane.start, Nat.zero_mul, Nat.zero_add, Nat.mod_self, Nat.zero_mod] at hpixel
  rw [hlight, hdark] at hpixel
  exact absurd hpixel (by decide)

end BoardTest.G2d
