import BoardTest.Lib.CInt
import BoardTest.Lib.CString
import BoardTest.Lib.Cursor
import BoardTest.Lib.Raster
import Mathlib.Data.List.GetD
import Mathlib.Tactic.Ring

/-!
# Camera frames as NV21 and NV12

`YUYV_2_NV21` and `YUYV_2_NV12` of `fltest_v4l2_npu.cpp` turn a frame of the camera, which has Y, U,
Y and V for two pixels, into a plane of luma and one of chroma pairs for two rows each. Both walk
through the source with a base that moves on by two rows and write through a pointer that moves on
by one (`yuyv_to_nv`).
-/

namespace BoardTest.Frames

/-- A picture of even width and height, both of them an `int`. -/
structure PicSize where
  width : Nat
  height : Nat
  evenW : 2 ∣ width
  evenH : 2 ∣ height
  widthInt : width < 2 ^ 31
  heightInt : height < 2 ^ 31

/-- A frame of the camera. -/
structure YuyvFrame (s : PicSize) where
  data : List Byte
  length_data : data.length = 2 * s.width * s.height

/-- The values of `i` in `for (int i = 0; i < bound; i += step)`. -/
def steps (bound step : Nat) : List Nat := (List.range ((bound + step - 1) / step)).map (· * step)

/-- `(*(src + a) + *(src + b) + 1) >> 1` as an `unsigned char`. -/
def mean (src : List Byte) (a b : Nat) : Option Byte := do
  let x ← src[a]?
  let y ← src[b]?
  pure (UInt8.ofNat ((x.toNat + y.toNat + 1) >>> 1))

/-- The loop over the luma bytes (lines 147 and 163); a read outside of `src` gives `none`, and so
does a bound that is no `int`. -/
def lumaLoop (src : List Byte) (width height : Nat) (dst : Cursor Byte) : Option (Cursor Byte) := do
  let size ← natInt (width * height)
  let bound ← natInt (size * 2)
  (steps bound 2).foldlM (fun dst i => do
    let y ← src[i]?
    pure (dst.put y)) dst

/-- The inner loop over the chroma of two rows (lines 152 and 168). -/
def chromaRow (src : List Byte) (base width first second : Nat) (dst : Cursor Byte) :
    Option (Cursor Byte) := do
  let row ← natInt (width * 2)
  (steps row 4).foldlM (fun dst j => do
    let a ← mean src (base + first + j) (base + first + j + row)
    let b ← mean src (base + second + j) (base + second + j + row)
    pure ((dst.put a).put b)) dst

/-- The outer loop, in which `src` moves on by two rows (lines 151 and 167). -/
def chromaLoop (src : List Byte) (width height first second : Nat) (dst : Cursor Byte) :
    Option (Nat × Cursor Byte) :=
  (steps (height - 1) 2).foldlM (fun st _ => do
    let dst ← chromaRow src st.1 width first second st.2
    let rows ← natInt (width * 2 * 2)
    pure (st.1 + rows, dst)) (0, dst)

/-- Both loops, and the stores to `dst` that they make. -/
def convert (src : List Byte) (width height first second : Nat) : Option (List (Nat × Byte)) := do
  let dst ← lumaLoop src width height ⟨0, []⟩
  let (_, dst) ← chromaLoop src width height first second dst
  pure dst.made

/-- `YUYV_2_NV21` (`fltest_v4l2_npu.cpp:145-158`) -/
def yuyv2Nv21 (src : List Byte) (width height : Nat) : Option (List (Nat × Byte)) :=
  convert src width height 3 1

/-- The part of `YUYV_2_NV12` that fills `dst` (`fltest_v4l2_npu.cpp:163-173`). -/
def fillNv12 (src : List Byte) (width height : Nat) : Option (List (Nat × Byte)) :=
  convert src width height 1 3

/-- The bytes of a frame of the size can be counted in an `int`. -/
def PicSize.Fits (s : PicSize) : Prop := s.width * s.height * 2 < 2 ^ 31

instance (s : PicSize) : Decidable s.Fits := inferInstanceAs (Decidable (_ < _))

inductive Chroma where
  | u
  | v

/-- Where the sample stands among the four bytes of two pixels. -/
def Chroma.offset : Chroma → Nat
  | u => 1
  | v => 3

namespace YuyvFrame

variable {s : PicSize} (f : YuyvFrame s)

/-- The luma of a pixel. -/
def luma (x y : Nat) : Byte := f.data.getD (y * (2 * s.width) + 2 * x) 0

/-- The chroma of the pixels `2 * k` and `2 * k + 1` of a row. -/
def sample (c : Chroma) (k y : Nat) : Byte := f.data.getD (y * (2 * s.width) + (4 * k + c.offset)) 0

/-- The mean of the samples in the rows `2 * r` and `2 * r + 1`, rounded half up. -/
def rowMean (c : Chroma) (k r : Nat) : Byte :=
  UInt8.ofNat (((f.sample c k (2 * r)).toNat + (f.sample c k (2 * r + 1)).toNat + 1) / 2)

theorem toNat_rowMean (c : Chroma) (k r : Nat) :
    (f.rowMean c k r).toNat =
      ((f.sample c k (2 * r)).toNat + (f.sample c k (2 * r + 1)).toNat + 1) / 2 := by
  have := (f.sample c k (2 * r)).toNat_lt
  have := (f.sample c k (2 * r + 1)).toNat_lt
  have : UInt8.size = 256 := rfl
  exact UInt8.toNat_ofNat_of_lt (by omega)

/-- Two rows of chroma pairs, `c` before `d`. -/
def pairs (c d : Chroma) (r : Nat) : List Byte :=
  (List.range (s.width / 2)).flatMap fun k => [f.rowMean c k r, f.rowMean d k r]

/-- The planes, the chroma with `c` before `d`: NV12 with U before V, NV21 with V before U. -/
def planes (c d : Chroma) : List Byte :=
  ((List.range (s.width * s.height)).map fun p => f.data.getD (p * 2) 0) ++
    (List.range (s.height / 2)).flatMap (f.pairs c d)

end YuyvFrame

theorem steps_mul (n step : Nat) (h : 0 < step) :
    steps (n * step) step = (List.range n).map (· * step) := by
  have hdiv : (n * step + step - 1) / step = n := by
    rw [Nat.add_sub_assoc h, Nat.mul_comm, Nat.mul_add_div h, Nat.div_eq_of_lt (by omega),
      Nat.add_zero]
  rw [steps, hdiv]

section
variable {s : PicSize} {f : YuyvFrame s}

theorem YuyvFrame.getElem?_data {i : Nat} (h : i < 2 * s.width * s.height) :
    f.data[i]? = some (f.data.getD i 0) := by
  have hlt : i < f.data.length := by
    rw [f.length_data]
    exact h
  rw [List.getD_eq_getElem _ _ hlt, List.getElem?_eq_getElem hlt]

theorem lumaLoop_eq (f : YuyvFrame s) (hfit : s.Fits) :
    lumaLoop f.data s.width s.height ⟨0, []⟩ = some (Cursor.after
      ((List.range (s.width * s.height)).map fun p => f.data.getD (p * 2) 0)) := by
  have hbound : s.width * s.height * 2 < 2 ^ 31 := hfit
  rw [List.map_eq_flatMap, lumaLoop, natInt_of_lt (by omega)]
  simp only [Option.bind_eq_bind, Option.bind_some]
  rw [natInt_of_lt hbound, Option.bind_some, steps_mul _ 2 (by decide), List.foldlM_map]
  refine foldlM_cursor ?_ []
  intro p hp as
  rw [List.mem_range] at hp
  rw [YuyvFrame.getElem?_data (by rw [Nat.mul_assoc]; omega)]
  exact congrArg some (Cursor.put_after as _)

theorem lumaLoop_none (src : List Byte) (hfit : ¬ s.Fits) (dst : Cursor Byte) :
    lumaLoop src s.width s.height dst = none := by
  rw [lumaLoop]
  by_cases hsize : s.width * s.height < 2 ^ 31
  · rw [natInt_of_lt hsize, Option.bind_eq_bind, Option.bind_some,
      natInt_of_le (Nat.le_of_not_lt hfit)]
    rfl
  · rw [natInt_of_le (Nat.le_of_not_lt hsize)]
    rfl

/-- Two rows of a frame that fits fit too. -/
theorem rows_lt (hfit : s.Fits) {r : Nat} (hr : r < s.height / 2) : s.width * 2 * 2 < 2 ^ 31 := by
  have hbound : s.width * s.height * 2 < 2 ^ 31 := hfit
  have htwo : s.width * 2 ≤ s.width * s.height := Nat.mul_le_mul_left _ (by omega)
  omega

/-- What two samples of a column of chroma give. -/
theorem mean_eq {c : Chroma} {k r : Nat} (hk : k < s.width / 2) (hr : r < s.height / 2) :
    mean f.data (r * (s.width * 2 * 2) + c.offset + k * 4)
      (r * (s.width * 2 * 2) + c.offset + k * 4 + s.width * 2) = some (f.rowMean c k r) := by
  have hoffset : c.offset ≤ 3 := by cases c <;> decide
  have hupper : r * (s.width * 2 * 2) + c.offset + k * 4 =
      2 * r * (2 * s.width) + (4 * k + c.offset) := by ring
  have hlower : r * (s.width * 2 * 2) + c.offset + k * 4 + s.width * 2 =
      (2 * r + 1) * (2 * s.width) + (4 * k + c.offset) := by ring
  have hcolumn : 4 * k + c.offset < 2 * s.width := by omega
  rw [mean, hlower, hupper, YuyvFrame.getElem?_data (raster_lt hcolumn (by omega)),
    YuyvFrame.getElem?_data (raster_lt hcolumn (by omega))]
  rfl

theorem chromaRow_eq {c d : Chroma} {r : Nat} (hfit : s.Fits) (hr : r < s.height / 2)
    (as : List Byte) :
    chromaRow f.data (r * (s.width * 2 * 2)) s.width c.offset d.offset (Cursor.after as) =
      some (Cursor.after (as ++ f.pairs c d r)) := by
  have hsteps : steps (s.width * 2) 4 = (List.range (s.width / 2)).map (· * 4) := by
    have := s.evenW
    rw [show s.width * 2 = s.width / 2 * 4 by omega, steps_mul _ 4 (by decide)]
  have hrows := rows_lt hfit hr
  rw [chromaRow, natInt_of_lt (by omega), Option.bind_eq_bind, Option.bind_some, hsteps,
    List.foldlM_map]
  apply foldlM_cursor
  intro k hk as
  rw [List.mem_range] at hk
  rw [mean_eq hk hr, mean_eq hk hr]
  simp only [Option.bind_eq_bind, Option.bind_some, Cursor.put_after, List.append_assoc]
  rfl

/-- The outer loop from a pair of rows on: `src` has moved on by all the rows before. -/
theorem chromaLoop_rounds {c d : Chroma} (hfit : s.Fits) (l : List Nat) {r : Nat}
    (hr : r + l.length ≤ s.height / 2) (as : List Byte) :
    l.foldlM (fun st _ => do
        let dst ← chromaRow f.data st.1 s.width c.offset d.offset st.2
        let rows ← natInt (s.width * 2 * 2)
        pure (st.1 + rows, dst)) (r * (s.width * 2 * 2), Cursor.after as) =
      some ((r + l.length) * (s.width * 2 * 2),
        Cursor.after (as ++ (List.range' r l.length).flatMap (f.pairs c d))) := by
  induction l generalizing r as with
  | nil => simp
  | cons y l ih =>
    rw [List.length_cons] at hr ⊢
    have hrows := natInt_of_lt (rows_lt hfit (r := r) (by omega))
    rw [List.foldlM_cons, chromaRow_eq hfit (by omega)]
    have hbase : r * (s.width * 2 * 2) + s.width * 2 * 2 = (r + 1) * (s.width * 2 * 2) := by ring
    simp only [Option.bind_eq_bind, Option.bind_some, Option.pure_def, hrows, hbase]
    have hrest := ih (r := r + 1) (by omega) (as ++ f.pairs c d r)
    simp only [Option.bind_eq_bind, Option.bind_some, Option.pure_def, hrows] at hrest
    rw [hrest, List.range'_succ, List.flatMap_cons, List.append_assoc]
    congr 3
    omega

/-- What the loops write, for either order of the chroma. -/
theorem convert_eq (f : YuyvFrame s) (hfit : s.Fits) (c d : Chroma) :
    convert f.data s.width s.height c.offset d.offset = some (inOrder (f.planes c d)) := by
  have hsteps : steps (s.height - 1) 2 = (List.range (s.height / 2)).map (· * 2) := by
    have := s.evenH
    rw [steps]
    congr 2
    omega
  have hrounds := chromaLoop_rounds (f := f) (c := c) (d := d) hfit (steps (s.height - 1) 2)
    (r := 0) (by rw [hsteps, List.length_map, List.length_range]; omega)
    ((List.range (s.width * s.height)).map fun p => f.data.getD (p * 2) 0)
  rw [Nat.zero_mul, hsteps, List.length_map, List.length_range, ← List.range_eq_range',
    ← hsteps] at hrounds
  rw [convert, lumaLoop_eq f hfit]
  simp only [Option.bind_eq_bind, Option.bind_some]
  rw [chromaLoop, hrounds]
  rfl

theorem convert_none (src : List Byte) (hfit : ¬ s.Fits) (first second : Nat) :
    convert src s.width s.height first second = none := by
  rw [convert, lumaLoop_none src hfit]
  rfl

/-! ## The planes -/

theorem length_pairs (f : YuyvFrame s) (c d : Chroma) (r : Nat) :
    (f.pairs c d r).length = s.width := by
  have := s.evenW
  have hpair : ∀ k < s.width / 2, [f.rowMean c k r, f.rowMean d k r].length = 2 := fun _ _ => rfl
  rw [YuyvFrame.pairs, length_flatMap_range hpair]
  omega

theorem length_planes (f : YuyvFrame s) (c d : Chroma) :
    (f.planes c d).length = s.width * s.height + s.height / 2 * s.width := by
  rw [YuyvFrame.planes, List.length_append, List.length_map, List.length_range,
    length_flatMap_range fun r _ => length_pairs f c d r]

theorem size_eq (s : PicSize) :
    s.width * s.height * 3 / 2 = s.width * s.height + s.height / 2 * s.width := by
  obtain ⟨h, hh⟩ := s.evenH
  rw [hh, Nat.mul_div_cancel_left h (by decide), Nat.mul_left_comm, Nat.mul_comm h]
  omega

variable {c d : Chroma} {x y k r : Nat}

theorem planes_luma (hx : x < s.width) (hy : y < s.height) :
    (f.planes c d)[y * s.width + x]? = some (f.luma x y) := by
  have hlt : y * s.width + x < s.width * s.height := raster_lt hx hy
  have hplace : (y * s.width + x) * 2 = y * (2 * s.width) + 2 * x := by ring
  rw [YuyvFrame.planes, List.getElem?_append_left (by simpa using hlt), List.getElem?_map,
    List.getElem?_range hlt, Option.map_some, hplace]
  rfl

theorem planes_chroma (hk : k < s.width / 2) (hr : r < s.height / 2) {j : Nat} (hj : j < 2) :
    (f.planes c d)[s.width * s.height + (r * s.width + (k * 2 + j))]? =
      [f.rowMean c k r, f.rowMean d k r][j]? := by
  have hluma : ((List.range (s.width * s.height)).map fun p => f.data.getD (p * 2) 0).length =
      s.width * s.height := by rw [List.length_map, List.length_range]
  have hpair : ∀ k < s.width / 2, [f.rowMean c k r, f.rowMean d k r].length = 2 := fun _ _ => rfl
  rw [YuyvFrame.planes, List.getElem?_append_right (by omega), hluma, Nat.add_sub_cancel_left,
    getElem?_flatMap_range (fun r _ => length_pairs f c d r) hr (by omega), YuyvFrame.pairs,
    getElem?_flatMap_range hpair hk hj]

end

/-- The picture of a frame, with the chroma `c` before `d`. -/
structure IsPicture {s : PicSize} (f : YuyvFrame s) (c d : Chroma) (out : List Byte) : Prop where
  length_out : out.length = s.width * s.height * 3 / 2
  luma : ∀ x y, x < s.width → y < s.height → out[y * s.width + x]? = some (f.luma x y)
  first : ∀ k r, k < s.width / 2 → r < s.height / 2 →
    out[s.width * s.height + (r * s.width + k * 2)]? = some (f.rowMean c k r)
  second : ∀ k r, k < s.width / 2 → r < s.height / 2 →
    out[s.width * s.height + (r * s.width + (k * 2 + 1))]? = some (f.rowMean d k r)

theorem isPicture_planes {s : PicSize} (f : YuyvFrame s) (c d : Chroma) :
    IsPicture f c d (f.planes c d) where
  length_out := (length_planes f c d).trans (size_eq s).symm
  luma _ _ := planes_luma
  first _ _ hk hr := planes_chroma (j := 0) hk hr (by decide)
  second _ _ hk hr := planes_chroma (j := 1) hk hr (by decide)

/-- The pictures differ in the order of the bytes of each chroma pair. -/
def PairsSwapped (s : PicSize) (nv21 nv12 : List Byte) : Prop :=
  (∀ p, p < s.width * s.height → nv21[p]? = nv12[p]?) ∧
    ∀ k r, k < s.width / 2 → r < s.height / 2 →
      nv21[s.width * s.height + (r * s.width + k * 2)]? =
        nv12[s.width * s.height + (r * s.width + (k * 2 + 1))]? ∧
      nv21[s.width * s.height + (r * s.width + (k * 2 + 1))]? =
        nv12[s.width * s.height + (r * s.width + k * 2)]?

theorem IsPicture.pairsSwapped {s : PicSize} {f : YuyvFrame s} {c d : Chroma}
    {out out' : List Byte} (h : IsPicture f c d out) (h' : IsPicture f d c out') :
    PairsSwapped s out out' := by
  refine ⟨?_, ?_⟩
  · intro p hp
    obtain ⟨y, x, hy, hx, rfl⟩ := exists_raster hp
    rw [h.luma x y hx hy, h'.luma x y hx hy]
  · intro k r hk hr
    rw [h.first k r hk hr, h.second k r hk hr, h'.first k r hk hr, h'.second k r hk hr]
    exact ⟨rfl, rfl⟩

/-- Both conversions read inside the frame and store each byte of `dst` once, from the first to the
last: the luma of each pixel, and for two rows the means of their samples, V before U in NV21 and U
before V in NV12. -/
def Converts {s : PicSize} (f : YuyvFrame s) : Prop :=
  ∃ made21 made12,
    yuyv2Nv21 f.data s.width s.height = some made21 ∧
    fillNv12 f.data s.width s.height = some made12 ∧
    made21.map Prod.fst = List.range (s.width * s.height * 3 / 2) ∧
    made12.map Prod.fst = List.range (s.width * s.height * 3 / 2) ∧
    IsPicture f .v .u (made21.map Prod.snd) ∧
    IsPicture f .u .v (made12.map Prod.snd) ∧
    PairsSwapped s (made21.map Prod.snd) (made12.map Prod.snd)

/-- A frame whose bytes an `int` counts is converted. -/
theorem yuyv_to_nv {s : PicSize} (f : YuyvFrame s) (hfit : s.Fits) : Converts f := by
  have hnv21 := isPicture_planes f .v .u
  have hnv12 := isPicture_planes f .u .v
  refine ⟨inOrder (f.planes .v .u), inOrder (f.planes .u .v), convert_eq f hfit .v .u,
    convert_eq f hfit .u .v, ?_, ?_, ?_, ?_, ?_⟩
  · rw [inOrder_places, hnv21.length_out]
  · rw [inOrder_places, hnv12.length_out]
  · rw [inOrder_values]
    exact hnv21
  · rw [inOrder_values]
    exact hnv12
  · rw [inOrder_values, inOrder_values]
    exact hnv21.pairsSwapped hnv12

/-- The frame of zeros. -/
def zeroFrame (s : PicSize) : YuyvFrame s where
  data := List.replicate (2 * s.width * s.height) 0
  length_data := List.length_replicate

theorem even_two : 2 ∣ 2 := Nat.dvd_refl 2

theorem two_lt_int : 2 < 2 ^ 31 := by decide

/-- A frame of two by two pixels. -/
def twoByTwo : PicSize := ⟨2, 2, even_two, even_two, two_lt_int, two_lt_int⟩

theorem yuyv_to_nv_twoByTwo : Converts (zeroFrame twoByTwo) :=
  yuyv_to_nv (zeroFrame twoByTwo) (by decide)

/-- A frame of 32768 by 32768 pixels, the luma of which is 2 ^ 30 bytes. -/
def largeSize : PicSize := ⟨32768, 32768, by decide, by decide, by decide, by decide⟩

/-- `width * height * 2` leaves `int`. -/
theorem largeSize_not_converted : ¬ ∀ (s : PicSize) (f : YuyvFrame s), Converts f := by
  intro h
  obtain ⟨made21, -, hmade, -⟩ := h largeSize (zeroFrame largeSize)
  rw [yuyv2Nv21, convert_none _ (by decide)] at hmade
  cases hmade

end BoardTest.Frames
