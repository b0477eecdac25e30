import BoardTest.Frames.Yuyv
import BoardTest.Lib.Stores
import BoardTest.Lib.Turn

/-!
# Frames turned by a quarter

`yuv_r90` and `uv_r90` of `fltest_test_mplane.cpp` turn the luma plane and the chroma plane of a
frame. Both are quarter turns of a grid, of single bytes and of chroma pairs
(`yuvR90_moved`, `uvR90_moved`), and the grid of the pairs turns with that of the pixels because the
height is even (`turned_pair`).
-/

namespace BoardTest.Frames

/-- `*(char *)(dst + to) = *(char *)(src + from)` -/
def copyByte (src : List Byte) (source target : Nat) (dst : List Byte) : Option (List Byte) := do
  let b ← src[source]?
  store dst (target, b)

/-- The index `y * width + x` of a pointer, the product of which is an `int`. -/
def offset (y width x : Nat) : Option Nat := (natInt (y * width)).map (· + x)

/-- `for (i = 0; i < cols; i++) for (j = 0; j < rows; j++)`, with the two indices of the body. -/
def copyLoops (cols rows : Nat) (source target : Nat → Nat → Option Nat) (src dst : List Byte) :
    Option (List Byte) :=
  (List.range cols).foldlM (fun dst i =>
    (List.range rows).foldlM (fun dst j => do
      copyByte src (← source i j) (← target i j) dst) dst) dst

/-- `yuv_r90` (`fltest_test_mplane.cpp:67-75`) -/
def yuvR90 (dst src : List Byte) (width height : Nat) : Option (List Byte) :=
  copyLoops width height (fun i j => offset (height - j - 1) width i) (fun i j => offset i height j)
    src dst

/-- `uv_r90` (`fltest_test_mplane.cpp:77-90`) -/
def uvR90 (dst src : List Byte) (width height : Nat) : Option (List Byte) := do
  let dst ← copyLoops (width / 2) (height / 2)
    (fun i j => offset (height / 2 - j - 1) width (i * 2)) (fun i j => offset i height (j * 2))
    src dst
  copyLoops (width / 2) (height / 2)
    (fun i j => offset (height / 2 - j - 1) width (i * 2 + 1))
    (fun i j => offset i height (j * 2 + 1)) src dst

/-- The stores of the loops. -/
def loopStores (cols rows : Nat) (source target : Nat → Nat → Nat) (src : List Byte) :
    List (Nat × Byte) :=
  (List.range cols).flatMap fun i =>
    (List.range rows).flatMap fun j => [(target i j, src.getD (source i j) 0)]

theorem mem_loopStores {cols rows : Nat} {source target : Nat → Nat → Nat} {src : List Byte}
    {w : Nat × Byte} : w ∈ loopStores cols rows source target src ↔
      ∃ i < cols, ∃ j < rows, w = (target i j, src.getD (source i j) 0) := by
  simp [loopStores, List.mem_flatMap]

theorem copyByte_eq {src : List Byte} {source : Nat} (h : source < src.length) (target : Nat)
    (dst : List Byte) :
    copyByte src source target dst = stores dst [(target, src.getD source 0)] := by
  rw [copyByte, List.getElem?_eq_getElem h, List.getD_eq_getElem _ _ h]
  exact (bind_pure _).symm

theorem copyLoops_eq {cols rows : Nat} {source target : Nat → Nat → Option Nat}
    {source' target' : Nat → Nat → Nat} {src : List Byte}
    (h : ∀ i < cols, ∀ j < rows, source i j = some (source' i j) ∧
      target i j = some (target' i j) ∧ source' i j < src.length) (dst : List Byte) :
    copyLoops cols rows source target src dst =
      stores dst (loopStores cols rows source' target' src) := by
  apply foldlM_eq_stores
  intro i hi dst
  apply foldlM_eq_stores
  intro j hj dst
  obtain ⟨hsource, htarget, hlt⟩ := h i (List.mem_range.mp hi) j (List.mem_range.mp hj)
  rw [hsource, htarget]
  exact copyByte_eq hlt _ dst

/-- The loops stop at the first byte when its index leaves `int`. -/
theorem copyLoops_none {cols rows : Nat} {source target : Nat → Nat → Option Nat}
    (hcols : 0 < cols) (hrows : 0 < rows) (h : source 0 0 = none) (src dst : List Byte) :
    copyLoops cols rows source target src dst = none := by
  obtain ⟨cols, rfl⟩ := Nat.exists_eq_add_one.mpr hcols
  obtain ⟨rows, rfl⟩ := Nat.exists_eq_add_one.mpr hrows
  simp [copyLoops, List.range_succ_eq_map, h]

section
variable {rows cols unit : Nat} {src dst : List Byte}

/-- The stores of byte `c` of every cell. -/
def cellStores (rows cols unit c : Nat) (src : List Byte) : List (Nat × Byte) :=
  loopStores cols rows (fun i j => (rows - j - 1) * (cols * unit) + (i * unit + c))
    (fun i j => i * (rows * unit) + (j * unit + c)) src

/-- A store takes a byte of a cell to its place in the turned grid. -/
theorem exists_of_mem_cellStores (hsrc : src.length = rows * cols * unit) {c : Nat} (hc : c < unit)
    {w : Nat × Byte} (hw : w ∈ cellStores rows cols unit c src) :
    ∃ p : Fin (rows * cols * unit), w.1 = turn rows cols unit p ∧ src[(p : Nat)]? = some w.2 := by
  obtain ⟨i, hi, j, hj, rfl⟩ := mem_loopStores.mp hw
  obtain ⟨p, hp, hturn⟩ := exists_turn_eq hi hj hc
  have hlt : (p : Nat) < src.length := by
    rw [hsrc]
    exact p.isLt
  refine ⟨p, hturn.symm, ?_⟩
  rw [← hp, List.getElem?_eq_getElem hlt, List.getD_eq_getElem _ _ hlt]

theorem copyLoops_cells (hsrc : src.length = rows * cols * unit)
    (hrows : (rows - 1) * (cols * unit) < 2 ^ 31) (hcols : (cols - 1) * (rows * unit) < 2 ^ 31)
    {c : Nat} (hc : c < unit) (dst : List Byte) :
    copyLoops cols rows (fun i j => offset (rows - j - 1) (cols * unit) (i * unit + c))
      (fun i j => offset i (rows * unit) (j * unit + c)) src dst =
      stores dst (cellStores rows cols unit c src) := by
  apply copyLoops_eq
  intro i hi j hj
  have hrow : (rows - j - 1) * (cols * unit) ≤ (rows - 1) * (cols * unit) :=
    Nat.mul_le_mul_right _ (by omega)
  have hcol : i * (rows * unit) ≤ (cols - 1) * (rows * unit) := Nat.mul_le_mul_right _ (by omega)
  obtain ⟨p, hp, -⟩ := exists_turn_eq hi hj hc
  refine ⟨?_, ?_, ?_⟩
  · rw [offset, natInt_of_lt (hrow.trans_lt hrows), Option.map_some]
  · rw [offset, natInt_of_lt (hcol.trans_lt hcols), Option.map_some]
  · rw [← hp, hsrc]
    exact p.isLt

/-- Every byte of a cell has its store. -/
theorem exists_mem_cellStores (p : Fin (rows * cols * unit)) (src : List Byte) :
    ∃ c < unit, ∃ w ∈ cellStores rows cols unit c src, w.1 = turn rows cols unit p := by
  obtain ⟨y, x, c, rfl⟩ := exists_places p
  refine ⟨c, c.isLt, _, mem_loopStores.mpr ⟨x, x.isLt, y.rev, y.rev.isLt, rfl⟩, ?_⟩
  rw [turn_places, coe_places]

/-- The stores of all bytes of the cells turn the grid. -/
theorem exists_stores_turned (hsrc : src.length = rows * cols * unit)
    (hdst : dst.length = cols * rows * unit) :
    ∃ out, stores dst ((List.range unit).flatMap fun c => cellStores rows cols unit c src) =
      some out ∧ Moved (turn rows cols unit) src out := by
  apply exists_stores_moved hdst
  · intro p
    obtain ⟨c, hc, w, hw, hwp⟩ := exists_mem_cellStores p src
    exact ⟨w, List.mem_flatMap.mpr ⟨c, List.mem_range.mpr hc, hw⟩, hwp⟩
  · intro w hw
    obtain ⟨c, hc, hw⟩ := List.mem_flatMap.mp hw
    exact exists_of_mem_cellStores hsrc (List.mem_range.mp hc) hw

end

/-- `yuv_r90` turns the grid of the bytes. -/
theorem yuvR90_moved {width height : Nat} {dst src : List Byte}
    (hrows : (height - 1) * width < 2 ^ 31) (hcols : (width - 1) * height < 2 ^ 31)
    (hdst : dst.length = width * height * 1) (hsrc : src.length = height * width * 1) :
    ∃ out, yuvR90 dst src width height = some out ∧ Moved (turn height width 1) src out := by
  obtain ⟨out, hstores, hmoved⟩ := exists_stores_turned hsrc hdst
  refine ⟨out, ?_, hmoved⟩
  have hloops := copyLoops_cells hsrc (by rwa [Nat.mul_one]) (by rwa [Nat.mul_one]) Nat.one_pos dst
  simp only [Nat.mul_one, Nat.add_zero] at hloops
  rw [yuvR90, hloops, ← hstores, List.range_one, List.flatMap_singleton]

/-- `uv_r90` turns the grid of the chroma pairs. -/
theorem uvR90_moved {cols rows : Nat} {dst src : List Byte}
    (hrows : (rows - 1) * (cols * 2) < 2 ^ 31) (hcols : (cols - 1) * (rows * 2) < 2 ^ 31)
    (hdst : dst.length = cols * rows * 2) (hsrc : src.length = rows * cols * 2) :
    ∃ out, uvR90 dst src (cols * 2) (rows * 2) = some out ∧ Moved (turn rows cols 2) src out := by
  obtain ⟨out, hstores, hmoved⟩ := exists_stores_turned hsrc hdst
  refine ⟨out, ?_, hmoved⟩
  have hfirst := copyLoops_cells hsrc hrows hcols Nat.two_pos dst
  have hsecond := copyLoops_cells hsrc hrows hcols Nat.one_lt_two
  simp only [Nat.add_zero] at hfirst
  simp only [uvR90, Nat.mul_div_cancel _ Nat.two_pos]
  rw [hfirst, ← hstores]
  simp only [hsecond, List.range_succ, List.range_zero, List.nil_append, List.flatMap_append,
    List.flatMap_singleton, stores_append]
  rfl

/-! ## The frame -/

/-- The product of every index is an `int`. -/
def PicSize.TurnFits (s : PicSize) : Prop :=
  (s.height - 1) * s.width < 2 ^ 31 ∧ (s.width - 1) * s.height < 2 ^ 31

instance (s : PicSize) : Decidable s.TurnFits := instDecidableAnd

/-- The byte of the plane at `p` is found at `σ p` after the rotation, whatever `dst` held. -/
def Rotates (rotate : List Byte → List Byte → Nat → Nat → Option (List Byte)) (width height : Nat)
    {n : Nat} (σ : Equiv.Perm (Fin n)) : Prop :=
  ∀ dst src, dst.length = n → src.length = n →
    ∃ out, rotate dst src width height = some out ∧ Moved σ src out

/-- Four rotations in a row give the plane of `n` bytes back. -/
def FourTimesBack (rotate : List Byte → List Byte → Nat → Nat → Option (List Byte))
    (width height n : Nat) : Prop :=
  ∀ dst₁ dst₂ dst₃ dst₄ src : List Byte, dst₁.length = n → dst₂.length = n → dst₃.length = n →
    dst₄.length = n → src.length = n →
    (do
      let out₁ ← rotate dst₁ src width height
      let out₂ ← rotate dst₂ out₁ height width
      let out₃ ← rotate dst₃ out₂ width height
      rotate dst₄ out₃ height width) = some src

/-- Where the chroma pair begins that covers the pixel at `p`. -/
def pairOf (width p : Nat) : Nat := p / width / 2 * width + p % width / 2 * 2

/-- Planes of `n` bytes that are turned by a quarter. -/
theorem rotates_fourTimesBack {rotate : List Byte → List Byte → Nat → Nat → Option (List Byte)}
    {width height rows cols unit n : Nat} (h : rows * cols * unit = n) (h' : cols * rows * unit = n)
    (hforth : ∀ {dst src : List Byte}, dst.length = n → src.length = n →
      ∃ out, rotate dst src width height = some out ∧ Moved (turn rows cols unit) src out)
    (hback : ∀ {dst src : List Byte}, dst.length = n → src.length = n →
      ∃ out, rotate dst src height width = some out ∧ Moved (turn cols rows unit) src out) :
    FourTimesBack rotate width height n := by
  intro dst₁ dst₂ dst₃ dst₄ src h₁ h₂ h₃ h₄ hsrc
  obtain ⟨out₁, hout₁, hmoved₁⟩ := hforth h₁ hsrc
  obtain ⟨out₂, hout₂, hmoved₂⟩ := hback h₂ (hmoved₁.1.trans h')
  obtain ⟨out₃, hout₃, hmoved₃⟩ := hforth h₃ (hmoved₂.1.trans h)
  obtain ⟨out₄, hout₄, hmoved₄⟩ := hback h₄ (hmoved₃.1.trans h')
  have hround := eq_of_moved_four (hsrc.trans h.symm) hmoved₁ hmoved₂ hmoved₃ hmoved₄
  simp [hout₁, hout₂, hout₃, hout₄, hround]

namespace PicSize

variable (s : PicSize)

/-- Where `yuv_r90` takes the bytes of the luma plane. -/
def lumaTurn : Equiv.Perm (Fin (s.width * s.height)) :=
  (finCongr (by ring)).trans ((turn s.height s.width 1).trans (finCongr (by ring)))

theorem half_width : s.width / 2 * 2 = s.width := Nat.div_mul_cancel s.evenW

theorem half_height : s.height / 2 * 2 = s.height := Nat.div_mul_cancel s.evenH

theorem chroma_eq : s.height / 2 * (s.width / 2) * 2 = s.width * s.height / 2 := by
  obtain ⟨w, hw⟩ := s.evenW
  obtain ⟨h, hh⟩ := s.evenH
  rw [hw, hh, Nat.mul_div_cancel_left _ Nat.two_pos, Nat.mul_div_cancel_left _ Nat.two_pos,
    Nat.mul_assoc 2 w, Nat.mul_div_cancel_left _ Nat.two_pos]
  ring

/-- Where `uv_r90` takes the bytes of the chroma plane. -/
def chromaTurn : Equiv.Perm (Fin (s.width * s.height / 2)) :=
  (finCongr s.chroma_eq.symm).trans ((turn (s.height / 2) (s.width / 2) 2).trans
    (finCongr (by rw [Nat.mul_comm (s.width / 2), s.chroma_eq])))

theorem rotates_luma (hfit : s.TurnFits) : Rotates yuvR90 s.width s.height s.lumaTurn := by
  intro dst src hdst hsrc
  have hdst' : dst.length = s.width * s.height * 1 := by rw [hdst, Nat.mul_one]
  have hsrc' : src.length = s.height * s.width * 1 := by rw [hsrc, Nat.mul_one, Nat.mul_comm]
  obtain ⟨out, hout, hmoved⟩ := yuvR90_moved hfit.1 hfit.2 hdst' hsrc'
  exact ⟨out, hout, hmoved.cast _ _⟩

theorem uvR90_moved_half (hfit : s.TurnFits) {dst src : List Byte}
    (hdst : dst.length = s.width * s.height / 2) (hsrc : src.length = s.width * s.height / 2) :
    ∃ out, uvR90 dst src s.width s.height = some out ∧
      Moved (turn (s.height / 2) (s.width / 2) 2) src out := by
  have hswap := s.chroma_eq
  rw [Nat.mul_comm (s.height / 2)] at hswap
  have hrows : (s.height / 2 - 1) * (s.width / 2 * 2) < 2 ^ 31 := by
    rw [s.half_width]
    exact (Nat.mul_le_mul_right _ (by omega)).trans_lt hfit.1
  have hcols : (s.width / 2 - 1) * (s.height / 2 * 2) < 2 ^ 31 := by
    rw [s.half_height]
    exact (Nat.mul_le_mul_right _ (by omega)).trans_lt hfit.2
  have h := uvR90_moved hrows hcols (hdst.trans hswap.symm) (hsrc.trans s.chroma_eq.symm)
  rwa [s.half_width, s.half_height] at h

theorem rotates_chroma (hfit : s.TurnFits) : Rotates uvR90 s.width s.height s.chromaTurn := by
  intro dst src hdst hsrc
  obtain ⟨out, hout, hmoved⟩ := s.uvR90_moved_half hfit hdst hsrc
  exact ⟨out, hout, hmoved.cast _ _⟩

/-- A pixel in column `x`, its row counted as `j` from the end. -/
theorem lumaTurn_eq {p : Fin (s.width * s.height)} {x j : Nat} (hx : x < s.width)
    (hj : j < s.height) (hp : (p : Nat) = (s.height - j - 1) * s.width + x) :
    (s.lumaTurn p : Nat) = x * s.height + j := by
  obtain ⟨p', hp', hturn⟩ := exists_turn_eq hx hj Nat.one_pos
  simp only [Nat.mul_one, Nat.add_zero] at hp' hturn
  have hcast : finCongr (by ring) p = p' := Fin.ext (hp.trans hp'.symm)
  rw [← hturn, ← hcast]
  rfl

/-- Byte `c` of a chroma pair in column `i`, its row counted as `j` from the end. -/
theorem exists_chromaTurn_eq {i j c : Nat} (hi : i < s.width / 2) (hj : j < s.height / 2)
    (hc : c < 2) : ∃ k : Fin (s.width * s.height / 2),
      (k : Nat) = (s.height / 2 - j - 1) * s.width + (i * 2 + c) ∧
      (s.chromaTurn k : Nat) = i * s.height + (j * 2 + c) := by
  obtain ⟨k, hk, hturn⟩ := exists_turn_eq hi hj hc
  rw [s.half_width] at hk
  rw [s.half_height] at hturn
  exact ⟨finCongr s.chroma_eq k, hk, hturn⟩

/-- The chroma turns with the luma: what covers a pixel of the turned frame is the pair that
covers the pixel it is taken from. -/
theorem turned_pair (q : Fin (s.width * s.height)) {c : Nat} (hc : c < 2) :
    ∃ k : Fin (s.width * s.height / 2), (k : Nat) = pairOf s.width (s.lumaTurn.symm q) + c ∧
      (s.chromaTurn k : Nat) = pairOf s.height q + c := by
  obtain ⟨p, rfl⟩ := s.lumaTurn.surjective q
  obtain ⟨y, x, hy, hx, hp⟩ := exists_raster p.isLt
  obtain ⟨n, hn⟩ := s.evenW
  obtain ⟨m, hm⟩ := s.evenH
  have hj : s.height - y - 1 < s.height := by omega
  have hturn := s.lumaTurn_eq (j := s.height - y - 1) hx hj (by
    rw [hp]
    congr 2
    omega)
  obtain ⟨k, hk, hk'⟩ := s.exists_chromaTurn_eq (i := x / 2) (j := (s.height - y - 1) / 2)
    (by omega) (by omega) hc
  refine ⟨k, ?_, ?_⟩
  · -- the rows `y` and `y + 1` of an even `y` have the same pair row, counted from either end
    have hrow : s.height / 2 - (s.height - y - 1) / 2 - 1 = y / 2 := by omega
    rw [Equiv.symm_apply_apply, hk, hrow, hp, pairOf, raster_div hx, raster_mod hx, Nat.add_assoc]
  · rw [hk', hturn, pairOf, raster_div hj, raster_mod hj, Nat.add_assoc]

/-- The frame with width and height exchanged. -/
def swap : PicSize := ⟨s.height, s.width, s.evenH, s.evenW, s.heightInt, s.widthInt⟩

theorem turnFits_swap (hfit : s.TurnFits) : s.swap.TurnFits := ⟨hfit.2, hfit.1⟩

theorem fourTimesBack_luma (hfit : s.TurnFits) :
    FourTimesBack yuvR90 s.width s.height (s.width * s.height) := by
  have hrows : s.height * s.width * 1 = s.width * s.height := by ring
  have hcols : s.width * s.height * 1 = s.width * s.height := by ring
  refine rotates_fourTimesBack hrows hcols ?_ ?_
  · exact fun hdst hsrc =>
      yuvR90_moved hfit.1 hfit.2 (hdst.trans hcols.symm) (hsrc.trans hrows.symm)
  · exact fun hdst hsrc =>
      yuvR90_moved hfit.2 hfit.1 (hdst.trans hrows.symm) (hsrc.trans hcols.symm)

theorem fourTimesBack_chroma (hfit : s.TurnFits) :
    FourTimesBack uvR90 s.width s.height (s.width * s.height / 2) := by
  have hswap : s.width * s.height / 2 = s.swap.width * s.swap.height / 2 := by
    rw [swap, Nat.mul_comm]
  refine rotates_fourTimesBack s.chroma_eq (s.swap.chroma_eq.trans hswap.symm) ?_ ?_
  · exact fun hdst hsrc => s.uvR90_moved_half hfit hdst hsrc
  · exact fun hdst hsrc =>
      s.swap.uvR90_moved_half (s.turnFits_swap hfit) (hdst.trans hswap) (hsrc.trans hswap)

end PicSize

/-- Both routines turn a frame by a quarter: as bijections of the bytes of their planes, of order
four, and the chroma together with the luma. -/
def TurnsFrame (s : PicSize) : Prop :=
  ∃ (σ : Equiv.Perm (Fin (s.width * s.height))) (τ : Equiv.Perm (Fin (s.width * s.height / 2))),
    Rotates yuvR90 s.width s.height σ ∧ Rotates uvR90 s.width s.height τ ∧
    FourTimesBack yuvR90 s.width s.height (s.width * s.height) ∧
    FourTimesBack uvR90 s.width s.height (s.width * s.height / 2) ∧
    ∀ (q : Fin (s.width * s.height)) (c : Fin 2), ∃ k : Fin (s.width * s.height / 2),
      (k : Nat) = pairOf s.width (σ.symm q) + c ∧ (τ k : Nat) = pairOf s.height q + c

/-- A frame of even width and height is turned when the products of its indices are `int`s. -/
theorem r90_turns_frame (s : PicSize) (hfit : s.TurnFits) : TurnsFrame s :=
  ⟨s.lumaTurn, s.chromaTurn, s.rotates_luma hfit, s.rotates_chroma hfit,
    s.fourTimesBack_luma hfit, s.fourTimesBack_chroma hfit, fun q c => s.turned_pair q c.isLt⟩

theorem r90_turns_twoByTwo : TurnsFrame twoByTwo := r90_turns_frame twoByTwo (by decide)

/-- A frame of 65536 by 32770 pixels. -/
def wideSize : PicSize := ⟨65536, 32770, by decide, by decide, by decide, by decide⟩

/-- The first byte of the last row stands `32769 * 65536` bytes behind the first one. -/
theorem wideSize_not_turned : ¬ ∀ s : PicSize, TurnsFrame s := by
  intro h
  obtain ⟨σ, -, hluma, -⟩ := h wideSize
  obtain ⟨out, hout, -⟩ := hluma _ _ (List.length_replicate (a := (0 : Byte)))
    (List.length_replicate (a := (0 : Byte)))
  rw [yuvR90, copyLoops_none (by decide) (by decide)] at hout
  · cases hout
  · rw [offset, natInt_of_le (by decide)]
    rfl

end BoardTest.Frames
