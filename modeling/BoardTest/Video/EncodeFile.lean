import BoardTest.Lib.CInt
import BoardTest.Lib.Decimal
import BoardTest.Video.Arguments
import Mathlib.Tactic.Linarith

/-!
# `encodeFile` of `encoder_test`

The sizes of a frame are computed from two numbers of the command line that nothing checks, in
`int` and in `unsigned int`; arithmetic that leaves `int` has no meaning (`int32`). The function
then takes four resources, one after another, and the block that gives two of them back stands
before the label of its exit.
-/

namespace BoardTest.Video.EncodeFile

open Numeral Arguments

/-- The result of `int` arithmetic. -/
def int32 (v : Int) : Option Int := if -2 ^ 31 ≤ v ∧ v < 2 ^ 31 then some v else none

/-- An `unsigned int` handed to an `int`. -/
def toInt32 (x : UInt32) : Int := (x.toNat : Int).bmod (2 ^ 32)

/-- `PIXEL_YUV420SP` and `PIXEL_YVU420P` of the vendor's header. -/
structure PixelFmts where
  yuv420sp : UInt32
  yvu420p : UInt32

/-- The case range of `getFrameBitSize`. -/
def PixelFmts.Planar (fmts : PixelFmts) (fmt : UInt32) : Prop :=
  fmts.yuv420sp ≤ fmt ∧ fmt ≤ fmts.yvu420p

instance (fmts : PixelFmts) (fmt : UInt32) : Decidable (fmts.Planar fmt) :=
  inferInstanceAs (Decidable (_ ∧ _))

/-- `getFrameBitSize` -/
def getFrameBitSize (fmts : PixelFmts) (w h : Int) (fmt : UInt32) : Option Int :=
  (int32 (w * h)).bind fun pixelNum =>
    if fmts.Planar fmt then (int32 (pixelNum * 3)).map (·.tdiv 2) else some 0

/-- `ALIGN(x, 16)` -/
def align16 (x : UInt32) : UInt32 := (x + 15) &&& ~~~15

/-- The fields of `EncodeParam` that the function reads. -/
structure EncodeParam where
  srcW : UInt32
  srcH : UInt32
  pixelFormat : UInt32
  codecType : UInt32
  frameCount : UInt32
  frameRate : Int32

variable (fmts : PixelFmts) (param : EncodeParam)

def oneFrameLen : Option Int :=
  getFrameBitSize fmts (toInt32 param.srcW) (toInt32 param.srcH) param.pixelFormat

def oneFrameLenAlign : Option Int :=
  getFrameBitSize fmts (toInt32 (align16 param.srcW)) (toInt32 (align16 param.srcH))
    param.pixelFormat

/-- `packet.dataLen0` -/
def dataLen0 : UInt32 := param.srcW * param.srcH

/-- `packet.dataLen1` -/
def dataLen1 : UInt32 := param.srcW * param.srcH / 2

/-- No product overflows, the frame has a length, it fits the memory that is allocated, and the two
parts of a packet make up the frame. -/
def SoundSizes : Prop :=
  param.srcW.toNat * param.srcH.toNat < 2 ^ 32 ∧
    ∃ len lenAlign, oneFrameLen fmts param = some len ∧
      oneFrameLenAlign fmts param = some lenAlign ∧ 0 < len ∧ len ≤ lenAlign ∧
      ((dataLen0 param).toNat + (dataLen1 param).toNat : Int) = len

/-- The next multiple of 16. -/
def ceil16 (n : Nat) : Nat := (n + 15) / 16 * 16

/-- The picture is not empty and has a format that is known, and the aligned frame of one byte and
a half for each pixel, times two, fits an `int`. -/
def Encodable : Prop :=
  fmts.Planar param.pixelFormat ∧ 0 < param.srcW.toNat ∧ 0 < param.srcH.toNat ∧
    3 * (ceil16 param.srcW.toNat * ceil16 param.srcH.toNat) < 2 ^ 31

variable {fmts} {param} {w h : Int} {a b : Nat} {x : UInt32}

theorem int32_of_mem {v : Int} (hlow : -2 ^ 31 ≤ v) (hhigh : v < 2 ^ 31) : int32 v = some v :=
  if_pos ⟨hlow, hhigh⟩

theorem of_int32_eq_some {v u : Int} (h : int32 v = some u) :
    u = v ∧ -2 ^ 31 ≤ v ∧ v < 2 ^ 31 := by
  unfold int32 at h
  split at h
  · next hv => exact ⟨(Option.some.inj h).symm, hv⟩
  · cases h

theorem le_ceil16 (n : Nat) : n ≤ ceil16 n := by
  unfold ceil16
  omega

theorem ceil16_pos {n : Nat} (hn : 0 < n) : 16 ≤ ceil16 n := by
  unfold ceil16
  omega

theorem toInt32_of_lt (h : x.toNat < 2 ^ 31) : toInt32 x = x.toNat := by
  unfold toInt32
  rw [Int.bmod_eq_of_le] <;> omega

theorem toInt32_of_le (h : 2 ^ 31 ≤ x.toNat) : toInt32 x = x.toNat - 2 ^ 32 := by
  have hx := x.toNat_lt
  unfold toInt32
  rw [Int.bmod_def]
  omega

/-- The mask clears the last four bits. -/
theorem and_mask (n : Nat) (hn : n < 2 ^ 32) : n &&& 4294967280 = n / 16 * 16 := by
  have hdiv : (n &&& 4294967280) / 2 ^ 4 = n / 16 := by
    rw [Nat.and_div_two_pow, Nat.and_two_pow_sub_one_eq_mod (n / 2 ^ 4) 28]
    omega
  have hmod : (n &&& 4294967280) % 2 ^ 4 = 0 := by
    rw [Nat.and_mod_two_pow]
    exact Nat.and_zero _
  omega

theorem align16_toNat (h : x.toNat < 2 ^ 31) : (align16 x).toNat = ceil16 x.toNat := by
  have hsum : (x + 15).toNat = x.toNat + 15 := by
    rw [UInt32.toNat_add]
    change (x.toNat + 15) % 2 ^ 32 = _
    omega
  unfold align16 ceil16
  rw [UInt32.toNat_and, hsum]
  exact and_mask _ (by omega)

theorem getFrameBitSize_of_planar {fmt : UInt32} (hfmt : fmts.Planar fmt) {n : Nat}
    (hn : w * h = n) (hlt : 3 * n < 2 ^ 31) :
    getFrameBitSize fmts w h fmt = some ((3 * n / 2 : Nat) : Int) := by
  have hpixels : int32 (w * h) = some (n : Int) := by
    rw [hn]
    exact int32_of_mem (by omega) (by omega)
  have hbytes : int32 ((n : Int) * 3) = some ((n : Int) * 3) :=
    int32_of_mem (by omega) (by omega)
  have hhalf : ((n : Int) * 3).tdiv 2 = ((3 * n / 2 : Nat) : Int) := by
    rw [Int.tdiv_eq_ediv_of_nonneg (by omega)]
    omega
  rw [getFrameBitSize, hpixels, Option.bind_some, if_pos hfmt, hbytes, Option.map_some, hhalf]

/-- A frame that has a length. -/
theorem of_getFrameBitSize {fmt : UInt32} {len : Int}
    (hlen : getFrameBitSize fmts w h fmt = some len) (hpos : 0 < len) :
    fmts.Planar fmt ∧ 0 < w * h ∧ w * h * 3 < 2 ^ 31 := by
  obtain ⟨pixelNum, hpixels, hlen⟩ := Option.bind_eq_some_iff.mp hlen
  obtain ⟨rfl, -⟩ := of_int32_eq_some hpixels
  split at hlen
  · next hfmt =>
    obtain ⟨product, hproduct, rfl⟩ := Option.map_eq_some_iff.mp hlen
    obtain ⟨rfl, -, hlt⟩ := of_int32_eq_some hproduct
    refine ⟨hfmt, ?_, hlt⟩
    by_contra hle
    have hnonpos : (w * h * 3).tdiv 2 ≤ 0 := by
      rw [← Int.neg_nonneg, ← Int.neg_tdiv]
      exact Int.tdiv_nonneg (by omega) (by omega)
    omega
  · obtain rfl := Option.some.inj hlen
    exact absurd hpos (lt_irrefl 0)

/-- A product of two numbers of which one is negative as an `int` does not pass both tests. -/
theorem lt_of_product_pos {x y : UInt32} (hlt : x.toNat * y.toNat < 2 ^ 32)
    (hpos : 0 < toInt32 x * toInt32 y) : x.toNat < 2 ^ 31 := by
  by_contra hge
  have hx : 2 ^ 31 ≤ x.toNat := by omega
  have hy : y.toNat < 2 := by
    by_contra hy
    have hmul := Nat.mul_le_mul hx (Nat.le_of_not_lt hy)
    omega
  rw [toInt32_of_le hx, toInt32_of_lt (show y.toNat < 2 ^ 31 by omega)] at hpos
  have hneg : (x.toNat : Int) - 2 ^ 32 ≤ 0 := by
    have := x.toNat_lt
    omega
  exact absurd hpos (Int.not_lt.mpr (Int.mul_nonpos_of_nonpos_of_nonneg hneg (by omega)))

/-- Rounding up to `2 ^ 31` overflows. -/
theorem ceil16_lt_of_range {x y : UInt32} (hx : x.toNat < 2 ^ 31) (hy : y.toNat < 2 ^ 31)
    (hypos : 0 < y.toNat)
    (hlow : 0 < toInt32 (align16 x) * toInt32 (align16 y))
    (hhigh : toInt32 (align16 x) * toInt32 (align16 y) * 3 < 2 ^ 31) : ceil16 x.toNat < 2 ^ 31 := by
  by_contra hge
  have hX : (align16 x).toNat = 2 ^ 31 := by
    rw [align16_toNat hx]
    unfold ceil16 at hge ⊢
    omega
  have hxint : toInt32 (align16 x) = -2 ^ 31 := by
    rw [toInt32_of_le (by omega), hX]
    rfl
  have hY := align16_toNat hy
  have hYpos := ceil16_pos hypos
  rw [hxint] at hlow hhigh
  rcases Nat.lt_or_ge (align16 y).toNat (2 ^ 31) with hlt | hle
  · rw [toInt32_of_lt hlt] at hlow
    omega
  · rw [toInt32_of_le hle] at hhigh
    have := (align16 y).toNat_lt
    unfold ceil16 at hY
    omega

theorem encodable_of_soundSizes (hsound : SoundSizes fmts param) : Encodable fmts param := by
  obtain ⟨hproduct, len, lenAlign, hlen, hlenAlign, hpos, hle, -⟩ := hsound
  obtain ⟨hfmt, hpixels, -⟩ := of_getFrameBitSize hlen hpos
  obtain ⟨-, halign, hrange⟩ := of_getFrameBitSize hlenAlign (hpos.trans_le hle)
  have hw := lt_of_product_pos hproduct hpixels
  have hh : param.srcH.toNat < 2 ^ 31 := by
    refine lt_of_product_pos (y := param.srcW) ?_ ?_
    · exact lt_of_eq_of_lt (Nat.mul_comm _ _) hproduct
    · exact lt_of_lt_of_eq hpixels (Int.mul_comm _ _)
  rw [toInt32_of_lt hw, toInt32_of_lt hh] at hpixels
  have hwpos : 0 < param.srcW.toNat := by
    rcases Nat.eq_zero_or_pos param.srcW.toNat with hzero | hwpos
    · rw [hzero] at hpixels
      omega
    · exact hwpos
  have hhpos : 0 < param.srcH.toNat := by
    rcases Nat.eq_zero_or_pos param.srcH.toNat with hzero | hhpos
    · rw [hzero] at hpixels
      omega
    · exact hhpos
  have hW := ceil16_lt_of_range hw hh hhpos halign hrange
  rw [Int.mul_comm (toInt32 (align16 param.srcW))] at halign hrange
  have hH := ceil16_lt_of_range hh hw hwpos halign hrange
  rw [toInt32_of_lt (by rwa [align16_toNat hh]), toInt32_of_lt (by rwa [align16_toNat hw]),
    align16_toNat hw, align16_toNat hh, Int.mul_comm (ceil16 _ : Int), ← Int.natCast_mul] at hrange
  refine ⟨hfmt, hwpos, hhpos, ?_⟩
  omega

theorem soundSizes_of_encodable (h : Encodable fmts param) : SoundSizes fmts param := by
  obtain ⟨hfmt, hwpos, hhpos, hlt⟩ := h
  have hW := ceil16_pos hwpos
  have hH := ceil16_pos hhpos
  have hWle := Nat.le_mul_of_pos_right (ceil16 param.srcW.toNat) (Nat.lt_of_lt_of_le (by omega) hH)
  have hHle := Nat.le_mul_of_pos_left (ceil16 param.srcH.toNat) (Nat.lt_of_lt_of_le (by omega) hW)
  have hw : param.srcW.toNat < 2 ^ 31 := lt_of_le_of_lt (le_ceil16 _) (by omega)
  have hh : param.srcH.toNat < 2 ^ 31 := lt_of_le_of_lt (le_ceil16 _) (by omega)
  have hpixels := Nat.mul_le_mul (le_ceil16 param.srcW.toNat) (le_ceil16 param.srcH.toNat)
  have hone := Nat.mul_pos hwpos hhpos
  have hlen := getFrameBitSize_of_planar hfmt (w := toInt32 param.srcW) (h := toInt32 param.srcH)
    (n := param.srcW.toNat * param.srcH.toNat)
    (by rw [toInt32_of_lt hw, toInt32_of_lt hh, Int.natCast_mul]) (by omega)
  have hlenAlign := getFrameBitSize_of_planar hfmt (w := toInt32 (align16 param.srcW))
    (h := toInt32 (align16 param.srcH))
    (n := ceil16 param.srcW.toNat * ceil16 param.srcH.toNat)
    (by
      rw [toInt32_of_lt (by rw [align16_toNat hw]; omega),
        toInt32_of_lt (by rw [align16_toNat hh]; omega), align16_toNat hw, align16_toNat hh,
        Int.natCast_mul])
    (by omega)
  have hmul : (param.srcW * param.srcH).toNat = param.srcW.toNat * param.srcH.toNat := by
    rw [UInt32.toNat_mul]
    omega
  refine ⟨by omega, _, _, hlen, hlenAlign, ?_, ?_, ?_⟩
  · omega
  · omega
  · rw [dataLen0, dataLen1, UInt32.toNat_div, hmul]
    change (((param.srcW.toNat * param.srcH.toNat : Nat) : Int) +
      ((param.srcW.toNat * param.srcH.toNat / 2 : Nat) : Int)) = _
    omega

/-- A number that is printed without a sign and in 32 digits or less is scanned back. -/
theorem scanInteger_decimal {n : Nat} (hn : n < 10 ^ 32) :
    scanInteger (decimal n) = some (false, n) := by
  have hdigits := (isNumeral_decimal n).2
  obtain ⟨d, ds, hcons⟩ := List.exists_cons_of_ne_nil (isNumeral_decimal n).1
  have hd := isDigit_iff.mp (hdigits d (hcons ▸ List.mem_cons_self))
  have hspace : Arguments.isSpace d = false := by
    rw [Arguments.isSpace, decide_eq_false_iff_not, ← UInt8.toNat_inj, UInt8.le_iff_toNat_le,
      UInt8.le_iff_toNat_le]
    change ¬ (d.toNat = 32 ∨ 9 ≤ d.toNat ∧ d.toNat ≤ 13)
    omega
  have hfield : ((decimal n).dropWhile Arguments.isSpace).take 32 = decimal n := by
    rw [hcons, List.dropWhile_cons_of_neg (by rw [hspace]; exact Bool.false_ne_true), ← hcons]
    exact List.take_of_length_le ((length_decimal_le_iff (by decide)).mpr hn)
  have hsign {c : Byte} (hc : c.toNat < 48) : ¬ (decimal n).head? = some c := by
    rw [hcons, List.head?_cons, Option.some.injEq]
    rintro rfl
    omega
  have htake : (decimal n).takeWhile isDigit = decimal n := List.takeWhile_eq_self_iff.mpr hdigits
  have hminus : ¬ (decimal n).head? = some 45 := hsign (by decide)
  have hplus : ¬ (decimal n).head? = some 43 := hsign (by decide)
  simp only [scanInteger, hfield, hminus, hplus, decide_false, or_self, if_false, htake,
    if_neg (isNumeral_decimal n).1, numeral_decimal]

theorem read_decimal (n : UInt32) :
    Conversion.unsigned.read (decimal n.toNat) = some (.number n) := by
  have hn := n.toNat_lt
  have hunsigned : toUnsigned false n.toNat = n := by
    rw [toUnsigned, if_pos (by omega)]
    refine UInt32.toNat_inj.mp ?_
    change ((n.toNat : Int) % 4294967296).toNat % 4294967296 = n.toNat
    omega
  rw [Conversion.read, scanInteger_decimal (by omega), Option.map_some]
  exact congrArg (fun m => some (Value.number m)) hunsigned

/-- `-sw w -sh h -p fmt` -/
def sizePairs (w h fmt : UInt32) : List Pair :=
  [(bytes "-sw", decimal w.toNat), (bytes "-sh", decimal h.toNat), (bytes "-p", decimal fmt.toNat)]

/-- Every size and every format can be given on the command line. -/
theorem finalSettings_sizePairs (sdk : Sdk) (w h fmt : UInt32) :
    ∃ s, finalSettings .encoder sdk (sizePairs w h fmt) = some s ∧ s .srcW = .number w ∧
      s .srcH = .number h ∧ s .pixelFormat = .number fmt := by
  have hsw : getArguType .encoder (bytes "-sw") = .srcW := by decide
  have hsh : getArguType .encoder (bytes "-sh") = .srcH := by decide
  have hp : getArguType .encoder (bytes "-p") = .pixelFormat := by decide
  have hgo : ¬ (sizePairs w h fmt).any (optionOf .encoder · = .help) = true := by
    simp [sizePairs, optionOf, hsw, hsh, hp]
  obtain ⟨s, hsome⟩ : ∃ s, finalSettings .encoder sdk (sizePairs w h fmt) = some s :=
    ⟨_, (finalSettings_eq .encoder sdk _).trans (if_neg hgo)⟩
  have hlast (f : Setting) := finalSettings_apply hsome f
  simp only [lastWrite, sizePairs, List.foldl_cons, List.foldl_nil, stored, optionOf, hsw, hsh,
    hp] at hlast
  refine ⟨s, hsome, ?_, ?_, ?_⟩
  · simp [hlast, Tool.cases, Setting.conversion, read_decimal]
  · simp [hlast, Tool.cases, Setting.conversion, read_decimal]
  · simp [hlast, Tool.cases, Setting.conversion, read_decimal]

/-- The parameters are those of some command line. -/
def Accepted (sdk : Sdk) (param : EncodeParam) : Prop :=
  ∃ ps s, finalSettings .encoder sdk ps = some s ∧ s .srcW = .number param.srcW ∧
    s .srcH = .number param.srcH ∧ s .pixelFormat = .number param.pixelFormat

theorem accepted (sdk : Sdk) (param : EncodeParam) : Accepted sdk param :=
  ⟨_, finalSettings_sizePairs sdk param.srcW param.srcH param.pixelFormat⟩

/-- The command line gives every size and every format; the sizes of a frame are sound just for
those that are encodable. -/
theorem soundSizes_iff (fmts : PixelFmts) (sdk : Sdk) (param : EncodeParam) :
    Accepted sdk param ∧ (SoundSizes fmts param ↔ Encodable fmts param) :=
  ⟨accepted sdk param, encodable_of_soundSizes, soundSizes_of_encodable⟩

theorem zero_width_unsound :
    ¬ ∀ fmts sdk param, Accepted sdk param → SoundSizes fmts param := by
  intro h
  let sdk : Sdk := ⟨0, 0, 0, 0, 0, 0⟩
  have hsound := h ⟨0, 4⟩ sdk ⟨0, 480, 0, 0, 0, 30⟩ (accepted sdk _)
  exact absurd (encodable_of_soundSizes hsound).2.1 (lt_irrefl 0)

/-- What the calls of `encodeFile` yield; a pointer counts as `true` where it is not `NULL`. -/
structure Calls where
  allocOpen : Int32
  allocAlloc : Int32
  vir : Bool
  create : Bool
  inFile : Bool
  outFile : Bool
  init : Int32
  /-- at the end of the input file, a `long` -/
  ftell : Int64

/-- `int inputFileLen` -/
def Calls.inputFileLen (calls : Calls) : Int := toSigned calls.ftell.toInt

inductive Resource
  | ion
  | memory
  | encoder
  | callback
  deriving DecidableEq

/-- The fields of `AVPacket` that are numbers. -/
structure Packet where
  id : Int
  pts : Int
  dataLen0 : UInt32
  dataLen1 : UInt32

inductive Event
  | acquire (r : Resource)
  | release (r : Resource)
  | encode (packet : Packet)
  | setJpgQuality (quality : Nat)

/-- How `encodeFile` returns. -/
structure Result where
  ret : Int32
  events : List Event

/-- `int` division. -/
def div32 (a b : Int) : Option Int := if b = 0 then none else int32 (a.tdiv b)

/-- `fread` of a frame into the memory that was allocated for the aligned one. -/
def readFrame (oneFrameLen oneFrameLenAlign : Int) : Option Unit :=
  if 0 ≤ oneFrameLen ∧ oneFrameLen ≤ oneFrameLenAlign then some () else none

/-- The body of the loop (lines 348 to 391): `packet.pts`, and what is done to the encoder. -/
def encodeFrame (sdk : Sdk) (param : EncodeParam) (oneFrameLen oneFrameLenAlign : Int)
    (frameIndex : Nat) (pts : Int) : Option (Int × List Event) := do
  let id ← int32 (frameIndex + 0x100)
  let step ← div32 (1 * 1000) param.frameRate.toInt
  readFrame oneFrameLen oneFrameLenAlign
  let jpeg := param.codecType = sdk.encoderJpeg ∧ param.frameCount = sdk.onlyOneFrame
  some (pts + step, .encode ⟨id, pts + step, dataLen0 param, dataLen1 param⟩ ::
    if jpeg then [.setJpgQuality (if frameIndex % 2 ≠ 0 then 10 else 100)] else [])

/-- `while (frameIndex < totalFrameNum)`, when `n` frames are left. -/
def encodeFrames (sdk : Sdk) (param : EncodeParam) (oneFrameLen oneFrameLenAlign : Int) :
    Nat → Nat → Int → Option (List Event)
  | 0, _, _ => some []
  | n + 1, frameIndex, pts => do
    let (pts, events) ← encodeFrame sdk param oneFrameLen oneFrameLenAlign frameIndex pts
    let rest ← encodeFrames sdk param oneFrameLen oneFrameLenAlign n (frameIndex + 1) pts
    some (events ++ rest)

/-- Behind the label `EXIT`. -/
def exitEvents : List Event := [.release .encoder, .release .callback]

/-- `encodeFile` behind the sizes (lines 304 to 405). -/
def encodeFrom (sdk : Sdk) (param : EncodeParam) (calls : Calls)
    (oneFrameLen oneFrameLenAlign : Int) : Option Result :=
  if calls.allocOpen < 0 then some ⟨calls.allocOpen, []⟩
  else if calls.allocAlloc < 0 then some ⟨calls.allocAlloc, [.acquire .ion]⟩
  else
    let taken : List Event := [.acquire .ion, .acquire .memory] ++
      (if calls.create then [.acquire .encoder] else []) ++ [.acquire .callback]
    if calls.inFile = false ∨ calls.outFile = false ∨ calls.create = false then some ⟨-1, taken⟩
    else if calls.init ≠ 0 then some ⟨0, taken ++ exitEvents⟩
    else
      (div32 calls.inputFileLen oneFrameLen).bind fun totalFrameNum =>
        if calls.vir = false then some ⟨0, taken ++ exitEvents⟩
        else
          (encodeFrames sdk param oneFrameLen oneFrameLenAlign totalFrameNum.toNat 0 0).map
            fun frames => ⟨0, taken ++ frames ++ [.release .memory, .release .ion] ++ exitEvents⟩

/-- `encodeFile`, where it returns. -/
def encodeFile (fmts : PixelFmts) (sdk : Sdk) (param : EncodeParam) (calls : Calls) :
    Option Result :=
  (oneFrameLen fmts param).bind fun len =>
    (oneFrameLenAlign fmts param).bind fun lenAlign => encodeFrom sdk param calls len lenAlign

/-- What is held behind an event; nothing is taken twice, and only what is held is given back. -/
def use (held : List Resource) : Event → Option (List Resource)
  | .acquire r => if r ∈ held then none else some (r :: held)
  | .release r => if r ∈ held then some (held.erase r) else none
  | .encode _ | .setJpgQuality _ => some held

/-- Every resource is given back exactly once. -/
def Balanced (events : List Event) : Prop := events.foldlM use [] = some []

/-- The ids of the packets that were submitted to the encoder. -/
def submitted (events : List Event) : List Int :=
  events.filterMap fun
    | .encode packet => some packet.id
    | _ => none

/-- The frames of the input file, when its length is known and a frame has one. -/
def frameCount (fmts : PixelFmts) (param : EncodeParam) (calls : Calls) : Option Nat :=
  (oneFrameLen fmts param).bind fun len =>
    if 0 < len ∧ 0 ≤ calls.ftell.toInt then some (calls.ftell.toInt.toNat / len.toNat) else none

/-- The call returns, it has given back what it took, and it returns 0 only if the encoder got every
frame. -/
def Settles (frameCount : Option Nat) (call : Option Result) : Prop :=
  ∃ result, call = some result ∧ Balanced result.events ∧
    (result.ret = 0 → ∃ n, frameCount = some n ∧
      submitted result.events = (List.range n).map fun i : Nat => (i : Int) + 0x100)

/-- The calls behind `allocOpen` succeed. -/
structure Calls.Succeed (calls : Calls) : Prop where
  allocAlloc : ¬ calls.allocAlloc < 0
  inFile : calls.inFile = true
  outFile : calls.outFile = true
  create : calls.create = true
  init : calls.init = 0
  vir : calls.vir = true

/-- The rounds of the loop for `n` frames from `frameIndex` on are defined: a frame fits the memory,
there is a frame rate, and the ids are `int`s. -/
def LoopDefined (param : EncodeParam) (len lenAlign : Int) (n frameIndex : Nat) : Prop :=
  n = 0 ∨ ((0 ≤ len ∧ len ≤ lenAlign) ∧ param.frameRate ≠ 0 ∧ frameIndex + n + 255 < 2 ^ 31)

/-- A frame has a length, the length of the file is an `int`, and the loop over the frames is
defined. -/
structure Calls.FramesFit (calls : Calls) (param : EncodeParam) (len lenAlign : Int) : Prop where
  len_pos : 0 < len
  ftell_nonneg : 0 ≤ calls.ftell.toInt
  ftell_lt : calls.ftell.toInt < 2 ^ 31
  loop : LoopDefined param len lenAlign (calls.ftell.toInt.toNat / len.toNat) 0

/-! ### The loop -/

variable {sdk : Sdk} {calls : Calls} {len lenAlign : Int} {n i : Nat} {pts : Int}
variable {events : List Event}

/-- Events that take nothing and give nothing back. -/
def Neutral (events : List Event) : Prop := ∀ held, events.foldlM use held = some held

theorem neutral_append {events' : List Event} (h : Neutral events) (h' : Neutral events') :
    Neutral (events ++ events') := by
  intro held
  rw [List.foldlM_append, h held]
  exact h' held

theorem submitted_append (events events' : List Event) :
    submitted (events ++ events') = submitted events ++ submitted events' :=
  List.filterMap_append

/-- One frame is one packet. -/
theorem encodeFrame_spec {next : Int}
    (h : encodeFrame sdk param len lenAlign i pts = some (next, events)) :
    Neutral events ∧ submitted events = [(i : Int) + 0x100] := by
  simp only [encodeFrame, Option.bind_eq_bind, Option.bind_eq_some_iff] at h
  obtain ⟨id, hid, step, -, -, -, h⟩ := h
  obtain ⟨rfl, -⟩ := of_int32_eq_some hid
  obtain ⟨-, rfl⟩ := Prod.mk.inj (Option.some.inj h)
  split
  · exact ⟨fun _ => rfl, rfl⟩
  · exact ⟨fun _ => rfl, rfl⟩

/-- When the body of the loop is defined. -/
theorem exists_encodeFrame_iff : (∃ round, encodeFrame sdk param len lenAlign i pts = some round) ↔
    LoopDefined param len lenAlign 1 i := by
  rw [LoopDefined, or_iff_right one_ne_zero]
  constructor
  · rintro ⟨round, h⟩
    simp only [encodeFrame, Option.bind_eq_bind, Option.bind_eq_some_iff] at h
    obtain ⟨id, hid, step, hstep, _, hread, -⟩ := h
    obtain ⟨-, -, hlt⟩ := of_int32_eq_some hid
    refine ⟨(Option.ite_none_right_eq_some.mp hread).1, ?_, by omega⟩
    intro hrate
    rw [div32, hrate, if_pos (by decide)] at hstep
    cases hstep
  · rintro ⟨hlen, hrate, hid⟩
    have hrate' : param.frameRate.toInt ≠ 0 := by
      intro hzero
      exact hrate (Int32.toInt_inj.mp hzero)
    have hbound := Int.natAbs_tdiv_le_natAbs (1 * 1000) param.frameRate.toInt
    rw [encodeFrame, int32_of_mem (by omega) (by omega), readFrame, if_pos hlen, div32,
      if_neg hrate', int32_of_mem (by omega) (by omega)]
    exact ⟨_, rfl⟩

/-- When the loop comes to its end. -/
theorem exists_encodeFrames_iff :
    (∃ events, encodeFrames sdk param len lenAlign n i pts = some events) ↔
      LoopDefined param len lenAlign n i := by
  induction n generalizing i pts with
  | zero => exact iff_of_true ⟨[], rfl⟩ (.inl rfl)
  | succ n ih =>
    constructor
    · rintro ⟨events, h⟩
      simp only [encodeFrames, Option.bind_eq_bind, Option.bind_eq_some_iff] at h
      obtain ⟨round, hround, rest, hrest, -⟩ := h
      have hfirst := exists_encodeFrame_iff.mp ⟨round, hround⟩
      rw [LoopDefined, or_iff_right one_ne_zero] at hfirst
      obtain ⟨hlen, hrate, hid⟩ := hfirst
      refine .inr ⟨hlen, hrate, ?_⟩
      rcases ih.mp ⟨rest, hrest⟩ with hzero | ⟨-, -, hlt⟩ <;> omega
    · intro h
      have hdefined :
          LoopDefined param len lenAlign 1 i ∧ LoopDefined param len lenAlign n (i + 1) := by
        rcases h with hzero | ⟨hlen, hrate, hlt⟩
        · omega
        · exact ⟨.inr ⟨hlen, hrate, by omega⟩, .inr ⟨hlen, hrate, by omega⟩⟩
      obtain ⟨round, hround⟩ : ∃ round, encodeFrame sdk param len lenAlign i pts = some round :=
        exists_encodeFrame_iff.mpr hdefined.1
      obtain ⟨rest, hrest⟩ : ∃ rest,
          encodeFrames sdk param len lenAlign n (i + 1) round.1 = some rest :=
        ih.mpr hdefined.2
      rw [encodeFrames, hround]
      simp only [Option.bind_eq_bind, Option.bind_some, hrest]
      exact ⟨_, rfl⟩

/-- The loop submits the frames from `frameIndex` on. -/
theorem encodeFrames_spec (h : encodeFrames sdk param len lenAlign n i pts = some events) :
    Neutral events ∧ submitted events = (List.range' i n).map fun k : Nat => (k : Int) + 0x100 := by
  induction n generalizing i pts events with
  | zero =>
    obtain rfl := Option.some.inj h
    exact ⟨fun _ => rfl, rfl⟩
  | succ n ih =>
    simp only [encodeFrames, Option.bind_eq_bind, Option.bind_eq_some_iff] at h
    obtain ⟨⟨next, first⟩, hfirst, rest, hrest, h⟩ := h
    obtain rfl := Option.some.inj h
    obtain ⟨hneutral, hids⟩ := encodeFrame_spec hfirst
    obtain ⟨hneutral', hids'⟩ := ih hrest
    refine ⟨neutral_append hneutral hneutral', ?_⟩
    rw [submitted_append, hids, hids', List.range'_succ, List.map_cons, List.singleton_append]

/-- What is taken before the first frame. -/
def takenEvents : List Event :=
  [.acquire .ion, .acquire .memory, .acquire .encoder, .acquire .callback]

/-- All four resources, the frames, and all four back. -/
theorem balanced_of_neutral (h : Neutral events) :
    Balanced (takenEvents ++ events ++ [.release .memory, .release .ion] ++ exitEvents) := by
  have htaken : List.foldlM use [] takenEvents = some [.callback, .encoder, .memory, .ion] := rfl
  have hframes := h [.callback, .encoder, .memory, .ion]
  rw [Balanced, List.foldlM_append, List.foldlM_append, List.foldlM_append, htaken]
  simp only [Option.bind_eq_bind, Option.bind_some, hframes]
  rfl

theorem not_settles_of_not_balanced {count : Option Nat} {result : Result}
    (h : ¬ Balanced result.events) : ¬ Settles count (some result) := by
  rintro ⟨_, ⟨⟩, hbalanced, -⟩
  exact h hbalanced

/-- The length of a frame is an `int`. -/
theorem oneFrameLen_lt (h : oneFrameLen fmts param = some len) : len < 2 ^ 31 := by
  rw [oneFrameLen, getFrameBitSize] at h
  obtain ⟨pixelNum, -, h⟩ := Option.bind_eq_some_iff.mp h
  split at h
  · obtain ⟨product, hproduct, rfl⟩ := Option.map_eq_some_iff.mp h
    obtain ⟨rfl, hlow, hlt⟩ := of_int32_eq_some hproduct
    have hhalf : ((pixelNum * 3).tdiv 2).natAbs = (pixelNum * 3).natAbs / 2 := Int.natAbs_tdiv _ _
    omega
  · obtain rfl := Option.some.inj h
    decide

/-! ### The number of frames -/

theorem tdiv_eq_natCast {a b : Int} (ha : 0 ≤ a) (hb : 0 ≤ b) :
    a.tdiv b = ((a.toNat / b.toNat : Nat) : Int) := by
  obtain ⟨m, rfl⟩ := Int.eq_ofNat_of_zero_le ha
  obtain ⟨n, rfl⟩ := Int.eq_ofNat_of_zero_le hb
  rfl

/-- What the division makes of a file whose length is an `int`. -/
theorem div32_of_lt (hpos : 0 < len) (hlow : 0 ≤ calls.ftell.toInt)
    (hlt : calls.ftell.toInt < 2 ^ 31) :
    div32 calls.inputFileLen len = some ((calls.ftell.toInt.toNat / len.toNat : Nat) : Int) := by
  have hsigned : toSigned calls.ftell.toInt = calls.ftell.toInt := toSigned_of_lt (by omega) hlt
  have hquot := tdiv_eq_natCast hlow hpos.le
  have hle := Nat.div_le_self calls.ftell.toInt.toNat len.toNat
  rw [Calls.inputFileLen, hsigned, div32, if_neg hpos.ne', hquot]
  generalize calls.ftell.toInt.toNat / len.toNat = q at hle ⊢
  exact int32_of_mem (by omega) (by omega)

/-- Of a longer file some frames are not counted. -/
theorem ftell_lt_of_count (hpos : 0 < len) (hlen : len < 2 ^ 31) {count : Int}
    (hcount : div32 calls.inputFileLen len = some count)
    (heq : count.toNat = calls.ftell.toInt.toNat / len.toNat) : calls.ftell.toInt < 2 ^ 31 := by
  by_contra hge
  have hsigned := toSigned_le (Int.not_lt.mp hge)
  rw [div32, if_neg hpos.ne'] at hcount
  obtain ⟨rfl, -⟩ := of_int32_eq_some hcount
  have hlenpos : 0 < len.toNat := by omega
  rw [Calls.inputFileLen] at heq
  rcases Int.lt_or_le (toSigned calls.ftell.toInt) 0 with hneg | hnonneg
  · -- the length is taken for a negative one
    have hzero : ((toSigned calls.ftell.toInt).tdiv len).toNat = 0 := by
      apply Int.toNat_of_nonpos
      rw [← Int.neg_nonneg, ← Int.neg_tdiv]
      exact Int.tdiv_nonneg (by omega) hpos.le
    rw [hzero, eq_comm, Nat.div_eq_zero_iff] at heq
    omega
  · -- or for one that is shorter by a frame at least
    rw [tdiv_eq_natCast hnonneg hpos.le, Int.toNat_natCast] at heq
    have hlonger : (toSigned calls.ftell.toInt).toNat + len.toNat ≤ calls.ftell.toInt.toNat := by
      omega
    have hmore := Nat.div_le_div_right (c := len.toNat) hlonger
    rw [Nat.add_div_right _ hlenpos] at hmore
    omega

/-- The end of the function, behind a loop over all frames or over none. -/
theorem settles_loop_iff (hlen : len < 2 ^ 31) (hopen : ¬ calls.allocOpen < 0)
    (hsucceed : calls.Succeed) :
    Settles (if 0 < len ∧ 0 ≤ calls.ftell.toInt then some (calls.ftell.toInt.toNat / len.toNat)
        else none) (encodeFrom sdk param calls len lenAlign) ↔
      calls.FramesFit param len lenAlign := by
  obtain ⟨halloc, hin, hout, hcreate, hinit, hvir⟩ := hsucceed
  have hrun : encodeFrom sdk param calls len lenAlign =
      (div32 calls.inputFileLen len).bind fun count =>
        (encodeFrames sdk param len lenAlign count.toNat 0 0).map fun frames =>
          ⟨0, takenEvents ++ frames ++ [.release .memory, .release .ion] ++ exitEvents⟩ := by
    rw [encodeFrom, if_neg hopen, if_neg halloc, hin, hout, hcreate, hinit, hvir]
    rfl
  have hids (frames : List Event) :
      submitted (takenEvents ++ frames ++ [.release .memory, .release .ion] ++ exitEvents) =
        submitted frames := by
    rw [submitted_append, submitted_append, submitted_append]
    exact (List.append_nil _).trans (List.append_nil _)
  rw [hrun]
  constructor
  · rintro ⟨result, hresult, -, hall⟩
    obtain ⟨count, hcount, hloop⟩ := Option.bind_eq_some_iff.mp hresult
    obtain ⟨frames, hframes, rfl⟩ := Option.map_eq_some_iff.mp hloop
    obtain ⟨n, hn, hsubmitted⟩ := hall rfl
    obtain ⟨⟨hpos, hlow⟩, hn⟩ := Option.ite_none_right_eq_some.mp hn
    obtain rfl := Option.some.inj hn
    rw [hids, (encodeFrames_spec hframes).2] at hsubmitted
    have heq : count.toNat = calls.ftell.toInt.toNat / len.toNat := by
      simpa using congrArg List.length hsubmitted
    have hdefined := exists_encodeFrames_iff.mp ⟨frames, hframes⟩
    rw [heq] at hdefined
    exact ⟨hpos, hlow, ftell_lt_of_count hpos hlen hcount heq, hdefined⟩
  · rintro ⟨hpos, hlow, hlt, hloop⟩
    obtain ⟨frames, hframes⟩ : ∃ frames, encodeFrames sdk param len lenAlign
        (calls.ftell.toInt.toNat / len.toNat) 0 0 = some frames := exists_encodeFrames_iff.mpr hloop
    obtain ⟨hneutral, hsubmitted⟩ := encodeFrames_spec hframes
    rw [div32_of_lt hpos hlow hlt, Option.bind_some, Int.toNat_natCast, hframes,
      if_pos ⟨hpos, hlow⟩]
    refine ⟨_, rfl, balanced_of_neutral hneutral, fun _ => ⟨_, rfl, ?_⟩⟩
    rw [hids, hsubmitted, List.range_eq_range']

/-- Where one of the calls fails, something is kept. -/
theorem succeed_of_settles (hopen : ¬ calls.allocOpen < 0) {count : Option Nat}
    (h : Settles count (encodeFrom sdk param calls len lenAlign)) : calls.Succeed := by
  rw [encodeFrom, if_neg hopen] at h
  by_cases halloc : calls.allocAlloc < 0
  · rw [if_pos halloc] at h
    exact absurd h (not_settles_of_not_balanced nofun)
  rw [if_neg halloc] at h
  by_cases hgiven : calls.inFile = false ∨ calls.outFile = false ∨ calls.create = false
  · rw [if_pos hgiven] at h
    refine absurd h (not_settles_of_not_balanced ?_)
    cases calls.create <;> exact nofun
  rw [if_neg hgiven] at h
  obtain ⟨hin, hout, hcreate⟩ : calls.inFile = true ∧ calls.outFile = true ∧
      calls.create = true := by
    simpa only [not_or, Bool.not_eq_false] using hgiven
  rw [hcreate, if_pos rfl] at h
  have hleak : ¬ Balanced (takenEvents ++ exitEvents) := nofun
  by_cases hinit : calls.init = 0
  · rw [if_neg (not_not_intro hinit)] at h
    refine ⟨halloc, hin, hout, hcreate, hinit, ?_⟩
    by_contra hvir
    cases hcount : div32 calls.inputFileLen len with
    | none =>
      rw [hcount] at h
      obtain ⟨_, h, -⟩ := h
      cases h
    | some total =>
      rw [hcount, Option.bind_some, if_pos (Bool.not_eq_true _ ▸ hvir)] at h
      exact not_settles_of_not_balanced hleak h
  · rw [if_pos hinit] at h
    exact absurd h (not_settles_of_not_balanced hleak)

/-- `encodeFile` gives back just what it took, and returns 0 only behind the last frame, if and only
if the lengths of the frame are defined and `allocOpen` fails, or every other call succeeds and the
frames fit. -/
theorem settles_encodeFile_iff (fmts : PixelFmts) (sdk : Sdk) (param : EncodeParam)
    (calls : Calls) :
    Settles (frameCount fmts param calls) (encodeFile fmts sdk param calls) ↔
      ∃ len lenAlign, oneFrameLen fmts param = some len ∧
        oneFrameLenAlign fmts param = some lenAlign ∧
        (calls.allocOpen < 0 ∨ (calls.Succeed ∧ calls.FramesFit param len lenAlign)) := by
  rw [encodeFile, frameCount]
  cases hlen : oneFrameLen fmts param with
  | none =>
    refine iff_of_false ?_ ?_
    · rintro ⟨_, h, -⟩
      cases h
    · rintro ⟨_, _, h, -⟩
      cases h
  | some len =>
    cases hlenAlign : oneFrameLenAlign fmts param with
    | none =>
      refine iff_of_false ?_ ?_
      · rintro ⟨_, h, -⟩
        cases h
      · rintro ⟨_, _, -, h, -⟩
        cases h
    | some lenAlign =>
      simp only [Option.bind_some, Option.some_inj, exists_and_left, exists_eq_left']
      by_cases hopen : calls.allocOpen < 0
      · refine iff_of_true ?_ (.inl hopen)
        rw [encodeFrom, if_pos hopen]
        refine ⟨_, rfl, rfl, fun hret => ?_⟩
        change calls.allocOpen = 0 at hret
        rw [hret] at hopen
        exact absurd hopen (by decide)
      · rw [or_iff_right hopen]
        constructor
        · intro h
          have hsucceed := succeed_of_settles hopen h
          exact ⟨hsucceed, (settles_loop_iff (oneFrameLen_lt hlen) hopen hsucceed).mp h⟩
        · rintro ⟨hsucceed, hfit⟩
          exact (settles_loop_iff (oneFrameLen_lt hlen) hopen hsucceed).mpr hfit

/-- `init` fails for a picture of 800 by 480: `encodeFile` returns 0, and the memory and the device
stay open. -/
theorem init_failure_leaks :
    ¬ ∀ fmts sdk param calls,
      Settles (frameCount fmts param calls) (encodeFile fmts sdk param calls) := by
  intro h
  have hsettles := h ⟨0, 4⟩ ⟨0, 0, 0, 0, 0, 0⟩ ⟨800, 480, 0, 0, 0, 30⟩
    ⟨0, 0, true, true, true, true, -1, 576000⟩
  have hlen : oneFrameLen ⟨0, 4⟩ ⟨800, 480, 0, 0, 0, 30⟩ = some 576000 := by decide
  have hlenAlign : oneFrameLenAlign ⟨0, 4⟩ ⟨800, 480, 0, 0, 0, 30⟩ = some 576000 := by decide
  rw [encodeFile, hlen, hlenAlign, Option.bind_some, Option.bind_some] at hsettles
  exact absurd (succeed_of_settles (by decide) hsettles).init (by decide)

end BoardTest.Video.EncodeFile
