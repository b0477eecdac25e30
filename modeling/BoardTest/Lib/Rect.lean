import Mathlib.Algebra.Order.Field.Basic
import Mathlib.Tactic.Linarith
import Mathlib.Tactic.Positivity

/-!
# Rectangles and how far they coincide

Rectangles with sides along the axes, over any ordered field. Along one axis two segments share
`overlap`, which is nothing where they are apart; two rectangles share the product of the two. The
union of two rectangles has a positive area, so that `iou`, the area they share over the area they
cover, is a quotient in earnest.
-/

namespace BoardTest

variable {K : Type*} [Field K] [LinearOrder K]

/-- The length that the segments `lo … hi` and `lo' … hi'` share. -/
def overlap (lo hi lo' hi' : K) : K := max 0 (min hi hi' - max lo lo')

theorem overlap_comm (lo hi lo' hi' : K) : overlap lo hi lo' hi' = overlap lo' hi' lo hi := by
  rw [overlap, overlap, min_comm, max_comm lo]

theorem overlap_nonneg (lo hi lo' hi' : K) : 0 ≤ overlap lo hi lo' hi' := le_max_left _ _

/-- A rectangle of positive width and height. -/
structure Rect (K : Type*) [LT K] where
  left : K
  top : K
  right : K
  bottom : K
  left_lt_right : left < right
  top_lt_bottom : top < bottom

namespace Rect

def area (r : Rect K) : K := (r.right - r.left) * (r.bottom - r.top)

/-- The area that two rectangles share. -/
def inter (r s : Rect K) : K :=
  overlap r.left r.right s.left s.right * overlap r.top r.bottom s.top s.bottom

/-- The area that two rectangles cover together. -/
def union (r s : Rect K) : K := r.area + s.area - r.inter s

/-- Intersection over union. -/
def iou (r s : Rect K) : K := r.inter s / r.union s

theorem inter_comm (r s : Rect K) : r.inter s = s.inter r := by
  rw [inter, inter, overlap_comm, overlap_comm r.top]

theorem union_comm (r s : Rect K) : r.union s = s.union r := by
  rw [union, union, inter_comm, add_comm]

theorem iou_comm (r s : Rect K) : r.iou s = s.iou r := by
  rw [iou, iou, inter_comm, union_comm]

end Rect

variable [IsStrictOrderedRing K]

theorem overlap_le_left {lo hi : K} (lo' hi' : K) (h : lo ≤ hi) :
    overlap lo hi lo' hi' ≤ hi - lo := by
  apply max_le
  · exact sub_nonneg.mpr h
  · exact sub_le_sub (min_le_left _ _) (le_max_left _ _)

theorem overlap_eq_zero {lo hi lo' hi' : K} (h : lo > hi' ∨ hi < lo') :
    overlap lo hi lo' hi' = 0 := by
  apply max_eq_left
  rw [sub_nonpos]
  rcases h with h | h
  · exact (min_le_right _ _).trans (h.le.trans (le_max_left _ _))
  · exact (min_le_left _ _).trans (h.le.trans (le_max_right _ _))

/-- Segments of which neither lies behind the other share what lies between their inner ends. -/
theorem overlap_eq_sub {lo hi lo' hi' : K} (h : lo ≤ hi) (h' : lo' ≤ hi') (hlo : lo ≤ hi')
    (hhi : lo' ≤ hi) : overlap lo hi lo' hi' = min hi hi' - max lo lo' := by
  apply max_eq_right
  rw [sub_nonneg]
  exact max_le (le_min h hlo) (le_min hhi h')

namespace Rect

theorem area_pos (r : Rect K) : 0 < r.area :=
  mul_pos (sub_pos.mpr r.left_lt_right) (sub_pos.mpr r.top_lt_bottom)

theorem inter_le_area (r s : Rect K) : r.inter s ≤ r.area := by
  apply mul_le_mul
  · exact overlap_le_left s.left s.right r.left_lt_right.le
  · exact overlap_le_left s.top s.bottom r.top_lt_bottom.le
  · exact overlap_nonneg r.top r.bottom s.top s.bottom
  · exact sub_nonneg.mpr r.left_lt_right.le

/-- The quotient `iou` is defined. -/
theorem union_pos (r s : Rect K) : 0 < r.union s := by
  have hr := r.inter_le_area s
  have hs := s.area_pos
  rw [union]
  linarith

theorem iou_le_one (r s : Rect K) : r.iou s ≤ 1 := by
  have hr := r.inter_le_area s
  have hs := s.inter_le_area r
  rw [inter_comm] at hs
  rw [iou, div_le_one (r.union_pos s), union]
  linarith

end Rect

end BoardTest
