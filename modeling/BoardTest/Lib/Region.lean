import BoardTest.Lib.Rect
import Mathlib.Data.Set.Prod
import Mathlib.Order.Interval.Set.Disjoint

/-!
# Areas of point sets

The points of a rectangle, and the area of a set of points that is empty or a rectangle with sides
along the axes, degenerate ones among them (`HasArea`; a set has one area at most,
`HasArea.unique`). Two rectangles share a set of this kind, and its area is `Rect.inter`.
-/

namespace BoardTest

variable {K : Type*} [Field K] [LinearOrder K]

/-- The area of the empty set and of `[x, x'] × [y, y']`. -/
inductive HasArea : Set (K × K) → K → Prop
  | empty : HasArea ∅ 0
  | box {x x' y y' : K} (hx : x ≤ x') (hy : y ≤ y') :
      HasArea (Set.Icc x x' ×ˢ Set.Icc y y') ((x' - x) * (y' - y))

omit [Field K] in
theorem prod_Icc_nonempty {x x' y y' : K} (hx : x ≤ x') (hy : y ≤ y') :
    (Set.Icc x x' ×ˢ Set.Icc y y').Nonempty :=
  (Set.nonempty_Icc.mpr hx).prod (Set.nonempty_Icc.mpr hy)

omit [Field K] in
theorem eq_of_Icc_eq_Icc {x x' y y' : K} (hx : x ≤ x') (h : Set.Icc x x' = Set.Icc y y') :
    x = y ∧ x' = y' := by
  have hy : y ≤ y' := Set.nonempty_Icc.mp (h ▸ Set.nonempty_Icc.mpr hx)
  obtain ⟨hlow, hhigh⟩ := (Set.Icc_subset_Icc_iff hx).mp h.le
  obtain ⟨hlow', hhigh'⟩ := (Set.Icc_subset_Icc_iff hy).mp h.ge
  exact ⟨le_antisymm hlow' hlow, le_antisymm hhigh hhigh'⟩

theorem HasArea.eq_of_box {x x' y y' A : K} (hx : x ≤ x') (hy : y ≤ y')
    (hA : HasArea (Set.Icc x x' ×ˢ Set.Icc y y') A) : A = (x' - x) * (y' - y) := by
  generalize hS : Set.Icc x x' ×ˢ Set.Icc y y' = S at hA
  have hne : S.Nonempty := hS ▸ prod_Icc_nonempty hx hy
  cases hA with
  | empty => exact absurd hne Set.not_nonempty_empty
  | box hx' hy' =>
    obtain ⟨hcolumns, hrows⟩ := (Set.prod_eq_prod_iff_of_nonempty (hS ▸ hne)).mp hS
    obtain ⟨rfl, rfl⟩ := eq_of_Icc_eq_Icc hx hcolumns
    obtain ⟨rfl, rfl⟩ := eq_of_Icc_eq_Icc hy hrows
    rfl

theorem HasArea.unique {S : Set (K × K)} {A B : K} (hA : HasArea S A) (hB : HasArea S B) :
    A = B := by
  cases hB with
  | box hx hy => exact hA.eq_of_box hx hy
  | empty =>
    generalize hS : (∅ : Set (K × K)) = S at hA
    cases hA with
    | empty => rfl
    | box hx hy =>
      have hne := prod_Icc_nonempty hx hy
      rw [← hS] at hne
      exact absurd hne Set.not_nonempty_empty

namespace Rect

/-- The points of a rectangle, its sides among them. -/
def region (r : Rect K) : Set (K × K) := Set.Icc r.left r.right ×ˢ Set.Icc r.top r.bottom

/-- The points between its sides. -/
def inner (r : Rect K) : Set (K × K) := Set.Ioo r.left r.right ×ˢ Set.Ioo r.top r.bottom

end Rect

variable [IsStrictOrderedRing K]

theorem overlap_eq_zero_iff {lo hi lo' hi' : K} :
    overlap lo hi lo' hi' = 0 ↔ Set.Ioo lo hi ∩ Set.Ioo lo' hi' = ∅ := by
  rw [← Set.disjoint_iff_inter_eq_empty, Set.Ioo_disjoint_Ioo, overlap, max_eq_left_iff, sub_nonpos]

theorem overlap_of_lt {lo hi lo' hi' : K} (h : min hi hi' < max lo lo') :
    overlap lo hi lo' hi' = 0 :=
  max_eq_left (sub_nonpos.mpr h.le)

namespace Rect

/-- The area that two rectangles share is that of the points they share. -/
theorem hasArea_inter (r s : Rect K) : HasArea (r.region ∩ s.region) (r.inter s) := by
  rw [region, region, Set.prod_inter_prod, Set.Icc_inter_Icc, Set.Icc_inter_Icc, inter]
  by_cases hx : max r.left s.left ≤ min r.right s.right
  · by_cases hy : max r.top s.top ≤ min r.bottom s.bottom
    · rw [overlap, overlap, max_eq_right (sub_nonneg.mpr hx), max_eq_right (sub_nonneg.mpr hy)]
      exact .box hx hy
    · rw [overlap_of_lt (not_le.mp hy), mul_zero, Set.Icc_eq_empty hy, Set.prod_empty]
      exact .empty
  · rw [overlap_of_lt (not_le.mp hx), zero_mul, Set.Icc_eq_empty hx, Set.empty_prod]
    exact .empty

/-- Nothing is shared exactly where the rectangles touch or are apart. -/
theorem inter_eq_zero_iff {r s : Rect K} : r.inter s = 0 ↔ r.inner ∩ s.inner = ∅ := by
  rw [inter, mul_eq_zero, overlap_eq_zero_iff, overlap_eq_zero_iff, inner, inner,
    Set.prod_inter_prod, Set.prod_eq_empty_iff]

theorem inter_nonneg (r s : Rect K) : 0 ≤ r.inter s :=
  mul_nonneg (overlap_nonneg _ _ _ _) (overlap_nonneg _ _ _ _)

theorem iou_nonneg (r s : Rect K) : 0 ≤ r.iou s :=
  div_nonneg (r.inter_nonneg s) (r.union_pos s).le

end Rect

end BoardTest
