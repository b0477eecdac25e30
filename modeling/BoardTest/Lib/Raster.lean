import Mathlib.Data.List.Range
import Mathlib.Data.Nat.Basic
import Mathlib.Tactic.Common

/-!
# Raster order

A picture of width `w` stands in a buffer row by row: the sample at column `x` of row `y` has the
index `y * w + x`. Every index below `w * h` is that of one place (`exists_raster`, `raster_div`,
`raster_mod`). A loop over the rows that writes `w` samples in each writes in this order
(`getElem?_flatMap_range`).
-/

namespace BoardTest

variable {w h x y : Nat}

/-- A row ends before the next one begins. -/
theorem raster_lt_row {y' : Nat} (hx : x < w) (hy : y < y') : y * w + x < y' * w := by
  calc y * w + x < y * w + w := by omega
    _ = (y + 1) * w := by rw [Nat.add_mul, Nat.one_mul]
    _ ≤ y' * w := Nat.mul_le_mul_right w hy

theorem raster_lt (hx : x < w) (hy : y < h) : y * w + x < w * h := by
  rw [Nat.mul_comm w h]
  exact raster_lt_row hx hy

theorem raster_div (hx : x < w) : (y * w + x) / w = y := by
  rw [Nat.mul_comm, Nat.mul_add_div (by omega), Nat.div_eq_of_lt hx, Nat.add_zero]

theorem raster_mod (hx : x < w) : (y * w + x) % w = x := Nat.mul_add_mod_of_lt hx

/-- An index is that of one place. -/
theorem raster_inj {x' y' : Nat} (hx : x < w) (hx' : x' < w) (h : y * w + x = y' * w + x') :
    y = y' ∧ x = x' := by
  have hdiv := raster_div (y := y) hx
  have hmod := raster_mod (y := y) hx
  rw [h] at hdiv hmod
  exact ⟨hdiv.symm.trans (raster_div hx'), hmod.symm.trans (raster_mod hx')⟩

theorem exists_raster {p : Nat} (hp : p < w * h) : ∃ y x, y < h ∧ x < w ∧ p = y * w + x := by
  have hw : 0 < w := by
    by_contra hw
    have : w = 0 := by omega
    rw [this, Nat.zero_mul] at hp
    omega
  refine ⟨p / w, p % w, ?_, Nat.mod_lt p hw, ?_⟩
  · rwa [Nat.div_lt_iff_lt_mul hw, Nat.mul_comm]
  · exact (Nat.div_add_mod' p w).symm

section
variable {α : Type*} {n m i j : Nat} {g : Nat → List α}

theorem length_flatMap_range (hlen : ∀ i < n, (g i).length = m) :
    ((List.range n).flatMap g).length = n * m := by
  induction n with
  | zero => simp
  | succ n ih =>
    rw [List.range_succ, List.flatMap_append, List.length_append,
      ih fun i hi => hlen i (by omega), List.flatMap_singleton, hlen n (by omega),
      Nat.add_mul, Nat.one_mul]

/-- The sample `j` of row `i`. -/
theorem getElem?_flatMap_range (hlen : ∀ i < n, (g i).length = m) (hi : i < n) (hj : j < m) :
    ((List.range n).flatMap g)[i * m + j]? = (g i)[j]? := by
  induction n with
  | zero => omega
  | succ n ih =>
    have hbefore := length_flatMap_range (n := n) fun i hi => hlen i (by omega)
    rw [List.range_succ, List.flatMap_append, List.flatMap_singleton]
    by_cases hin : i < n
    · rw [List.getElem?_append_left, ih (fun i hi => hlen i (by omega)) hin]
      rw [hbefore]
      exact raster_lt_row hj hin
    · obtain rfl : i = n := by omega
      rw [List.getElem?_append_right (by omega), hbefore, Nat.add_sub_cancel_left]

end

end BoardTest
