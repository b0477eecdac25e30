import BoardTest.Lib.Stores
import Mathlib.Data.Fin.Rev
import Mathlib.Data.List.GetD
import Mathlib.Logic.Equiv.Fin.Basic
import Mathlib.Tactic.Ring

/-!
# Quarter turns of a grid

A grid of cells, `unit` samples each, stands in a buffer row by row. A quarter turn makes the column
of a cell its row, and the row counted from the end its column. As a bijection of the samples of the
buffer (`turn`) it has order four (`turn_four`).
-/

namespace BoardTest

variable {rows cols unit : Nat}

/-- The cell in row `y` and column `x` goes to row `x`, its column is `y` counted from the end. -/
def quarter (rows cols : Nat) : Fin rows × Fin cols ≃ Fin cols × Fin rows :=
  (Equiv.prodComm _ _).trans ((Equiv.refl _).prodCongr Fin.revPerm)

/-- The place of a sample of a cell in the buffer. -/
def places (rows cols unit : Nat) : (Fin rows × Fin cols) × Fin unit ≃ Fin (rows * cols * unit) :=
  (finProdFinEquiv.prodCongr (Equiv.refl _)).trans finProdFinEquiv

/-- The bijection between the samples of the buffers of a grid and of the turned grid. -/
def turn (rows cols unit : Nat) : Fin (rows * cols * unit) ≃ Fin (cols * rows * unit) :=
  (places rows cols unit).symm.trans
    (((quarter rows cols).prodCongr (Equiv.refl _)).trans (places cols rows unit))

theorem coe_places (y : Fin rows) (x : Fin cols) (c : Fin unit) :
    (places rows cols unit ((y, x), c) : Nat) = y * (cols * unit) + (x * unit + c) := by
  show (c : Nat) + unit * (x + cols * y) = _
  ring

theorem turn_places (y : Fin rows) (x : Fin cols) (c : Fin unit) :
    turn rows cols unit (places rows cols unit ((y, x), c)) =
      places cols rows unit ((x, y.rev), c) := by
  rw [turn, Equiv.trans_apply, Equiv.symm_apply_apply]
  rfl

/-- Every sample is one of a cell. -/
theorem exists_places (p : Fin (rows * cols * unit)) :
    ∃ y x c, places rows cols unit ((y, x), c) = p :=
  ⟨_, _, _, (places rows cols unit).apply_symm_apply p⟩

/-- A sample of a cell in column `i`, the row counted as `j` from the end. -/
theorem exists_turn_eq {i j c : Nat} (hi : i < cols) (hj : j < rows) (hc : c < unit) :
    ∃ p : Fin (rows * cols * unit), (p : Nat) = (rows - j - 1) * (cols * unit) + (i * unit + c) ∧
      (turn rows cols unit p : Nat) = i * (rows * unit) + (j * unit + c) := by
  refine ⟨places rows cols unit ((Fin.rev ⟨j, hj⟩, ⟨i, hi⟩), ⟨c, hc⟩), ?_, ?_⟩
  · rw [coe_places, Fin.val_rev, Nat.sub_sub]
  · rw [turn_places, Fin.rev_rev, coe_places]

/-- Four quarter turns are none. -/
theorem turn_four (p : Fin (rows * cols * unit)) :
    turn cols rows unit (turn rows cols unit (turn cols rows unit (turn rows cols unit p))) =
      p := by
  obtain ⟨y, x, c, rfl⟩ := exists_places p
  simp only [turn_places, Fin.rev_rev]

section
variable {α : Type*} {n m : Nat} {src dst out : List α}

/-- `out` has the elements of `src` at the places to which `σ` takes them. -/
def Moved (σ : Fin n ≃ Fin m) (src out : List α) : Prop :=
  out.length = m ∧ ∀ p, out[(σ p : Nat)]? = src[(p : Nat)]?

theorem Moved.cast {σ : Fin n ≃ Fin m} (h : Moved σ src out) {n' m' : Nat} (hn : n' = n)
    (hm : m = m') : Moved ((finCongr hn).trans (σ.trans (finCongr hm))) src out := by
  subst hn hm
  exact h

/-- Stores that copy every element of `src` to its place, in any order. -/
theorem exists_stores_moved {σ : Fin n ≃ Fin m} {ws : List (Nat × α)} (hdst : dst.length = m)
    (hall : ∀ p, ∃ w ∈ ws, w.1 = σ p)
    (hws : ∀ w ∈ ws, ∃ p : Fin n, w.1 = σ p ∧ src[(p : Nat)]? = some w.2) :
    ∃ out, stores dst ws = some out ∧ Moved σ src out := by
  have hinside : ∀ w ∈ ws, w.1 < dst.length := by
    intro w hw
    obtain ⟨p, hp, -⟩ := hws w hw
    rw [hp, hdst]
    exact (σ p).isLt
  obtain ⟨out, hout⟩ := exists_stores hinside
  refine ⟨out, hout, (length_stores hout).trans hdst, ?_⟩
  intro p
  obtain ⟨w, hw, hwp⟩ := hall p
  obtain ⟨q, hq, hsrc⟩ := hws w hw
  obtain rfl : q = p := σ.injective (Fin.ext (hq.symm.trans hwp))
  have hagree : ∀ v ∈ ws, v.1 = σ q → v.2 = w.2 := by
    intro v hv hvq
    obtain ⟨q', hq', hsrc'⟩ := hws v hv
    obtain rfl : q' = q := σ.injective (Fin.ext (hq'.symm.trans hvq))
    exact Option.some.inj (hsrc'.symm.trans hsrc)
  rw [getElem?_stores hout (by rw [hdst]; exact (σ q).isLt),
    lastStore_eq_some_of_agree ⟨w, hw, hwp⟩ hagree, hsrc, Option.some_or]

/-- Four buffers, each the turned one before it. -/
theorem eq_of_moved_four {a b c d : List α} (hsrc : src.length = rows * cols * unit)
    (ha : Moved (turn rows cols unit) src a) (hb : Moved (turn cols rows unit) a b)
    (hc : Moved (turn rows cols unit) b c) (hd : Moved (turn cols rows unit) c d) : d = src := by
  apply List.ext_getElem?
  intro i
  by_cases hi : i < rows * cols * unit
  · have hround := hd.2 (turn rows cols unit (turn cols rows unit (turn rows cols unit ⟨i, hi⟩)))
    rw [turn_four] at hround
    rw [hround, hc.2, hb.2, ha.2]
  · rw [List.getElem?_eq_none (by rw [hd.1]; omega), List.getElem?_eq_none (by omega)]

end

end BoardTest
