import Mathlib.Algebra.Order.Ring.Int
import Mathlib.Tactic.Common

/-!
# Totals along a run

A run is a list of events over a state that moves on with each of them. `total` adds up what a
measure gives for the steps of a run. Of two measures, one below the other, the totals are equal
exactly when the measures are at every step (`total_eq_iff`).
-/

namespace BoardTest

variable {σ ε : Type*} (next : σ → ε → σ)

/-- The sum of a measure over the steps of a run. -/
def total (m : σ → ε → Nat) : σ → List ε → Nat
  | _, [] => 0
  | s, e :: es => m s e + total m (next s e) es

/-- A condition holds of every step of a run. -/
def Along (P : σ → ε → Prop) : σ → List ε → Prop
  | _, [] => True
  | s, e :: es => P s e ∧ Along P (next s e) es

variable {next} {m m' : σ → ε → Nat}

theorem total_le (h : ∀ s e, m s e ≤ m' s e) (s : σ) (es : List ε) :
    total next m s es ≤ total next m' s es := by
  induction es generalizing s with
  | nil => exact Nat.le_refl 0
  | cons e es ih => exact Nat.add_le_add (h s e) (ih (next s e))

/-- The totals are equal exactly when the measures are, step by step. -/
theorem total_eq_iff (h : ∀ s e, m s e ≤ m' s e) (s : σ) (es : List ε) :
    total next m s es = total next m' s es ↔ Along next (fun s e => m s e = m' s e) s es := by
  induction es generalizing s with
  | nil => simp [total, Along]
  | cons e es ih =>
    have hstep := h s e
    have hrest : total next m (next s e) es ≤ total next m' (next s e) es :=
      total_le h (next s e) es
    rw [total, total, Along, ← ih]
    omega

theorem total_eq_zero {s : σ} {es : List ε} (h : Along next (fun s e => m s e = 0) s es) :
    total next m s es = 0 := by
  induction es generalizing s with
  | nil => rfl
  | cons e es ih => rw [total, h.1, ih h.2]

theorem Along.mono {P Q : σ → ε → Prop} (h : ∀ s e, P s e → Q s e) {s : σ} {es : List ε}
    (hP : Along next P s es) : Along next Q s es := by
  induction es generalizing s with
  | nil => trivial
  | cons e es ih => exact ⟨h s e hP.1, ih hP.2⟩

theorem along_and {P Q : σ → ε → Prop} {s : σ} {es : List ε} :
    Along next (fun s e => P s e ∧ Q s e) s es ↔ Along next P s es ∧ Along next Q s es := by
  induction es generalizing s with
  | nil => simp [Along]
  | cons e es ih =>
    simp only [Along, ih]
    tauto

end BoardTest
