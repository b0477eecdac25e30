import Mathlib.Computability.StateTransition
import Mathlib.Tactic.Common

/-!
# While loops

A loop is a partial step function: `none` is where it is left. `StateTransition.eval` runs it, and a
state is in the result when the loop comes to its end there. An invariant that every step keeps,
with a measure that every step brings down, gives such a state (`exists_mem_eval`).
-/

namespace BoardTest

open StateTransition

variable {σ : Type*} {step : σ → Option σ}

theorem mem_eval_self {s : σ} (h : step s = none) : s ∈ eval step s :=
  mem_eval.mpr ⟨.refl, h⟩

theorem eval_of_step {s t : σ} (h : step s = some t) : eval step s = eval step t :=
  reaches_eval (.single h)

/-- The rule for a loop: it comes to its end, with the invariant and without a next step. -/
theorem exists_mem_eval {Inv : σ → Prop} (measure : σ → Nat)
    (hstep : ∀ s t, Inv s → step s = some t → Inv t ∧ measure t < measure s) {s : σ}
    (hs : Inv s) : ∃ t, t ∈ eval step s ∧ Inv t ∧ step t = none := by
  induction hm : measure s using Nat.strong_induction_on generalizing s with
  | _ m ih =>
    cases hnext : step s with
    | none => exact ⟨s, mem_eval_self hnext, hs, hnext⟩
    | some t =>
      obtain ⟨ht, hlt⟩ := hstep s t hs hnext
      rw [eval_of_step hnext]
      exact ih (measure t) (hm ▸ hlt) ht rfl

end BoardTest
