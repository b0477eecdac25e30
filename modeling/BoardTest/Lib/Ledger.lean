import BoardTest.Lib.Reactive
import Mathlib.Data.List.Nodup

/-!
# Resources that a machine gives up

The events of a run bring resources, a state holds some of them, and an action touches resources
and may release them. When every step touches only what it holds or is brought, and what it releases
is no longer held, a run whose events bring new resources never touches one that it has released
(`react_releases`).
-/

namespace BoardTest

variable {σ ε ω κ : Type*}

/-- What a step does with the resources that it has `before`, and of which it holds some `after`. -/
structure KeepsLedger (touches releases : ω → List κ) (before after : List κ) (os : List ω) :
    Prop where
  nodup : after.Nodup
  holds : after ⊆ before
  touched : ∀ o ∈ os, touches o ⊆ before
  released : ∀ o ∈ os, ∀ a ∈ releases o, a ∉ after
  apart : os.Pairwise fun x y => ∀ a ∈ releases x, a ∉ touches y

section

variable {step : σ → ε → σ × List ω} {held : σ → List κ} {brings : ε → List κ}
  {touches releases : ω → List κ}

/-- What is held after a step is not among what further events bring. -/
theorem nodup_step {s : σ} {e : ε} {es : List ε}
    (hstep : ∀ s e, (held s ++ brings e).Nodup →
      KeepsLedger touches releases (held s ++ brings e) (held (step s e).1) (step s e).2)
    (hs : (held s ++ (e :: es).flatMap brings).Nodup) :
    (held (step s e).1 ++ es.flatMap brings).Nodup := by
  rw [List.flatMap_cons, ← List.append_assoc] at hs
  obtain ⟨hnow, hlater, hapart⟩ := List.nodup_append.mp hs
  have h := hstep s e hnow
  exact List.nodup_append.mpr ⟨h.nodup, hlater, fun a ha => hapart a (h.holds ha)⟩

/-- A run touches what it holds at first and what it is brought. -/
theorem react_touches {s : σ} {es : List ε}
    (hstep : ∀ s e, (held s ++ brings e).Nodup →
      KeepsLedger touches releases (held s ++ brings e) (held (step s e).1) (step s e).2)
    (hs : (held s ++ es.flatMap brings).Nodup) :
    ∀ o ∈ (react step s es).2, touches o ⊆ held s ++ es.flatMap brings := by
  induction es generalizing s with
  | nil => simp
  | cons e es ih =>
    have hnext := nodup_step hstep hs
    rw [List.flatMap_cons, ← List.append_assoc] at hs ⊢
    have h := hstep s e (List.nodup_append.mp hs).1
    intro o ho a ha
    rcases List.mem_append.mp ho with ho | ho
    · exact List.mem_append_left _ (h.touched o ho ha)
    · rcases List.mem_append.mp (ih hnext o ho ha) with hin | hin
      · exact List.mem_append_left _ (h.holds hin)
      · exact List.mem_append_right _ hin

/-- Nothing is touched after it has been released. -/
theorem react_releases {s : σ} {es : List ε} (hsub : ∀ o : ω, releases o ⊆ touches o)
    (hstep : ∀ s e, (held s ++ brings e).Nodup →
      KeepsLedger touches releases (held s ++ brings e) (held (step s e).1) (step s e).2)
    (hs : (held s ++ es.flatMap brings).Nodup) :
    (react step s es).2.Pairwise fun x y => ∀ a ∈ releases x, a ∉ touches y := by
  induction es generalizing s with
  | nil => exact .nil
  | cons e es ih =>
    have hnext := nodup_step hstep hs
    rw [List.flatMap_cons, ← List.append_assoc] at hs
    obtain ⟨hnow, -, hapart⟩ := List.nodup_append.mp hs
    have h := hstep s e hnow
    refine List.pairwise_append.mpr ⟨h.apart, ih hnext, fun x hx y hy a ha hay => ?_⟩
    rcases List.mem_append.mp (react_touches hstep hnext y hy hay) with hin | hin
    · exact h.released x hx a ha hin
    · exact hapart a (h.touched x hx (hsub x ha)) a hin rfl

end

end BoardTest
