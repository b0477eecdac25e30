import Mathlib.Data.List.Infix
import Mathlib.Data.List.Induction

/-!
# Loops that live on results

A loop that makes one call a round is a step function on its state and the result of the call:
`.ok` is the next state, `.error` says how the loop was left. `feed` runs it on a list of results.
An invariant may speak of the results so far (`feed_invariant`).
-/

namespace BoardTest

variable {σ ρ ε : Type*} {step : σ → ρ → Except ε σ} {s t u : σ} {rs : List ρ} {r : ρ}

/-- The loop from `s` on. -/
def feed (step : σ → ρ → Except ε σ) (s : σ) (rs : List ρ) : Except ε σ := rs.foldlM step s

/-- The last of the results is the one that ends the loop. -/
def EndsOn (step : σ → ρ → Except ε σ) (s : σ) (rs : List ρ) (e : ε) : Prop :=
  ∃ ps r t, rs = ps ++ [r] ∧ feed step s ps = .ok t ∧ step t r = .error e

theorem feed_append_singleton (step : σ → ρ → Except ε σ) (s : σ) (rs : List ρ) (r : ρ) :
    feed step s (rs ++ [r]) = (feed step s rs).bind fun t => step t r := by
  rw [feed, List.foldlM_append]
  simp only [List.foldlM_cons, List.foldlM_nil, bind_pure]
  rfl

theorem feed_append_singleton_iff :
    feed step s (rs ++ [r]) = .ok u ↔ ∃ t, feed step s rs = .ok t ∧ step t r = .ok u := by
  rw [feed_append_singleton]
  cases feed step s rs with
  | error e => exact iff_of_false (fun h => nomatch h) fun ⟨_, h, _⟩ => nomatch h
  | ok t =>
    constructor
    · exact fun h => ⟨t, rfl, h⟩
    · rintro ⟨_, ht, h⟩
      cases ht
      exact h

/-- One result more. -/
theorem feed_next (hs : feed step s rs = .ok t) (hstep : step t r = .ok u) :
    feed step s (rs ++ [r]) = .ok u :=
  feed_append_singleton_iff.mpr ⟨t, hs, hstep⟩

theorem endsOn_append_singleton_iff {e : ε} :
    EndsOn step s (rs ++ [r]) e ↔ ∃ t, feed step s rs = .ok t ∧ step t r = .error e := by
  constructor
  · rintro ⟨ps, q, t, heq, hfeed, hstep⟩
    obtain ⟨rfl, hr⟩ := List.append_inj' heq rfl
    obtain rfl : r = q := List.singleton_inj.mp hr
    exact ⟨t, hfeed, hstep⟩
  · rintro ⟨t, hfeed, hstep⟩
    exact ⟨rs, r, t, rfl, hfeed, hstep⟩

/-- A loop that is on was on before. -/
theorem exists_feed_of_prefix {ps : List ρ} (h : feed step s rs = .ok t) (hps : ps <+: rs) :
    ∃ u, feed step s ps = .ok u := by
  obtain ⟨qs, rfl⟩ := hps
  rw [feed, List.foldlM_append] at h
  cases hfeed : feed step s ps with
  | ok u => exact ⟨u, rfl⟩
  | error e =>
    rw [feed] at hfeed
    rw [hfeed] at h
    cases h

/-- The results that end a loop begin those it was left with. -/
theorem exists_endsOn {e : ε} (h : feed step s rs = .error e) :
    ∃ ps, ps <+: rs ∧ EndsOn step s ps e := by
  induction rs using List.reverseRecOn with
  | nil => cases h
  | append_singleton rs r ih =>
    cases hfeed : feed step s rs with
    | ok t =>
      rw [feed_append_singleton, hfeed] at h
      exact ⟨_, List.prefix_refl _, endsOn_append_singleton_iff.mpr ⟨t, hfeed, h⟩⟩
    | error e' =>
      rw [feed_append_singleton, hfeed] at h
      cases h
      obtain ⟨ps, hps, hend⟩ := ih hfeed
      exact ⟨ps, hps.trans (List.prefix_append _ _), hend⟩

/-- What comes behind the end does not matter. -/
theorem EndsOn.feed_eq {e : ε} {ps : List ρ} (h : EndsOn step s ps e) (hps : ps <+: rs) :
    feed step s rs = .error e := by
  obtain ⟨qs, rfl⟩ := hps
  obtain ⟨ps, r, t, rfl, hfeed, hstep⟩ := h
  have hend : feed step s (ps ++ [r]) = .error e := by
    rw [feed_append_singleton, hfeed]
    exact hstep
  rw [feed] at hend
  rw [feed, List.foldlM_append, hend]
  rfl

/-- A loop ends once. -/
theorem EndsOn.eq_of_prefix {e e' : ε} {ps qs : List ρ} (h : EndsOn step s ps e)
    (h' : EndsOn step s qs e') (hps : ps <+: qs) : ps = qs := by
  obtain ⟨qs, r, t, rfl, hfeed, -⟩ := h'
  rcases List.prefix_concat_iff.mp hps with rfl | hbefore
  · rfl
  · rw [h.feed_eq hbefore] at hfeed
    cases hfeed

/-- The rule for a loop on results: what one round keeps, every run keeps. -/
theorem feed_invariant {I : List ρ → σ → Prop} (hstart : I [] s)
    (hstep : ∀ rs t r u, feed step s rs = .ok t → I rs t → step t r = .ok u → I (rs ++ [r]) u)
    (h : feed step s rs = .ok t) : I rs t := by
  induction rs using List.reverseRecOn generalizing t with
  | nil =>
    cases h
    exact hstart
  | append_singleton rs r ih =>
    obtain ⟨u, hfeed, hlast⟩ := feed_append_singleton_iff.mp h
    exact hstep rs u r t hfeed (ih hfeed) hlast

/-- Where a result alone decides whether the loop goes on, it runs as long as all results do. -/
theorem exists_feed_eq_ok_iff {stays : ρ → Bool}
    (h : ∀ t r, (∃ u, step t r = .ok u) ↔ stays r = true) :
    (∃ t, feed step s rs = .ok t) ↔ ∀ r ∈ rs, stays r = true := by
  induction rs using List.reverseRecOn with
  | nil => exact iff_of_true ⟨s, rfl⟩ fun _ hr => absurd hr List.not_mem_nil
  | append_singleton rs r ih =>
    rw [List.forall_mem_append, List.forall_mem_singleton, ← ih]
    constructor
    · rintro ⟨u, hu⟩
      obtain ⟨t, ht, hstep⟩ := feed_append_singleton_iff.mp hu
      exact ⟨⟨t, ht⟩, (h t r).mp ⟨u, hstep⟩⟩
    · rintro ⟨⟨t, ht⟩, hstays⟩
      obtain ⟨u, hu⟩ := (h t r).mpr hstays
      exact ⟨u, feed_next ht hu⟩

/-- Results before the first that fails a test. -/
theorem prefix_takeWhile {p : ρ → Bool} {ps : List ρ} (hps : ps <+: rs) (h : ∀ r ∈ ps, p r = true) :
    ps <+: rs.takeWhile p := by
  obtain ⟨t, rfl⟩ := hps
  rw [List.takeWhile_append_of_pos h]
  exact List.prefix_append _ _

end BoardTest
