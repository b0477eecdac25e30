import Mathlib.Tactic.Common

/-!
# Schedules that all come to one end

A system in which several things can happen at once takes one step after the other, in an order that
nobody fixes. Where two steps from one state can be followed by one step each to a common state
(`Settling`), a single run to an end decides about all: every run is the beginning of one that comes
to the same end in as many steps (`Settling.runsTo`).
-/

namespace BoardTest

variable {σ : Type*}

/-- The run of `n` steps from one state to another. -/
inductive RunsTo (step : σ → σ → Prop) : Nat → σ → σ → Prop
  | here (a : σ) : RunsTo step 0 a a
  | next {n : Nat} {a b c : σ} (first : step a b) (rest : RunsTo step n b c) :
      RunsTo step (n + 1) a c

/-- Nothing can happen any more. -/
def IsEnd (step : σ → σ → Prop) (a : σ) : Prop := ∀ b, ¬ step a b

/-- Different steps from a state with the invariant meet again. -/
structure Settling (step : σ → σ → Prop) (Inv : σ → Prop) : Prop where
  keeps : ∀ a b, Inv a → step a b → Inv b
  meets : ∀ a b c, Inv a → step a b → step a c → b = c ∨ ∃ d, step b d ∧ step c d

variable {step : σ → σ → Prop} {Inv : σ → Prop} {n m : Nat} {a b c e : σ}

theorem RunsTo.trans (h : RunsTo step n a b) (h' : RunsTo step m b c) :
    RunsTo step (n + m) a c := by
  induction h with
  | here a => rwa [Nat.zero_add]
  | next first rest ih =>
    rw [Nat.add_right_comm]
    exact .next first (ih h')

/-- What a map takes to steps, it takes to runs. -/
theorem RunsTo.map {τ : Type*} {step' : τ → τ → Prop} {f : σ → τ}
    (hf : ∀ a b, step a b → step' (f a) (f b)) (h : RunsTo step n a b) :
    RunsTo step' n (f a) (f b) := by
  induction h with
  | here a => exact .here (f a)
  | next first rest ih => exact .next (hf _ _ first) ih

theorem RunsTo.invariant (hkeeps : ∀ a b, Inv a → step a b → Inv b) (h : RunsTo step n a b)
    (ha : Inv a) : Inv b := by
  induction h with
  | here a => exact ha
  | next first rest ih => exact ih (hkeeps _ _ ha first)

/-- Whatever the first step is, the end is one step nearer. -/
theorem Settling.behind_step (hs : Settling step Inv) (ha : Inv a) (hrun : RunsTo step n a e)
    (he : IsEnd step e) (hstep : step a b) : ∃ k, n = k + 1 ∧ RunsTo step k b e := by
  induction hrun generalizing b with
  | here a => exact absurd hstep (he b)
  | @next n a c e first rest ih =>
    refine ⟨n, rfl, ?_⟩
    rcases hs.meets a b c ha hstep first with rfl | ⟨d, hbd, hcd⟩
    · exact rest
    · obtain ⟨k, rfl, hde⟩ := ih (hs.keeps a c ha first) he hcd
      exact .next hbd hde

/-- Every run is the beginning of one to the same end, of the same length. -/
theorem Settling.runsTo (hs : Settling step Inv) (ha : Inv a) (hrun : RunsTo step n a e)
    (he : IsEnd step e) (hother : RunsTo step m a c) : ∃ k, n = m + k ∧ RunsTo step k c e := by
  induction hother generalizing n with
  | here a => exact ⟨n, (Nat.zero_add n).symm, hrun⟩
  | next first rest ih =>
    obtain ⟨k, rfl, hbe⟩ := hs.behind_step ha hrun he first
    obtain ⟨k', rfl, hce⟩ := ih (hs.keeps _ _ ha first) hbe
    exact ⟨k', by omega, hce⟩

end BoardTest
