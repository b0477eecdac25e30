import BoardTest.Lib.Totals
import Mathlib.Data.List.Basic

/-!
# Machines that react

A step takes an event, moves the state on and puts out a list of actions. `react` is a whole run.
An invariant is carried from step to step under what is known of the events (`react_invariant`),
and a machine that answers each event as another one answers a list of its own events puts out the
same over a whole run, as far as the actions can be seen (`react_simulates`).
-/

namespace BoardTest

variable {σ τ ε ε' ω ω' : Type*}

/-- A run: the state in which it ends, and the actions of its steps in order. -/
def react (step : σ → ε → σ × List ω) : σ → List ε → σ × List ω
  | s, [] => (s, [])
  | s, e :: es =>
    let (t, os) := step s e
    let (u, rest) := react step t es
    (u, os ++ rest)

/-- A condition on each event of a run and on the state in which it comes. -/
abbrev Throughout (step : σ → ε → σ × List ω) (P : σ → ε → Prop) (s : σ) (es : List ε) : Prop :=
  Along (fun s e => (step s e).1) P s es

instance Along.decidable {next : σ → ε → σ} {P : σ → ε → Prop} [∀ s e, Decidable (P s e)] :
    (s : σ) → (es : List ε) → Decidable (Along next P s es)
  | _, [] => .isTrue trivial
  | s, e :: es => @instDecidableAnd _ _ _ (Along.decidable (next s e) es)

variable {step : σ → ε → σ × List ω} {s : σ}

@[simp] theorem react_nil (step : σ → ε → σ × List ω) (s : σ) : react step s [] = (s, []) := rfl

theorem react_cons (step : σ → ε → σ × List ω) (s : σ) (e : ε) (es : List ε) :
    react step s (e :: es) = ((react step (step s e).1 es).1,
      (step s e).2 ++ (react step (step s e).1 es).2) := rfl

theorem react_append (step : σ → ε → σ × List ω) (s : σ) (es fs : List ε) :
    react step s (es ++ fs) = ((react step (react step s es).1 fs).1,
      (react step s es).2 ++ (react step (react step s es).1 fs).2) := by
  induction es generalizing s with
  | nil => rfl
  | cons e es ih => rw [List.cons_append, react_cons, ih, react_cons, List.append_assoc]

theorem throughout_of_forall {P : ε → Prop} {es : List ε} (h : ∀ e ∈ es, P e) :
    Throughout step (fun _ => P) s es := by
  induction es generalizing s with
  | nil => trivial
  | cons e es ih =>
    exact ⟨h e List.mem_cons_self, ih fun e he => h e (List.mem_cons_of_mem _ he)⟩

/-- What every step keeps, a run keeps. -/
theorem react_invariant {Inv : σ → Prop} {P : σ → ε → Prop}
    (hstep : ∀ s e, Inv s → P s e → Inv (step s e).1) {es : List ε} (hs : Inv s)
    (h : Throughout step P s es) : Inv (react step s es).1 := by
  induction es generalizing s with
  | nil => exact hs
  | cons e es ih => exact ih (hstep s e hs h.1) h.2

/-- A simulation of single steps is one of runs: `ops` says which events of the other machine
an event stands for, `view` what of an action is seen. -/
theorem react_simulates {step' : τ → ε' → τ × List ω'} {R : σ → τ → Prop} {P : σ → ε → Prop}
    {ops : ε → List ε'} {view : ω → Option ω'}
    (hstep : ∀ s t e, R s t → P s e → R (step s e).1 (react step' t (ops e)).1 ∧
      (step s e).2.filterMap view = (react step' t (ops e)).2)
    {t : τ} {es : List ε} (hst : R s t) (h : Throughout step P s es) :
    R (react step s es).1 (react step' t (es.flatMap ops)).1 ∧
      (react step s es).2.filterMap view = (react step' t (es.flatMap ops)).2 := by
  induction es generalizing s t with
  | nil => exact ⟨hst, rfl⟩
  | cons e es ih =>
    obtain ⟨hnext, hout⟩ := hstep s t e hst h.1
    obtain ⟨hend, hrest⟩ := ih hnext h.2
    rw [List.flatMap_cons, react_append, react_cons]
    refine ⟨hend, ?_⟩
    rw [List.filterMap_append, hout, hrest]

end BoardTest
