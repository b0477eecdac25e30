import Mathlib.Data.List.Basic
import Mathlib.Logic.Function.Basic
import Mathlib.Tactic.Common

/-!
# Operations on separate cells

A program is a list of operations, each on one cell of a family; an operation changes its cell,
leaves events that belong to it, or fails. What becomes of a cell, and which events belong to it, is
a matter of the operations on that cell alone (`runCell_of_runAll`), and the program fails exactly
when it fails on a cell (`exists_runAll`).
-/

namespace BoardTest

variable {ι α σ ε : Type} [DecidableEq ι]

/-- The entries that belong to a cell. -/
def onCell (i : ι) (l : List (ι × α)) : List α := (l.filter (·.1 = i)).map (·.2)

@[simp] theorem onCell_nil (i : ι) : onCell i ([] : List (ι × α)) = [] := rfl

@[simp] theorem onCell_cons_self (i : ι) (a : α) (l : List (ι × α)) :
    onCell i ((i, a) :: l) = a :: onCell i l := by
  simp [onCell]

theorem onCell_cons_of_ne {i j : ι} (h : j ≠ i) (a : α) (l : List (ι × α)) :
    onCell i ((j, a) :: l) = onCell i l := by
  simp [onCell, h]

@[simp] theorem onCell_append (i : ι) (l l' : List (ι × α)) :
    onCell i (l ++ l') = onCell i l ++ onCell i l' := by
  simp [onCell]

@[simp] theorem onCell_map_self (i : ι) (es : List ε) : onCell i (es.map (i, ·)) = es := by
  simp [onCell, List.filter_map, Function.comp_def]

theorem onCell_map_of_ne {i j : ι} (h : j ≠ i) (es : List ε) : onCell i (es.map (j, ·)) = [] := by
  simp [onCell, List.filter_map, Function.comp_def, h]

theorem mem_onCell {i : ι} {a : α} {l : List (ι × α)} : a ∈ onCell i l ↔ (i, a) ∈ l := by
  simp [onCell]

variable (step : ι → α → σ → Option (σ × List ε))

/-- The operations on one cell, one after the other. -/
def runCell (i : ι) : List α → σ → Option (σ × List ε)
  | [], s => some (s, [])
  | a :: l, s => do
    let (s', es) ← step i a s
    let (s'', tr) ← runCell i l s'
    return (s'', es ++ tr)

/-- A program on all cells. -/
def runAll : List (ι × α) → (ι → σ) → Option ((ι → σ) × List (ι × ε))
  | [], st => some (st, [])
  | (i, a) :: l, st => do
    let (s, es) ← step i a (st i)
    let (st', tr) ← runAll l (Function.update st i s)
    return (st', es.map (i, ·) ++ tr)

variable {step}

omit [DecidableEq ι] in
theorem runCell_cons_eq_some {i : ι} {a : α} {l : List α} {s s'' : σ} {tr' : List ε} :
    runCell step i (a :: l) s = some (s'', tr') ↔
      ∃ s' es tr, step i a s = some (s', es) ∧ runCell step i l s' = some (s'', tr) ∧
        es ++ tr = tr' := by
  constructor
  · intro h
    rw [runCell, Option.bind_eq_bind, Option.bind_eq_some_iff] at h
    obtain ⟨⟨s', es⟩, hstep, h⟩ := h
    obtain ⟨⟨s₂, tr⟩, hrest, h⟩ := Option.bind_eq_some_iff.mp h
    cases h
    exact ⟨s', es, tr, hstep, hrest, rfl⟩
  · rintro ⟨s', es, tr, hstep, hrest, rfl⟩
    rw [runCell, hstep]
    show (runCell step i l s').bind _ = _
    rw [hrest]
    rfl

theorem runAll_cons_eq_some {i : ι} {a : α} {l : List (ι × α)} {st st' : ι → σ}
    {tr' : List (ι × ε)} :
    runAll step ((i, a) :: l) st = some (st', tr') ↔
      ∃ s es tr, step i a (st i) = some (s, es) ∧
        runAll step l (Function.update st i s) = some (st', tr) ∧ es.map (i, ·) ++ tr = tr' := by
  constructor
  · intro h
    rw [runAll, Option.bind_eq_bind, Option.bind_eq_some_iff] at h
    obtain ⟨⟨s, es⟩, hstep, h⟩ := h
    obtain ⟨⟨st₂, tr⟩, hrest, h⟩ := Option.bind_eq_some_iff.mp h
    cases h
    exact ⟨s, es, tr, hstep, hrest, rfl⟩
  · rintro ⟨s, es, tr, hstep, hrest, rfl⟩
    rw [runAll, hstep]
    show (runAll step l (Function.update st i s)).bind _ = _
    rw [hrest]
    rfl

/-- What a program does to a cell is what the operations on that cell do to it. -/
theorem runCell_of_runAll {l : List (ι × α)} {st st' : ι → σ} {tr : List (ι × ε)}
    (h : runAll step l st = some (st', tr)) (i : ι) :
    runCell step i (onCell i l) (st i) = some (st' i, onCell i tr) := by
  induction l generalizing st tr with
  | nil =>
    cases h
    rfl
  | cons op l ih =>
    obtain ⟨j, a⟩ := op
    obtain ⟨s, es, tr, hstep, hrun, rfl⟩ := runAll_cons_eq_some.mp h
    have hrest := ih hrun
    by_cases hij : j = i
    · subst hij
      rw [Function.update_self] at hrest
      rw [onCell_cons_self, onCell_append, onCell_map_self]
      exact runCell_cons_eq_some.mpr ⟨s, es, _, hstep, hrest, rfl⟩
    · rw [Function.update_of_ne (Ne.symm hij)] at hrest
      rw [onCell_cons_of_ne hij, onCell_append, onCell_map_of_ne hij, List.nil_append]
      exact hrest

/-- A program that goes through on every cell goes through. -/
theorem exists_runAll {l : List (ι × α)} {st : ι → σ}
    (h : ∀ i, ∃ s tr, runCell step i (onCell i l) (st i) = some (s, tr)) :
    ∃ st' tr, runAll step l st = some (st', tr) := by
  induction l generalizing st with
  | nil => exact ⟨st, [], rfl⟩
  | cons op l ih =>
    obtain ⟨j, a⟩ := op
    obtain ⟨s'', tr', hj⟩ := h j
    rw [onCell_cons_self] at hj
    obtain ⟨s, es, tr, hstep, hrest, -⟩ := runCell_cons_eq_some.mp hj
    have hcells : ∀ i, ∃ t tr, runCell step i (onCell i l) (Function.update st j s i) =
        some (t, tr) := by
      intro i
      by_cases hij : j = i
      · subst hij
        rw [Function.update_self]
        exact ⟨_, _, hrest⟩
      · rw [Function.update_of_ne (Ne.symm hij)]
        have hi := h i
        rwa [onCell_cons_of_ne hij] at hi
    obtain ⟨st', tr'', hrun⟩ := ih hcells
    exact ⟨st', _, runAll_cons_eq_some.mpr ⟨s, es, tr'', hstep, hrun, rfl⟩⟩

end BoardTest
