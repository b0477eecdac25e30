import BoardTest.Lib.CInt
import BoardTest.Lib.Ranges
import Mathlib.Control.Monad.Writer

/-!
# Programs that look up an array

`look l i` reads `l[i]` with an `int` index and keeps the index; an element outside of the array is
undefined behaviour (`none`), and so is arithmetic that leaves `int` (`inInt`). What a program
yields is its value with the indices it has read, in their order; a bind reads what its two parts
read (`Yields.bind`).
-/

namespace BoardTest

/-- A program that reads an array, with the indices it reads. -/
abbrev Lookups := WriterT (List Int) Option

variable {α β : Type}

/-- `l[i]` -/
def look (l : List α) (i : Int) : Lookups α := WriterT.mk ((at? l i).map fun a => (a, [i]))

/-- The program comes to its end with the value, and has read at the indices. -/
def Yields (x : Lookups α) (a : α) (reads : List Int) : Prop := x.run = some (a, reads)

namespace Yields

variable {x : Lookups α} {f : α → Lookups β} {a a' : α} {b : β} {reads reads' : List Int}

theorem pure (a : α) : Yields (Pure.pure a) a [] := rfl

theorem bind (hx : Yields x a reads) (hf : Yields (f a) b reads') :
    Yields (x >>= f) b (reads ++ reads') := by
  rw [Yields, WriterT.run] at hx hf
  simp [Yields, Bind.bind, WriterT.run, WriterT.mk, hx, hf]

theorem of_eq (h : Yields x a reads) (ha : a = a') (hreads : reads = reads') :
    Yields x a' reads' := by
  rw [← ha, ← hreads]
  exact h

theorem look {l : List α} {i : Int} (h : at? l i = some a) : Yields (look l i) a [i] := by
  rw [Yields, BoardTest.look, WriterT.run_mk, h, Option.map_some]

theorem lift {o : Option α} (h : o = some a) : Yields (liftM o) a [] := by
  rw [h]
  rfl

theorem ite_true {p : Prop} [Decidable p] {y : Lookups α} (h : p) (hx : Yields x a reads) :
    Yields (if p then x else y) a reads := by
  rwa [if_pos h]

theorem ite_false {p : Prop} [Decidable p] {y : Lookups α} (h : ¬ p) (hx : Yields x a reads) :
    Yields (if p then y else x) a reads := by
  rwa [if_neg h]

theorem of_bind (h : Yields (x >>= f) b reads) :
    ∃ a, (∃ r, Yields x a r) ∧ ∃ r, Yields (f a) b r := by
  have h' : (x.run.bind fun p => (f p.1).run.map fun q => (q.1, p.2 ++ q.2)) = some (b, reads) := h
  obtain ⟨⟨a, r⟩, hx, hrest⟩ := Option.bind_eq_some_iff.mp h'
  obtain ⟨⟨b', r'⟩, hf, heq⟩ := Option.map_eq_some_iff.mp hrest
  cases heq
  exact ⟨a, ⟨r, hx⟩, r', hf⟩

theorem of_look {l : List α} {i : Int} (h : Yields (BoardTest.look l i) a reads) :
    at? l i = some a := by
  rw [Yields, BoardTest.look, WriterT.run_mk] at h
  obtain ⟨a', ha, h⟩ := Option.map_eq_some_iff.mp h
  cases h
  exact ha

theorem of_lift {o : Option α} (h : Yields (liftM o) a reads) : o = some a := by
  cases o with
  | none => cases h
  | some a' =>
    cases h
    rfl

/-- A loop over an accumulator, each round of which reads. -/
theorem foldlM {γ : Type} {step : β → γ → Lookups β} {g : β → γ → β} {r : γ → List Int}
    {l : List γ} (h : ∀ y ∈ l, ∀ b, Yields (step b y) (g b y) (r y)) (b : β) :
    Yields (l.foldlM step b) (l.foldl g b) (l.flatMap r) := by
  induction l generalizing b with
  | nil => exact pure b
  | cons y l ih =>
    rw [List.forall_mem_cons] at h
    rw [List.foldlM_cons]
    exact bind (h.1 b) (ih h.2 (g b y))

/-- Every round of a loop that comes to its end has come to its end. -/
theorem of_foldlM {γ : Type} {step : β → γ → Lookups β} {l : List γ} {b' : β} {y : γ} (hy : y ∈ l)
    (h : Yields (l.foldlM step b) b' reads) : ∃ c c' r, Yields (step c y) c' r := by
  induction l generalizing b reads with
  | nil => cases hy
  | cons z l ih =>
    rw [List.foldlM_cons] at h
    obtain ⟨c, ⟨r, hz⟩, r', hrest⟩ := of_bind h
    rcases List.mem_cons.mp hy with rfl | hy
    · exact ⟨b, c, r, hz⟩
    · exact ih hy hrest

end Yields

/-- A loop that fills an array. -/
theorem foldl_update {ι δ : Type*} [DecidableEq ι] (f g : ι → δ) (l : List ι) (k : ι) :
    l.foldl (fun g k => Function.update g k (f k)) g k = if k ∈ l then f k else g k := by
  induction l generalizing g with
  | nil => simp
  | cons x l ih =>
    rw [List.foldl_cons, ih]
    by_cases hx : k = x
    · simp [hx]
    · simp [hx]

end BoardTest
