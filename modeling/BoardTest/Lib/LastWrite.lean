import Mathlib.Data.List.Induction
import Mathlib.Data.List.Perm.Basic
import Mathlib.Tactic.Common

/-!
# The last write

A sequence of updates, each of which writes a cell or leaves it alone: the cell ends with the value
of the last one that writes (`lastWrite`). Updates carry a key, and a reordering that keeps the
updates of each key in order keeps the last one of each.
-/

namespace BoardTest

variable {α β κ σ : Type*}

/-- The value of a cell after the updates `l`, from the value `d`. -/
def lastWrite (writes : α → Option β) (d : β) (l : List α) : β :=
  l.foldl (fun v a => (writes a).getD v) d

/-- A part of the state that every step overwrites or leaves alone is such a cell. -/
theorem view_foldl {step : σ → α → σ} {view : σ → β} {writes : α → Option β}
    (hstep : ∀ s a, view (step s a) = (writes a).getD (view s)) (s : σ) (l : List α) :
    view (l.foldl step s) = lastWrite writes (view s) l := by
  induction l generalizing s with
  | nil => rfl
  | cons a l ih =>
    rw [List.foldl_cons, ih, hstep]
    rfl

theorem lastWrite_concat (writes : α → Option β) (d : β) (l : List α) (a : α) :
    lastWrite writes d (l ++ [a]) = (writes a).getD (lastWrite writes d l) := by
  rw [lastWrite, List.foldl_append]
  rfl

theorem lastWrite_eq_getD (writes : α → Option β) (d : β) (l : List α) :
    lastWrite writes d l = (l.filterMap writes).getLast?.getD d := by
  induction l using List.reverseRecOn with
  | nil => rfl
  | append_singleton l a ih =>
    rw [lastWrite_concat, ih, List.filterMap_append]
    cases h : writes a with
    | none => simp [h]
    | some v => simp [h]

theorem lastWrite_of_getLast? {writes : α → Option β} {l : List α} {a : α} {v : β}
    (hlast : l.getLast? = some a) (ha : writes a = some v) (d : β) : lastWrite writes d l = v := by
  obtain ⟨l', rfl⟩ := List.getLast?_eq_some_iff.mp hlast
  rw [lastWrite_concat, ha, Option.getD_some]

/-- A cell keeps its value, or ends with that of an update behind which none writes. -/
theorem lastWrite_cases (writes : α → Option β) (d : β) (l : List α) :
    (lastWrite writes d l = d ∧ ∀ a ∈ l, writes a = none) ∨
      ∃ l₁ a l₂, l = l₁ ++ a :: l₂ ∧ writes a = some (lastWrite writes d l) ∧
        ∀ b ∈ l₂, writes b = none := by
  induction l using List.reverseRecOn with
  | nil => exact .inl ⟨rfl, fun _ h => by cases h⟩
  | append_singleton l a ih =>
    rw [lastWrite_concat]
    cases ha : writes a with
    | some v => exact .inr ⟨l, a, [], rfl, ha, fun _ h => by cases h⟩
    | none =>
      rcases ih with ⟨hd, hnone⟩ | ⟨l₁, c, l₂, rfl, hc, hnone⟩
      · refine .inl ⟨hd, fun b hb => ?_⟩
        rcases List.mem_append.mp hb with hb | hb
        · exact hnone b hb
        · rwa [List.mem_singleton.mp hb]
      · refine .inr ⟨l₁, c, l₂ ++ [a], by simp, hc, fun b hb => ?_⟩
        rcases List.mem_append.mp hb with hb | hb
        · exact hnone b hb
        · rwa [List.mem_singleton.mp hb]

variable [DecidableEq κ] (key : α → κ)

/-- The last update with a key. -/
def lastOf (k : κ) (l : List α) : Option α := (l.filter (key · = k)).getLast?

variable {key}

theorem key_of_lastOf {k : κ} {l : List α} {a : α} (h : lastOf key k l = some a) : key a = k := by
  simpa using List.of_mem_filter (List.mem_of_getLast? h)

theorem mem_of_lastOf {k : κ} {l : List α} {a : α} (h : lastOf key k l = some a) : a ∈ l :=
  List.mem_of_mem_filter (List.mem_of_getLast? h)

/-- When the last update that writes a cell shares its key with a last update that writes it too,
they are one. -/
theorem lastOf_eq_of_writes {writes : α → Option β} {l₁ l₂ : List α} {a : α}
    (hnone : ∀ b ∈ l₂, writes b = none)
    (hlast : ∀ c, lastOf key (key a) (l₁ ++ a :: l₂) = some c → writes c ≠ none) :
    lastOf key (key a) (l₁ ++ a :: l₂) = some a := by
  have hfilter : (l₁ ++ a :: l₂).filter (key · = key a) =
      l₁.filter (key · = key a) ++ a :: l₂.filter (key · = key a) := by
    rw [List.filter_append, List.filter_cons_of_pos (by simp)]
  cases hc : (l₂.filter (key · = key a)).getLast? with
  | none =>
    rw [lastOf, hfilter, List.getLast?_eq_none_iff.mp hc, List.getLast?_concat]
  | some c =>
    exfalso
    apply hlast c
    · rw [lastOf, hfilter, List.getLast?_append_cons, List.getLast?_cons, hc]
      rfl
    · exact hnone c (List.mem_of_mem_filter (List.mem_of_getLast? hc))

/-- A permutation that keeps the updates of each key from `ks` in order. -/
def Reordered (key : α → κ) (ks : κ → Prop) (l l' : List α) : Prop :=
  l.Perm l' ∧ ∀ k, ks k → l.filter (key · = k) = l'.filter (key · = k)

theorem Reordered.lastOf_eq {ks : κ → Prop} {l l' : List α} (h : Reordered key ks l l') {k : κ}
    (hk : ks k) : lastOf key k l' = lastOf key k l := by
  rw [lastOf, lastOf, h.2 k hk]

/-- The updates of one key may be moved behind the others. -/
theorem reordered_partition (ks : κ → Prop) (k : κ) (l : List α) :
    Reordered key ks l (l.filter (key · ≠ k) ++ l.filter (key · = k)) := by
  refine ⟨?_, fun j _ => ?_⟩
  · have hperm := List.filter_append_perm (fun a => decide (key a ≠ k)) l
    simpa using hperm.symm
  · rw [List.filter_append, List.filter_filter, List.filter_filter]
    by_cases hjk : j = k
    · subst hjk
      simp
    · have hother : ∀ a, (decide (key a = j) && decide (key a ≠ k)) = decide (key a = j) := by
        grind
      have hnone : ∀ a, (decide (key a = j) && decide (key a = k)) = false := by grind
      simp only [hother, hnone, List.filter_false, List.append_nil]

end BoardTest
