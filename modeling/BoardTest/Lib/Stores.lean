import Mathlib.Data.List.Basic
import Mathlib.Tactic.Common

/-!
# Stores into a buffer

A loop that writes to a buffer is a list of stores. A store outside of the buffer is undefined
behaviour and gives `none`. What an index holds afterwards is what the last store to it wrote
(`getElem?_stores`); when all of them write the same value their order does not matter
(`lastStore_eq_some_of_agree`).
-/

namespace BoardTest

variable {α : Type*}

/-- `buf[w.1] = w.2` -/
def store (buf : List α) (w : Nat × α) : Option (List α) :=
  if w.1 < buf.length then some (buf.set w.1 w.2) else none

def stores (buf : List α) (ws : List (Nat × α)) : Option (List α) := ws.foldlM store buf

/-- What the last store to an index writes. -/
def lastStore : List (Nat × α) → Nat → Option α
  | [], _ => none
  | w :: ws, i => (lastStore ws i).or (if w.1 = i then some w.2 else none)

theorem stores_cons_of_lt {buf : List α} {w : Nat × α} (h : w.1 < buf.length)
    (ws : List (Nat × α)) : stores buf (w :: ws) = stores (buf.set w.1 w.2) ws := by
  rw [stores, List.foldlM_cons, store, if_pos h]
  rfl

theorem stores_cons_of_not_lt {buf : List α} {w : Nat × α} (h : ¬ w.1 < buf.length)
    (ws : List (Nat × α)) : stores buf (w :: ws) = none := by
  rw [stores, List.foldlM_cons, store, if_neg h]
  rfl

theorem stores_append (buf : List α) (ws vs : List (Nat × α)) :
    stores buf (ws ++ vs) = (stores buf ws).bind (stores · vs) := List.foldlM_append

/-- A loop each round of which makes stores. -/
theorem foldlM_eq_stores {β : Type*} {round : List α → β → Option (List α)}
    {g : β → List (Nat × α)} {l : List β} (h : ∀ x ∈ l, ∀ buf, round buf x = stores buf (g x))
    (buf : List α) : l.foldlM round buf = stores buf (l.flatMap g) := by
  induction l generalizing buf with
  | nil => rfl
  | cons x l ih =>
    rw [List.foldlM_cons, h x List.mem_cons_self, List.flatMap_cons, stores_append]
    congr 1
    funext buf
    exact ih (fun y hy => h y (List.mem_cons_of_mem x hy)) buf

/-- Stores within the buffer go through. -/
theorem exists_stores {buf : List α} {ws : List (Nat × α)} (h : ∀ w ∈ ws, w.1 < buf.length) :
    ∃ buf', stores buf ws = some buf' := by
  induction ws generalizing buf with
  | nil => exact ⟨buf, rfl⟩
  | cons w ws ih =>
    rw [stores_cons_of_lt (h w List.mem_cons_self)]
    apply ih
    intro v hv
    rw [List.length_set]
    exact h v (List.mem_cons_of_mem w hv)

theorem lt_of_stores {buf buf' : List α} {ws : List (Nat × α)} (h : stores buf ws = some buf') :
    ∀ w ∈ ws, w.1 < buf.length := by
  induction ws generalizing buf with
  | nil => simp
  | cons w ws ih =>
    by_cases hw : w.1 < buf.length
    · rw [stores_cons_of_lt hw] at h
      have hrest := ih h
      rw [List.length_set] at hrest
      exact List.forall_mem_cons.mpr ⟨hw, hrest⟩
    · rw [stores_cons_of_not_lt hw] at h
      cases h

theorem length_stores {buf buf' : List α} {ws : List (Nat × α)} (h : stores buf ws = some buf') :
    buf'.length = buf.length := by
  induction ws generalizing buf with
  | nil => cases h; rfl
  | cons w ws ih =>
    rw [stores_cons_of_lt (lt_of_stores h w List.mem_cons_self)] at h
    rw [ih h, List.length_set]

/-- An index holds what the last store to it wrote, and what it held before when there is
none. -/
theorem getElem?_stores {buf buf' : List α} {ws : List (Nat × α)} (h : stores buf ws = some buf')
    {i : Nat} (hi : i < buf.length) : buf'[i]? = (lastStore ws i).or buf[i]? := by
  induction ws generalizing buf with
  | nil => cases h; rfl
  | cons w ws ih =>
    rw [stores_cons_of_lt (lt_of_stores h w List.mem_cons_self)] at h
    rw [ih h (by rwa [List.length_set]), lastStore, List.getElem?_set]
    by_cases hw : w.1 = i
    · have hlt : w.1 < buf.length := by omega
      rw [if_pos hw, if_pos hw, if_pos hlt, Option.or_assoc, Option.some_or]
    · rw [if_neg hw, if_neg hw, Option.or_none]

/-- An index that is stored to on a condition. -/
theorem getElem?_stores_ite {buf buf' : List α} {ws : List (Nat × α)}
    (h : stores buf ws = some buf') {i : Nat} (hi : i < buf.length) {P : Prop} [Decidable P] {a : α}
    (hlast : lastStore ws i = if P then some a else none) :
    buf'[i]? = if P then some a else buf[i]? := by
  rw [getElem?_stores h hi, hlast]
  split <;> rfl

theorem lastStore_eq_none {ws : List (Nat × α)} {i : Nat} (h : ∀ w ∈ ws, w.1 ≠ i) :
    lastStore ws i = none := by
  induction ws with
  | nil => rfl
  | cons w ws ih =>
    rw [List.forall_mem_cons] at h
    rw [lastStore, ih h.2, if_neg h.1]
    rfl

theorem lastStore_append (ws vs : List (Nat × α)) (i : Nat) :
    lastStore (ws ++ vs) i = (lastStore vs i).or (lastStore ws i) := by
  induction ws with
  | nil => simp [lastStore]
  | cons w ws ih => rw [List.cons_append, lastStore, ih, lastStore, Option.or_assoc]

/-- Stores that agree on an index: it does not matter which of them is the last. -/
theorem lastStore_eq_some_of_agree {ws : List (Nat × α)} {i : Nat} {a : α}
    (hsome : ∃ w ∈ ws, w.1 = i) (hall : ∀ w ∈ ws, w.1 = i → w.2 = a) :
    lastStore ws i = some a := by
  induction ws with
  | nil => simp at hsome
  | cons w ws ih =>
    rw [List.forall_mem_cons] at hall
    rw [lastStore]
    by_cases hrest : ∃ v ∈ ws, v.1 = i
    · rw [ih hrest hall.2, Option.some_or]
    · push Not at hrest
      have hw : w.1 = i := by
        obtain ⟨v, hv, hvi⟩ := hsome
        rcases List.mem_cons.mp hv with rfl | hv
        · exact hvi
        · exact absurd hvi (hrest v hv)
      rw [lastStore_eq_none hrest, if_pos hw, hall.1 hw, Option.none_or]

/-- Stores made in an order: the last one to an index comes from the last place that has one. -/
theorem lastStore_flatMap_of_last {β : Type*} {R : β → β → Prop} {l : List β} (hl : l.Pairwise R)
    {f : β → List (Nat × α)} {x : β} (hx : x ∈ l) {i : Nat} {a : α}
    (hlast : lastStore (f x) i = some a) (hlater : ∀ y ∈ l, R x y → ∀ w ∈ f y, w.1 ≠ i) :
    lastStore (l.flatMap f) i = some a := by
  induction l with
  | nil => simp at hx
  | cons z l ih =>
    rw [List.pairwise_cons] at hl
    rw [List.flatMap_cons, lastStore_append]
    by_cases hxl : x ∈ l
    · rw [ih hl.2 hxl fun y hy => hlater y (List.mem_cons_of_mem z hy), Option.some_or]
    · obtain rfl : x = z := (List.mem_cons.mp hx).resolve_right hxl
      have hnone : lastStore (l.flatMap f) i = none := by
        apply lastStore_eq_none
        intro w hw
        obtain ⟨y, hy, hwy⟩ := List.mem_flatMap.mp hw
        exact hlater y (List.mem_cons_of_mem x hy) (hl.1 y hy) w hwy
      rw [hnone, hlast, Option.none_or]

end BoardTest
