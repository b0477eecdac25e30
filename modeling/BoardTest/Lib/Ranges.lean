import Mathlib.Data.List.Perm.Basic
import Mathlib.Data.List.Pairwise
import Mathlib.Tactic.Common

/-!
# Working inside a range of a vector

A vector is a list and an index an `Int`, as C code has it: an access outside of the vector is
`none`. `Rearranged left right l l'` is what a routine that owns the indices `left … right` can do
to a vector: move entries about within the range and touch nothing else. A bound on the entries of a
range survives it (`RangeAll.rearranged`), and so it does when the range is not touched
(`RangeAll.apart`).
-/

namespace BoardTest

variable {α : Type*}

/-- `l[i]`, nothing outside of the vector -/
def at? (l : List α) (i : Int) : Option α := if 0 ≤ i then l[i.toNat]? else none

theorem at?_eq_some_iff {l : List α} {i : Int} {a : α} :
    at? l i = some a ↔ ∃ n : Nat, i = n ∧ l[n]? = some a := by
  rw [at?]
  constructor
  · intro h
    split at h
    · exact ⟨i.toNat, by omega, h⟩
    · cases h
  · rintro ⟨n, rfl, h⟩
    rwa [if_pos (by omega), Int.toNat_natCast]

theorem at?_natCast (l : List α) (n : Nat) : at? l n = l[n]? := by
  rw [at?, if_pos (by omega), Int.toNat_natCast]

theorem bounds_of_at? {l : List α} {i : Int} {a : α} (h : at? l i = some a) :
    0 ≤ i ∧ i < l.length := by
  obtain ⟨n, rfl, hn⟩ := at?_eq_some_iff.mp h
  have := (List.getElem?_eq_some_iff.mp hn).1
  omega

theorem exists_at? {l : List α} {i : Int} (h0 : 0 ≤ i) (hlt : i < l.length) :
    ∃ a, at? l i = some a := by
  have hn : i.toNat < l.length := by omega
  exact ⟨l[i.toNat], by rw [at?, if_pos h0, List.getElem?_eq_getElem hn]⟩

/-- `std::swap(l[i], l[j])` -/
def swapAt (l : List α) (i j : Int) : Option (List α) :=
  match at? l i, at? l j with
  | some a, some b => some ((l.set i.toNat b).set j.toNat a)
  | _, _ => none

/-- The entries of `l'` are those of `l`, moved about within `left … right`. -/
structure Rearranged (left right : Int) (l l' : List α) : Prop where
  perm : l'.Perm l
  outside : ∀ k, k < left ∨ right < k → at? l' k = at? l k
  inside : ∀ k, left ≤ k → k ≤ right → ∀ a, at? l' k = some a →
    ∃ m, left ≤ m ∧ m ≤ right ∧ at? l m = some a

namespace Rearranged

theorem refl (left right : Int) (l : List α) : Rearranged left right l l where
  perm := .refl l
  outside _ _ := rfl
  inside k hleft hright _ h := ⟨k, hleft, hright, h⟩

theorem trans {left right : Int} {l l' l'' : List α} (h : Rearranged left right l l')
    (h' : Rearranged left right l' l'') : Rearranged left right l l'' where
  perm := h'.perm.trans h.perm
  outside k hk := (h'.outside k hk).trans (h.outside k hk)
  inside k hleft hright a ha := by
    obtain ⟨m, hm, hm', hma⟩ := h'.inside k hleft hright a ha
    exact h.inside m hm hm' a hma

theorem length_eq {left right : Int} {l l' : List α} (h : Rearranged left right l l') :
    l'.length = l.length :=
  h.perm.length_eq

/-- Whoever owns a range owns every larger one. -/
theorem mono {left right lo hi : Int} {l l' : List α} (h : Rearranged lo hi l l')
    (hlo : left ≤ lo) (hhi : hi ≤ right) : Rearranged left right l l' where
  perm := h.perm
  outside k hk := h.outside k (by omega)
  inside k hleft hright a ha := by
    by_cases hk : lo ≤ k ∧ k ≤ hi
    · obtain ⟨m, hm, hm', hma⟩ := h.inside k hk.1 hk.2 a ha
      exact ⟨m, by omega, by omega, hma⟩
    · rw [h.outside k (by omega)] at ha
      exact ⟨k, hleft, hright, ha⟩

end Rearranged

theorem at?_set {l : List α} {i : Int} {b : α} (h0 : 0 ≤ i) (hlt : i < l.length) (k : Int) :
    at? (l.set i.toNat b) k = if k = i then some b else at? l k := by
  by_cases hk : 0 ≤ k
  · rw [at?, at?, if_pos hk, if_pos hk, List.getElem?_set]
    split
    · rw [if_pos (by omega), if_pos (by omega)]
    · rw [if_neg (by omega)]
  · rw [at?, at?, if_neg hk, if_neg hk, if_neg (by omega)]

theorem at?_swap {l l' : List α} {i j : Int} (h : swapAt l i j = some l') (k : Int) :
    at? l' k = if k = j then at? l i else if k = i then at? l j else at? l k := by
  rw [swapAt] at h
  split at h
  · rename_i a b ha hb
    obtain rfl := Option.some.inj h
    have hi := bounds_of_at? ha
    have hj := bounds_of_at? hb
    rw [at?_set hj.1 (by rw [List.length_set]; exact hj.2), at?_set hi.1 hi.2, ha, hb]
  · cases h

theorem perm_of_swapAt {l l' : List α} {i j : Int} (h : swapAt l i j = some l') : l'.Perm l := by
  rw [swapAt] at h
  split at h
  · rename_i a b ha hb
    obtain rfl := Option.some.inj h
    obtain ⟨m, rfl, hm⟩ := at?_eq_some_iff.mp ha
    obtain ⟨n, rfl, hn⟩ := at?_eq_some_iff.mp hb
    obtain ⟨hmlt, rfl⟩ := List.getElem?_eq_some_iff.mp hm
    obtain ⟨hnlt, rfl⟩ := List.getElem?_eq_some_iff.mp hn
    exact List.set_set_perm hmlt hnlt
  · cases h

/-- A swap of two entries of a range. -/
theorem swapAt_spec {left right i j : Int} {l : List α} (h0 : 0 ≤ left) (hlt : right < l.length)
    (hi : left ≤ i ∧ i ≤ right) (hj : left ≤ j ∧ j ≤ right) :
    ∃ l', swapAt l i j = some l' ∧ Rearranged left right l l' := by
  obtain ⟨a, ha⟩ := exists_at? (show 0 ≤ i by omega) (show i < l.length by omega)
  obtain ⟨b, hb⟩ := exists_at? (show 0 ≤ j by omega) (show j < l.length by omega)
  obtain ⟨l', hl'⟩ : ∃ l', swapAt l i j = some l' := by
    simp only [swapAt, ha, hb]
    exact ⟨_, rfl⟩
  refine ⟨l', hl', perm_of_swapAt hl', ?_, ?_⟩
  · intro k hk
    rw [at?_swap hl', if_neg (by omega), if_neg (by omega)]
  · intro k hleft hright c hc
    rw [at?_swap hl'] at hc
    split at hc
    · exact ⟨i, hi.1, hi.2, hc⟩
    split at hc
    · exact ⟨j, hj.1, hj.2, hc⟩
    · exact ⟨k, hleft, hright, hc⟩

/-- Every entry at an index `left … right` has the property. -/
def RangeAll (P : α → Prop) (left right : Int) (l : List α) : Prop :=
  ∀ k, left ≤ k → k ≤ right → ∀ a, at? l k = some a → P a

namespace RangeAll

variable {P : α → Prop} {left right lo hi : Int} {l l' : List α}

theorem of_lt (h : right < left) : RangeAll P left right l := by
  intro k hk hk'
  omega

/-- Moving entries about within the range keeps the property. -/
theorem rearranged (h : RangeAll P left right l) (hr : Rearranged lo hi l l') (hlo : left ≤ lo)
    (hhi : hi ≤ right) : RangeAll P left right l' := by
  intro k hk hk' a ha
  obtain ⟨m, hm, hm', hma⟩ := (hr.mono hlo hhi).inside k hk hk' a ha
  exact h m hm hm' a hma

/-- Moving entries about elsewhere keeps the property. -/
theorem apart (h : RangeAll P left right l) (hr : Rearranged lo hi l l')
    (hap : right < lo ∨ hi < left) : RangeAll P left right l' := by
  intro k hk hk' a ha
  rw [hr.outside k (by omega)] at ha
  exact h k hk hk' a ha

end RangeAll

/-- The entries at the indices `left … right` stand in the relation, each with every later one. -/
def RangePairwise (R : α → α → Prop) (left right : Int) (l : List α) : Prop :=
  ∀ k m, left ≤ k → k < m → m ≤ right → ∀ a b, at? l k = some a → at? l m = some b → R a b

namespace RangePairwise

variable {R : α → α → Prop} {left right lo hi i j : Int} {l l' : List α}

theorem of_le (h : right ≤ left) : RangePairwise R left right l := by
  intro k m hk hkm hm
  omega

theorem apart (h : RangePairwise R left right l) (hr : Rearranged lo hi l l')
    (hap : right < lo ∨ hi < left) : RangePairwise R left right l' := by
  intro k m hk hkm hm a b ha hb
  rw [hr.outside k (by omega)] at ha
  rw [hr.outside m (by omega)] at hb
  exact h k m hk hkm hm a b ha hb

/-- Two ordered ranges make one when every pair that neither holds is told apart by `P` and `Q`. -/
theorem glue {P Q : α → Prop} (hPQ : ∀ a b, P a → Q b → R a b)
    (hlow : RangePairwise R left j l) (hhigh : RangePairwise R i right l)
    (hP : RangeAll P left (i - 1) l) (hQ : RangeAll Q (j + 1) right l) :
    RangePairwise R left right l := by
  intro k m hk hkm hm a b ha hb
  by_cases hmj : m ≤ j
  · exact hlow k m hk hkm hmj a b ha hb
  by_cases hik : i ≤ k
  · exact hhigh k m hik hkm hm a b ha hb
  · exact hPQ a b (hP k hk (by omega) a ha) (hQ m (by omega) hm b hb)

theorem pairwise (h : RangePairwise R 0 (l.length - 1) l) : l.Pairwise R := by
  rw [List.pairwise_iff_getElem]
  intro i j hi hj hij
  apply h i j (by omega) (by omega) (by omega)
  · rw [at?_natCast, List.getElem?_eq_getElem hi]
  · rw [at?_natCast, List.getElem?_eq_getElem hj]

end RangePairwise

/-- Two vectors with the same entries at `left … right`. -/
def SameIn (left right : Int) (l l' : List α) : Prop :=
  ∀ k, left ≤ k → k ≤ right → at? l' k = at? l k

/-- Two vectors with the same entries outside of `left … right`. -/
def SameOut (left right : Int) (l l' : List α) : Prop :=
  ∀ k, k < left ∨ right < k → at? l' k = at? l k

section Same

variable {left right lo hi i j : Int} {l l' l₁ l₁' : List α}

theorem SameIn.refl (left right : Int) (l : List α) : SameIn left right l l := by
  intro k _ _
  rfl

theorem SameOut.refl (left right : Int) (l : List α) : SameOut left right l l := by
  intro k _
  rfl

theorem SameIn.mono (h : SameIn left right l l') (hlo : left ≤ lo) (hhi : hi ≤ right) :
    SameIn lo hi l l' := by
  intro k hk hk'
  exact h k (by omega) (by omega)

theorem SameOut.mono (h : SameOut lo hi l l') (hlo : left ≤ lo) (hhi : hi ≤ right) :
    SameOut left right l l' := by
  intro k hk
  exact h k (by omega)

theorem SameOut.sameIn (h : SameOut lo hi l l') (hap : right < lo ∨ hi < left) :
    SameIn left right l l' := by
  intro k hk hk'
  exact h k (by omega)

/-- Two vectors that change in one range only, to the same there, stay as alike as they were. -/
theorem SameIn.glue (hin : SameIn lo hi l₁ l₁') (h : SameIn left right l l')
    (hout : SameOut lo hi l l₁) (hout' : SameOut lo hi l' l₁') : SameIn left right l₁ l₁' := by
  intro k hk hk'
  by_cases hin' : lo ≤ k ∧ k ≤ hi
  · exact hin k hin'.1 hin'.2
  · rw [hout' k (by omega), h k hk hk', hout k (by omega)]

theorem ext_at? (h : ∀ k, at? l k = at? l' k) : l = l' := by
  apply List.ext_getElem?
  intro n
  rw [← at?_natCast, ← at?_natCast]
  exact h n

theorem SameIn.exists_swapAt (h : SameIn left right l l') (hi : left ≤ i ∧ i ≤ right)
    (hj : left ≤ j ∧ j ≤ right) (hs : swapAt l i j = some l₁) :
    ∃ l₁', swapAt l' i j = some l₁' ∧ SameIn left right l₁ l₁' := by
  have hati := h i hi.1 hi.2
  have hatj := h j hj.1 hj.2
  obtain ⟨l₁', hs'⟩ : ∃ l₁', swapAt l' i j = some l₁' := by
    unfold swapAt at hs ⊢
    rw [hati, hatj]
    split at hs
    · exact ⟨_, rfl⟩
    · cases hs
  refine ⟨l₁', hs', ?_⟩
  intro k hk hk'
  rw [at?_swap hs, at?_swap hs', hati, hatj, h k hk hk']

theorem SameIn.swapAt_eq_none_iff (h : SameIn left right l l') (hi : left ≤ i ∧ i ≤ right)
    (hj : left ≤ j ∧ j ≤ right) : swapAt l i j = none ↔ swapAt l' i j = none := by
  unfold swapAt
  rw [h i hi.1 hi.2, h j hj.1 hj.2]
  split <;> simp

theorem sameOut_of_swapAt (hi : left ≤ i ∧ i ≤ right) (hj : left ≤ j ∧ j ≤ right)
    (hs : swapAt l i j = some l') : SameOut left right l l' := by
  intro k hk
  rw [at?_swap hs, if_neg (by omega), if_neg (by omega)]

end Same

end BoardTest
