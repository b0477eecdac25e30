import BoardTest.Lib.CInt
import BoardTest.Lib.Ranges

/-!
# Sorting the proposals

`qsort_descent_inplace` of `face_det_postprocess.cpp`, for any entries with a score: two scans walk
towards each other from the ends of a range and swap what stands on the wrong side of the pivot, and
the routine calls itself on the two parts. An index outside of the vector is undefined behaviour and
gives `none`, and so does a sum of two indices that leaves `int`; every other index that is computed
lies in the range or next to it. The two calls stand in parallel sections of the source; here the
left one goes first.

The scans have no bound of their own. What stops them is an entry that stands ahead of each
(`Straddled`): the pivot in the first round, the entries just swapped in every later one.
-/

namespace BoardTest.FaceDet

variable {α K : Type*} [LinearOrder K] (score : α → K)

/-- `while (objects[i].score > p) i++;` -/
def scanUp (objects : List α) (p : K) (i : Int) : Option Int :=
  match h : at? objects i with
  | none => none
  | some o => if score o > p then scanUp objects p (i + 1) else some i
termination_by (objects.length - i).toNat
decreasing_by
  have := bounds_of_at? h
  omega

/-- `while (objects[j].score < p) j--;` -/
def scanDown (objects : List α) (p : K) (j : Int) : Option Int :=
  match h : at? objects j with
  | none => none
  | some o => if score o < p then scanDown objects p (j - 1) else some j
termination_by (j + 1).toNat
decreasing_by
  have := bounds_of_at? h
  omega

variable {score}

/-- Where the upward scan stops, and what it has passed. -/
theorem scanUp_eq_some {objects : List α} {p : K} {i i' : Int}
    (h : scanUp score objects p i = some i') :
    i ≤ i' ∧ (∃ o, at? objects i' = some o ∧ score o ≤ p) ∧
      RangeAll (fun o => p < score o) i (i' - 1) objects := by
  fun_induction scanUp score objects p i with
  | case1 => cases h
  | case2 i o ho hgt ih =>
    obtain ⟨hle, hstop, hpassed⟩ := ih h
    refine ⟨by omega, hstop, ?_⟩
    intro k hk hk' a ha
    rcases hk.eq_or_lt with rfl | hlt
    · rw [ho] at ha
      obtain rfl := Option.some.inj ha
      exact hgt
    · exact hpassed k hlt hk' a ha
  | case3 i o ho hgt =>
    obtain rfl := Option.some.inj h
    exact ⟨le_rfl, ⟨o, ho, not_lt.mp hgt⟩, RangeAll.of_lt (by omega)⟩

/-- Where the downward scan stops, and what it has passed. -/
theorem scanDown_eq_some {objects : List α} {p : K} {j j' : Int}
    (h : scanDown score objects p j = some j') :
    j' ≤ j ∧ (∃ o, at? objects j' = some o ∧ p ≤ score o) ∧
      RangeAll (fun o => score o < p) (j' + 1) j objects := by
  fun_induction scanDown score objects p j with
  | case1 => cases h
  | case2 j o ho hlt ih =>
    obtain ⟨hle, hstop, hpassed⟩ := ih h
    refine ⟨by omega, hstop, ?_⟩
    intro k hk hk' a ha
    rcases hk'.eq_or_lt with rfl | hlt'
    · rw [ho] at ha
      obtain rfl := Option.some.inj ha
      exact hlt
    · exact hpassed k hk (by omega) a ha
  | case3 j o ho hlt =>
    obtain rfl := Option.some.inj h
    exact ⟨le_rfl, ⟨o, ho, not_lt.mp hlt⟩, RangeAll.of_lt (by omega)⟩

/-- An entry that is not above the pivot stops the upward scan. -/
theorem scanUp_le {objects : List α} {p : K} {i i' k : Int} {o : α}
    (h : scanUp score objects p i = some i') (hik : i ≤ k) (ho : at? objects k = some o)
    (hp : score o ≤ p) : i' ≤ k := by
  obtain ⟨-, -, hpassed⟩ := scanUp_eq_some h
  by_contra hlt
  exact absurd hp (not_le.mpr (hpassed k hik (by omega) o ho))

/-- An entry that is not below the pivot stops the downward scan. -/
theorem le_scanDown {objects : List α} {p : K} {j j' m : Int} {o : α}
    (h : scanDown score objects p j = some j') (hmj : m ≤ j) (ho : at? objects m = some o)
    (hp : p ≤ score o) : m ≤ j' := by
  obtain ⟨-, -, hpassed⟩ := scanDown_eq_some h
  by_contra hlt
  exact absurd hp (not_le.mpr (hpassed m (by omega) hmj o ho))

theorem exists_scanUp {objects : List α} {p : K} {i k : Int} {o : α} (h0 : 0 ≤ i) (hik : i ≤ k)
    (ho : at? objects k = some o) (hp : score o ≤ p) :
    ∃ i', scanUp score objects p i = some i' := by
  fun_induction scanUp score objects p i with
  | case1 i hnone =>
    obtain ⟨a, ha⟩ := exists_at? h0 (lt_of_le_of_lt hik (bounds_of_at? ho).2)
    rw [hnone] at ha
    cases ha
  | case2 i a ha hgt ih =>
    apply ih (by omega)
    rcases hik.eq_or_lt with rfl | hlt
    · rw [ho] at ha
      obtain rfl := Option.some.inj ha
      exact absurd hgt (not_lt.mpr hp)
    · exact hlt
  | case3 i => exact ⟨i, rfl⟩

theorem exists_scanDown {objects : List α} {p : K} {j m : Int} {o : α} (hlt : j < objects.length)
    (hmj : m ≤ j) (ho : at? objects m = some o) (hp : p ≤ score o) :
    ∃ j', scanDown score objects p j = some j' := by
  fun_induction scanDown score objects p j with
  | case1 j hnone =>
    obtain ⟨a, ha⟩ := exists_at? (le_trans (bounds_of_at? ho).1 hmj) hlt
    rw [hnone] at ha
    cases ha
  | case2 j a ha hbelow ih =>
    apply ih (by omega)
    rcases hmj.eq_or_lt with rfl | hlt'
    · rw [ho] at ha
      obtain rfl := Option.some.inj ha
      exact absurd hbelow (not_lt.mpr hp)
    · omega
  | case3 j => exact ⟨j, rfl⟩

variable (score)

/-- `while (i <= j) { … }` (line 167): the vector and the two indices the loop ends with. -/
def partitionLoop (objects : List α) (p : K) (i j : Int) : Option (List α × Int × Int) :=
  if i ≤ j then
    match _ : scanUp score objects p i with
    | none => none
    | some i' =>
      match _ : scanDown score objects p j with
      | none => none
      | some j' =>
        if i' ≤ j' then
          match swapAt objects i' j' with
          | none => none
          | some objects' => partitionLoop objects' p (i' + 1) (j' - 1)
        -- the test at the head of the loop fails with these indices
        else some (objects, i', j')
  else some (objects, i, j)
termination_by (j + 1 - i).toNat
decreasing_by
  rename_i hi hj _
  have := (scanUp_eq_some hi).1
  have := (scanDown_eq_some hj).1
  omega

/-- `objects[(left + right) / 2]` (line 165) -/
def pivot (objects : List α) (left right : Int) : Option α :=
  (inInt (left + right)).bind fun sum => at? objects (sum.tdiv 2)

/-- One call up to its two recursive calls: `p` is the score in the middle of the range. -/
def partition (objects : List α) (left right : Int) : Option (List α × Int × Int) :=
  match pivot objects left right with
  | none => none
  | some o => partitionLoop score objects (score o) left right

variable {score}

theorem partitionLoop_indices {objects objects' : List α} {p : K} {i j i' j' : Int}
    (h : partitionLoop score objects p i j = some (objects', i', j')) : i ≤ i' ∧ j' ≤ j := by
  fun_induction partitionLoop score objects p i j with
  | case1 | case2 | case3 => cases h
  | case4 objects i j _ k hk m hm _ objects1 _ ih =>
    have hik := (scanUp_eq_some hk).1
    have hmj := (scanDown_eq_some hm).1
    have := ih h
    omega
  | case5 objects i j _ k hk m hm _ =>
    cases h
    exact ⟨(scanUp_eq_some hk).1, (scanDown_eq_some hm).1⟩
  | case6 =>
    cases h
    exact ⟨le_rfl, le_rfl⟩

/-- The entry whose score is the pivot stands in the range. -/
theorem middle_within {left right : Int} (hle : left ≤ right) :
    left ≤ (left + right).tdiv 2 ∧ (left + right).tdiv 2 ≤ right := by
  have hsign : Int.sign 2 = 1 := rfl
  rw [Int.tdiv_eq_ediv, hsign]
  split <;> omega

theorem at?_of_pivot {objects : List α} {left right : Int} {o : α}
    (h : pivot objects left right = some o) : at? objects ((left + right).tdiv 2) = some o := by
  obtain ⟨sum, hsum, ho⟩ := Option.bind_eq_some_iff.mp h
  obtain ⟨-, rfl⟩ := inInt_eq_some_iff.mp hsum
  exact ho

theorem pivot_eq {objects : List α} {left right : Int} (h0 : 0 ≤ left) (hle : left ≤ right)
    (hsum : left + right < 2 ^ 31) :
    pivot objects left right = at? objects ((left + right).tdiv 2) := by
  rw [pivot, inInt_of_bounds (by omega) hsum, Option.bind_some]

/-- The two indices pass each other with both ends of the range behind them. -/
theorem partition_indices {objects objects' : List α} {left right i j : Int}
    (h : partition score objects left right = some (objects', i, j)) (hle : left ≤ right) :
    left < i ∧ j < right := by
  rw [partition] at h
  split at h
  · cases h
  rename_i o hpivot
  have ho := at?_of_pivot hpivot
  have hmid := middle_within hle
  rw [partitionLoop, if_pos hle] at h
  split at h
  · cases h
  rename_i k hk
  split at h
  · cases h
  rename_i m hm
  -- the pivot stops both scans, so that the first round swaps
  have hkmid := scanUp_le hk hmid.1 ho le_rfl
  have hmidm := le_scanDown hm hmid.2 ho le_rfl
  rw [if_pos (hkmid.trans hmidm)] at h
  split at h
  · cases h
  have hk' := (scanUp_eq_some hk).1
  have hm' := (scanDown_eq_some hm).1
  have := partitionLoop_indices h
  omega

/-- Each part that is sorted next is smaller than the range. -/
theorem partition_parts_lt {objects objects' : List α} {left right i j : Int}
    (h : partition score objects left right = some (objects', i, j)) :
    (left < j → j < right) ∧ (i < right → left < i) := by
  by_cases hle : left ≤ right
  · have := partition_indices h hle
    omega
  · rw [partition] at h
    split at h
    · cases h
    · rw [partitionLoop, if_neg hle] at h
      cases h
      omega

variable (score)

/-- `qsort_descent_inplace(objects, left, right)` (line 161). -/
def qsortDescentRange (objects : List α) (left right : Int) : Option (List α) :=
  match _ : partition score objects left right with
  | none => none
  | some (objects₁, i, j) =>
    match (if left < j then qsortDescentRange objects₁ left j else some objects₁) with
    | none => none
    | some objects₂ => if i < right then qsortDescentRange objects₂ i right else some objects₂
termination_by (right - left).toNat
decreasing_by
  all_goals rename_i h _
  all_goals have := partition_parts_lt h
  all_goals omega

/-- `qsort_descent_inplace(objects)` (line 198); `objects.size() - 1` becomes an `int`. -/
def qsortDescentInplace (objects : List α) : Option (List α) :=
  if objects.isEmpty then some objects
  else qsortDescentRange score objects 0 (toSigned (objects.length - 1))

variable {score}

/-- What holds at the head of the loop: the entries passed are on their side of the pivot, and as
long as the indices have not met, an entry that stops it stands ahead of each scan. -/
structure Straddled (score : α → K) (objects : List α) (p : K) (left right i j : Int) : Prop where
  left_le : left ≤ i
  le_right : j ≤ right
  above : RangeAll (fun o => p ≤ score o) left (i - 1) objects
  below : RangeAll (fun o => score o ≤ p) (j + 1) right objects
  stopsUp : i ≤ j → ∃ k, i ≤ k ∧ k ≤ right ∧ ∃ o, at? objects k = some o ∧ score o ≤ p
  stopsDown : i ≤ j → ∃ k, left ≤ k ∧ k ≤ j ∧ ∃ o, at? objects k = some o ∧ p ≤ score o

/-- What the loop leaves: the indices have passed each other, and every entry is on its side. -/
structure Partitioned (score : α → K) (objects : List α) (p : K) (left right : Int)
    (objects' : List α) (i j : Int) : Prop where
  rearranged : Rearranged left right objects objects'
  passed : j < i
  above : RangeAll (fun o => p ≤ score o) left (i - 1) objects'
  below : RangeAll (fun o => score o ≤ p) (j + 1) right objects'

/-- The pivot stops both scans of the first round. -/
theorem straddled_first {objects : List α} {left right k : Int} {o : α} (hleft : left ≤ k)
    (hright : k ≤ right) (ho : at? objects k = some o) :
    Straddled score objects (score o) left right left right where
  left_le := le_rfl
  le_right := le_rfl
  above := RangeAll.of_lt (by omega)
  below := RangeAll.of_lt (by omega)
  stopsUp _ := ⟨k, hleft, hright, o, ho, le_rfl⟩
  stopsDown _ := ⟨k, hleft, hright, o, ho, le_rfl⟩

namespace Straddled

variable {objects objects' : List α} {p : K} {left right i j i' j' : Int}

/-- Both scans stop. -/
theorem exists_scans (h : Straddled score objects p left right i j) (h0 : 0 ≤ left)
    (hlen : right < objects.length) (hij : i ≤ j) :
    ∃ i' j', scanUp score objects p i = some i' ∧ scanDown score objects p j = some j' := by
  have hleft := h.left_le
  have hright := h.le_right
  obtain ⟨k, hik, -, o, ho, hop⟩ := h.stopsUp hij
  obtain ⟨m, -, hmj, o', ho', hpo'⟩ := h.stopsDown hij
  obtain ⟨i', hi'⟩ := exists_scanUp (by omega) hik ho hop
  obtain ⟨j', hj'⟩ := exists_scanDown (by omega) hmj ho' hpo'
  exact ⟨i', j', hi', hj'⟩

/-- Neither scan leaves the range. -/
theorem scans_within (h : Straddled score objects p left right i j) (hij : i ≤ j)
    (hi : scanUp score objects p i = some i') (hj : scanDown score objects p j = some j') :
    i' ≤ right ∧ left ≤ j' := by
  obtain ⟨k, hik, hkr, o, ho, hop⟩ := h.stopsUp hij
  obtain ⟨m, hlm, hmj, o', ho', hpo'⟩ := h.stopsDown hij
  exact ⟨(scanUp_le hi hik ho hop).trans hkr, hlm.trans (le_scanDown hj hmj ho' hpo')⟩

/-- Both scans stop within the range, so that the swap does not leave it. -/
theorem exists_swap (h : Straddled score objects p left right i j) (h0 : 0 ≤ left)
    (hlen : right < objects.length) (hij : i ≤ j) (hi : scanUp score objects p i = some i')
    (hj : scanDown score objects p j = some j') :
    ∃ objects', swapAt objects i' j' = some objects' ∧ Rearranged left right objects objects' := by
  have hwithin := h.scans_within hij hi hj
  have hleft := h.left_le.trans (scanUp_eq_some hi).1
  have hright := (scanDown_eq_some hj).1.trans h.le_right
  exact swapAt_spec h0 hlen ⟨hleft, hwithin.1⟩ ⟨hwithin.2, hright⟩

/-- The entries a scan passes are on their side, too. -/
theorem above_scan (h : Straddled score objects p left right i j)
    (hi : scanUp score objects p i = some i') :
    RangeAll (fun o => p ≤ score o) left (i' - 1) objects := by
  intro k hk hk' a ha
  by_cases hki : k < i
  · exact h.above k hk (by omega) a ha
  · exact ((scanUp_eq_some hi).2.2 k (by omega) hk' a ha).le

theorem below_scan (h : Straddled score objects p left right i j)
    (hj : scanDown score objects p j = some j') :
    RangeAll (fun o => score o ≤ p) (j' + 1) right objects := by
  intro k hk hk' a ha
  by_cases hkj : j < k
  · exact h.below k (by omega) hk' a ha
  · exact ((scanDown_eq_some hj).2.2 k hk (by omega) a ha).le

/-- The swap puts both entries on their side, and each then stops the other scan. -/
theorem swap (h : Straddled score objects p left right i j)
    (hi : scanUp score objects p i = some i') (hj : scanDown score objects p j = some j')
    (hle : i' ≤ j') (hs : swapAt objects i' j' = some objects') :
    Straddled score objects' p left right (i' + 1) (j' - 1) := by
  have hleft := h.left_le
  have hright := h.le_right
  obtain ⟨hii', ⟨o, ho, hop⟩, -⟩ := scanUp_eq_some hi
  obtain ⟨hj'j, ⟨o', ho', hpo'⟩, -⟩ := scanDown_eq_some hj
  -- of one entry swapped with itself both bounds hold
  have hati : at? objects' i' = some o' := by
    rw [at?_swap hs]
    split
    · rename_i heq
      rw [heq, ho']
    · rw [if_pos rfl, ho']
  have hatj : at? objects' j' = some o := by
    rw [at?_swap hs, if_pos rfl, ho]
  refine ⟨by omega, by omega, ?_, ?_, ?_, ?_⟩
  · intro k hk hk' a ha
    by_cases hki : k = i'
    · rw [hki, hati] at ha
      obtain rfl := Option.some.inj ha
      exact hpo'
    · rw [at?_swap hs, if_neg (by omega), if_neg hki] at ha
      exact h.above_scan hi k hk (by omega) a ha
  · intro k hk hk' a ha
    by_cases hkj : k = j'
    · rw [hkj, hatj] at ha
      obtain rfl := Option.some.inj ha
      exact hop
    · rw [at?_swap hs, if_neg hkj, if_neg (by omega)] at ha
      exact h.below_scan hj k (by omega) hk' a ha
  · intro _
    exact ⟨j', by omega, by omega, o, hatj, hop⟩
  · intro _
    exact ⟨i', by omega, by omega, o', hati, hpo'⟩

/-- The loop ends, and leaves the range partitioned. -/
theorem partitionLoop_spec (h : Straddled score objects p left right i j) (h0 : 0 ≤ left)
    (hlen : right < objects.length) :
    ∃ objects' i' j', partitionLoop score objects p i j = some (objects', i', j') ∧
      Partitioned score objects p left right objects' i' j' := by
  fun_induction partitionLoop score objects p i j with
  | case1 objects i j hij hnone =>
    obtain ⟨i', j', hi', -⟩ := h.exists_scans h0 hlen hij
    rw [hnone] at hi'
    cases hi'
  | case2 objects i j hij i' hi' hnone =>
    obtain ⟨-, j', -, hj'⟩ := h.exists_scans h0 hlen hij
    rw [hnone] at hj'
    cases hj'
  | case3 objects i j hij i' hi' j' hj' hle hnone =>
    obtain ⟨objects₁, hs, -⟩ := h.exists_swap h0 hlen hij hi' hj'
    rw [hnone] at hs
    cases hs
  | case4 objects i j hij i' hi' j' hj' hle objects₁ hs ih =>
    obtain ⟨objects₂, hs₂, hr⟩ := h.exists_swap h0 hlen hij hi' hj'
    obtain rfl := Option.some.inj (hs.symm.trans hs₂)
    obtain ⟨objects₂, k, m, hrun, hpart⟩ := ih (h.swap hi' hj' hle hs) (by rwa [hr.length_eq])
    exact ⟨objects₂, k, m, hrun, hr.trans hpart.rearranged, hpart.passed, hpart.above, hpart.below⟩
  | case5 objects i j hij i' hi' j' hj' hlt =>
    exact ⟨objects, i', j', rfl, .refl left right objects, by omega, h.above_scan hi',
      h.below_scan hj'⟩
  | case6 objects i j hij =>
    exact ⟨objects, i, j, rfl, .refl left right objects, by omega, h.above, h.below⟩

end Straddled

variable (score)

/-- A range of the vector is partitioned by the score in its middle. -/
theorem partition_spec {objects : List α} {left right : Int} (h0 : 0 ≤ left) (hle : left ≤ right)
    (hsum : left + right < 2 ^ 31) (hlen : right < objects.length) :
    ∃ p objects' i j, partition score objects left right = some (objects', i, j) ∧
      Partitioned score objects p left right objects' i j := by
  have hmid := middle_within hle
  obtain ⟨o, ho⟩ := exists_at? (h0.trans hmid.1) (hmid.2.trans_lt hlen)
  have hfirst : Straddled score objects (score o) left right left right :=
    straddled_first hmid.1 hmid.2 ho
  obtain ⟨objects', i, j, hrun, hpart⟩ := hfirst.partitionLoop_spec h0 hlen
  refine ⟨score o, objects', i, j, ?_, hpart⟩
  rw [partition, pivot_eq h0 hle hsum, ho]
  exact hrun

variable {score}

/-- What sorting a range does to a vector. -/
structure SortedRange (score : α → K) (left right : Int) (objects objects' : List α) : Prop where
  rearranged : Rearranged left right objects objects'
  descending : RangePairwise (fun a b => score b ≤ score a) left right objects'

/-- Sorting both parts of a partitioned range sorts the range. -/
theorem Partitioned.sortedRange {objects objects₁ objects₂ objects₃ : List α} {p : K}
    {left right i j : Int} (h : Partitioned score objects p left right objects₁ i j)
    (hi : left ≤ i) (hj : j ≤ right) (hlow : SortedRange score left j objects₁ objects₂)
    (hhigh : SortedRange score i right objects₂ objects₃) :
    SortedRange score left right objects objects₃ := by
  have hpassed := h.passed
  refine ⟨?_, ?_⟩
  · have h₂ := hlow.rearranged.mono le_rfl hj
    have h₃ := hhigh.rearranged.mono hi le_rfl
    exact h.rearranged.trans (h₂.trans h₃)
  · have habove := (h.above.rearranged hlow.rearranged le_rfl (by omega)).apart hhigh.rearranged
      (by omega)
    have hbelow := (h.below.apart hlow.rearranged (by omega)).rearranged hhigh.rearranged
      (by omega) le_rfl
    apply RangePairwise.glue _ (hlow.descending.apart hhigh.rearranged (by omega))
      hhigh.descending habove hbelow
    intro a b ha hb
    exact hb.trans ha

/-- A range of at most one entry is sorted as it is. -/
theorem SortedRange.of_le {left right : Int} (objects : List α) (h : right ≤ left) :
    SortedRange score left right objects objects :=
  ⟨.refl left right objects, .of_le h⟩

variable (score)

/-- Sorting a range ends, and sorts it; two different indices up to `2 ^ 30` have a sum that is an
`int`. -/
theorem qsortDescentRange_spec {objects : List α} {left right : Int} (h0 : 0 ≤ left)
    (hle : left ≤ right) (hsum : left + right < 2 ^ 31) (hright : right ≤ 2 ^ 30)
    (hlen : right < objects.length) :
    ∃ objects', qsortDescentRange score objects left right = some objects' ∧
      SortedRange score left right objects objects' := by
  induction hn : (right - left).toNat using Nat.strong_induction_on generalizing objects left right
    with
  | h n ih =>
    -- a part is sorted by a call when it has two entries, and as it is otherwise
    have hpart : ∀ (l : List α) (lo hi : Int), left ≤ lo → hi ≤ right → l.length = objects.length →
        (left < lo ∨ hi < right) → ∃ l', (if lo < hi then qsortDescentRange score l lo hi
          else some l) = some l' ∧ SortedRange score lo hi l l' := by
      intro l lo hi hlo hhi hl hlt
      split
      · exact ih (hi - lo).toNat (by omega) (by omega) (by omega) (by omega) (by omega) (by omega)
          rfl
      · exact ⟨l, rfl, .of_le l (by omega)⟩
    obtain ⟨p, objects₁, i, j, hrun, hp⟩ := partition_spec score h0 hle hsum hlen
    have hij := partition_indices hrun hle
    have hlen₁ := hp.rearranged.length_eq
    obtain ⟨objects₂, hrun₂, hlow⟩ := hpart objects₁ left j le_rfl hij.2.le hlen₁ (.inr hij.2)
    have hlen₂ := hlow.rearranged.length_eq.trans hlen₁
    obtain ⟨objects₃, hrun₃, hhigh⟩ := hpart objects₂ i right hij.1.le le_rfl hlen₂ (.inl hij.1)
    refine ⟨objects₃, ?_, hp.sortedRange hij.1.le hij.2.le hlow hhigh⟩
    rw [qsortDescentRange]
    split
    · rename_i hnone
      rw [hrun] at hnone
      cases hnone
    · rename_i hsome
      rw [hrun] at hsome
      cases hsome
      simp only [hrun₂, hrun₃]

theorem toSigned_length {objects : List α} (hpos : 0 < objects.length)
    (hlen : objects.length ≤ 2 ^ 30 + 1) :
    toSigned (objects.length - 1) = (objects.length : Int) - 1 :=
  toSigned_of_lt (by omega) (by omega)

/-- The proposals are put into an order of non-increasing scores, whatever they are. -/
theorem qsortDescentInplace_spec (objects : List α) (hlen : objects.length ≤ 2 ^ 30 + 1) :
    ∃ objects', qsortDescentInplace score objects = some objects' ∧ objects'.Perm objects ∧
      objects'.Pairwise (fun a b => score b ≤ score a) := by
  by_cases hempty : objects = []
  · subst hempty
    exact ⟨[], rfl, .nil, .nil⟩
  · have hpos := List.length_pos_iff.mpr hempty
    obtain ⟨objects', hrun, hsorted⟩ := qsortDescentRange_spec score le_rfl
      (by omega : (0 : Int) ≤ objects.length - 1) (by omega) (by omega)
      (by omega : (objects.length : Int) - 1 < objects.length)
    refine ⟨objects', ?_, hsorted.rearranged.perm, ?_⟩
    · rw [qsortDescentInplace, if_neg (by simpa using hempty), toSigned_length hpos hlen, hrun]
    · apply RangePairwise.pairwise
      rw [hsorted.rearranged.length_eq]
      exact hsorted.descending

end BoardTest.FaceDet
