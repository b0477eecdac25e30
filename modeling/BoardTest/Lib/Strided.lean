import Mathlib.Data.List.Range
import Mathlib.Data.List.Sort
import Mathlib.Data.PNat.Basic

/-!
# Loops with a stride

`for (j = start; j < stop; j += jump)` takes the values `strided jump stop start`: the numbers from
`start` to `stop` that lie in its residue class. Seen from an origin in front of `start`, they are
the numbers with a fixed remainder (`strided_eq_filter`). Classes that share nothing and leave
nothing out divide up the whole range (`perm_range_of_classes`).
-/

namespace BoardTest

/-- The values of the loop variable. -/
def strided (jump : ℕ+) (stop j : Nat) : List Nat :=
  if j < stop then j :: strided jump stop (j + jump) else []
termination_by stop - j
decreasing_by
  have := jump.pos
  omega

variable {jump : ℕ+} {stop j r : Nat}

theorem mem_strided_iff :
    r ∈ strided jump stop j ↔ j ≤ r ∧ r < stop ∧ (r - j) % jump = 0 := by
  fun_induction strided jump stop j with
  | case1 j hlt ih =>
    rw [List.mem_cons, ih]
    constructor
    · rintro (rfl | ⟨hle, hstop, hmod⟩)
      · exact ⟨le_rfl, hlt, by rw [Nat.sub_self, Nat.zero_mod]⟩
      · refine ⟨by omega, hstop, ?_⟩
        rw [← hmod, ← Nat.sub_sub, ← Nat.mod_eq_sub_mod (by omega)]
    · rintro ⟨hle, hstop, hmod⟩
      rcases hle.eq_or_lt with rfl | hlt
      · exact .inl rfl
      · have hjump : (jump : Nat) ≤ r - j :=
          Nat.le_of_dvd (by omega) (Nat.dvd_of_mod_eq_zero hmod)
        refine .inr ⟨by omega, hstop, ?_⟩
        rw [← Nat.sub_sub, ← Nat.mod_eq_sub_mod hjump]
        exact hmod
  | case2 j hle =>
    refine iff_of_false List.not_mem_nil ?_
    rintro ⟨hj, hr, -⟩
    omega

theorem le_of_mem_strided (h : r ∈ strided jump stop j) : j ≤ r := (mem_strided_iff.mp h).1

/-- The loop goes upwards. -/
theorem pairwise_strided (jump : ℕ+) (stop j : Nat) : (strided jump stop j).Pairwise (· < ·) := by
  fun_induction strided jump stop j with
  | case1 j hlt ih =>
    refine List.Pairwise.cons (fun r hr => ?_) ih
    have hle := le_of_mem_strided hr
    have := jump.pos
    omega
  | case2 j hle => exact .nil

/-- A number has the remainder `offset` when it is `offset` and a multiple. -/
theorem mod_eq_iff {m offset x : Nat} (hoffset : offset < m) :
    x % m = offset ↔ offset ≤ x ∧ (x - offset) % m = 0 := by
  constructor
  · rintro rfl
    refine ⟨Nat.mod_le x m, ?_⟩
    have hmul : x - x % m = m * (x / m) := by
      have := Nat.div_add_mod x m
      omega
    rw [hmul, Nat.mul_mod_right]
  · rintro ⟨hle, hmod⟩
    obtain ⟨k, hk⟩ := Nat.dvd_of_mod_eq_zero hmod
    have hx : x = offset + m * k := by omega
    rw [hx, Nat.add_mul_mod_self_left, Nat.mod_eq_of_lt hoffset]

/-- From an origin in front of it, the loop takes one residue class in ascending order. -/
theorem strided_eq_filter {offset : Nat} (hoffset : offset < jump) (row height : Nat) :
    strided jump (row + height) (row + offset) =
      ((List.range height).filter (· % jump = offset)).map (row + ·) := by
  refine List.Pairwise.eq_of_mem_iff (pairwise_strided _ _ _) ?_ ?_
  · exact (List.pairwise_lt_range.filter _).map _ fun a b hab => Nat.add_lt_add_left hab row
  · intro r
    simp only [mem_strided_iff, List.mem_map, List.mem_filter, List.mem_range, decide_eq_true_eq,
      mod_eq_iff hoffset]
    constructor
    · rintro ⟨hle, hlt, hmod⟩
      refine ⟨r - row, ⟨by omega, by omega, ?_⟩, by omega⟩
      rwa [Nat.sub_sub]
    · rintro ⟨x, ⟨hlt, hle, hmod⟩, rfl⟩
      refine ⟨by omega, by omega, ?_⟩
      rwa [Nat.add_sub_add_left]

/-- Classes of which every number is in exactly one divide up a range. -/
theorem perm_range_of_classes {classes : List (Nat → Bool)}
    (hdisjoint : classes.Pairwise fun p q => ∀ x, p x = true → q x = false)
    (hcover : ∀ x, ∃ p ∈ classes, p x = true) (n : Nat) :
    (classes.flatMap fun p => (List.range n).filter p).Perm (List.range n) := by
  have hnodup : (classes.flatMap fun p => (List.range n).filter p).Nodup := by
    rw [List.nodup_flatMap]
    refine ⟨fun p _ => List.nodup_range.filter p, hdisjoint.imp ?_⟩
    intro p q hpq x hp hq
    have hno := hpq x (List.mem_filter.mp hp).2
    rw [(List.mem_filter.mp hq).2] at hno
    cases hno
  rw [List.perm_ext_iff_of_nodup hnodup List.nodup_range]
  intro x
  simp only [List.mem_flatMap, List.mem_filter]
  constructor
  · rintro ⟨p, -, hx, -⟩
    exact hx
  · intro hx
    obtain ⟨p, hp, hpx⟩ := hcover x
    exact ⟨p, hp, hx, hpx⟩

end BoardTest
