import BoardTest.Lib.CString
import Mathlib.Data.List.Infix
import Mathlib.Tactic.Common

/-!
# Looking for a pattern

`scan` is the loop that moves an offset to the first hit below a limit. `matchesAt` is `memcmp` at
an offset of a buffer; what it sees in a window of a text is what it sees in the text, as long as
the window reaches far enough (`matchesAt_take`).
-/

namespace BoardTest

/-- `while (offset < limit && !hit(offset)) ++offset` -/
def scan (hit : Nat → Bool) (limit offset : Nat) : Nat :=
  if offset < limit ∧ hit offset = false then scan hit limit (offset + 1) else offset
termination_by limit - offset

/-- What the loop has seen when it stops. -/
theorem scan_spec (hit : Nat → Bool) (limit offset : Nat) :
    offset ≤ scan hit limit offset ∧
      (∀ i, offset ≤ i → i < scan hit limit offset → i < limit ∧ hit i = false) ∧
      (limit ≤ scan hit limit offset ∨ hit (scan hit limit offset) = true) := by
  fun_induction scan hit limit offset with
  | case1 offset hmiss ih =>
    obtain ⟨hle, hbefore, hstop⟩ := ih
    refine ⟨by omega, ?_, hstop⟩
    intro i hi hlt
    rcases hi.eq_or_lt with rfl | hi
    · exact hmiss
    · exact hbefore i hi hlt
  | case2 offset hstop =>
    refine ⟨le_rfl, fun i hi hlt => absurd hi (by omega), ?_⟩
    by_cases hlimit : offset < limit
    · right
      rw [← Bool.not_eq_false]
      exact fun hmiss => hstop ⟨hlimit, hmiss⟩
    · exact .inl (by omega)

/-- `scan` stops at the first place that is a hit or is not below the limit. -/
theorem scan_eq {hit : Nat → Bool} {limit offset n : Nat} (hle : offset ≤ n)
    (hbefore : ∀ i, offset ≤ i → i < n → i < limit ∧ hit i = false)
    (hstop : limit ≤ n ∨ hit n = true) : scan hit limit offset = n := by
  induction hk : n - offset generalizing offset with
  | zero =>
    obtain rfl : offset = n := by omega
    rw [scan, if_neg]
    rintro ⟨hlt, hmiss⟩
    rcases hstop with hstop | hstop
    · omega
    · simp [hmiss] at hstop
  | succ k ih =>
    rw [scan, if_pos (hbefore offset le_rfl (by omega))]
    apply ih
    · omega
    · intro i hi
      exact hbefore i (by omega)
    · omega

/-- `!memcmp(code, &data[offset], sizeof(code))` -/
def matchesAt (code data : List Byte) (offset : Nat) : Bool := code.isPrefixOf (data.drop offset)

theorem matchesAt_iff {code data : List Byte} {offset : Nat} :
    matchesAt code data offset = true ↔ code <+: data.drop offset := List.isPrefixOf_iff_prefix

theorem matchesAt_eq_false_iff {code data : List Byte} {offset : Nat} :
    matchesAt code data offset = false ↔ ¬ code <+: data.drop offset := by
  rw [← matchesAt_iff, Bool.not_eq_true]

/-- A match lies within the data. -/
theorem length_le_of_matchesAt {code data : List Byte} {offset : Nat} (hne : code ≠ [])
    (h : matchesAt code data offset = true) : offset + code.length ≤ data.length := by
  have hlen := (matchesAt_iff.mp h).length_le
  have hpos := List.length_pos_iff.mpr hne
  rw [List.length_drop] at hlen
  omega

theorem matchesAt_take {code data : List Byte} {offset n : Nat} :
    matchesAt code (data.take n) offset = true ↔
      matchesAt code data offset = true ∧ (offset + code.length ≤ n ∨ code = []) := by
  rw [matchesAt_iff, matchesAt_iff, List.drop_take]
  constructor
  · intro h
    refine ⟨h.trans (List.take_prefix _ _), ?_⟩
    have hlen := h.length_le
    rw [List.length_take] at hlen
    by_cases hcode : code = []
    · exact .inr hcode
    · have := List.length_pos_iff.mpr hcode
      left
      omega
  · rintro ⟨h, hn | rfl⟩
    · exact List.prefix_take_iff.mpr ⟨h, by omega⟩
    · exact List.nil_prefix

end BoardTest
