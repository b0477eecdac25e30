import BoardTest.Lib.CString
import Mathlib.Algebra.Order.Floor.Div
import Mathlib.Tactic.Common

/-!
# Rows of hexadecimal cells

A list set out in rows of `n` entries (`rowsOf`): the rows put together are the list, all of them
but the last are full, and there are as many as the quotient rounded up. A byte is printed as a pair
of digits, and the pair stands for it (`readPair_hexPair`).
-/

namespace BoardTest

section Rows

variable {α : Type*} {n : Nat} {cur rest : List α}

/-- The rows of `cur ++ rest`, the first of which begins with `cur`. -/
def rowsOf (n : Nat) (cur : List α) : List α → List (List α)
  | [] => []
  | a :: rest =>
    if rest = [] ∨ cur.length + 1 = n then (cur ++ [a]) :: rowsOf n [] rest
    else rowsOf n (cur ++ [a]) rest

theorem rowsOf_end {a : α} (h : rest = [] ∨ cur.length + 1 = n) :
    rowsOf n cur (a :: rest) = (cur ++ [a]) :: rowsOf n [] rest := by
  rw [rowsOf, if_pos h]

theorem rowsOf_open {a : α} (h : ¬ (rest = [] ∨ cur.length + 1 = n)) :
    rowsOf n cur (a :: rest) = rowsOf n (cur ++ [a]) rest := by
  rw [rowsOf, if_neg h]

/-- Nothing is lost between the rows. -/
theorem flatten_rowsOf (hrest : rest = [] → cur = []) :
    (rowsOf n cur rest).flatten = cur ++ rest := by
  fun_induction rowsOf n cur rest with
  | case1 cur => rw [hrest rfl]; rfl
  | case2 cur a rest h ih => rw [List.flatten_cons, ih fun _ => rfl]; simp
  | case3 cur a rest h ih =>
    rw [not_or] at h
    rw [ih fun hnil => absurd hnil h.1]
    simp

theorem bounds_of_mem_rowsOf (hcur : cur.length < n) {row : List α} (h : row ∈ rowsOf n cur rest) :
    0 < row.length ∧ row.length ≤ n := by
  fun_induction rowsOf n cur rest with
  | case1 cur => simp at h
  | case2 cur a rest hend ih =>
    rcases List.mem_cons.mp h with rfl | h
    · rw [List.length_append, List.length_singleton]
      omega
    · exact ih (by rw [List.length_nil]; omega) h
  | case3 cur a rest hopen ih =>
    rw [not_or] at hopen
    refine ih ?_ h
    rw [List.length_append, List.length_singleton]
    omega

/-- A row that another one follows is full. -/
theorem length_eq_of_mem_dropLast {row : List α} (h : row ∈ (rowsOf n cur rest).dropLast) :
    row.length = n := by
  fun_induction rowsOf n cur rest with
  | case1 cur => simp at h
  | case2 cur a rest hend ih =>
    by_cases hrest : rest = []
    · simp [hrest, rowsOf] at h
    · cases hrows : rowsOf n [] rest with
      | nil => simp [hrows] at h
      | cons next rows =>
        rw [hrows, List.dropLast_cons_cons] at h
        rcases List.mem_cons.mp h with rfl | h
        · rw [List.length_append, List.length_singleton]
          exact hend.resolve_left hrest
        · exact ih (by rw [hrows]; exact h)
  | case3 cur a rest hopen ih => exact ih h

/-- There are as many rows as the quotient rounded up. -/
theorem length_rowsOf (hcur : cur.length < n) (hrest : rest = [] → cur = []) :
    (rowsOf n cur rest).length = (cur.length + rest.length) ⌈/⌉ n := by
  rw [Nat.ceilDiv_eq_add_pred_div]
  fun_induction rowsOf n cur rest with
  | case1 cur =>
    rw [hrest rfl]
    exact (Nat.div_eq_of_lt (by simp only [List.length_nil] at hcur ⊢; omega)).symm
  | case2 cur a rest hend ih =>
    have hn : 0 < n := by omega
    rw [List.length_cons, ih (by rw [List.length_nil]; omega) fun _ => rfl, List.length_nil,
      List.length_cons]
    rcases hend with rfl | hfull
    · have hone : cur.length + (0 + 1) + n - 1 = cur.length + n := by omega
      rw [List.length_nil, hone, Nat.add_div_right _ hn, Nat.div_eq_of_lt hcur,
        Nat.div_eq_of_lt (by omega)]
    · have hnext : cur.length + (rest.length + 1) + n - 1 = 0 + rest.length + n - 1 + n := by omega
      rw [hnext, Nat.add_div_right _ hn]
  | case3 cur a rest hopen ih =>
    rw [not_or] at hopen
    rw [ih (by rw [List.length_append, List.length_singleton]; omega) fun h => absurd h hopen.1,
      List.length_append, List.length_singleton, List.length_cons]
    congr 1
    omega

end Rows

/-- A digit of `%X`. -/
def hexDigitByte (d : Nat) : Byte := if d < 10 then UInt8.ofNat (48 + d) else UInt8.ofNat (55 + d)

/-- `%02X` of a byte -/
def hexPair (b : Byte) : List Byte := [hexDigitByte (b.toNat / 16), hexDigitByte (b.toNat % 16)]

/-- The value of a digit of `%X`. -/
def readHexDigit (b : Byte) : Option Nat :=
  if 48 ≤ b ∧ b ≤ 57 then some (b.toNat - 48)
  else if 65 ≤ b ∧ b ≤ 70 then some (b.toNat - 55)
  else none

/-- The byte that a pair of digits stands for. -/
def readPair : List Byte → Option Byte
  | [high, low] =>
    (readHexDigit high).bind fun h => (readHexDigit low).map fun l => UInt8.ofNat (16 * h + l)
  | _ => none

theorem length_hexPair (b : Byte) : (hexPair b).length = 2 := rfl

theorem readHexDigit_hexDigitByte : ∀ d < 16, readHexDigit (hexDigitByte d) = some d := by
  decide

theorem readPair_hexPair (b : Byte) : readPair (hexPair b) = some b := by
  have hb := b.toNat_lt
  have hvalue : 16 * (b.toNat / 16) + b.toNat % 16 = b.toNat := Nat.div_add_mod _ _
  rw [hexPair, readPair, readHexDigit_hexDigitByte _ (by omega),
    readHexDigit_hexDigitByte _ (by omega), Option.bind_some, Option.map_some, hvalue,
    UInt8.ofNat_toNat]

/-- A text that is no pair of digits is not the cell of a byte. -/
theorem hexPair_ne {cell : List Byte} (h : readPair cell = none) (b : Byte) : hexPair b ≠ cell := by
  rintro rfl
  rw [readPair_hexPair] at h
  cases h

theorem mapM_readPair (bs : List Byte) : (bs.map hexPair).mapM readPair = some bs := by
  induction bs with
  | nil => rfl
  | cons b bs ih => simp [readPair_hexPair, ih]

end BoardTest
