import BoardTest.Lib.Decimal

/-!
# Numbers of ECMAScript as text

A finite number is given by the decimal expansion that `Number::toString` prints: the shortest one
that names it. `toText` is that function, `stringify` what `JSON.stringify` makes of a number.
-/

namespace BoardTest

open Numeral

/-- `0.d₁d₂…dₖ * 10 ^ point`, without zeros at either end. -/
structure DecimalExpansion where
  digits : List Byte
  point : Int
  isNumeral : IsNumeral digits
  head_ne : digits.head? ≠ some 48
  last_ne : digits.getLast? ≠ some 48

/-- A value of the type Number. `JSON` and `toString` do not tell the zeros apart. -/
inductive JsNumber
  | nan
  | infinity (negative : Bool)
  | zero
  | finite (negative : Bool) (expansion : DecimalExpansion)

/-- The exponent with its sign. -/
def exponentText (e : Int) : List Byte :=
  (if e < 0 then bytes "-" else bytes "+") ++ (Nat.toDigits 10 e.natAbs).map fun c => c.toUInt8

/-- `Number::toString` of a positive number. -/
def DecimalExpansion.toText (x : DecimalExpansion) : List Byte :=
  let k : Nat := x.digits.length
  let n := x.point
  if k ≤ n ∧ n ≤ 21 then x.digits ++ List.replicate (n - k).toNat 48
  else if 0 < n ∧ n ≤ 21 then x.digits.take n.toNat ++ bytes "." ++ x.digits.drop n.toNat
  else if -6 < n ∧ n ≤ 0 then bytes "0." ++ List.replicate (-n).toNat 48 ++ x.digits
  else if k = 1 then x.digits ++ bytes "e" ++ exponentText (n - 1)
  else x.digits.take 1 ++ bytes "." ++ x.digits.drop 1 ++ bytes "e" ++ exponentText (n - 1)

/-- `Number::toString` -/
def JsNumber.toText : JsNumber → List Byte
  | nan => bytes "NaN"
  | infinity negative => (if negative then bytes "-" else []) ++ bytes "Infinity"
  | zero => bytes "0"
  | finite negative x => (if negative then bytes "-" else []) ++ x.toText

/-- `JSON.stringify` of a number. -/
def JsNumber.stringify : JsNumber → List Byte
  | nan => bytes "null"
  | infinity _ => bytes "null"
  | zero => zero.toText
  | finite negative x => (finite negative x).toText

/-- Digits, letters and `+ - .`, the bytes numbers are printed with. -/
def isNumberByte (b : Byte) : Bool :=
  isDigit b ∨ 65 ≤ b ∧ b ≤ 90 ∨ 97 ≤ b ∧ b ≤ 122 ∨ b = 43 ∨ b = 45 ∨ b = 46

def NumberText (t : List Byte) : Prop := ∀ b ∈ t, isNumberByte b = true

instance (t : List Byte) : Decidable (NumberText t) := List.decidableBAll _ _

theorem numberText_append {s t : List Byte} (hs : NumberText s) (ht : NumberText t) :
    NumberText (s ++ t) := by
  intro b hb
  rcases List.mem_append.mp hb with hb | hb
  · exact hs b hb
  · exact ht b hb

theorem numberText_of_digits {t : List Byte} (h : ∀ b ∈ t, isDigit b = true) : NumberText t := by
  intro b hb
  simp [isNumberByte, h b hb]

theorem numberText_zeros (n : Nat) : NumberText (List.replicate n 48) := by
  intro b hb
  rw [List.eq_of_mem_replicate hb]
  decide

theorem numberText_exponent (e : Int) : NumberText (exponentText e) := by
  apply numberText_append
  · split <;> decide
  · apply numberText_of_digits
    intro b hb
    obtain ⟨c, hc, rfl⟩ := List.mem_map.mp hb
    exact isDigit_toUInt8 (isDigit_toDigits hc)

theorem DecimalExpansion.numberText (x : DecimalExpansion) : NumberText x.toText := by
  have hdigits := x.isNumeral.2
  have htake (n : Nat) : NumberText (x.digits.take n) :=
    numberText_of_digits fun b hb => hdigits b (List.mem_of_mem_take hb)
  have hdrop (n : Nat) : NumberText (x.digits.drop n) :=
    numberText_of_digits fun b hb => hdigits b (List.mem_of_mem_drop hb)
  have hall : NumberText x.digits := numberText_of_digits hdigits
  have hpoint : NumberText (bytes ".") := by decide
  have hzero : NumberText (bytes "0.") := by decide
  have he : NumberText (bytes "e") := by decide
  unfold DecimalExpansion.toText
  extract_lets k n
  split
  · exact numberText_append hall (numberText_zeros _)
  split
  · exact numberText_append (numberText_append (htake _) hpoint) (hdrop _)
  split
  · exact numberText_append (numberText_append hzero (numberText_zeros _)) hall
  split
  · exact numberText_append (numberText_append hall he) (numberText_exponent _)
  · exact numberText_append (numberText_append (numberText_append
      (numberText_append (htake _) hpoint) (hdrop _)) he) (numberText_exponent _)

theorem numberText_sign (negative : Bool) : NumberText (if negative then bytes "-" else []) := by
  cases negative <;> decide

theorem JsNumber.numberText_toText (x : JsNumber) : NumberText x.toText := by
  cases x with
  | nan => decide
  | infinity negative => exact numberText_append (numberText_sign _) (by decide)
  | zero => decide
  | finite negative x => exact numberText_append (numberText_sign _) x.numberText

theorem JsNumber.numberText_stringify (x : JsNumber) : NumberText x.stringify := by
  cases x with
  | nan => decide
  | infinity _ =>
    have hnull : NumberText (bytes "null") := by decide
    exact hnull
  | zero => exact JsNumber.zero.numberText_toText
  | finite negative x => exact (JsNumber.finite negative x).numberText_toText

theorem DecimalExpansion.toText_ne_nil (x : DecimalExpansion) : x.toText ≠ [] := by
  have hdigits := List.length_pos_iff.mpr x.isNumeral.1
  have hpoint : (bytes ".").length = 1 := rfl
  apply List.ne_nil_of_length_pos
  unfold DecimalExpansion.toText
  extract_lets k n
  split
  · rw [List.length_append]
    omega
  split
  · rw [List.length_append, List.length_append, hpoint]
    omega
  split
  · rw [List.length_append]
    omega
  split
  · rw [List.length_append, List.length_append]
    omega
  · rw [List.length_append, List.length_append, List.length_append, List.length_append, hpoint]
    omega

theorem JsNumber.toText_ne_nil (x : JsNumber) : x.toText ≠ [] := by
  cases x with
  | nan => decide
  | infinity negative => exact List.append_ne_nil_of_right_ne_nil _ (by decide)
  | zero => decide
  | finite negative x => exact List.append_ne_nil_of_right_ne_nil _ x.toText_ne_nil

end BoardTest
