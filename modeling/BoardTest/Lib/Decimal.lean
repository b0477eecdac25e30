import BoardTest.Lib.Numerals

/-!
# Printed numbers

`decimal n` is a numeral and stands for `n` (`numeral_decimal`), also behind the zeros that a field
of fixed width puts in front (`padded`).
-/

namespace BoardTest.Numeral

theorem toNat_bounds {c : Char} (h : c.isDigit = true) : 48 ≤ c.toNat ∧ c.toNat ≤ 57 := by
  simp only [Char.isDigit, UInt32.le_iff_toNat_le, Bool.and_eq_true, decide_eq_true_eq] at h
  exact h

theorem toNat_toUInt8 {c : Char} (h : c.isDigit = true) : c.toUInt8.toNat = c.toNat := by
  have hbounds := toNat_bounds h
  rw [Char.toUInt8, UInt32.toNat_toUInt8]
  change c.toNat % 2 ^ 8 = c.toNat
  omega

/-- The byte of a digit is a digit. -/
theorem isDigit_toUInt8 {c : Char} (h : c.isDigit = true) : isDigit c.toUInt8 = true := by
  rw [isDigit_iff, toNat_toUInt8 h]
  exact toNat_bounds h

theorem utf8Size_of_isDigit {c : Char} (h : c.isDigit = true) : c.utf8Size = 1 := by
  have hbounds := toNat_bounds h
  rw [Char.utf8Size_eq_one_iff, UInt32.le_iff_toNat_le]
  change c.toNat ≤ 127
  omega

theorem bytes_append (s t : String) : bytes (s ++ t) = bytes s ++ bytes t := by
  unfold bytes
  rw [String.toUTF8_eq_toByteArray, String.toByteArray_append, ByteArray.data_append,
    Array.toList_append]
  rfl

theorem bytes_ofList {cs : List Char} (h : ∀ c ∈ cs, c.isDigit = true) :
    bytes (String.ofList cs) = cs.map Char.toUInt8 := by
  unfold bytes
  rw [String.toUTF8_eq_toByteArray, String.toByteArray_ofList]
  induction cs with
  | nil => rfl
  | cons c cs ih =>
    have hc := utf8Size_of_isDigit (h c List.mem_cons_self)
    rw [List.utf8Encode_cons, ByteArray.data_append, Array.toList_append,
      ih fun d hd => h d (List.mem_cons_of_mem c hd), List.utf8Encode_singleton,
      String.utf8EncodeChar_eq_singleton hc]
    rfl

theorem isDigit_toDigits {n : Nat} {c : Char} (h : c ∈ Nat.toDigits 10 n) : c.isDigit = true :=
  Nat.isDigit_of_mem_toDigits (by decide) (by decide) h

theorem decimal_eq (n : Nat) : decimal n = (Nat.toDigits 10 n).map Char.toUInt8 := by
  rw [decimal, Nat.toString_eq_ofList_toDigits]
  exact bytes_ofList fun _ hc => isDigit_toDigits hc

theorem isNumeral_decimal (n : Nat) : IsNumeral (decimal n) := by
  rw [decimal_eq]
  constructor
  · rw [Ne, List.map_eq_nil_iff]
    exact Nat.toDigits_ne_nil
  · intro b hb
    obtain ⟨c, hc, rfl⟩ := List.mem_map.mp hb
    exact isDigit_toUInt8 (isDigit_toDigits hc)

/-- Characters that are digits are read as their bytes are. -/
theorem numeral_map_toUInt8 {cs : List Char} (h : ∀ c ∈ cs, c.isDigit = true) :
    numeral 10 (cs.map Char.toUInt8) = Nat.ofDigitChars 10 cs 0 := by
  induction cs using List.reverseRecOn with
  | nil => rfl
  | append_singleton cs c ih =>
    have hc := toNat_toUInt8 (h c List.mem_concat_self)
    rw [List.map_append, List.map_singleton, numeral_concat, ih fun d hd => h d (by simp [hd]),
      Nat.ofDigitChars_append, Nat.ofDigitChars_cons, Nat.ofDigitChars_nil, digitValue, hc,
      Nat.mul_comm]
    rfl

/-- A printed number is read back. -/
theorem numeral_decimal (n : Nat) : numeral 10 (decimal n) = n := by
  rw [decimal_eq, numeral_map_toUInt8 fun _ hc => isDigit_toDigits hc,
    Nat.ofDigitChars_ten_toDigits]

theorem length_decimal_le_iff {n k : Nat} (hk : 0 < k) : (decimal n).length ≤ k ↔ n < 10 ^ k := by
  rw [decimal_eq, List.length_map]
  exact Nat.length_toDigits_le_iff (by decide) hk

/-- A field of at least `width` digits, filled with zeros: `%02d` -/
def padded (width n : Nat) : List Byte :=
  List.replicate (width - (decimal n).length) 48 ++ decimal n

theorem isNumeral_padded (width n : Nat) : IsNumeral (padded width n) := by
  have hdecimal := isNumeral_decimal n
  refine ⟨List.append_ne_nil_of_right_ne_nil _ hdecimal.1, ?_⟩
  intro b hb
  rcases List.mem_append.mp hb with hb | hb
  · rw [List.eq_of_mem_replicate hb]
    rfl
  · exact hdecimal.2 b hb

/-- Zeros in front of a number do not count. -/
theorem numeral_padded (width n : Nat) : numeral 10 (padded width n) = n := by
  unfold padded
  generalize width - (decimal n).length = zeros
  induction zeros with
  | zero => exact numeral_decimal n
  | succ zeros ih => rw [List.replicate_succ, List.cons_append, numeral_zero_cons, ih]

end BoardTest.Numeral
