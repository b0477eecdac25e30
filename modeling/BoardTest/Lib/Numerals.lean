import BoardTest.Lib.CString
import Mathlib.Data.Int.ModEq
import Mathlib.Tactic.Common

/-!
# Numerals and machine words

Digit strings and the numbers they stand for, the integer constants of shell arithmetic (octal
behind a leading zero, wrapped to a 64-bit word), and sums `row * stride + column`, which a word
tells apart up to a carry from the column into the row.
-/

namespace BoardTest.Numeral

def isDigit (b : Byte) : Bool := 48 ≤ b ∧ b ≤ 57

def digitValue (b : Byte) : Nat := b.toNat - 48

/-- The number a digit string stands for in the given base, most significant digit first. -/
def numeral (base : Nat) (ds : List Byte) : Nat :=
  ds.foldl (fun v b => v * base + digitValue b) 0

/-- One digit or more, nothing else: `[0-9]+`. -/
def IsNumeral (ds : List Byte) : Prop := ds ≠ [] ∧ ∀ b ∈ ds, isDigit b = true

instance (ds : List Byte) : Decidable (IsNumeral ds) :=
  @instDecidableAnd _ _ inferInstance (List.decidableBAll _ _)

theorem isDigit_iff {b : Byte} : isDigit b = true ↔ 48 ≤ b.toNat ∧ b.toNat ≤ 57 := by
  simp [isDigit, UInt8.le_iff_toNat_le]

/-- A numeral is read up to the first byte that is no digit. -/
theorem takeWhile_isDigit {ds : List Byte} (hds : ∀ b ∈ ds, isDigit b = true) {b : Byte}
    (hb : isDigit b = false) (t : List Byte) : (ds ++ b :: t).takeWhile isDigit = ds := by
  rw [List.takeWhile_append_of_pos hds, List.takeWhile_cons_of_neg (by simp [hb]), List.append_nil]

theorem dropWhile_isDigit {ds : List Byte} (hds : ∀ b ∈ ds, isDigit b = true) {b : Byte}
    (hb : isDigit b = false) (t : List Byte) : (ds ++ b :: t).dropWhile isDigit = b :: t := by
  rw [List.dropWhile_append_of_pos hds, List.dropWhile_cons_of_neg (by simp [hb])]

theorem numeral_concat (base : Nat) (ds : List Byte) (d : Byte) :
    numeral base (ds ++ [d]) = numeral base ds * base + digitValue d := by
  rw [numeral, List.foldl_concat, ← numeral]

/-- Zeros in front do not count. -/
theorem numeral_zero_cons (base : Nat) (ds : List Byte) :
    numeral base (48 :: ds) = numeral base ds := by
  have hzero : 0 * base + digitValue 48 = 0 := by rw [Nat.zero_mul]; rfl
  rw [numeral, List.foldl_cons, hzero, ← numeral]

theorem numeral_le_numeral {b b' : Nat} (h : b ≤ b') (ds : List Byte) :
    numeral b ds ≤ numeral b' ds := by
  induction ds using List.reverseRecOn with
  | nil => exact le_rfl
  | append_singleton ds d ih =>
    rw [numeral_concat, numeral_concat]
    exact Nat.add_le_add_right (Nat.mul_le_mul ih h) _

theorem digitValue_le_numeral {b : Nat} (hb : 0 < b) {ds : List Byte} {d : Byte} (hd : d ∈ ds) :
    digitValue d ≤ numeral b ds := by
  induction ds using List.reverseRecOn with
  | nil => simp at hd
  | append_singleton ds d' ih =>
    rw [numeral_concat]
    rcases List.mem_append.mp hd with hd | hd
    · calc digitValue d ≤ numeral b ds := ih hd
        _ ≤ numeral b ds * b := Nat.le_mul_of_pos_right _ hb
        _ ≤ numeral b ds * b + digitValue d' := Nat.le_add_right _ _
    · obtain rfl := List.mem_singleton.mp hd
      exact Nat.le_add_left _ _

/-- A numeral of a smaller base stands for the same number in the greater one only when all its
digits but the last are zeros. -/
theorem numeral_eq_numeral_iff {b b' : Nat} (hb : 0 < b) (hlt : b < b') {ds : List Byte}
    (hds : ∀ d ∈ ds, digitValue d < b) : numeral b ds = numeral b' ds ↔ numeral b' ds < b := by
  rcases ds.eq_nil_or_concat' with rfl | ⟨ds, d, rfl⟩
  · exact iff_of_true rfl hb
  · rw [numeral_concat, numeral_concat]
    have hd := hds d (by simp)
    have hle := numeral_le_numeral hlt.le ds
    rcases Nat.eq_zero_or_pos (numeral b' ds) with hzero | hpos
    · have hzero' : numeral b ds = 0 := by omega
      rw [hzero, hzero', Nat.zero_mul, Nat.zero_mul, Nat.zero_add]
      exact iff_of_true rfl hd
    · have hsmall : numeral b ds * b < numeral b' ds * b' :=
        Nat.mul_lt_mul_of_le_of_lt hle hlt hpos
      have hbig : b' ≤ numeral b' ds * b' := Nat.le_mul_of_pos_left b' hpos
      exact iff_of_false (by omega) (by omega)

/-- The digits of a constant, accumulated in one word. -/
def accumulate (base : Nat) (ds : List Byte) : Int64 :=
  ds.foldl (fun v b => v * Int64.ofNat base + Int64.ofNat (digitValue b)) 0

theorem accumulate_eq (base : Nat) (ds : List Byte) :
    accumulate base ds = Int64.ofNat (numeral base ds) := by
  have hfold : ∀ v : Nat, ds.foldl (fun v b => v * Int64.ofNat base + Int64.ofNat (digitValue b))
      (Int64.ofNat v) = Int64.ofNat (ds.foldl (fun v b => v * base + digitValue b) v) := by
    induction ds with
    | nil => exact fun _ => rfl
    | cons b ds ih =>
      intro v
      have hstep : Int64.ofNat v * Int64.ofNat base + Int64.ofNat (digitValue b) =
          Int64.ofNat (v * base + digitValue b) := by rw [Int64.ofNat_add, Int64.ofNat_mul]
      rw [List.foldl_cons, List.foldl_cons, hstep, ih]
  exact hfold 0

/-- The number a constant of shell arithmetic stands for: octal behind a leading zero. -/
def shellNumeral : List Byte → Nat
  | 48 :: d :: ds => numeral 8 (d :: ds)
  | ds => numeral 10 ds

/-- A constant of shell arithmetic: a digit of 8 or more behind a leading zero is an error, and the
number is kept in a 64-bit word without a check for overflow. -/
def shellConstant : List Byte → Option Int64
  | 48 :: d :: ds =>
    if (d :: ds).all (digitValue · < 8) then some (accumulate 8 (d :: ds)) else none
  | ds => some (accumulate 10 ds)

theorem eq_of_shellConstant {ds : List Byte} {v : Int64} (h : shellConstant ds = some v) :
    v = Int64.ofNat (shellNumeral ds) := by
  unfold shellConstant at h
  split at h
  · split at h
    · rw [← Option.some.inj h, accumulate_eq, shellNumeral]
    · cases h
  · next hzero =>
    rw [← Option.some.inj h, accumulate_eq, shellNumeral]
    exact hzero

/-- Without a leading zero the constant is the decimal number. -/
theorem shellNumeral_eq_numeral {ds : List Byte} (h : ∀ t, ds = 48 :: t → t = []) :
    shellNumeral ds = numeral 10 ds := by
  unfold shellNumeral
  split
  · next d t => cases h _ rfl
  · rfl

theorem shellConstant_of_head_ne {ds : List Byte} (h : ds.head? ≠ some 48) :
    shellConstant ds = some (Int64.ofNat (numeral 10 ds)) := by
  unfold shellConstant
  split
  · exact absurd rfl h
  · rw [accumulate_eq]

theorem shellConstant_octal {ds : List Byte} (h : ∀ d ∈ ds, digitValue d < 8) :
    shellConstant (48 :: ds) = some (Int64.ofNat (numeral 8 ds)) := by
  cases ds with
  | nil => rfl
  | cons d ds =>
    have hall : (d :: ds).all (digitValue · < 8) = true := by simpa using h
    rw [shellConstant, if_pos hall, accumulate_eq]

theorem shellConstant_not_octal {ds : List Byte} (h : ∃ d ∈ ds, 8 ≤ digitValue d) :
    shellConstant (48 :: ds) = none := by
  cases ds with
  | nil => simp at h
  | cons d ds =>
    have hall : ¬ (d :: ds).all (digitValue · < 8) = true := by
      intro hall
      obtain ⟨b, hb, hbig⟩ := h
      have hsmall := of_decide_eq_true (List.all_eq_true.mp hall b hb)
      omega
    rw [shellConstant, if_neg hall]

theorem toInt_ofNat_eq_iff {n m : Nat} (h : n ≤ m) :
    (Int64.ofNat n).toInt = m ↔ n = m ∧ m < 2 ^ 63 := by
  have hupper := (Int64.ofNat n).toInt_lt
  constructor
  · intro heq
    have hm : m < 2 ^ 63 := by omega
    rw [← Int64.ofInt_eq_ofNat, Int64.toInt_ofInt_of_le (by omega) (by omega)] at heq
    exact ⟨by omega, hm⟩
  · rintro ⟨rfl, hm⟩
    rw [← Int64.ofInt_eq_ofNat, Int64.toInt_ofInt_of_le (by omega) (by omega)]

theorem ofNat_eq_iff {a b : Nat} : Int64.ofNat a = Int64.ofNat b ↔ a ≡ b [MOD 2 ^ 64] := by
  rw [← Int64.toBitVec_inj, Int64.toBitVec_ofNat', Int64.toBitVec_ofNat', ← BitVec.toNat_inj,
    BitVec.toNat_ofNat, BitVec.toNat_ofNat, Nat.ModEq]

/-- Two places `row * stride + column` are one modulo `stride * m` exactly when their columns agree
up to whole rows and their rows do, with the rows carried over from the columns. -/
theorem strided_modEq_iff {s m a b n k : Nat} (hs : 0 < s) :
    a * s + n ≡ b * s + k [MOD s * m] ↔ n % s = k % s ∧ a + n / s ≡ b + k / s [MOD m] := by
  have split (r c : Nat) : r * s + c = s * (r + c / s) + c % s := by
    rw [Nat.mul_add, Nat.mul_comm s r, Nat.add_assoc, Nat.div_add_mod]
  rw [split a n, split b k]
  constructor
  · intro h
    have hcol : n % s = k % s := by
      have hmod := h.of_mul_right m
      simpa [Nat.ModEq, Nat.mul_add_mod] using hmod
    rw [hcol] at h
    exact ⟨hcol, Nat.ModEq.mul_left_cancel' hs.ne' (Nat.ModEq.add_right_cancel' _ h)⟩
  · rintro ⟨hcol, hrow⟩
    rw [hcol]
    exact (hrow.mul_left' s).add_right _

end BoardTest.Numeral
