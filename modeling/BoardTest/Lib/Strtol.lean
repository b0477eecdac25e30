import BoardTest.Lib.Decimal

/-!
# `strtol`

`strtol(s, &end, 10)` skips blanks, takes a sign and digits, and yields the number they stand for,
or the nearest `long`; where there are no digits it yields 0 and leaves the end at the beginning.
`IsInteger` is the syntax of the numbers that fill a whole string, and `readInteger` reads just
these (`readInteger_eq_iff`).
-/

namespace BoardTest.Strtol

open Numeral

/-- `isspace` -/
def isSpace (b : Byte) : Bool := b = 32 ∨ 9 ≤ b ∧ b ≤ 13

/-- The sign in front of the digits. -/
inductive Sign
  | none
  | plus
  | minus

def Sign.text : Sign → List Byte
  | none => []
  | plus => [43]
  | minus => [45]

def Sign.apply : Sign → Nat → Int
  | none, n | plus, n => n
  | minus, n => -n

def readSign : List Byte → Sign × List Byte
  | 43 :: s => (.plus, s)
  | 45 :: s => (.minus, s)
  | s => (.none, s)

/-- The number at the beginning of a string and the text behind it. -/
def readInteger (s : List Byte) : Option (Int × List Byte) :=
  let signed := readSign (s.dropWhile isSpace)
  let digits := signed.2.takeWhile isDigit
  if digits = [] then none
  else some (signed.1.apply (numeral 10 digits), signed.2.dropWhile isDigit)

/-- The nearest number that a `long` of 64 bits holds. -/
def saturate (v : Int) : Int := max (-2 ^ 63) (min v (2 ^ 63 - 1))

/-- `strtol(s, &end, 10)`: its result and the text at `end`. -/
def strtol (s : List Byte) : Int × List Byte :=
  match readInteger s with
  | none => (0, s)
  | some (v, rest) => (saturate v, rest)

/-- `%d` and `%ld` -/
def printInt (v : Int) : List Byte := bytes (toString v)

/-- The whole string is the number `v`: blanks, a sign, one digit or more. -/
inductive IsInteger : List Byte → Int → Prop
  | intro {blanks digits : List Byte} (sign : Sign) (hblanks : ∀ b ∈ blanks, isSpace b = true)
      (hdigits : IsNumeral digits) :
      IsInteger (blanks ++ (sign.text ++ digits)) (sign.apply (numeral 10 digits))

theorem isSpace_eq_false_of_isDigit {b : Byte} (h : isDigit b = true) : isSpace b = false := by
  rw [isDigit_iff] at h
  rw [isSpace, decide_eq_false_iff_not, ← UInt8.toNat_inj, UInt8.le_iff_toNat_le,
    UInt8.le_iff_toNat_le]
  change ¬ (b.toNat = 32 ∨ 9 ≤ b.toNat ∧ b.toNat ≤ 13)
  omega

/-- A sign is no blank and a digit is none, so that the blanks end where the number begins. -/
theorem dropWhile_isSpace {blanks digits : List Byte} (sign : Sign)
    (hblanks : ∀ b ∈ blanks, isSpace b = true) (hdigits : IsNumeral digits) (t : List Byte) :
    (blanks ++ (sign.text ++ (digits ++ t))).dropWhile isSpace = sign.text ++ (digits ++ t) := by
  rw [List.dropWhile_append_of_pos hblanks]
  cases sign with
  | plus | minus => exact List.dropWhile_cons_of_neg (by decide)
  | none =>
    obtain ⟨d, ds, rfl⟩ := List.exists_cons_of_ne_nil hdigits.1
    have hd := isSpace_eq_false_of_isDigit (hdigits.2 d List.mem_cons_self)
    exact List.dropWhile_cons_of_neg (by rw [hd]; exact Bool.false_ne_true)

theorem readSign_text {digits : List Byte} (sign : Sign) (hdigits : IsNumeral digits)
    (t : List Byte) : readSign (sign.text ++ (digits ++ t)) = (sign, digits ++ t) := by
  cases sign with
  | plus | minus => rfl
  | none =>
    obtain ⟨d, ds, rfl⟩ := List.exists_cons_of_ne_nil hdigits.1
    have hd := isDigit_iff.mp (hdigits.2 d List.mem_cons_self)
    change readSign (d :: (ds ++ t)) = _
    unfold readSign
    split
    · next h =>
      rw [(List.cons.inj h).1] at hd
      exact absurd hd.1 (by decide)
    · next h =>
      rw [(List.cons.inj h).1] at hd
      exact absurd hd.1 (by decide)
    · rfl

/-- A number is read up to the first byte that is no digit. -/
theorem readInteger_text {blanks digits t : List Byte} (sign : Sign)
    (hblanks : ∀ b ∈ blanks, isSpace b = true) (hdigits : IsNumeral digits)
    (ht : ∀ b ∈ t.head?, isDigit b = false) :
    readInteger (blanks ++ (sign.text ++ (digits ++ t))) =
      some (sign.apply (numeral 10 digits), t) := by
  have hstop : t.takeWhile isDigit = [] ∧ t.dropWhile isDigit = t := by
    cases t with
    | nil => exact ⟨rfl, rfl⟩
    | cons b t =>
      have hb := ht b rfl
      constructor
      · exact List.takeWhile_cons_of_neg (by rw [hb]; exact Bool.false_ne_true)
      · exact List.dropWhile_cons_of_neg (by rw [hb]; exact Bool.false_ne_true)
  simp only [readInteger, dropWhile_isSpace sign hblanks hdigits, readSign_text sign hdigits,
    List.takeWhile_append_of_pos hdigits.2, List.dropWhile_append_of_pos hdigits.2, hstop.1,
    hstop.2, List.append_nil, if_neg hdigits.1]

/-- What `%d` writes is a number of the syntax. -/
theorem exists_printInt (v : Int) :
    ∃ sign : Sign, printInt v = sign.text ++ decimal v.natAbs ∧ sign.apply v.natAbs = v := by
  cases v with
  | ofNat n => exact ⟨.none, rfl, rfl⟩
  | negSucc n =>
    refine ⟨.minus, ?_, rfl⟩
    have hminus : printInt (Int.negSucc n) = bytes ("-" ++ toString (n + 1)) := rfl
    rw [hminus, bytes_append]
    rfl

theorem readInteger_printInt (v : Int) {t : List Byte} (ht : ∀ b ∈ t.head?, isDigit b = false) :
    readInteger (printInt v ++ t) = some (v, t) := by
  obtain ⟨sign, hprint, hv⟩ := exists_printInt v
  rw [hprint, List.append_assoc]
  have hblanks : ∀ b ∈ ([] : List Byte), isSpace b = true := by
    intro b hb
    cases hb
  have hread := readInteger_text sign hblanks (isNumeral_decimal v.natAbs) ht
  rwa [List.nil_append, numeral_decimal, hv] at hread

theorem text_append_readSign (s : List Byte) : (readSign s).1.text ++ (readSign s).2 = s := by
  unfold readSign
  split <;> rfl

/-- `strtol` reads to the end exactly the strings of its syntax. -/
theorem readInteger_eq_iff {s : List Byte} {v : Int} :
    readInteger s = some (v, []) ↔ IsInteger s v := by
  constructor
  · intro h
    simp only [readInteger] at h
    split at h
    · cases h
    · next hne =>
      obtain ⟨hv, hrest⟩ := Prod.mk.inj (Option.some.inj h)
      have hdigits := List.takeWhile_append_dropWhile (p := isDigit)
        (l := (readSign (s.dropWhile isSpace)).2)
      rw [hrest, List.append_nil] at hdigits
      have hs : s = s.takeWhile isSpace ++ ((readSign (s.dropWhile isSpace)).1.text ++
          (readSign (s.dropWhile isSpace)).2.takeWhile isDigit) := by
        rw [hdigits, text_append_readSign, List.takeWhile_append_dropWhile]
      rw [hs, ← hv]
      exact .intro _ (fun b hb => List.mem_takeWhile_imp hb)
        ⟨hne, fun b hb => List.mem_takeWhile_imp hb⟩
  · rintro ⟨sign, hblanks, hdigits⟩
    have hread := readInteger_text (t := []) sign hblanks hdigits (by simp)
    rwa [List.append_nil] at hread

instance (s : List Byte) (v : Int) : Decidable (IsInteger s v) :=
  decidable_of_iff _ readInteger_eq_iff

theorem IsInteger.eq {s : List Byte} {v w : Int} (hv : IsInteger s v) (hw : IsInteger s w) :
    v = w := by
  have hread := (readInteger_eq_iff.mpr hv).symm.trans (readInteger_eq_iff.mpr hw)
  exact (Prod.mk.inj (Option.some.inj hread)).1

theorem not_isInteger_nil (v : Int) : ¬ IsInteger [] v := by
  intro h
  have hread := readInteger_eq_iff.mpr h
  cases hread

/-- The end pointer is at the end behind the empty string and behind a number. -/
theorem strtol_eq_iff {s : List Byte} {n : Int} :
    strtol s = (n, []) ↔ (s = [] ∧ n = 0) ∨ ∃ v, IsInteger s v ∧ n = saturate v := by
  unfold strtol
  split
  · next hnone =>
    have hno : ¬ ∃ v, IsInteger s v ∧ n = saturate v := by
      rintro ⟨v, hv, -⟩
      rw [readInteger_eq_iff.mpr hv] at hnone
      cases hnone
    rw [or_iff_left hno, Prod.mk.injEq]
    exact ⟨fun h => ⟨h.2, h.1.symm⟩, fun h => ⟨h.2.symm, h.1⟩⟩
  · next v rest hsome =>
    have hne : s ≠ [] := by
      rintro rfl
      cases hsome
    rw [or_iff_right fun h => hne h.1, Prod.mk.injEq]
    constructor
    · rintro ⟨rfl, rfl⟩
      exact ⟨v, readInteger_eq_iff.mp hsome, rfl⟩
    · rintro ⟨w, hw, rfl⟩
      rw [readInteger_eq_iff.mpr hw] at hsome
      obtain ⟨rfl, rfl⟩ := Prod.mk.inj (Option.some.inj hsome)
      exact ⟨rfl, rfl⟩

theorem strtol_of_isInteger {s : List Byte} {v : Int} (h : IsInteger s v) :
    strtol s = (saturate v, []) :=
  strtol_eq_iff.mpr (.inr ⟨v, h, rfl⟩)

end BoardTest.Strtol
