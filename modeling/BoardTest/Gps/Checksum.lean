import BoardTest.Gps.Damage

/-!
# The checksum test

`parse_nmea` compares the number behind the first `*` of a line with the XOR of the bytes before it.
The number is left where it was when `sscanf` reads none, and `expected` has no initialiser: whether
such a line passes depends on what the stack held. All other lines are decided rightly
(`decided_iff`).
-/

namespace BoardTest.Gps

/-- `%x` finds a digit behind blanks, a sign and `0x`. -/
def HasNumber (text : List Byte) : Prop :=
  ∃ b ∈ (scanHexMark (scanSign (text.dropWhile isSpace)).2).head?, (hexDigit b).isSome

theorem scanHex_eq_none_iff (text : List Byte) : scanHex text = none ↔ ¬ HasNumber text := by
  rw [scanHex, HasNumber]
  cases hrest : scanHexMark (scanSign (text.dropWhile isSpace)).2 with
  | nil => simp [hrest]
  | cons b rest =>
    cases hb : (hexDigit b).isSome <;> simp [hrest, hb]

/-- A line that `main` hands to `parse_nmea`. -/
structure GpsLine where
  bytes : List Byte
  length_le : bytes.length ≤ 511
  head_eq : bytes.head? = some dollar
  nul_not_mem : (0 : Byte) ∉ bytes

namespace GpsLine

variable (l : GpsLine)

/-- The line without CR and LF at its end. -/
def trimmed : List Byte := stripEnd l.bytes

/-- The bytes between the `$` and the first `*`. -/
def checked : List Byte := (cutAt star l.trimmed).drop 1

/-- `parse_nmea` goes past the checksum test, with `expected₀` in the uninitialised variable. -/
def PassesCheck (expected₀ : Int32) : Prop :=
  ∀ actual, parseNmea expected₀.toInt l.bytes ≠ .mismatch actual

/-- The line has no checksum, or the right one. -/
def Intact : Prop :=
  star ∉ l.trimmed ∨
    scanHex (behindStar l.trimmed) = some ((bodyChecksum l.checked).toNat : Int)

/-- The test lets the line through when it should, whatever the variable held. -/
def Decided : Prop := ∀ expected₀, l.PassesCheck expected₀ ↔ l.Intact

theorem trimmed_isPrefix : l.trimmed <+: l.bytes := by
  rw [trimmed, stripEnd]
  have hsuffix := List.dropWhile_suffix (l := l.bytes.reverse) (fun b => b = cr ∨ b = lf)
  simpa using List.reverse_prefix.mpr hsuffix

theorem nmeaChecksum_cutAt : nmeaChecksum (cutAt star l.trimmed) = bodyChecksum l.checked := by
  rw [nmeaChecksum, ← checked, List.takeWhile_eq_self_iff.mpr]
  · rfl
  · intro b hb
    have hcut : b ∈ cutAt star l.trimmed := List.mem_of_mem_drop hb
    have htrimmed := (cutAt_isPrefix star l.trimmed).subset hcut
    have hnul : b ≠ 0 := ne_of_mem_of_not_mem (l.trimmed_isPrefix.subset htrimmed) l.nul_not_mem
    have hstar : b ≠ star := ne_of_mem_of_not_mem hcut (not_mem_cutAt star l.trimmed)
    simpa using ⟨hnul, hstar⟩

theorem passesCheck_iff (expected₀ : Int32) :
    l.PassesCheck expected₀ ↔ checksumTest expected₀.toInt l.trimmed = none := by
  have htake : l.bytes.take (bufSize - 1) = l.bytes := List.take_of_length_le l.length_le
  rw [PassesCheck, parseNmea, htake, ← trimmed]
  cases checksumTest expected₀.toInt l.trimmed with
  | some actual => simp
  | none =>
    refine iff_of_true ?_ rfl
    intro actual
    dsimp only
    split
    · simp
    · split <;> simp

/-- What the test compares. -/
theorem passesCheck_of_star (hstar : star ∈ l.trimmed) (expected₀ : Int32) :
    l.PassesCheck expected₀ ↔ (scanHex (behindStar l.trimmed)).getD expected₀.toInt =
      ((bodyChecksum l.checked).toNat : Int) := by
  rw [l.passesCheck_iff, checksumTest, if_pos hstar, l.nmeaChecksum_cutAt, ← behindStar]
  simp

theorem passesCheck_starless (hstar : star ∉ l.trimmed) (expected₀ : Int32) :
    l.PassesCheck expected₀ := by
  rw [l.passesCheck_iff, checksumTest, if_neg hstar]

/-- The test decides a line rightly exactly when the line has no `*`, or a number behind it. -/
theorem decided_iff : l.Decided ↔ star ∉ l.trimmed ∨ HasNumber (behindStar l.trimmed) := by
  by_cases hstar : star ∈ l.trimmed
  · rw [or_iff_right (not_not_intro hstar)]
    cases hscan : scanHex (behindStar l.trimmed) with
    | none =>
      refine iff_of_false ?_ ((scanHex_eq_none_iff _).mp hscan)
      intro h
      -- the variable may have held the right sum
      have hsum := (bodyChecksum l.checked).toNat_lt
      have hheld : (Int32.ofInt (bodyChecksum l.checked).toNat).toInt =
          ((bodyChecksum l.checked).toNat : Int) :=
        Int32.toInt_ofInt_of_le (by omega) (by omega)
      have hpass := (h (Int32.ofInt (bodyChecksum l.checked).toNat)).mp (by
        rw [l.passesCheck_of_star hstar, hscan, Option.getD_none, hheld])
      rcases hpass with hnone | hsome
      · exact hnone hstar
      · rw [hscan] at hsome
        cases hsome
    | some v =>
      have hnumber : HasNumber (behindStar l.trimmed) := by
        rw [← not_not (a := HasNumber _), ← scanHex_eq_none_iff, hscan]
        simp
      refine iff_of_true ?_ hnumber
      intro expected₀
      rw [l.passesCheck_of_star hstar, Intact, or_iff_right (not_not_intro hstar), hscan,
        Option.getD_some, Option.some_inj]
  · exact iff_of_true (fun e => iff_of_true (l.passesCheck_starless hstar e) (.inl hstar))
      (.inl hstar)

end GpsLine

/-- `$A*zz` -/
def noNumber : GpsLine where
  bytes := bytes "$A*zz"
  length_le := by decide +kernel
  head_eq := by decide +kernel
  nul_not_mem := by decide +kernel

/-- With the sum of the line in the variable it passes, though it has no checksum. -/
theorem noNumber_not_decided : ¬ ∀ l : GpsLine, l.Decided := by
  intro h
  have hpass : noNumber.PassesCheck 65 := by
    rw [GpsLine.passesCheck_iff]
    decide +kernel
  rcases (h noNumber 65).mp hpass with hstar | hscan
  · exact hstar (by decide +kernel)
  · exact absurd hscan (by decide +kernel)

end BoardTest.Gps
