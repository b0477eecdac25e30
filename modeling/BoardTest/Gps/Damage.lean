import BoardTest.Gps.Sentence

/-!
# Damaged sentences

A sentence `$body*HH` of which one byte of the body, or the `*`, has become another one. The XOR
shows every such change that leaves the `*` and brings no other (`bodyChecksum_set_ne`). A byte that
becomes a `*` shortens the part that is checked and moves what is read as its checksum, and without
a `*` nothing is checked; `Damage.stopped_iff` says which damage `parse_nmea` stops at.
-/

namespace BoardTest.Gps

/-- `$body*HH`, where `HH` is the XOR of the body in hexadecimal digits. -/
structure CheckedSentence where
  body : List Byte
  hi : Byte
  lo : Byte
  noNul : (0 : Byte) ∉ body
  checksum : ∃ a b, hexDigit hi = some a ∧ hexDigit lo = some b ∧
    16 * a + b = (bodyChecksum body).toNat
  short : (dollar :: (body ++ [star, hi, lo])).length ≤ 511

/-- One byte of the body, or the `*` behind it, is replaced by another one. -/
structure Damage (s : CheckedSentence) where
  pos : Nat
  byte : Byte
  pos_le : pos ≤ s.body.length
  changed : (s.body ++ [star])[pos]? ≠ some byte
  noNul : byte ≠ 0
  noCr : byte ≠ cr
  noLf : byte ≠ lf

variable {s : CheckedSentence}

/-- What stands between `$` and `HH` now. -/
def Damage.text (d : Damage s) : List Byte := (s.body ++ [star]).set d.pos d.byte

/-- The damaged sentence. -/
def Damage.line (d : Damage s) : List Byte := dollar :: (d.text ++ [s.hi, s.lo])

/-- The bytes behind the first `*`. -/
def behindStar (text : List Byte) : List Byte := (text.dropWhile (· ≠ star)).drop 1

theorem foldl_xor (l : List Byte) (a : Byte) : l.foldl (· ^^^ ·) a = a ^^^ bodyChecksum l := by
  induction l generalizing a with
  | nil => simp [bodyChecksum]
  | cons b l ih =>
    rw [bodyChecksum, List.foldl_cons, List.foldl_cons, ih, ih (0 ^^^ b), UInt8.zero_xor,
      UInt8.xor_assoc]

theorem bodyChecksum_cons (b : Byte) (l : List Byte) :
    bodyChecksum (b :: l) = b ^^^ bodyChecksum l := by
  rw [bodyChecksum, List.foldl_cons, foldl_xor, UInt8.zero_xor]

/-- One changed byte changes the XOR. -/
theorem bodyChecksum_set_ne {l : List Byte} {i : Nat} {b : Byte} (hi : i < l.length)
    (hb : l[i]? ≠ some b) : bodyChecksum (l.set i b) ≠ bodyChecksum l := by
  induction l generalizing i with
  | nil => simp at hi
  | cons c l ih =>
    cases i with
    | zero =>
      rw [List.set_cons_zero, bodyChecksum_cons, bodyChecksum_cons]
      intro h
      have hbc : b = c := by simpa using h
      exact hb (by rw [hbc, List.getElem?_cons_zero])
    | succ i =>
      rw [List.set_cons_succ, bodyChecksum_cons, bodyChecksum_cons]
      intro h
      have hrest : bodyChecksum (l.set i b) = bodyChecksum l := by simpa using h
      exact ih (by simpa using hi) (by simpa using hb) hrest

section Test

variable {text : List Byte} {hi lo : Byte} {a b : Nat}

/-- Of such a line nothing is stripped. -/
theorem stripEnd_digit (text : List Byte) (hi : Byte) (hlo : hexDigit lo = some b) :
    stripEnd (dollar :: (text ++ [hi, lo])) = dollar :: (text ++ [hi, lo]) := by
  obtain ⟨-, -, -, -, -, hcr, hlf, -⟩ := hexDigit_plain hlo
  have hline : dollar :: (text ++ [hi, lo]) = (dollar :: (text ++ [hi])) ++ [lo] := by simp
  rw [hline, stripEnd_of_last hcr hlf]

/-- Without a `*` there is no test. -/
theorem checksumTest_starless (expected₀ : Int) (hstar : star ∉ text) (hhi : hexDigit hi = some a)
    (hlo : hexDigit lo = some b) :
    checksumTest expected₀ (dollar :: (text ++ [hi, lo])) = none := by
  have table : ∀ c : Byte, (hexDigit c).isSome → star ≠ c := forall_byte (by decide +kernel)
  have hnone : star ∉ dollar :: (text ++ [hi, lo]) := by
    simp only [List.mem_cons, List.mem_append, List.not_mem_nil, or_false, not_or]
    exact ⟨by decide, hstar, table hi (by simp [hhi]), table lo (by simp [hlo])⟩
  rw [checksumTest, if_neg hnone]

/-- With one, the number behind the first is compared with the XOR of what stands before it. -/
theorem checksumTest_star (expected₀ : Int) (hnul : (0 : Byte) ∉ text) (hstar : star ∈ text) :
    checksumTest expected₀ (dollar :: (text ++ [hi, lo])) =
      if (scanHex (behindStar text ++ [hi, lo])).getD expected₀ ≠
        ((bodyChecksum (cutAt star text)).toNat : Int)
      then some (bodyChecksum (cutAt star text)) else none := by
  obtain ⟨rest, htext⟩ := exists_cutAt_append hstar
  have hcut : star ∉ dollar :: cutAt star text := by
    simpa using ⟨by decide, not_mem_cutAt star text⟩
  have hline : dollar :: (text ++ [hi, lo]) =
      (dollar :: cutAt star text) ++ star :: (rest ++ [hi, lo]) := by
    conv => lhs; rw [htext]
    simp
  have hbehind : ∀ p t : List Byte, star ∉ p → behindStar (p ++ star :: t) = t := by
    intro p t hp
    rw [behindStar, List.dropWhile_append_of_pos]
    · simp
    · intro x hx
      simpa using ne_of_mem_of_not_mem hx hp
  have hsum : nmeaChecksum (dollar :: cutAt star text) = bodyChecksum (cutAt star text) := by
    rw [nmeaChecksum, List.drop_one, List.tail_cons, List.takeWhile_eq_self_iff.mpr]
    · rfl
    · intro x hx
      have hx0 := ne_of_mem_of_not_mem ((cutAt_isPrefix star text).subset hx) hnul
      simpa using ⟨hx0, ne_of_mem_of_not_mem hx (not_mem_cutAt star text)⟩
  have hrest : behindStar text = rest := by
    conv => lhs; rw [htext]
    exact hbehind _ _ (not_mem_cutAt star text)
  have hscan : ((dollar :: (text ++ [hi, lo])).dropWhile (· ≠ star)).drop 1 =
      rest ++ [hi, lo] := by
    rw [hline, ← behindStar, hbehind _ _ hcut]
  rw [checksumTest, if_pos (by rw [hline]; simp)]
  simp only [hscan]
  rw [hline, cutAt_append_cons hcut, hsum, hrest]

end Test

/-! ## Which damage is caught -/

namespace Damage

variable (d : Damage s)

/-- The line is stopped at the checksum test: it is neither cut into tokens nor displayed. -/
def Stopped (expected₀ : Int) : Prop := ∃ actual, parseNmea expected₀ d.line = .mismatch actual

/-- The number read behind the first `*` is not the XOR of the bytes before it. -/
def Misread (expected₀ : Int) : Prop :=
  (scanHex (behindStar d.text ++ [s.hi, s.lo])).getD expected₀ ≠
    ((bodyChecksum (cutAt star d.text)).toNat : Int)

/-- There is a `*`, and it is the one in front of the two digits and no other, or what is read
behind the first one does not match. -/
def Caught (expected₀ : Int) : Prop :=
  star ∈ d.text ∧ (star ∉ d.text.dropLast ∨ d.Misread expected₀)

theorem length_line : d.line.length ≤ 511 := by
  have := s.short
  simp only [line, text, List.length_cons, List.length_append, List.length_set,
    List.length_nil] at *
  omega

theorem nul_not_mem_text : (0 : Byte) ∉ d.text := by
  intro h
  rcases List.mem_or_eq_of_mem_set h with h | h
  · rcases List.mem_append.mp h with h | h
    · exact s.noNul h
    · exact absurd (List.mem_singleton.mp h) (by decide)
  · exact d.noNul h.symm

/-- The line is stopped when its test fails. -/
theorem stopped_iff_checksumTest (expected₀ : Int) :
    d.Stopped expected₀ ↔ (checksumTest expected₀ d.line).isSome := by
  obtain ⟨a, b, -, hlo, -⟩ := s.checksum
  have htake : d.line.take (bufSize - 1) = d.line := List.take_of_length_le d.length_line
  have hstrip : stripEnd d.line = d.line := stripEnd_digit _ _ hlo
  rw [Stopped, parseNmea, htake, hstrip]
  cases checksumTest expected₀ d.line with
  | some actual => simp
  | none =>
    simp only [Option.isSome_none, Bool.false_eq_true, iff_false, not_exists]
    intro actual
    split
    · simp
    · split <;> simp

/-- A sentence with its one `*` in place is always misread: a byte before it has changed. -/
theorem misread_of_starless (expected₀ : Int) (hstar : star ∈ d.text)
    (hone : star ∉ d.text.dropLast) : d.Misread expected₀ := by
  obtain ⟨a, b, ha, hb, hsum⟩ := s.checksum
  have hpos : d.pos < s.body.length := by
    by_contra hge
    have heq : d.pos = s.body.length := by
      have := d.pos_le
      omega
    have htext : d.text = s.body ++ [d.byte] := by
      rw [text, heq]
      simp
    have hchanged := d.changed
    rw [htext, List.dropLast_concat] at hone
    rw [htext, List.mem_append, List.mem_singleton] at hstar
    rcases hstar with hstar | hstar
    · exact hone hstar
    · rw [heq, ← hstar] at hchanged
      simp at hchanged
  have htext : d.text = s.body.set d.pos d.byte ++ [star] := by
    rw [text, List.set_append_left _ _ hpos]
  have hchanged : s.body[d.pos]? ≠ some d.byte := by
    have := d.changed
    rwa [List.getElem?_append_left hpos] at this
  rw [htext, List.dropLast_concat] at hone
  have hbehind : behindStar d.text = [] := by
    rw [htext, behindStar, List.dropWhile_append_of_pos]
    · simp
    · intro x hx
      simpa using ne_of_mem_of_not_mem hx hone
  rw [Misread, hbehind, List.nil_append, scanHex_two ha hb, htext, cutAt_append_cons hone,
    Option.getD_some, hsum]
  intro h
  apply bodyChecksum_set_ne hpos hchanged
  exact (UInt8.toNat_inj.mp (Int.ofNat_inj.mp h)).symm

/-- `parse_nmea` stops a damaged sentence exactly when a `*` is left in it and, should the damage
have brought a second one or the body have its own, what is read behind the first does not
match. -/
theorem stopped_iff (expected₀ : Int) : d.Stopped expected₀ ↔ d.Caught expected₀ := by
  obtain ⟨a, b, ha, hb, -⟩ := s.checksum
  rw [d.stopped_iff_checksumTest, Caught]
  by_cases hstar : star ∈ d.text
  · rw [line, checksumTest_star expected₀ d.nul_not_mem_text hstar]
    by_cases hmis : d.Misread expected₀
    · have hne := hmis
      rw [Misread] at hne
      rw [if_pos hne]
      exact iff_of_true rfl ⟨hstar, .inr hmis⟩
    · have heq := hmis
      rw [Misread] at heq
      rw [if_neg heq]
      constructor
      · intro h
        cases h
      · rintro ⟨-, hone | h⟩
        · exact absurd (d.misread_of_starless expected₀ hstar hone) hmis
        · exact absurd h hmis
  · rw [line, checksumTest_starless expected₀ hstar ha hb]
    simp [hstar]

/-- In a sentence whose body has no `*`: the damage has not hit the `*`, and where it has made
another one the text behind that is misread. -/
theorem caught_iff_of_plain (expected₀ : Int) (hplain : star ∉ s.body) :
    d.Caught expected₀ ↔
      d.pos < s.body.length ∧ (d.byte = star → d.Misread expected₀) := by
  have hle := d.pos_le
  by_cases hpos : d.pos < s.body.length
  · have htext : d.text = s.body.set d.pos d.byte ++ [star] := by
      rw [text, List.set_append_left _ _ hpos]
    have hmem : star ∈ s.body.set d.pos d.byte ↔ d.byte = star := by
      constructor
      · intro h
        rcases List.mem_or_eq_of_mem_set h with h | h
        · exact absurd h hplain
        · exact h.symm
      · intro h
        rw [← h]
        exact List.mem_set hpos _
    rw [Caught, htext, List.dropLast_concat, hmem]
    simp only [List.mem_append, List.mem_singleton, or_true, true_and, hpos]
    constructor
    · rintro (h | h) hbyte
      · exact absurd hbyte h
      · exact h
    · intro h
      by_cases hbyte : d.byte = star
      · exact .inr (h hbyte)
      · exact .inl hbyte
  · have heq : d.pos = s.body.length := by omega
    have hchanged := d.changed
    rw [heq, List.getElem?_concat_length] at hchanged
    apply iff_of_false
    · rintro ⟨hstar, -⟩
      rw [text, heq, List.set_append_right _ _ le_rfl, Nat.sub_self, List.set_cons_zero,
        List.mem_append, List.mem_singleton] at hstar
      rcases hstar with h | h
      · exact hplain h
      · exact hchanged (by rw [h])
    · exact fun h => hpos h.1

end Damage

/-- The bytes of `noLatitude`. -/
def checkedNoLatitude : CheckedSentence where
  body := bytes "GPGGA,123519,,N"
  hi := 51
  lo := 57
  noNul := by decide +kernel
  checksum := ⟨3, 9, by decide +kernel⟩
  short := by decide +kernel

/-- Its `*` has become a `+`. -/
def lostStar : Damage checkedNoLatitude where
  pos := 15
  byte := 43
  pos_le := by decide +kernel
  changed := by decide +kernel
  noNul := by decide
  noCr := by decide
  noLf := by decide

/-- Without its `*` the damaged sentence is displayed. -/
theorem lostStar_not_stopped :
    ¬ ∀ (s : CheckedSentence) (d : Damage s) (expected₀ : Int), d.Stopped expected₀ := by
  intro h
  obtain ⟨actual, hrun⟩ := h checkedNoLatitude lostStar 0
  have hshown : parseNmea 0 lostStar.line = .shown .gpgga
      [bytes "$GPGGA", bytes "123519", bytes "N+39"] := by decide +kernel
  rw [hshown] at hrun
  cases hrun

end BoardTest.Gps
