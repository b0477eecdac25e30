import BoardTest.Gps.Nmea

/-!
# Which fields reach the display routines

A well-formed sentence `$A,f1,...,fn*HH` passes the checksum test, and its token array is the
address followed by `compactFields` of its fields: `strtok` has dropped the empty ones except the
last, to which the checksum clings. So a display routine finds `fi` under `TOK(i)` for every `i`
exactly when no non-empty field follows an empty one.
-/

namespace BoardTest.Gps

/-- The bytes between `$` and `*`. -/
def sentenceBody (address : List Byte) (fields : List (List Byte)) : List Byte :=
  joinFields comma (address :: fields)

/-- The XOR of a sentence body, the checksum a receiver appends. -/
def bodyChecksum (body : List Byte) : Byte := body.foldl (· ^^^ ·) 0

/-- `$A,f1,...,fn*HH` with the correct checksum, short enough for the reader's buffer and with no
more fields than its token array holds. -/
structure NmeaSentence where
  address : List Byte
  fields : List (List Byte)
  hi : Byte
  lo : Byte
  clean : ∀ f ∈ address :: fields,
    comma ∉ f ∧ star ∉ f ∧ cr ∉ f ∧ lf ∉ f ∧ (0 : Byte) ∉ f
  count : fields.length + 1 ≤ nmeaMaxTokens
  checksum : ∃ a b, hexDigit hi = some a ∧ hexDigit lo = some b ∧
    16 * a + b = (bodyChecksum (sentenceBody address fields)).toNat
  short : (dollar :: (sentenceBody address fields ++ [star, hi, lo])).length ≤ 511

/-- The line as the receiver sends it, without its line end. -/
def NmeaSentence.line (s : NmeaSentence) : List Byte :=
  dollar :: (sentenceBody s.address s.fields ++ [star, s.hi, s.lo])

/-- The field `fi`, numbered from 1; the empty string from `n + 1` on. -/
def NmeaSentence.field (s : NmeaSentence) (i : Nat) : List Byte := s.fields.getD (i - 1) []

/-- The display routine named by the last three characters of the address. -/
def NmeaSentence.routine (s : NmeaSentence) : Option Routine := dispatch (nmeaSuffix s.address)

theorem mem_joinFields {sep b : Byte} {fs : List (List Byte)} (h : b ∈ joinFields sep fs) :
    b = sep ∨ ∃ f ∈ fs, b ∈ f := by
  fun_induction joinFields sep fs with
  | case1 => simp at h
  | case2 f => exact .inr ⟨f, by simp, h⟩
  | case3 f g rest ih =>
    rcases List.mem_append.mp h with h | h
    · exact .inr ⟨f, by simp, h⟩
    · rcases List.mem_cons.mp h with h | h
      · exact .inl h
      · rcases ih h with h | ⟨x, hx, hb⟩
        · exact .inl h
        · exact .inr ⟨x, by simp [List.mem_cons.mp hx], hb⟩

theorem NmeaSentence.not_mem_body (s : NmeaSentence) {b : Byte} (hcomma : b ≠ comma)
    (h : ∀ f ∈ s.address :: s.fields, b ∉ f) : b ∉ sentenceBody s.address s.fields := by
  intro hb
  rcases mem_joinFields hb with hb | ⟨f, hf, hb⟩
  · exact hcomma hb
  · exact h f hf hb

theorem NmeaSentence.star_not_mem_body (s : NmeaSentence) :
    star ∉ sentenceBody s.address s.fields :=
  s.not_mem_body (by decide) fun f hf => (s.clean f hf).2.1

theorem NmeaSentence.nul_not_mem_body (s : NmeaSentence) :
    (0 : Byte) ∉ sentenceBody s.address s.fields :=
  s.not_mem_body (by decide) fun f hf => (s.clean f hf).2.2.2.2

/-- A hexadecimal digit is none of the characters the scan treats apart. -/
theorem hexDigit_plain {b : Byte} {v : Nat} (h : hexDigit b = some v) :
    isSpace b = false ∧ b ≠ 43 ∧ b ≠ 45 ∧ b ≠ 120 ∧ b ≠ 88 ∧ b ≠ cr ∧ b ≠ lf ∧ v < 16 := by
  have table : ∀ c : Byte, (hexDigit c).isSome →
      isSpace c = false ∧ c ≠ 43 ∧ c ≠ 45 ∧ c ≠ 120 ∧ c ≠ 88 ∧ c ≠ cr ∧ c ≠ lf ∧
        (hexDigit c).getD 0 < 16 := forall_byte (by decide +kernel)
  have := table b (by simp [h])
  simpa [h] using this

/-- `%x` reads two hexadecimal digits as their value. -/
theorem scanHex_two {hi lo : Byte} {a b : Nat} (ha : hexDigit hi = some a)
    (hb : hexDigit lo = some b) : scanHex [hi, lo] = some ((16 * a + b : Nat) : Int) := by
  obtain ⟨hsp, hplus, hminus, -, -, -, -, ha16⟩ := hexDigit_plain ha
  obtain ⟨-, -, -, hx, hX, -, -, hb16⟩ := hexDigit_plain hb
  have hsign : scanSign ([hi, lo].dropWhile isSpace) = (false, [hi, lo]) := by
    rw [List.dropWhile_cons_of_neg (by simp [hsp])]
    unfold scanSign
    split <;> simp_all
  have hmark : scanHexMark [hi, lo] = [hi, lo] := by
    unfold scanHexMark
    split <;> simp_all
  have hdigits : [hi, lo].takeWhile (fun b => (hexDigit b).isSome) = [hi, lo] := by
    simp [ha, hb]
  have hvalue : hexValue [hi, lo] = 16 * a + b := by simp [hexValue, ha, hb]
  have hsmall : ¬ 2 ^ 64 ≤ 16 * a + b := by omega
  simp only [scanHex, hsign, hmark, hdigits, hvalue, if_neg hsmall]
  simp [Int.bmod]
  omega

theorem stripEnd_of_last {s : List Byte} {b : Byte} (hcr : b ≠ cr) (hlf : b ≠ lf) :
    stripEnd (s ++ [b]) = s ++ [b] := by
  simp [stripEnd, hcr, hlf]

theorem NmeaSentence.stripEnd_line (s : NmeaSentence) : stripEnd s.line = s.line := by
  obtain ⟨a, b, -, hb, -⟩ := s.checksum
  obtain ⟨-, -, -, -, -, hcr, hlf, -⟩ := hexDigit_plain hb
  have hline : s.line =
      (dollar :: (sentenceBody s.address s.fields ++ [star, s.hi])) ++ [s.lo] := by
    simp [NmeaSentence.line]
  rw [hline, stripEnd_of_last hcr hlf]

/-- A well-formed sentence passes the checksum test. -/
theorem NmeaSentence.checksumTest_line (s : NmeaSentence) (expected₀ : Int) :
    checksumTest expected₀ s.line = none := by
  obtain ⟨a, b, ha, hb, hsum⟩ := s.checksum
  have hstar : star ∉ dollar :: sentenceBody s.address s.fields := by
    simpa using ⟨by decide, s.star_not_mem_body⟩
  have hline : s.line = (dollar :: sentenceBody s.address s.fields) ++ star :: [s.hi, s.lo] := by
    simp [NmeaSentence.line]
  have hmem : star ∈ s.line := by rw [hline]; simp
  have hafter : (s.line.dropWhile (· ≠ star)).drop 1 = [s.hi, s.lo] := by
    rw [hline, List.dropWhile_append_of_pos]
    · simp
    · intro x hx
      simpa using ne_of_mem_of_not_mem hx hstar
  have hcut : cutAt star s.line = dollar :: sentenceBody s.address s.fields := by
    rw [hline, cutAt_append_cons hstar]
  have hactual : nmeaChecksum (dollar :: sentenceBody s.address s.fields) =
      bodyChecksum (sentenceBody s.address s.fields) := by
    rw [nmeaChecksum, List.drop_one, List.tail_cons, List.takeWhile_eq_self_iff.mpr]
    · rfl
    · intro x hx
      simpa using ⟨ne_of_mem_of_not_mem hx s.nul_not_mem_body,
        ne_of_mem_of_not_mem hx s.star_not_mem_body⟩
  simp only [checksumTest, if_pos hmem, hafter, hcut, hactual, scanHex_two ha hb]
  simp [hsum]

/-- The fields with a trailer written behind the last one. -/
def appendLast (t : List Byte) : List (List Byte) → List (List Byte)
  | [] => [t]
  | [f] => [f ++ t]
  | f :: g :: rest => f :: appendLast t (g :: rest)

theorem joinFields_appendLast (sep : Byte) (f : List Byte) (fs : List (List Byte))
    (t : List Byte) :
    joinFields sep (appendLast t (f :: fs)) = joinFields sep (f :: fs) ++ t := by
  induction fs generalizing f with
  | nil => simp [appendLast, joinFields]
  | cons g rest ih =>
    have hne : ∃ x xs, appendLast t (g :: rest) = x :: xs := by
      cases rest with
      | nil => exact ⟨_, _, rfl⟩
      | cons => exact ⟨_, _, rfl⟩
    obtain ⟨x, xs, hx⟩ := hne
    have := ih g
    rw [hx] at this
    rw [appendLast, hx, joinFields, joinFields, this]
    simp

theorem length_appendLast (f : List Byte) (fs : List (List Byte)) (t : List Byte) :
    (appendLast t (f :: fs)).length = fs.length + 1 := by
  induction fs generalizing f with
  | nil => simp [appendLast]
  | cons g rest ih => simp [appendLast, ih]

theorem mem_appendLast {f : List Byte} {fs : List (List Byte)} {t : List Byte}
    (h : f ∈ appendLast t fs) : (f = t) ∨ f ∈ fs ∨ ∃ g ∈ fs, f = g ++ t := by
  fun_induction appendLast t fs with
  | case1 => simpa using h
  | case2 g => exact .inr (.inr ⟨g, by simp, by simpa using h⟩)
  | case3 g g' rest ih =>
    rcases List.mem_cons.mp h with rfl | h
    · exact .inr (.inl (by simp))
    · rcases ih h with h | h | ⟨x, hx, hf⟩
      · exact .inl h
      · exact .inr (.inl (by simp [List.mem_cons.mp h]))
      · exact .inr (.inr ⟨x, by simp [List.mem_cons.mp hx], hf⟩)

theorem cutToken_clean {f : List Byte} (hstar : star ∉ f) (hcr : cr ∉ f) (hlf : lf ∉ f) :
    cutToken f = f := by
  rw [cutToken, cutAt_eq_self hcr, cutAt_eq_self hlf, cutAt_eq_self hstar]

theorem cutToken_trailer {f hh : List Byte} (hstar : star ∉ f) (hcr : cr ∉ f ++ star :: hh)
    (hlf : lf ∉ f ++ star :: hh) : cutToken (f ++ star :: hh) = f := by
  rw [cutToken, cutAt_eq_self hcr, cutAt_eq_self hlf, cutAt_append_cons hstar]

/-- The tokens of clean fields with a checksum behind the last one, cut, are the fields without
the empty ones before the last. -/
theorem cutTokens_appendLast {fs : List (List Byte)} {hh : List Byte} (hne : fs ≠ [])
    (hclean : ∀ f ∈ fs, star ∉ f ∧ cr ∉ f ∧ lf ∉ f) (hcr : cr ∉ hh) (hlf : lf ∉ hh) :
    ((appendLast (star :: hh) fs).filter (· ≠ [])).map cutToken = compactFields fs := by
  fun_induction compactFields fs with
  | case1 => exact absurd rfl hne
  | case2 f =>
    obtain ⟨h1, h2, h3⟩ := hclean f (by simp)
    have hcr' : cr ∉ f ++ star :: hh := by simpa [h2, hcr] using (by decide : cr ≠ star)
    have hlf' : lf ∉ f ++ star :: hh := by simpa [h3, hlf] using (by decide : lf ≠ star)
    simp [appendLast, cutToken_trailer h1 hcr' hlf']
  | case3 g rest ih =>
    have := ih (by simp) fun f hf => hclean f (by simp [List.mem_cons.mp hf])
    simpa [appendLast] using this
  | case4 f g rest hf ih =>
    have := ih (by simp) fun x hx => hclean x (by simp [List.mem_cons.mp hx])
    obtain ⟨h1, h2, h3⟩ := hclean f (by simp)
    simpa [appendLast, hf, cutToken_clean h1 h2 h3] using this

theorem NmeaSentence.clean_first (s : NmeaSentence) :
    ∀ f ∈ (dollar :: s.address) :: s.fields, comma ∉ f ∧ star ∉ f ∧ cr ∉ f ∧ lf ∉ f := by
  intro f hf
  rcases List.mem_cons.mp hf with rfl | hf
  · obtain ⟨h1, h2, h3, h4, -⟩ := s.clean s.address (by simp)
    simp only [List.mem_cons, not_or]
    exact ⟨⟨by decide, h1⟩, ⟨by decide, h2⟩, ⟨by decide, h3⟩, ⟨by decide, h4⟩⟩
  · obtain ⟨h1, h2, h3, h4, -⟩ := s.clean f (by simp [hf])
    exact ⟨h1, h2, h3, h4⟩

theorem joinFields_cons_byte (sep b : Byte) (f : List Byte) (fs : List (List Byte)) :
    joinFields sep ((b :: f) :: fs) = b :: joinFields sep (f :: fs) := by
  cases fs <;> simp [joinFields]

/-- The token array of a sentence: the address with its `$`, then the fields without the empty
ones before the last. -/
theorem NmeaSentence.tokenize_line (s : NmeaSentence) :
    tokenize s.line = (dollar :: s.address) :: compactFields s.fields := by
  obtain ⟨a, b, ha, hb, -⟩ := s.checksum
  have hhi := hexDigit_plain ha
  have hlo := hexDigit_plain hb
  have hcomma : ∀ x ∈ [star, s.hi, s.lo], x ≠ comma := by
    have table : ∀ c : Byte, (hexDigit c).isSome → c ≠ comma := forall_byte (by decide +kernel)
    simpa using ⟨by decide, table s.hi (by simp [ha]), table s.lo (by simp [hb])⟩
  have hline : s.line =
      joinFields comma (appendLast (star :: [s.hi, s.lo]) ((dollar :: s.address) :: s.fields)) := by
    rw [joinFields_appendLast, joinFields_cons_byte]
    simp [NmeaSentence.line, sentenceBody]
  have hsep : ∀ f ∈ appendLast (star :: [s.hi, s.lo]) ((dollar :: s.address) :: s.fields),
      comma ∉ f := by
    intro f hf hc
    rcases mem_appendLast hf with rfl | hf | ⟨g, hg, rfl⟩
    · exact hcomma _ hc rfl
    · exact (s.clean_first f hf).1 hc
    · rcases List.mem_append.mp hc with hc | hc
      · exact (s.clean_first g hg).1 hc
      · exact hcomma _ hc rfl
  have hlimit := s.count
  rw [tokenize, hline, strtokAll_joinFields hsep (by rw [length_appendLast]; exact hlimit),
    cutTokens_appendLast (by simp) (fun f hf => (s.clean_first f hf).2)
      (by simp [hhi.2.2.2.2.2.1.symm, hlo.2.2.2.2.2.1.symm])
      (by simp [hhi.2.2.2.2.2.2.1.symm, hlo.2.2.2.2.2.2.1.symm])]
  cases s.fields <;> simp [compactFields]

/-! ## The dispatch -/

theorem ne_dollar_cons {name : List Byte} (h : name.head? ≠ some dollar) (t : List Byte) :
    some (dollar :: t) ≠ some name := by
  rintro ⟨⟩
  simp at h

theorem dispatch_dollar (t : List Byte) : dispatch (some (dollar :: t)) = none := by
  rw [dispatch, if_neg (ne_dollar_cons (by decide) t), if_neg (ne_dollar_cons (by decide) t),
    if_neg (ne_dollar_cons (by decide) t), if_neg (ne_dollar_cons (by decide) t),
    if_neg (ne_dollar_cons (by decide) t), if_neg (ne_dollar_cons (by decide) t)]

/-- No display routine is named by a suffix that reaches back to the `$`. -/
theorem dispatch_suffix_dollar (address : List Byte) :
    dispatch (nmeaSuffix (dollar :: address)) = dispatch (nmeaSuffix address) := by
  match address with
  | [] => rfl
  | [x] => rfl
  | [x, y] => exact dispatch_dollar [x, y]
  | x :: y :: z :: rest =>
    have hlen : rest.length + 1 + 1 + 1 + 1 - 3 = (rest.length + 1 + 1 + 1 - 3) + 1 := by omega
    simp only [nmeaSuffix, List.length_cons]
    rw [if_pos (by omega), if_pos (by omega), hlen, List.drop_succ_cons]

/-- What `parse_nmea` comes to on a well-formed sentence. -/
theorem NmeaSentence.parseNmea_line (s : NmeaSentence) (expected₀ : Int) :
    parseNmea expected₀ s.line =
      match s.routine with
      | some routine => .shown routine ((dollar :: s.address) :: compactFields s.fields)
      | none => .unknown s.address := by
  have htake : s.line.take (bufSize - 1) = s.line := List.take_of_length_le s.short
  rw [parseNmea, htake, s.stripEnd_line, s.checksumTest_line, s.tokenize_line]
  simp only [dispatch_suffix_dollar, NmeaSentence.routine]
  cases dispatch (nmeaSuffix s.address) <;> rfl

/-- The display routine that the address selects gets every field under its own number. -/
def NmeaSentence.ShownInPlace (s : NmeaSentence) (expected₀ : Int) : Prop :=
  ∀ routine, s.routine = some routine →
    ∃ tokens, parseNmea expected₀ s.line = .shown routine tokens ∧
      ∀ i, 1 ≤ i → tok tokens i = s.field i

/-- The fields are shown in place exactly when no non-empty field follows an empty one (or when
the address selects no display routine at all). -/
theorem NmeaSentence.shownInPlace_iff (s : NmeaSentence) (expected₀ : Int) :
    s.ShownInPlace expected₀ ↔ (s.routine = none ∨ Gapless s.fields) := by
  rw [← compactFields_getD_iff]
  constructor
  · intro h
    cases hr : s.routine with
    | none => exact .inl rfl
    | some routine =>
      right
      obtain ⟨tokens, hshown, hplace⟩ := h routine hr
      rw [s.parseNmea_line, hr] at hshown
      obtain ⟨-, rfl⟩ := Outcome.shown.inj hshown
      intro i
      simpa [tok, NmeaSentence.field] using hplace (i + 1) (by omega)
  · rintro (h | h) routine hr
    · simp [h] at hr
    · refine ⟨_, by rw [s.parseNmea_line, hr], ?_⟩
      intro i hi
      obtain ⟨i, rfl⟩ : ∃ k, i = k + 1 := ⟨i - 1, by omega⟩
      simpa [tok, NmeaSentence.field] using h i

/-- `$GPGGA,123519,,N*39`: a sentence without a latitude, as a receiver sends it before it has a
fix. -/
def noLatitude : NmeaSentence where
  address := bytes "GPGGA"
  fields := [bytes "123519", [], bytes "N"]
  hi := 51
  lo := 57
  clean := by decide +kernel
  count := by decide
  checksum := ⟨3, 9, by decide +kernel⟩
  short := by decide +kernel

/-- The hemisphere of `noLatitude` is shown as its latitude. -/
theorem noLatitude_not_shownInPlace : ¬ noLatitude.ShownInPlace 0 := by
  intro h
  obtain ⟨tokens, hshown, hplace⟩ := h .gpgga (by decide +kernel)
  have hrun : parseNmea 0 noLatitude.line =
      .shown .gpgga [bytes "$GPGGA", bytes "123519", bytes "N"] := by decide +kernel
  rw [hrun] at hshown
  obtain ⟨-, rfl⟩ := Outcome.shown.inj hshown
  have : bytes "N" = ([] : List Byte) := hplace 2 (by decide)
  exact absurd this (by decide)

/-- The display routines read the fields from 1 on and nothing else. -/
theorem Routine.lines_congr (routine : Routine) {t u : Nat → List Byte}
    (h : ∀ i, 1 ≤ i → t i = u i) : routine.lines t = routine.lines u := by
  have read : ∀ i, t (i + 1) = u (i + 1) := fun i => h (i + 1) (by omega)
  cases routine <;>
    simp only [Routine.lines, parseGpgga, parseGprmc, parseGpvtg, parseGpgsa, parseZda, parseGst,
      read]

/-- A sentence shown in place is printed as if its fields had been handed over directly. -/
theorem NmeaSentence.lines_of_shownInPlace {s : NmeaSentence} {expected₀ : Int}
    {routine : Routine} {tokens : List (List Byte)} (h : s.ShownInPlace expected₀)
    (hshown : parseNmea expected₀ s.line = .shown routine tokens) :
    routine.lines (tok tokens) = routine.lines s.field := by
  have hroutine : s.routine = some routine := by
    rw [s.parseNmea_line] at hshown
    cases hr : s.routine with
    | none => simp [hr] at hshown
    | some r =>
      rw [hr] at hshown
      obtain ⟨rfl, -⟩ := Outcome.shown.inj hshown
      rfl
  obtain ⟨tokens', hshown', hplace⟩ := h routine hroutine
  rw [hshown] at hshown'
  obtain ⟨-, rfl⟩ := Outcome.shown.inj hshown'
  exact routine.lines_congr hplace

end BoardTest.Gps
