import BoardTest.Video.DecoderTest
import BoardTest.Video.StreamPlayerTest

/-!
# The fragments of any file

The two versions of `find264NALFragment` on buffers whose short start codes are all the end of a
long one, and what the version of the decoder test finds in a buffer of any content.
-/

namespace BoardTest.Video

/-- Before each `00 00 01` of the buffer stands another `00`. -/
def LongCodesOnly (data : List Byte) : Prop :=
  ∀ i, matchesAt kStartCodeLegecy data i = true → 0 < i ∧ data[i - 1]? = some 0

variable {data : List Byte}

/-- A short start code behind a zero is a long one. -/
theorem LongCodesOnly.matchesAt_pred (h : LongCodesOnly data) {i : Nat}
    (hi : matchesAt kStartCodeLegecy data i = true) :
    0 < i ∧ matchesAt kStartCode data (i - 1) = true := by
  obtain ⟨hpos, hzero⟩ := h i hi
  refine ⟨hpos, ?_⟩
  rw [matchesAt_iff] at hi ⊢
  have hdrop : data.drop (i - 1) = 0 :: data.drop i := by
    obtain ⟨hlt, hget⟩ := List.getElem?_eq_some_iff.mp hzero
    rw [List.drop_eq_getElem_cons hlt, hget]
    congr 2
    omega
  rw [hdrop]
  exact List.cons_prefix_cons.mpr ⟨rfl, hi⟩

/-- Behind the start code at the beginning the fourth byte is no zero. -/
theorem matchesAt_three (h : matchesAt kStartCode data 0 = true) :
    matchesAt kStartCode data 3 = false := by
  rw [matchesAt_iff, List.drop_zero] at h
  obtain ⟨rest, rfl⟩ := h
  rw [matchesAt_eq_false_iff]
  simp [kStartCode]

/-- Where the long code is looked for alone, nothing else is found. -/
theorem LongCodesOnly.scan_hit (h : LongCodesOnly data)
    (hstart : matchesAt kStartCode data 0 = true) (limit : Nat) :
    scan (StreamPlayerTest.hit data) limit 4 = scan (matchesAt kStartCode data) limit 4 := by
  obtain ⟨hle, hbefore, hstop⟩ := scan_spec (matchesAt kStartCode data) limit 4
  apply scan_eq hle
  · intro i hi hlt
    obtain ⟨hlimit, hmiss⟩ := hbefore i hi hlt
    refine ⟨hlimit, ?_⟩
    rw [StreamPlayerTest.hit, hmiss, Bool.false_or, ← Bool.not_eq_true]
    intro hshort
    obtain ⟨-, hlong⟩ := h.matchesAt_pred hshort
    by_cases hfour : i = 4
    · subst hfour
      rw [matchesAt_three hstart] at hlong
      cases hlong
    · rw [(hbefore (i - 1) (by omega) (by omega)).2] at hlong
      cases hlong
  · rcases hstop with hend | hhit
    · exact .inl hend
    · right
      rw [StreamPlayerTest.hit, hhit, Bool.true_or]

/-- Both versions agree on a buffer with long start codes only, on the error code as on the size
and the type of the fragment. -/
theorem find264NALFragment_eq (data : List Byte) (h : LongCodesOnly data) :
    DecoderTest.find264NALFragment data data.length =
      StreamPlayerTest.find264NALFragment data data.length := by
  rw [DecoderTest.find264NALFragment, StreamPlayerTest.find264NALFragment]
  by_cases hsize : data.length < 4
  · rw [if_pos hsize, if_pos hsize]
  · rw [if_neg hsize, if_neg hsize]
    cases hstart : matchesAt kStartCode data 0 with
    | false =>
      have hshort : matchesAt kStartCodeLegecy data 0 = false := by
        rw [← Bool.not_eq_true]
        exact fun hmatch => absurd (h 0 hmatch).1 (lt_irrefl 0)
      simp only [if_pos, hshort, Bool.false_eq_true, if_false]
    | true =>
      have hend : ∀ n : Nat, (n > data.length - 4 ∨ n > data.length - 3) ↔ n > data.length - 4 := by
        omega
      simp only [Bool.true_eq_false, if_false, if_pos, StreamPlayerTest.fragmentEnd,
        h.scan_hit hstart, hend]

/-- Two units in one buffer. -/
theorem find264NALFragment_eq_twoUnits :
    DecoderTest.find264NALFragment [0, 0, 0, 1, 0x65, 0, 0, 0, 1, 0x41] 10 =
      StreamPlayerTest.find264NALFragment [0, 0, 0, 1, 0x65, 0, 0, 0, 1, 0x41] 10 := by
  apply find264NALFragment_eq
  intro i hi
  have hlen := length_le_of_matchesAt (by decide) hi
  have hall : ∀ i < 10,
      matchesAt kStartCodeLegecy [0, 0, 0, 1, 0x65, 0, 0, 0, 1, 0x41] i = true →
      0 < i ∧ [0, 0, 0, 1, 0x65, 0, 0, 0, 1, (0x41 : Byte)][i - 1]? = some 0 := by
    decide
  exact hall i (by simp [kStartCodeLegecy] at hlen; omega) hi

namespace DecoderTest

variable {w : List Byte}

theorem nalLen_find_of_no_start (h : matchesAt kStartCode w 0 = false) :
    nalLen (find264NALFragment w w.length) = 0 := by
  rw [find264NALFragment, if_pos h]
  split <;> rfl

/-- Behind a start code something is found, and no start code in it. -/
theorem nalLen_find_of_start (h : matchesAt kStartCode w 0 = true) :
    4 ≤ nalLen (find264NALFragment w w.length) ∧
      nalLen (find264NALFragment w w.length) ≤ w.length ∧
      ∀ i, 4 ≤ i →
        matchesAt kStartCode (w.take (nalLen (find264NALFragment w w.length))) i = false := by
  have hlen : 0 + 4 ≤ w.length := length_le_of_matchesAt (by decide) h
  obtain ⟨hle, hbefore, hstop⟩ := scan_spec (matchesAt kStartCode w) (w.length - 3) 4
  have hnal : nalLen (find264NALFragment w w.length) =
      if scan (matchesAt kStartCode w) (w.length - 3) 4 > w.length - 4 then w.length
      else scan (matchesAt kStartCode w) (w.length - 3) 4 := by
    rw [find264NALFragment, if_neg (by omega), if_neg (by simp [h])]
    rfl
  generalize scan (matchesAt kStartCode w) (w.length - 3) 4 = n at *
  have hmiss : ∀ i, 4 ≤ i → i + 4 ≤ nalLen (find264NALFragment w w.length) →
      matchesAt kStartCode w i = false := by
    intro i hi hlt
    rw [hnal] at hlt
    exact (hbefore i hi (by split at hlt <;> omega)).2
  refine ⟨by rw [hnal]; split <;> omega, by rw [hnal]; split <;> omega, ?_⟩
  intro i hi
  rw [← Bool.not_eq_true, matchesAt_take]
  rintro ⟨hmatch, hend | hnil⟩
  · rw [hmiss i hi hend] at hmatch
    cases hmatch
  · cases hnil

/-- What is passed on to the decoder: a start code, no other one behind it, and no more than the
window holds, which is 512000 bytes. -/
structure IsFragment (u : List Byte) : Prop where
  four_le : 4 ≤ u.length
  le_window : u.length ≤ defaultBufLen
  begins : kStartCode <+: u
  only : ∀ i, 4 ≤ i → matchesAt kStartCode u i = false

/-- The bytes that are cut off at the start of `s`. -/
def slice (s : List Byte) : List Byte := (window s).take (sliceLen find264NALFragment s)

variable {s : List Byte}

theorem matchesAt_window : matchesAt kStartCode (window s) 0 = matchesAt kStartCode s 0 := by
  rw [Bool.eq_iff_iff, window, matchesAt_take]
  exact and_iff_left (.inl (by decide))

/-- Nothing is cut off where no start code stands. -/
theorem sliceLen_of_no_start (h : matchesAt kStartCode s 0 = false) :
    sliceLen find264NALFragment s = 0 :=
  nalLen_find_of_no_start (matchesAt_window.trans h)

theorem matchesAt_of_four_le (h : 4 ≤ sliceLen find264NALFragment s) :
    matchesAt kStartCode s 0 = true := by
  rw [← Bool.not_eq_false]
  intro hno
  rw [sliceLen_of_no_start hno] at h
  omega

/-- Something is cut off where a start code stands. -/
theorem no_start_of_sliceLen_lt (h : sliceLen find264NALFragment s < 4) :
    matchesAt kStartCode s 0 = false := by
  rw [← Bool.not_eq_true]
  intro hstart
  have hfour := (nalLen_find_of_start (matchesAt_window.trans hstart)).1
  exact absurd h (Nat.not_lt.mpr hfour)

theorem sliceLen_le_window (s : List Byte) :
    sliceLen find264NALFragment s ≤ (window s).length := by
  cases h : matchesAt kStartCode s 0 with
  | false =>
    rw [sliceLen_of_no_start h]
    exact Nat.zero_le _
  | true => exact (nalLen_find_of_start (matchesAt_window.trans h)).2.1

theorem sliceLen_le (s : List Byte) : sliceLen find264NALFragment s ≤ s.length :=
  (sliceLen_le_window s).trans (List.length_take_le' _ _)

theorem length_slice (s : List Byte) : (slice s).length = sliceLen find264NALFragment s := by
  rw [slice, List.length_take, min_eq_left (sliceLen_le_window s)]

theorem slice_eq_take (s : List Byte) : slice s = s.take (sliceLen find264NALFragment s) := by
  have hle := (sliceLen_le_window s).trans (List.length_take_le _ _)
  rw [slice, window, List.take_take, min_eq_left hle]

theorem isFragment_slice (h : 4 ≤ sliceLen find264NALFragment s) : IsFragment (slice s) := by
  have hstart := matchesAt_of_four_le h
  constructor
  · rw [length_slice]
    exact h
  · rw [length_slice]
    exact (sliceLen_le_window s).trans (List.length_take_le _ _)
  · rw [slice_eq_take]
    exact List.prefix_take_iff.mpr ⟨matchesAt_iff.mp hstart, h⟩
  · exact (nalLen_find_of_start (matchesAt_window.trans hstart)).2.2

end DecoderTest

end BoardTest.Video
