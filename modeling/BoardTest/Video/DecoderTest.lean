import BoardTest.Video.NalLoop

/-!
# The decoder test

`singleDecoderTest` of `decoder_test.cpp` passes the fragments of an H.264 file to the decoder. Its
`find264NALFragment` takes the whole window when it sees no further start code in it, so a unit
comes out whole when it ends the file, fills the window exactly, or leaves room in the window for
the next start code; `NalStream.singleDecoderTest_iff` says that nothing else works.
-/

namespace BoardTest.Video.DecoderTest

/-- `find264NALFragment` (`decoder_test.cpp:230-255`). The type is read at `data[4]`, which lies
behind a fragment of four bytes; no caller uses it. -/
def find264NALFragment : FindFragment := fun data size =>
  if size < 4 then .error (-1)
  else if matchesAt kStartCode data 0 = false then .error (-2)
  else
    let offset := scan (matchesAt kStartCode data) (size - 3) 4
    .ok (if offset > size - 4 then size else offset, (data.getD 4 0 &&& 0x1f).toNat)

/-- The slices that `singleDecoderTest` passes to `pDecoder->decode` (`decoder_test.cpp:394-429`).
Whether `decode` succeeds makes no difference. -/
def singleDecoderTest (file : List Byte) : List (List Byte) :=
  nalLoop find264NALFragment file (fileSize file) 0

theorem find_hit {w : List Byte} {n : Nat} (hstart : matchesAt kStartCode w 0 = true) (hn : 4 ≤ n)
    (hhit : matchesAt kStartCode w n = true)
    (hbefore : ∀ i, 4 ≤ i → i < n → matchesAt kStartCode w i = false) :
    nalLen (find264NALFragment w w.length) = n := by
  have hlen : n + 4 ≤ w.length := length_le_of_matchesAt (by decide) hhit
  have hscan : scan (matchesAt kStartCode w) (w.length - 3) 4 = n := by
    refine scan_eq hn ?_ (.inr hhit)
    intro i hi hin
    exact ⟨by omega, hbefore i hi hin⟩
  have hsize : ¬ w.length < 4 := by omega
  have hend : ¬ n > w.length - 4 := by omega
  simp [find264NALFragment, hsize, hstart, hscan, hend, nalLen]

theorem find_miss {w : List Byte} (hstart : matchesAt kStartCode w 0 = true)
    (hmiss : ∀ i, 4 ≤ i → matchesAt kStartCode w i = false) :
    nalLen (find264NALFragment w w.length) = w.length := by
  have hlen : 0 + 4 ≤ w.length := length_le_of_matchesAt (by decide) hstart
  have hscan : scan (matchesAt kStartCode w) (w.length - 3) 4 = max 4 (w.length - 3) := by
    refine scan_eq (le_max_left _ _) ?_ (.inl (le_max_right _ _))
    intro i hi hin
    exact ⟨by omega, hmiss i hi⟩
  have hsize : ¬ w.length < 4 := by omega
  have hend : max 4 (w.length - 3) > w.length - 4 ∨ w.length = max 4 (w.length - 3) := by omega
  rcases hend with hend | hend
  · simp only [find264NALFragment, hsize, hstart, hscan, if_pos hend, nalLen, if_false,
      Bool.true_eq_false]
  · simp only [find264NALFragment, hsize, hstart, hscan, nalLen, if_false, Bool.true_eq_false]
    split <;> omega

/-- The file is made of units, each a start code and at least one more byte, with start codes at
their beginnings only. -/
structure IsStream (units : List (List Byte)) : Prop where
  begins : ∀ u ∈ units, kStartCode <+: u ∧ 5 ≤ u.length
  only : ∀ i, matchesAt kStartCode units.flatten i = true →
    ∃ k < units.length, i = (units.take k).flatten.length

structure NalStream where
  units : List (List Byte)
  isStream : IsStream units

def NalStream.file (s : NalStream) : List Byte := s.units.flatten

variable {u : List Byte} {rest : List (List Byte)}

theorem IsStream.head (h : IsStream (u :: rest)) : kStartCode <+: u ∧ 5 ≤ u.length :=
  h.begins u (by simp)

theorem IsStream.tail (h : IsStream (u :: rest)) : IsStream rest := by
  refine ⟨fun v hv => h.begins v (by simp [hv]), ?_⟩
  intro i hi
  have hshift : matchesAt kStartCode (u :: rest).flatten (u.length + i) = true := by
    rw [matchesAt_iff] at hi ⊢
    rwa [List.flatten_cons, ← List.drop_drop, List.drop_left]
  obtain ⟨k, hk, heq⟩ := h.only _ hshift
  have hlen := h.head.2
  cases k with
  | zero =>
    rw [List.take_zero, List.flatten_nil, List.length_nil] at heq
    omega
  | succ k =>
    refine ⟨k, by simpa using hk, ?_⟩
    simpa using heq

/-- Behind its own start code a unit has no other, nor does one begin in its last bytes. -/
theorem IsStream.miss (h : IsStream (u :: rest)) {i : Nat} (hpos : 0 < i) (hi : i < u.length) :
    matchesAt kStartCode (u :: rest).flatten i = false := by
  by_contra hmatch
  rw [Bool.not_eq_false] at hmatch
  obtain ⟨k, -, heq⟩ := h.only i hmatch
  cases k with
  | zero =>
    simp at heq
    omega
  | succ k =>
    simp at heq
    omega

theorem IsStream.miss_last (h : IsStream [u]) {i : Nat} (hpos : 0 < i) :
    matchesAt kStartCode [u].flatten i = false := by
  by_cases hi : i < u.length
  · exact h.miss hpos hi
  · rw [matchesAt_eq_false_iff]
    intro hprefix
    have := hprefix.length_le
    simp [kStartCode] at this
    omega

theorem IsStream.window_start (h : IsStream (u :: rest)) :
    matchesAt kStartCode (window (u :: rest).flatten) 0 = true := by
  refine matchesAt_take.mpr ⟨?_, .inl (by decide)⟩
  rw [matchesAt_iff, List.drop_zero, List.flatten_cons]
  exact h.head.1.trans (List.prefix_append _ _)

/-- What is cut off when another unit follows: the unit, if the window shows the start code behind
it, and else the whole window. -/
theorem IsStream.sliceLen_cons {v : List Byte} (h : IsStream (u :: v :: rest)) :
    sliceLen find264NALFragment (u :: v :: rest).flatten =
      if u.length + 4 ≤ defaultBufLen then u.length else defaultBufLen := by
  have hu := h.head.2
  have hv := h.tail.head
  have hhit : matchesAt kStartCode (u :: v :: rest).flatten u.length = true := by
    rw [matchesAt_iff]
    simpa using hv.1.trans (List.prefix_append _ _)
  unfold sliceLen
  split
  · rename_i hroom
    refine find_hit h.window_start (by omega) (matchesAt_take.mpr ⟨hhit, .inl hroom⟩) ?_
    intro i hi hlt
    rw [← Bool.not_eq_true]
    intro hmatch
    have := h.miss (by omega) hlt
    rw [(matchesAt_take.mp hmatch).1] at this
    exact absurd this (by simp)
  · rename_i hroom
    have hlen : (window (u :: v :: rest).flatten).length = defaultBufLen := by
      have : 5 ≤ v.length := hv.2
      simp only [window, List.length_take, List.flatten_cons, List.length_append]
      omega
    rw [← hlen]
    apply find_miss h.window_start
    intro i hi
    rw [← Bool.not_eq_true]
    intro hmatch
    obtain ⟨hmatch, hin⟩ := matchesAt_take.mp hmatch
    have hin : i + 4 ≤ defaultBufLen := hin.resolve_right (by decide)
    have := h.miss (by omega) (show i < u.length by omega)
    rw [hmatch] at this
    exact absurd this (by simp)

/-- The last unit is cut off whole or at the end of the window. -/
theorem IsStream.sliceLen_last (h : IsStream [u]) :
    sliceLen find264NALFragment [u].flatten = min defaultBufLen u.length := by
  have hmiss : nalLen (find264NALFragment (window [u].flatten) (window [u].flatten).length) =
      (window [u].flatten).length := by
    apply find_miss h.window_start
    intro i hi
    rw [← Bool.not_eq_true]
    intro hmatch
    have := h.miss_last (show 0 < i by omega)
    rw [(matchesAt_take.mp hmatch).1] at this
    exact absurd this (by simp)
  rw [sliceLen, hmiss]
  simp [window]

/-! ## The whole run -/

/-- Every unit ends the stream within a window, fills a window, or leaves room for a start code. -/
def Fitting : List (List Byte) → Prop
  | [] => True
  | [u] => u.length ≤ defaultBufLen
  | u :: v :: rest =>
    (u.length + 4 ≤ defaultBufLen ∨ u.length = defaultBufLen) ∧ Fitting (v :: rest)

/-- The slice of a round is the unit at the start of the rest exactly when it has its length. -/
theorem take_window_eq_iff {t : List Byte} {n : Nat} (hn : n ≤ (window (u ++ t)).length) :
    (window (u ++ t)).take n = u ↔ n = u.length := by
  constructor
  · intro h
    rw [← congrArg List.length h, List.length_take, min_eq_left hn]
  · rintro rfl
    have hle : u.length ≤ defaultBufLen := hn.trans (List.length_take_le _ _)
    rw [window, List.take_take, min_eq_left hle, List.take_left]

/-- One round passes on the first unit, and the others after it, exactly when it cuts it off
whole. -/
theorem IsStream.round_eq_iff (h : IsStream (u :: rest)) {file : List Byte} {decodePos : Nat}
    (hrest : file.drop decodePos = (u :: rest).flatten)
    (hn : 4 ≤ sliceLen find264NALFragment (u :: rest).flatten)
    (hwindow : sliceLen find264NALFragment (u :: rest).flatten ≤
      (window (u :: rest).flatten).length) :
    nalLoop find264NALFragment file file.length decodePos = u :: rest ↔
      sliceLen find264NALFragment (u :: rest).flatten = u.length ∧
        nalLoop find264NALFragment file file.length (decodePos + u.length) = rest := by
  have hne : (u :: rest).flatten ≠ [] := by
    intro hnil
    have := h.head.2
    have := congrArg List.length hnil
    rw [List.flatten_cons, List.length_append, List.length_nil] at this
    omega
  rw [nalLoop_round hrest hne, if_neg (by omega), List.cons_eq_cons]
  rw [List.flatten_cons] at hwindow ⊢
  rw [take_window_eq_iff hwindow]
  apply and_congr_right
  intro heq
  rw [heq]

theorem IsStream.nalLoop_eq_iff {units : List (List Byte)} (h : IsStream units)
    {file : List Byte} {decodePos : Nat} (hrest : file.drop decodePos = units.flatten) :
    nalLoop find264NALFragment file file.length decodePos = units ↔ Fitting units := by
  have hbuf : 5 ≤ defaultBufLen := by decide
  induction units generalizing decodePos with
  | nil =>
    have hlen : file.length ≤ decodePos := by simpa using hrest
    rw [nalLoop_of_le (by omega)]
    simp [Fitting]
  | cons u rest ih =>
    have hu := h.head.2
    have hdrop : file.drop (decodePos + u.length) = rest.flatten := by
      rw [← List.drop_drop, hrest, List.flatten_cons, List.drop_left]
    have hnext : nalLoop find264NALFragment file file.length (decodePos + u.length) = rest ↔
        Fitting rest := ih h.tail hdrop
    cases rest with
    | nil =>
      have hslice := h.sliceLen_last
      have hwindow : (window [u].flatten).length = min defaultBufLen u.length := by simp [window]
      rw [h.round_eq_iff hrest (by omega) (by omega), hnext, hslice]
      simp only [Fitting, and_true]
      omega
    | cons v rest =>
      have hslice := h.sliceLen_cons
      have hv := h.tail.head.2
      have hwindow : (window (u :: v :: rest).flatten).length =
          min defaultBufLen (u.length + (v.length + rest.flatten.length)) := by
        simp [window]
      have hle : sliceLen find264NALFragment (u :: v :: rest).flatten ≤
          (window (u :: v :: rest).flatten).length := by
        rw [hslice, hwindow]
        split <;> omega
      have hfour : 4 ≤ sliceLen find264NALFragment (u :: v :: rest).flatten := by
        rw [hslice]
        split <;> omega
      rw [h.round_eq_iff hrest hfour hle, hnext, hslice, Fitting]
      apply and_congr_left
      intro
      split <;> omega

/-- The decoder gets exactly the units of the stream when and only when the stream is shorter than
2³¹ bytes and every unit fits: a unit with another behind it has at most 511996 bytes or exactly
512000, the last one at most 512000. -/
theorem NalStream.singleDecoderTest_iff (s : NalStream) :
    singleDecoderTest s.file = s.units ↔ s.file.length < 2 ^ 31 ∧ Fitting s.units := by
  by_cases hsize : s.file.length < 2 ^ 31
  · rw [singleDecoderTest, fileSize_eq hsize, s.isStream.nalLoop_eq_iff rfl]
    exact (and_iff_right hsize).symm
  · exact iff_of_false (nalLoop_ne_of_large (Nat.le_of_not_lt hsize)) fun h => hsize h.1

/-- Two units, the first with `n` payload bytes. -/
def twoUnits (n : Nat) : List (List Byte) :=
  [kStartCode ++ List.replicate n 0x41, kStartCode ++ [0x65]]

theorem twoUnits_one {n j : Nat} (h : (twoUnits n).flatten[j]? = some 1) : j = 3 ∨ j = n + 7 := by
  have hflat : (twoUnits n).flatten =
      [0, 0, 0, 1] ++ (List.replicate n 0x41 ++ [0, 0, 0, 1, 0x65]) := by
    simp [twoUnits, kStartCode]
  rw [hflat, List.getElem?_append, List.getElem?_append] at h
  split at h
  · rename_i hlt
    match j, hlt with
    | 0, _ | 1, _ | 2, _ => simp at h
    | 3, _ => exact .inl rfl
  split at h
  · simp [List.getElem?_replicate] at h
  · rename_i hge hge'
    simp only [List.length_cons, List.length_nil, List.length_replicate] at h hge hge'
    obtain ⟨k, hk⟩ : ∃ k, j - (0 + 1 + 1 + 1 + 1) - n = k := ⟨_, rfl⟩
    rw [hk] at h
    match k, hk, h with
    | 0, _, h | 1, _, h | 2, _, h | 4, _, h => simp at h
    | 3, hk, _ => right; omega
    | k + 5, _, h => simp at h

theorem isStream_twoUnits {n : Nat} (hn : 0 < n) : IsStream (twoUnits n) := by
  refine ⟨?_, ?_⟩
  · intro u hu
    simp only [twoUnits, List.mem_cons, List.not_mem_nil, or_false] at hu
    rcases hu with rfl | rfl
    · exact ⟨List.prefix_append _ _, by simp [kStartCode]; omega⟩
    · exact ⟨List.prefix_append _ _, by simp [kStartCode]⟩
  · intro i hi
    -- the last byte of the start code tells where it is
    obtain ⟨t, ht⟩ := matchesAt_iff.mp hi
    have hone : (twoUnits n).flatten[i + 3]? = some 1 := by
      rw [← List.getElem?_drop, ← ht]
      rfl
    rcases twoUnits_one hone with h | h
    · exact ⟨0, by simp [twoUnits], by simp; omega⟩
    · exact ⟨1, by simp [twoUnits], by simp [twoUnits, kStartCode]; omega⟩

theorem length_twoUnits (n : Nat) : (twoUnits n).flatten.length = n + 9 := by
  simp [twoUnits, kStartCode]

theorem fitting_twoUnits {n : Nat} (h : Fitting (twoUnits n)) :
    n + 8 ≤ defaultBufLen ∨ n + 4 = defaultBufLen := by
  have hfirst : (kStartCode ++ List.replicate n (0x41 : Byte)).length = n + 4 := by
    simp [kStartCode]
  obtain ⟨hu, -⟩ := h
  omega

/-- The start code behind a unit of 511997 bytes straddles the end of the window. -/
theorem straddling_startCode_lost : ¬ ∀ s : NalStream, singleDecoderTest s.file = s.units := by
  intro h
  have hstream : IsStream (twoUnits 511993) := isStream_twoUnits (by omega)
  have hsize : (twoUnits 511993).flatten.length < 2 ^ 31 := by
    rw [length_twoUnits]
    omega
  have hunits := h ⟨twoUnits 511993, hstream⟩
  rw [singleDecoderTest, NalStream.file, fileSize_eq hsize, hstream.nalLoop_eq_iff rfl] at hunits
  have hfit := fitting_twoUnits hunits
  have hbuf : defaultBufLen = 512000 := by decide
  omega

end BoardTest.Video.DecoderTest
