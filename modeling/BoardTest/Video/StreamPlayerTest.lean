import BoardTest.Video.NalLoop

/-!
# The stream player test

`h264Test` of `stream_player_test.cpp` passes the fragments of an Annex-B stream to the player. Its
`find264NALFragment` accepts both start codes, and tests both at every offset that leaves room for
the longer one. A unit whose payload has no start code and no zero at its end is cut off whole
wherever the window ends (`sliceLen_unit`).
-/

namespace BoardTest.Video.StreamPlayerTest

/-- Both `memcmp`s of the scan. -/
def hit (data : List Byte) (offset : Nat) : Bool :=
  matchesAt kStartCode data offset || matchesAt kStartCodeLegecy data offset

/-- The end of the fragment, looked for from behind its start code. -/
def fragmentEnd (data : List Byte) (size start : Nat) : Nat :=
  let offset := scan (hit data) (size - 3) start
  if offset > size - 4 ∨ offset > size - 3 then size else offset

/-- `find264NALFragment` (`stream_player_test.cpp:232-259`). -/
def find264NALFragment : FindFragment := fun data size =>
  if size < 4 then .error (-1)
  else if matchesAt kStartCode data 0 then
    .ok (fragmentEnd data size 4, (data.getD 4 0 &&& 0x1f).toNat)
  else if matchesAt kStartCodeLegecy data 0 then
    .ok (fragmentEnd data size 3, (data.getD 4 0 &&& 0x1f).toNat)
  else .error (-2)

/-- The slices that `h264Test` passes to `sendFrameToThread` (`stream_player_test.cpp:388-414`). -/
def h264Test (file : List Byte) : List (List Byte) :=
  nalLoop find264NALFragment file (fileSize file) 0

/-- A start code of either kind and a payload without `00 00 01` in it or `00` at its end. The
length leaves room for a start code in the window. -/
structure IsNalUnit (code payload : List Byte) : Prop where
  isCode : code = kStartCode ∨ code = kStartCodeLegecy
  nonempty : payload ≠ []
  noCode : ¬ kStartCodeLegecy <:+: payload
  noTrailingZero : payload.getLast? ≠ some 0
  length_le : (code ++ payload).length ≤ 500 * 1024 - 4

structure AnnexBStream where
  units : List (List Byte)
  isUnit : ∀ u ∈ units, ∃ code payload, u = code ++ payload ∧ IsNalUnit code payload

def AnnexBStream.file (s : AnnexBStream) : List Byte := s.units.flatten

theorem hit_eq_false_iff {data : List Byte} {i : Nat} :
    hit data i = false ↔ ¬ kStartCode <+: data.drop i ∧ ¬ kStartCodeLegecy <+: data.drop i := by
  rw [hit, Bool.or_eq_false_iff, matchesAt_eq_false_iff, matchesAt_eq_false_iff]

/-- Every beginning of a start code ends in a zero or has a start code in it. -/
theorem isPrefix_code {code q : List Byte} (hcode : code = kStartCode ∨ code = kStartCodeLegecy)
    (hq : q <+: code) : q = [] ∨ q.getLast? = some 0 ∨ kStartCodeLegecy <:+: q := by
  rw [← List.mem_inits] at hq
  rcases hcode with rfl | rfl
  · exact (by decide : ∀ q ∈ kStartCode.inits,
      q = [] ∨ q.getLast? = some 0 ∨ kStartCodeLegecy <:+: q) q hq
  · exact (by decide : ∀ q ∈ kStartCodeLegecy.inits,
      q = [] ∨ q.getLast? = some 0 ∨ kStartCodeLegecy <:+: q) q hq

/-- No start code begins in bytes that have none in them and do not end in a zero, whatever
follows. -/
theorem not_code_isPrefix {code q t : List Byte}
    (hcode : code = kStartCode ∨ code = kStartCodeLegecy) (hne : q ≠ [])
    (hno : ¬ kStartCodeLegecy <:+: q) (hlast : q.getLast? ≠ some 0) : ¬ code <+: q ++ t := by
  intro h
  have hsame : kStartCodeLegecy <:+: code := by rcases hcode with rfl | rfl <;> decide
  rcases List.prefix_or_prefix_of_prefix h (List.prefix_append q t) with hin | hover
  · exact hno (hsame.trans hin.isInfix)
  · rcases isPrefix_code hcode hover with h | h | h
    · exact hne h
    · exact hlast h
    · exact hno h

variable {code payload : List Byte}

/-- Inside the payload of a unit there is no hit. -/
theorem IsNalUnit.miss (h : IsNalUnit code payload) (t : List Byte) {i : Nat}
    (hcode : code.length ≤ i) (hi : i < (code ++ payload).length) :
    hit (code ++ payload ++ t) i = false := by
  rw [List.length_append] at hi
  obtain ⟨k, rfl⟩ : ∃ k, i = code.length + k := ⟨i - code.length, by omega⟩
  have hdrop : (code ++ payload ++ t).drop (code.length + k) = payload.drop k ++ t := by
    rw [List.append_assoc, ← List.drop_drop, List.drop_left,
      List.drop_append_of_le_length (by omega)]
  have hne : payload.drop k ≠ [] := by
    rw [Ne, List.drop_eq_nil_iff]
    omega
  have hno : ¬ kStartCodeLegecy <:+: payload.drop k := fun hin =>
    h.noCode (hin.trans (List.drop_suffix k payload).isInfix)
  have hlast : (payload.drop k).getLast? ≠ some 0 := by
    rw [List.getLast?_drop, if_neg (by omega)]
    exact h.noTrailingZero
  rw [hit_eq_false_iff, hdrop]
  exact ⟨not_code_isPrefix (.inl rfl) hne hno hlast, not_code_isPrefix (.inr rfl) hne hno hlast⟩

theorem fragmentEnd_hit {w : List Byte} {start n : Nat} (hstart : start ≤ n) (hn : n + 4 ≤ w.length)
    (hhit : hit w n = true) (hbefore : ∀ i, start ≤ i → i < n → hit w i = false) :
    fragmentEnd w w.length start = n := by
  have hscan : scan (hit w) (w.length - 3) start = n := by
    refine scan_eq hstart ?_ (.inr hhit)
    intro i hi hin
    exact ⟨by omega, hbefore i hi hin⟩
  simp only [fragmentEnd, hscan]
  split <;> omega

theorem fragmentEnd_miss {w : List Byte} {start : Nat} (hstart : start ≤ w.length)
    (hfour : 4 ≤ w.length) (hmiss : ∀ i, start ≤ i → hit w i = false) :
    fragmentEnd w w.length start = w.length := by
  have hscan : scan (hit w) (w.length - 3) start = max start (w.length - 3) := by
    refine scan_eq (le_max_left _ _) ?_ (.inl (le_max_right _ _))
    intro i hi hin
    exact ⟨by omega, hmiss i hi⟩
  simp only [fragmentEnd, hscan]
  split <;> omega

/-- Both kinds of unit: the scan starts behind the unit's own start code. -/
theorem IsNalUnit.nalLen_find (h : IsNalUnit code payload) {w t : List Byte}
    (hw : w = code ++ payload ++ t) :
    nalLen (find264NALFragment w w.length) = fragmentEnd w w.length code.length := by
  have hpos := List.length_pos_iff.mpr h.nonempty
  rcases h.isCode with rfl | rfl
  · have hsize : ¬ w.length < 4 := by
      simp [hw, kStartCode]
    have hmatch : matchesAt kStartCode w 0 = true := by
      rw [matchesAt_iff, hw, List.drop_zero, List.append_assoc]
      exact List.prefix_append _ _
    simp only [find264NALFragment, if_neg hsize, if_pos hmatch]
    rfl
  · have hsize : ¬ w.length < 4 := by
      simp [hw, kStartCodeLegecy]
      omega
    have hmiss : matchesAt kStartCode w 0 = false := by
      rw [matchesAt_eq_false_iff, hw]
      simp [kStartCode, kStartCodeLegecy]
    have hmatch : matchesAt kStartCodeLegecy w 0 = true := by
      rw [matchesAt_iff, hw, List.drop_zero, List.append_assoc]
      exact List.prefix_append _ _
    simp only [find264NALFragment, if_neg hsize, hmiss, Bool.false_eq_true, if_false, if_pos hmatch]
    rfl

theorem length_code_le (h : code = kStartCode ∨ code = kStartCodeLegecy) :
    3 ≤ code.length ∧ code.length ≤ 4 := by
  rcases h with rfl | rfl <;> decide

theorem IsNalUnit.four_le (h : IsNalUnit code payload) : 4 ≤ (code ++ payload).length := by
  have hpos := List.length_pos_iff.mpr h.nonempty
  have hcode := length_code_le h.isCode
  rw [List.length_append]
  omega

/-- The window holds the unit and what it shows of the rest. -/
theorem IsNalUnit.window_eq (h : IsNalUnit code payload) (t : List Byte) :
    window (code ++ payload ++ t) =
      code ++ payload ++ t.take (defaultBufLen - (code ++ payload).length) := by
  have hle := h.length_le
  have hbuf : defaultBufLen = 512000 := by decide
  rw [window, List.take_append, List.take_of_length_le (by omega)]

/-- A unit is cut off whole, at the end of the stream and before any other unit. -/
theorem IsNalUnit.sliceLen_eq (h : IsNalUnit code payload) {rest : List (List Byte)}
    (hrest : ∀ u ∈ rest, ∃ code payload, u = code ++ payload ∧ IsNalUnit code payload) :
    sliceLen find264NALFragment (code ++ payload ++ rest.flatten) = (code ++ payload).length := by
  have hle := h.length_le
  have hfour := h.four_le
  have hcode := length_code_le h.isCode
  have hbuf : defaultBufLen = 512000 := by decide
  rw [sliceLen, h.window_eq]
  generalize ht : rest.flatten.take (defaultBufLen - (code ++ payload).length) = t
  rw [h.nalLen_find rfl]
  cases rest with
  | nil =>
    obtain rfl : t = [] := by simpa using ht.symm
    have hmiss : ∀ i, code.length ≤ i → hit (code ++ payload ++ []) i = false := by
      intro i hi
      by_cases hlt : i < (code ++ payload).length
      · exact h.miss [] hi hlt
      · have hdrop : (code ++ payload ++ []).drop i = [] := by
          rw [List.append_nil, List.drop_eq_nil_iff]
          omega
        rw [hit_eq_false_iff, hdrop]
        decide
    rw [fragmentEnd_miss (by simp) (by simpa using hfour) hmiss, List.append_nil]
  | cons v rest =>
    obtain ⟨code', payload', rfl, h'⟩ := hrest v (by simp)
    have hcode' := length_code_le h'.isCode
    have hfour' := h'.four_le
    have hsum : (code ++ payload).length = code.length + payload.length := List.length_append
    have htotal : (code ++ payload ++ t).length = (code ++ payload).length + t.length :=
      List.length_append
    have hflat : ((code' ++ payload') :: rest).flatten.length =
        (code' ++ payload').length + rest.flatten.length := by
      rw [List.flatten_cons, List.length_append]
    have hlen : 4 ≤ t.length := by
      rw [← ht, List.length_take, hflat]
      omega
    have hprefix : code' <+: t := by
      rw [← ht, List.prefix_take_iff, List.flatten_cons, List.append_assoc]
      exact ⟨List.prefix_append _ _, by omega⟩
    have hhit : hit (code ++ payload ++ t) (code ++ payload).length = true := by
      rw [hit, Bool.or_eq_true, matchesAt_iff, matchesAt_iff, List.drop_left]
      rcases h'.isCode with rfl | rfl
      · exact .inl hprefix
      · exact .inr hprefix
    exact fragmentEnd_hit (by omega) (by omega) hhit fun i hi hlt => h.miss t hi hlt

/-! ## The whole run -/

theorem nalLoop_units {units : List (List Byte)}
    (h : ∀ u ∈ units, ∃ code payload, u = code ++ payload ∧ IsNalUnit code payload)
    {file : List Byte} {decodePos : Nat} (hrest : file.drop decodePos = units.flatten) :
    nalLoop find264NALFragment file file.length decodePos = units := by
  induction units generalizing decodePos with
  | nil =>
    have hlen : file.length ≤ decodePos := by simpa using hrest
    exact nalLoop_of_le (by omega)
  | cons u rest ih =>
    obtain ⟨code, payload, rfl, hu⟩ := h u (by simp)
    have hfour := hu.four_le
    have htail : ∀ v ∈ rest, ∃ code payload, v = code ++ payload ∧ IsNalUnit code payload :=
      fun v hv => h v (by simp [hv])
    have hslice := hu.sliceLen_eq htail
    have hdrop : file.drop (decodePos + (code ++ payload).length) = rest.flatten := by
      rw [← List.drop_drop, hrest, List.flatten_cons, List.drop_left]
    have hne : (code ++ payload ++ rest.flatten) ≠ [] := by
      intro hnil
      have := congrArg List.length hnil
      rw [List.length_append, List.length_nil] at this
      omega
    rw [List.flatten_cons] at hrest
    rw [nalLoop_round hrest hne, hslice, if_neg (by omega), hu.window_eq, List.take_left,
      ih htail hdrop]

/-- The player gets exactly the units of every stream of less than 2³¹ bytes. -/
theorem AnnexBStream.h264Test_eq (s : AnnexBStream) (h : s.file.length < 2 ^ 31) :
    h264Test s.file = s.units := by
  rw [h264Test, fileSize_eq h]
  exact nalLoop_units s.isUnit rfl

theorem isNalUnit_short : IsNalUnit kStartCodeLegecy [0x41] :=
  ⟨.inr rfl, by decide, by decide, by decide, by decide⟩

/-- A unit of each kind. -/
def mixedStream : AnnexBStream where
  units := [[0, 0, 1, 0x41], [0, 0, 0, 1, 0x65, 0, 0x80]]
  isUnit := by
    simp only [List.mem_cons, List.not_mem_nil, or_false]
    rintro u (rfl | rfl)
    · exact ⟨kStartCodeLegecy, [0x41], rfl, isNalUnit_short⟩
    · exact ⟨kStartCode, [0x65, 0, 0x80], rfl, .inl rfl, by decide, by decide, by decide, by decide⟩

theorem h264Test_mixedStream : h264Test mixedStream.file = mixedStream.units :=
  mixedStream.h264Test_eq (by decide)

theorem length_flatten_replicate (n : Nat) (u : List Byte) :
    (List.replicate n u).flatten.length = n * u.length := by
  simp

/-- A stream of 2³¹ bytes: its size is read as a negative number, and nothing is passed on. -/
theorem large_stream_lost : ¬ ∀ s : AnnexBStream, h264Test s.file = s.units := by
  intro h
  have hunit : ∀ u ∈ List.replicate (2 ^ 29) ([0, 0, 1, 0x41] : List Byte),
      ∃ code payload, u = code ++ payload ∧ IsNalUnit code payload := by
    intro u hu
    obtain rfl := List.eq_of_mem_replicate hu
    exact ⟨kStartCodeLegecy, [0x41], rfl, isNalUnit_short⟩
  refine nalLoop_ne_of_large ?_ (h ⟨_, hunit⟩)
  rw [length_flatten_replicate]
  decide

end BoardTest.Video.StreamPlayerTest
