import BoardTest.Gps.Nmea
import BoardTest.Lib.Lines
import Mathlib.Data.List.ReduceOption

/-!
# From the port to the sentences

The loop of `main` in `openharmony_cmd/fltest_gps/gps.c`: bytes are gathered in `line` until an LF
comes, and a byte that finds no room empties the buffer and is dropped. So every 512th byte of a
line starts it anew, and what `parse_nmea` gets of a line is `kept` of it. A line longer than the
buffer can leave a piece that looks like a sentence; `mainLoop_eq_sentences_iff` says which ones do.
-/

namespace BoardTest.Gps

/-- The line buffer and its fill level. -/
structure LineState where
  line : List Byte
  linePos : Nat
  deriving DecidableEq

/-- `memset(line, 0, sizeof(line)); line_pos = 0;` -/
def LineState.fresh : LineState := ⟨List.replicate bufSize 0, 0⟩

/-- One byte from the port (`gps.c:277-291`): the state behind it and what `parse_nmea` is
handed. -/
def LineState.readByte (s : LineState) (c : Byte) : LineState × List (List Byte) :=
  if c = lf then
    let line := s.line.set s.linePos 0
    (.fresh, if 0 < s.linePos ∧ line.getD 0 0 = dollar then [line] else [])
  else if s.linePos < bufSize - 1 then
    ({ line := s.line.set s.linePos c, linePos := s.linePos + 1 }, [])
  else (.fresh, [])

/-- The loop of `main` (`gps.c:267-292`): the line buffers handed to `parse_nmea`. A read that
brings no byte is `none`. -/
def mainLoop (s : LineState) : List (Option Byte) → List (List Byte)
  | [] => []
  | none :: reads => mainLoop s reads
  | some c :: reads => (s.readByte c).2 ++ mainLoop (s.readByte c).1 reads

/-- What is in the buffer of a line's bytes: every `bufSize` of them it is emptied. -/
def kept (p : List Byte) : List Byte := p.drop (bufSize * (p.length / bufSize))

/-- The state after the bytes `p` of a line that has not ended. -/
def stateAfter (p : List Byte) : LineState := ⟨cbuf bufSize (kept p), (kept p).length⟩

theorem bufSize_pos : 0 < bufSize := by decide

theorem length_kept (p : List Byte) : (kept p).length = p.length % bufSize := by
  have := Nat.div_add_mod p.length bufSize
  rw [kept, List.length_drop]
  omega

theorem length_kept_lt (p : List Byte) : (kept p).length < bufSize := by
  rw [length_kept]
  exact Nat.mod_lt _ bufSize_pos

theorem kept_of_short {p : List Byte} (h : p.length < bufSize) : kept p = p := by
  rw [kept, Nat.div_eq_of_lt h, Nat.mul_zero, List.drop_zero]

theorem stateAfter_nil : stateAfter [] = .fresh := rfl

/-- A byte that finds room. -/
theorem kept_concat {p : List Byte} (h : (kept p).length + 1 < bufSize) (c : Byte) :
    kept (p ++ [c]) = kept p ++ [c] := by
  have hmod := length_kept p
  have hdiv : (p.length + 1) / bufSize = p.length / bufSize := by
    simp only [bufSize] at *
    omega
  have hle : bufSize * (p.length / bufSize) ≤ p.length := Nat.mul_div_le _ _
  rw [kept, List.length_append, List.length_singleton, hdiv, List.drop_append_of_le_length hle,
    ← kept]

/-- A byte that finds none. -/
theorem kept_concat_full {p : List Byte} (h : ¬ (kept p).length + 1 < bufSize) (c : Byte) :
    kept (p ++ [c]) = [] := by
  have hlt := length_kept_lt p
  have hmod := length_kept p
  apply List.eq_nil_of_length_eq_zero
  rw [length_kept, List.length_append, List.length_singleton]
  simp only [bufSize] at *
  omega

/-- A byte of the line takes the state of the bytes before it to the state of the bytes with
it. -/
theorem readByte_stateAfter {c : Byte} (hc : c ≠ lf) (p : List Byte) :
    (stateAfter p).readByte c = (stateAfter (p ++ [c]), []) := by
  have hlt := length_kept_lt p
  rw [LineState.readByte, if_neg hc]
  by_cases hroom : (kept p).length + 1 < bufSize
  · rw [if_pos (by simp only [stateAfter]; omega)]
    simp only [stateAfter, kept_concat hroom, List.length_append, List.length_singleton,
      cbuf_set hlt]
  · rw [if_neg (by simp only [stateAfter]; omega)]
    simp only [stateAfter, kept_concat_full hroom]
    rfl

/-- What the end of a line hands on. -/
def handed (l : List Byte) : List (List Byte) :=
  if (kept l).head? = some dollar then [cbuf bufSize (kept l)] else []

theorem readByte_lf (p : List Byte) :
    (stateAfter p).readByte lf = (stateAfter [], handed p) := by
  have hset := cbuf_set_zero (length_kept_lt p)
  rw [LineState.readByte, if_pos rfl, stateAfter_nil]
  simp only [stateAfter, hset, handed]
  cases hp : kept p with
  | nil => simp
  | cons b rest => simp [cbuf]

/-- What `main` hands to `parse_nmea`: of every line of the stream what the buffer kept of
it. -/
theorem mainLoop_stateAfter (p : List Byte) (reads : List (Option Byte)) :
    mainLoop (stateAfter p) reads = (linesAfter lf p reads.reduceOption).flatMap handed := by
  induction reads generalizing p with
  | nil => rfl
  | cons read reads ih =>
    cases read with
    | none => rw [mainLoop, ih, List.reduceOption_cons_of_none]
    | some c =>
      rw [mainLoop, List.reduceOption_cons_of_some, linesAfter]
      by_cases hc : c = lf
      · rw [if_pos hc, hc, readByte_lf, ih, List.flatMap_cons]
      · rw [if_neg hc, readByte_stateAfter hc, ih, List.nil_append]

/-! ## The lines that are sentences -/

/-- A line the reader is meant to parse. -/
def IsSentence (l : List Byte) : Prop := l.length ≤ 511 ∧ l.head? = some dollar

instance (l : List Byte) : Decidable (IsSentence l) := instDecidableAnd

/-- The sentences of a stream. -/
def sentences (s : List Byte) : List (List Byte) := (terminatedLines lf s).filter IsSentence

/-- A line that fits the buffer, or of which no sentence is left in it: the byte that starts the
buffer for the last time is not a `$`. -/
def LeavesNone (l : List Byte) : Prop :=
  l.length ≤ 511 ∨ l[bufSize * (l.length / bufSize)]? ≠ some dollar

instance (l : List Byte) : Decidable (LeavesNone l) := instDecidableOr

theorem kept_head? (l : List Byte) : (kept l).head? = l[bufSize * (l.length / bufSize)]? := by
  rw [kept, List.head?_drop]

theorem handed_of_short {l : List Byte} (h : l.length ≤ 511) :
    handed l = if IsSentence l then [cbuf bufSize l] else [] := by
  rw [handed, kept_of_short (by simp only [bufSize]; omega)]
  simp [IsSentence, h]

/-- A line is handed over as it should be, or it should not be handed over but is. -/
theorem handed_eq_iff (l : List Byte) :
    handed l = (if IsSentence l then [cbuf bufSize l] else []) ↔ LeavesNone l := by
  by_cases hshort : l.length ≤ 511
  · exact iff_of_true (handed_of_short hshort) (.inl hshort)
  · rw [if_neg (fun h => hshort h.1), handed, LeavesNone, ← kept_head?]
    by_cases hhead : (kept l).head? = some dollar <;> simp [hhead, hshort]

theorem map_filter_isSentence (ls : List (List Byte)) :
    (ls.filter IsSentence).map (cbuf bufSize) =
      ls.flatMap fun l => if IsSentence l then [cbuf bufSize l] else [] := by
  induction ls with
  | nil => rfl
  | cons l ls ih => by_cases hl : IsSentence l <;> simp [hl, ih]

/-- `parse_nmea` is handed the sentences of the stream and nothing else exactly when no line
longer than the buffer leaves one in it. -/
theorem mainLoop_eq_sentences_iff (reads : List (Option Byte)) :
    mainLoop .fresh reads = (sentences reads.reduceOption).map (cbuf bufSize) ↔
      ∀ l ∈ terminatedLines lf reads.reduceOption, LeavesNone l := by
  rw [← stateAfter_nil, mainLoop_stateAfter, ← terminatedLines, sentences,
    map_filter_isSentence, flatMap_eq_flatMap_iff]
  · simp only [handed_eq_iff]
  · intro l _
    by_cases hshort : l.length ≤ 511
    · exact .inl (handed_of_short hshort)
    · exact .inr (if_neg fun h => hshort h.1)

theorem reduceOption_map_some (s : List Byte) : (s.map some).reduceOption = s := by
  rw [List.reduceOption, List.filterMap_map, Function.id_comp, List.filterMap_some]

/-- Lines that fit the buffer are told apart as they were sent. -/
theorem mainLoop_of_lines {ls : List (List Byte)} {tail : List Byte}
    (hlf : ∀ l ∈ ls, lf ∉ l) (hshort : ∀ l ∈ ls, l.length ≤ 511) (htail : lf ∉ tail) :
    mainLoop .fresh (((ls.map (· ++ [lf])).flatten ++ tail).map some) =
      (ls.filter IsSentence).map (cbuf bufSize) := by
  rw [← stateAfter_nil, mainLoop_stateAfter, reduceOption_map_some, ← terminatedLines,
    terminatedLines_flatten_append hlf htail, map_filter_isSentence]
  apply List.flatMap_congr
  intro l hl
  exact handed_of_short (hshort l hl)

/-- A full buffer of bytes without a meaning, then `$`. -/
def longLine : List Byte := List.replicate bufSize 120 ++ [dollar]

/-- The `$` behind the full buffer is handed over as a sentence. -/
theorem longLine_handed : ¬ ∀ reads : List (Option Byte),
    mainLoop .fresh reads = (sentences reads.reduceOption).map (cbuf bufSize) := by
  intro h
  have hlf : lf ∉ longLine := by
    rw [longLine, List.mem_append, List.mem_replicate]
    decide
  have hlines : terminatedLines lf (longLine ++ [lf]) = [longLine] := linesAfter_line hlf [] []
  have hrun := h ((longLine ++ [lf]).map some)
  rw [← stateAfter_nil, mainLoop_stateAfter, sentences, map_filter_isSentence,
    reduceOption_map_some, ← terminatedLines, hlines, List.flatMap_singleton,
    List.flatMap_singleton, handed_eq_iff] at hrun
  have hlen : longLine.length = bufSize + 1 := by
    rw [longLine, List.length_append, List.length_replicate, List.length_singleton]
  rcases hrun with hshort | hlast
  · rw [hlen] at hshort
    exact absurd hshort (by decide)
  · have hdiv : bufSize * ((bufSize + 1) / bufSize) = bufSize := by decide
    apply hlast
    rw [hlen, hdiv, longLine, List.getElem?_append_right (by rw [List.length_replicate]),
      List.length_replicate, Nat.sub_self]
    rfl

end BoardTest.Gps
