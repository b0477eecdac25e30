import Mathlib.Algebra.Order.Ring.Int
import Mathlib.Data.List.Basic
import Mathlib.Data.List.Infix
import Mathlib.Data.List.TakeWhile

/-!
# C strings and bounded formatting

Byte buffers as C programs use them: a buffer is a list of bytes, the string it holds ends before
its first NUL, and `snprintf` keeps what fits beside the terminator. A format string is cut once
at its conversions (`formatPieces`), so that a formatted line is a concatenation of the literal
pieces and the arguments (`sprintf_eq`).
-/

namespace BoardTest

/-- One `char`, read as an unsigned byte. -/
abbrev Byte := UInt8

/-- A property of bytes holds of all of them when it holds of the 256 values. -/
theorem forall_byte {p : Byte → Prop} (h : ∀ n < 256, p (UInt8.ofNat n)) (b : Byte) : p b := by
  have := h b.toNat b.toNat_lt
  rwa [UInt8.ofNat_toNat] at this

/-- The bytes of a string literal of the source, UTF-8 as the compiler stores it. -/
def bytes (s : String) : List Byte := s.toUTF8.data.toList

/-- `if ((q = strchr(p, c))) *q = '\0'`: the string is cut at the first `c`. -/
def cutAt (c : Byte) (s : List Byte) : List Byte := s.takeWhile (· ≠ c)

/-- The C string held by a buffer: its bytes before the first NUL. -/
def cstr (buf : List Byte) : List Byte := cutAt 0 buf

/-- `char buf[n] = "s"`: the bytes of the initialiser, the rest zero. -/
def cbuf (n : Nat) (s : List Byte) : List Byte := s ++ List.replicate (n - s.length) 0

@[simp] theorem cutAt_nil (c : Byte) : cutAt c [] = [] := rfl

theorem cutAt_eq_self {c : Byte} {s : List Byte} (h : c ∉ s) : cutAt c s = s := by
  rw [cutAt, List.takeWhile_eq_self_iff]
  intro b hb
  simpa using ne_of_mem_of_not_mem hb h

theorem cutAt_append {c : Byte} {s : List Byte} (h : c ∉ s) (t : List Byte) :
    cutAt c (s ++ t) = s ++ cutAt c t := by
  rw [cutAt, List.takeWhile_append_of_pos]
  · rfl
  · intro b hb
    simpa using ne_of_mem_of_not_mem hb h

@[simp] theorem cutAt_cons_self (c : Byte) (t : List Byte) : cutAt c (c :: t) = [] := by
  simp [cutAt]

theorem cutAt_append_cons {c : Byte} {s : List Byte} (h : c ∉ s) (t : List Byte) :
    cutAt c (s ++ c :: t) = s := by
  rw [cutAt_append h, cutAt_cons_self, List.append_nil]

/-- A string with a `c` in it is its cut, that `c` and a rest. -/
theorem exists_cutAt_append {c : Byte} {s : List Byte} (h : c ∈ s) :
    ∃ t, s = cutAt c s ++ c :: t := by
  obtain ⟨a, t, rfl, ha⟩ := List.eq_append_cons_of_mem h
  exact ⟨t, by rw [cutAt_append_cons ha]⟩

theorem not_mem_cutAt (c : Byte) (s : List Byte) : c ∉ cutAt c s := by
  intro h
  simpa using List.mem_takeWhile_imp h

theorem cutAt_isPrefix (c : Byte) (s : List Byte) : cutAt c s <+: s := List.takeWhile_prefix _

theorem cstr_replicate_zero (n : Nat) : cstr (List.replicate n 0) = [] := by
  cases n <;> simp [cstr, List.replicate_succ]

theorem cstr_cbuf {n : Nat} {s : List Byte} (h : 0 ∉ s) : cstr (cbuf n s) = s := by
  rw [cbuf, cstr, cutAt_append h, ← cstr, cstr_replicate_zero, List.append_nil]

/-- What a string leaves of an initialised buffer when it is written over its start without a
terminator: the initialiser is still read exactly when the string is a piece of its start, or goes
beyond it with a NUL of its own. -/
theorem cstr_overwrite_iff {n : Nat} {d w : List Byte} (hd : 0 ∉ d) :
    cstr (w ++ (cbuf n d).drop w.length) = d ↔ w <+: d ∨ d ++ [0] <+: w := by
  constructor
  · intro h
    by_cases hw : 0 ∈ w
    · right
      obtain ⟨t, ht⟩ := exists_cutAt_append hw
      have hcut : cutAt 0 w = d := by
        rw [ht, List.append_assoc, List.cons_append, cstr,
          cutAt_append_cons (not_mem_cutAt 0 w)] at h
        exact h
      rw [ht, hcut]
      exact ⟨t, by simp⟩
    · left
      rw [cstr, cutAt_append hw] at h
      exact ⟨_, h⟩
  · rintro (⟨t, rfl⟩ | ⟨t, rfl⟩)
    · have : w ++ (cbuf n (w ++ t)).drop w.length = cbuf n (w ++ t) := by simp [cbuf]
      rw [this, cstr_cbuf hd]
    · simp [cstr, cutAt_append hd]

theorem cstr_cbuf_eq_cutAt (n : Nat) (w : List Byte) : cstr (cbuf n w) = cutAt 0 w := by
  by_cases hw : 0 ∈ w
  · obtain ⟨t, ht⟩ := exists_cutAt_append hw
    rw [cbuf, ht, List.append_assoc, List.cons_append, cstr,
      cutAt_append_cons (not_mem_cutAt 0 w), cutAt_append_cons (not_mem_cutAt 0 w)]
  · rw [cstr_cbuf hw, cutAt_eq_self hw]

/-- What is stored behind the NUL does not change the string. -/
theorem cstr_set_of_lt {l : List Byte} {i : Nat} (h : (cstr l).length < i) (b : Byte) :
    cstr (l.set i b) = cstr l := by
  induction l generalizing i with
  | nil => rfl
  | cons a l ih =>
    obtain ⟨j, rfl⟩ : ∃ j, i = j + 1 := ⟨i - 1, by omega⟩
    rw [List.set_cons_succ]
    by_cases ha : a = 0
    · rw [ha, cstr, cutAt_cons_self, cstr, cutAt_cons_self]
    · have hcons : ∀ t : List Byte, cstr (a :: t) = a :: cstr t := fun t =>
        cutAt_append (s := [a]) (by simpa using Ne.symm ha) t
      rw [hcons, List.length_cons] at h
      rw [hcons, hcons, ih (by omega)]

/-- A store from `i` on does not make or unmake a string shorter than that. -/
theorem length_cstr_set_iff {l : List Byte} {i k : Nat} (hk : k < i) (b : Byte) :
    (cstr (l.set i b)).length = k ↔ (cstr l).length = k := by
  constructor
  · intro h
    by_cases hi : i < l.length
    · have hback : (l.set i b).set i l[i] = l := by rw [List.set_set, List.set_getElem_self]
      have hcstr := cstr_set_of_lt (l := l.set i b) (i := i) (by omega) l[i]
      rw [← hback, hcstr, h]
    · rw [List.set_eq_of_length_le (Nat.le_of_not_lt hi)] at h
      exact h
  · intro h
    rw [cstr_set_of_lt (by omega), h]

/-- Every byte of the string is one of the buffer and no NUL. -/
theorem exists_getElem?_of_lt_cstr {l : List Byte} {i : Nat} (h : i < (cstr l).length) :
    ∃ b, l[i]? = some b ∧ b ≠ 0 := by
  refine ⟨(cstr l)[i], ?_, ?_⟩
  · have hprefix := cutAt_isPrefix 0 l
    rw [List.getElem?_eq_getElem (lt_of_lt_of_le h hprefix.length_le), ← hprefix.getElem h]
    rfl
  · intro hzero
    have hmem : (cstr l)[i] ∈ cutAt 0 l := List.getElem_mem h
    rw [hzero] at hmem
    exact not_mem_cutAt 0 l hmem

/-- How long the string of a buffer is. -/
theorem length_cstr_eq_iff {l : List Byte} {k : Nat} (hk : k < l.length) :
    (cstr l).length = k ↔ (∀ i < k, l[i]? ≠ some 0) ∧ l[k]? = some 0 := by
  induction l generalizing k with
  | nil => exact absurd hk (Nat.not_lt_zero k)
  | cons a l ih =>
    by_cases ha : a = 0
    · rw [ha, cstr, cutAt_cons_self]
      constructor
      · rintro rfl
        exact ⟨fun i hi => absurd hi (Nat.not_lt_zero i), rfl⟩
      · rintro ⟨hbefore, -⟩
        by_contra hne
        exact hbefore 0 (Nat.pos_of_ne_zero (Ne.symm hne)) rfl
    · have hcons : cstr (a :: l) = a :: cstr l :=
        cutAt_append (s := [a]) (by simpa using Ne.symm ha) l
      have hfirst : (a :: l)[0]? ≠ some 0 := fun h => ha (Option.some.inj h)
      rw [hcons, List.length_cons]
      cases k with
      | zero => exact iff_of_false (Nat.succ_ne_zero _) fun h => hfirst h.2
      | succ k =>
        rw [Nat.add_left_inj, ih (Nat.lt_of_succ_lt_succ hk), Nat.forall_lt_succ_left,
          List.getElem?_cons_succ]
        simp only [List.getElem?_cons_succ]
        rw [and_iff_right hfirst]

theorem length_cbuf {n : Nat} {s : List Byte} (h : s.length ≤ n) : (cbuf n s).length = n := by
  simp [cbuf]; omega

/-- A byte written behind the string makes it longer. -/
theorem cbuf_set {n : Nat} {s : List Byte} (h : s.length < n) (c : Byte) :
    (cbuf n s).set s.length c = cbuf n (s ++ [c]) := by
  obtain ⟨k, hk⟩ : ∃ k, n - s.length = k + 1 := ⟨n - s.length - 1, by omega⟩
  have hk' : n - (s ++ [c]).length = k := by
    rw [List.length_append, List.length_singleton]
    omega
  rw [cbuf, cbuf, hk, hk', List.replicate_succ]
  simp

theorem cbuf_set_zero {n : Nat} {s : List Byte} (h : s.length < n) :
    (cbuf n s).set s.length 0 = cbuf n s := by
  obtain ⟨k, hk⟩ : ∃ k, n - s.length = k + 1 := ⟨n - s.length - 1, by omega⟩
  rw [cbuf, hk, List.replicate_succ]
  simp

/-! ## Formatting -/

/-- The literal pieces of a format string, cut at each `%s` and `%d`. -/
def formatPieces : List Byte → List (List Byte)
  | [] => [[]]
  | [b] => [[b]]
  | b :: c :: rest =>
    if b = 37 ∧ (c = 115 ∨ c = 100) then [] :: formatPieces rest
    else match formatPieces (c :: rest) with
      | [] => [[b]]
      | piece :: pieces => (b :: piece) :: pieces

/-- The pieces with the printed arguments set between them. -/
def weave : List (List Byte) → List (List Byte) → List Byte
  | [], _ => []
  | [piece], _ => piece
  | piece :: pieces, [] => piece ++ weave pieces []
  | piece :: pieces, arg :: args => piece ++ (arg ++ weave pieces args)

/-- `sprintf`: the conversions of `fmt` replaced in order by the arguments, given as printed. -/
def sprintf (fmt : String) (args : List (List Byte)) : List Byte :=
  weave (formatPieces (bytes fmt)) args

/-- `snprintf(buf, n, fmt, ...)`: at most `n - 1` bytes are kept before the terminator. -/
def snprintf (n : Nat) (fmt : String) (args : List (List Byte)) : List Byte :=
  (sprintf fmt args).take (n - 1)

/-- `%d` of a non-negative number. -/
def decimal (n : Nat) : List Byte := bytes (toString n)

theorem sprintf_eq {fmt : String} {pieces : List (List Byte)}
    (h : formatPieces (bytes fmt) = pieces) (args : List (List Byte)) :
    sprintf fmt args = weave pieces args := by
  rw [sprintf, h]

/-- The length of the literal pieces of a format string. -/
def literalLength (pieces : List (List Byte)) : Nat := (pieces.map List.length).sum

theorem length_weave {pieces args : List (List Byte)} (h : pieces.length = args.length + 1) :
    (weave pieces args).length = literalLength pieces + (args.map List.length).sum := by
  induction args generalizing pieces with
  | nil =>
    obtain ⟨piece, rfl⟩ := List.length_eq_one_iff.mp h
    simp [weave, literalLength]
  | cons arg args ih =>
    obtain ⟨piece, next, pieces, rfl⟩ :
        ∃ piece next pieces', pieces = piece :: next :: pieces' := by
      match pieces, h with
      | piece :: next :: pieces', _ => exact ⟨piece, next, pieces', rfl⟩
    have hrest := @ih (next :: pieces) (by simpa using h)
    simp only [literalLength, List.map_cons, List.sum_cons] at hrest
    simp only [weave, literalLength, List.length_append, List.map_cons, List.sum_cons, hrest]
    omega

/-- A line short enough for its buffer is kept whole. -/
theorem snprintf_eq_sprintf {n : Nat} {fmt : String} {args : List (List Byte)}
    (h : (sprintf fmt args).length < n) : snprintf n fmt args = sprintf fmt args := by
  rw [snprintf, List.take_of_length_le (by omega)]

end BoardTest
