import BoardTest.Lib.CString
import Mathlib.Data.Int.Init

/-!
# Query variables of the bundled mongoose

`mg_span`, `mg_http_var`, `mg_url_decode` and `mg_http_get_var` of `backend/mongoose.c`, on byte
lists: a `mg_str` is the list of its bytes, the destination is the list of all its bytes. What
`mg_http_get_var` leaves in the destination is computed by `mgHttpGetVar_found` and
`mgHttpGetVar_missing` from `urlDecode`, the decoding without a buffer.
-/

namespace BoardTest.Backend

/-- `mg_span` (`mongoose.c:10760-10771`): the bytes before the first separator and those behind
it; it fails on the empty string. -/
def mgSpan (s : List Byte) (sep : Byte) : Option (List Byte × List Byte) :=
  if s = [] then none
  else some (s.takeWhile (· ≠ sep), (s.dropWhile (· ≠ sep)).drop 1)

/-- The case folding of `mg_ncasecmp`. -/
def mgToLower (c : Byte) : Int := if 65 ≤ c ∧ c ≤ 90 then c.toNat + 32 else c.toNat

/-- `mg_ncasecmp` (`mongoose.c:1641-1650`) on two strings of one length. -/
def mgNcasecmp : List Byte → List Byte → Int
  | c :: s1, d :: s2 =>
    let diff := mgToLower c - mgToLower d
    if diff = 0 ∧ c ≠ 0 then mgNcasecmp s1 s2 else diff
  | _, _ => 0

/-- The loop of `mg_http_var`; each round takes at least one byte off `buf`. -/
def mgHttpVarLoop (name : List Byte) : Nat → List Byte → Option (List Byte)
  | 0, _ => none
  | fuel + 1, buf =>
    match mgSpan buf 38 with
    | none => none
    | some (entry, rest) =>
      match mgSpan entry 61 with
      | none => mgHttpVarLoop name fuel rest
      | some (k, v) =>
        if name.length = k.length ∧ mgNcasecmp name k = 0 then some v
        else mgHttpVarLoop name fuel rest

/-- `mg_http_var` (`mongoose.c:1753-1763`): the value of the first entry with this name. -/
def mgHttpVar (buf name : List Byte) : Option (List Byte) := mgHttpVarLoop name buf.length buf

/-- `isx` (`mongoose.c:1787-1790`). -/
def isx (c : Byte) : Bool := (48 ≤ c ∧ c ≤ 57) ∨ (97 ≤ c ∧ c ≤ 102) ∨ (65 ≤ c ∧ c ≤ 70)

/-- The digit of `mg_str_to_num` in base 16 (`mongoose.c:10815-10818`). -/
def mgHexDigit (c : Byte) : Nat :=
  if 48 ≤ c ∧ c ≤ 57 then c.toNat - 48
  else if 65 ≤ c ∧ c ≤ 70 then c.toNat - 55
  else c.toNat - 87

/-- The byte `mg_str_to_num` stores for two hexadecimal digits. -/
def mgHexByte (a b : Byte) : Byte := UInt8.ofNat (16 * mgHexDigit a + mgHexDigit b)

/-- How the loop of `mg_url_decode` ends: at a bad escape, or with the unread source, the length
written and the destination. -/
inductive DecodeEnd
  | bad (dst : List Byte)
  | stop (src : List Byte) (j : Nat) (dst : List Byte)

/-- The loop of `mg_url_decode` (`mongoose.c:1794-1809`) with `is_form_url_encoded` set. -/
def mgUrlDecodeLoop (dstLen : Nat) : List Byte → Nat → List Byte → DecodeEnd
  | [], j, dst => .stop [] j dst
  | c :: src, j, dst =>
    if j + 1 < dstLen then
      if c = 37 then
        match src with
        | a :: b :: src' =>
          if isx a ∧ isx b then mgUrlDecodeLoop dstLen src' (j + 1) (dst.set j (mgHexByte a b))
          else .bad dst
        | _ => .bad dst
      else mgUrlDecodeLoop dstLen src (j + 1) (dst.set j (if c = 43 then 32 else c))
    else .stop (c :: src) j dst

/-- `mg_url_decode` (`mongoose.c:1792-1812`): the destination and the return value. -/
def mgUrlDecode (src dst : List Byte) : List Byte × Int :=
  match mgUrlDecodeLoop dst.length src 0 dst with
  | .bad dst' => (dst', -1)
  | .stop rest j dst' =>
    (if j < dst.length then dst'.set j 0 else dst', if rest = [] ∧ j < dst.length then j else -1)

/-- `mg_http_get_var` (`mongoose.c:1765-1785`): the destination and the return value. -/
def mgHttpGetVar (query name dst : List Byte) : List Byte × Int :=
  let cleared := dst.set 0 0
  if dst = [] then (dst, -2)
  else if query = [] then (cleared, -1)
  else match mgHttpVar query name with
    | none => (cleared, -4)
    | some v =>
      let (dst', len) := mgUrlDecode v cleared
      (dst', if len < 0 then -3 else len)

theorem mgSpan_shorter {s entry rest : List Byte} {sep : Byte}
    (h : mgSpan s sep = some (entry, rest)) : rest.length < s.length := by
  have hs : s ≠ [] := by
    rintro rfl
    simp [mgSpan] at h
  rw [mgSpan, if_neg hs] at h
  obtain ⟨-, rfl⟩ := Prod.mk.inj (Option.some.inj h)
  have := (List.dropWhile_suffix (· ≠ sep) (l := s)).length_le
  have := List.length_pos_of_ne_nil hs
  simp only [List.length_drop]
  omega

/-- The fuel of `mgHttpVar` never runs out: more of it finds the same entry. -/
theorem mgHttpVarLoop_fuel (name : List Byte) {fuel : Nat} {buf : List Byte}
    (h : buf.length ≤ fuel) : mgHttpVarLoop name fuel buf = mgHttpVar buf name := by
  have same : ∀ (n m : Nat) (buf : List Byte), buf.length ≤ n → buf.length ≤ m →
      mgHttpVarLoop name n buf = mgHttpVarLoop name m buf := by
    intro n
    induction n with
    | zero =>
      intro m buf hn _
      obtain rfl := List.eq_nil_of_length_eq_zero (Nat.le_zero.mp hn)
      cases m <;> simp [mgHttpVarLoop, mgSpan]
    | succ n ih =>
      intro m buf hn hm
      cases m with
      | zero =>
        obtain rfl := List.eq_nil_of_length_eq_zero (Nat.le_zero.mp hm)
        simp [mgHttpVarLoop, mgSpan]
      | succ m =>
        simp only [mgHttpVarLoop]
        cases hspan : mgSpan buf 38 with
        | none => rfl
        | some pair =>
          have := mgSpan_shorter hspan
          simp only [ih m pair.2 (by omega) (by omega)]
  exact same _ _ _ h (Nat.le_refl _)

/-- The bytes a form-encoded text denotes, up to its first bad escape, and whether it has none. -/
def urlDecode : List Byte → List Byte × Bool
  | [] => ([], true)
  | c :: src =>
    if c = 37 then
      match src with
      | a :: b :: src' =>
        if isx a ∧ isx b then ((mgHexByte a b :: (urlDecode src').1), (urlDecode src').2)
        else ([], false)
      | _ => ([], false)
    else ((if c = 43 then 32 else c) :: (urlDecode src).1, (urlDecode src).2)

theorem mgUrlDecodeLoop_full {n j : Nat} (h : ¬ j + 1 < n) {src : List Byte} (hsrc : src ≠ [])
    (dst : List Byte) : mgUrlDecodeLoop n src j dst = .stop src j dst := by
  obtain ⟨c, src, rfl⟩ := List.exists_cons_of_ne_nil hsrc
  unfold mgUrlDecodeLoop
  rw [if_neg h]

theorem mgUrlDecodeLoop_plain {n j : Nat} (h : j + 1 < n) {c : Byte} (hc : c ≠ 37)
    (src dst : List Byte) : mgUrlDecodeLoop n (c :: src) j dst =
      mgUrlDecodeLoop n src (j + 1) (dst.set j (if c = 43 then 32 else c)) := by
  conv => lhs; unfold mgUrlDecodeLoop
  rw [if_pos h, if_neg hc]

theorem set_length_append (done : List Byte) (o b : Byte) (old : List Byte) :
    (done ++ o :: old).set done.length b = (done ++ [b]) ++ old := by
  simp

/-- How the decoding loop ends when `old` is the part of the destination not yet written and
`decoded` what the rest of the source denotes: it writes the decoded bytes that leave room for the
terminator, and it uses the source up exactly when everything was decoded. -/
def LoopEnds (done old : List Byte) (decoded : List Byte × Bool) (e : DecodeEnd) : Prop :=
  let w := decoded.1.take (old.length - 1)
  let full := done ++ (w ++ old.drop w.length)
  if decoded.2 = false ∧ decoded.1.length < old.length - 1 then e = .bad full
  else ∃ rest, (rest = [] ↔ decoded.2 = true ∧ decoded.1.length ≤ old.length - 1) ∧
    e = .stop rest (done.length + w.length) full

theorem loopEnds_cons {done old : List Byte} {decoded : List Byte × Bool} {e : DecodeEnd}
    (o o' b : Byte) (h : LoopEnds (done ++ [b]) (o' :: old) decoded e) :
    LoopEnds done (o :: o' :: old) (b :: decoded.1, decoded.2) e := by
  simpa [LoopEnds, Nat.add_assoc, Nat.add_comm 1] using h

theorem loopEnds_bad (done : List Byte) (o o' : Byte) (old : List Byte) :
    LoopEnds done (o :: o' :: old) ([], false) (.bad (done ++ o :: o' :: old)) := by
  simp [LoopEnds]

/-- With one byte left, kept for the terminator, the loop stops at once. -/
theorem loopEnds_of_room {done old src : List Byte} {decoded : List Byte × Bool} (hold : old ≠ [])
    (hsrc : src ≠ []) (hdecoded : decoded.2 = true → decoded.1 ≠ [])
    (h : ∀ o o' rest, LoopEnds done (o :: o' :: rest) decoded
      (mgUrlDecodeLoop (done.length + (rest.length + 2)) src done.length
        (done ++ o :: o' :: rest))) :
    LoopEnds done old decoded
      (mgUrlDecodeLoop (done.length + old.length) src done.length (done ++ old)) := by
  match old with
  | [] => exact absurd rfl hold
  | [o] =>
    rw [mgUrlDecodeLoop_full (by simp) hsrc, LoopEnds, if_neg (by simp)]
    exact ⟨src, by simpa [hsrc] using hdecoded, by simp⟩
  | o :: o' :: rest => exact h o o' rest

/-- The decoding loop in terms of the decoded bytes. -/
theorem mgUrlDecodeLoop_ends (src done old : List Byte) (hold : old ≠ []) :
    LoopEnds done old (urlDecode src)
      (mgUrlDecodeLoop (done.length + old.length) src done.length (done ++ old)) := by
  -- a byte written: the loop goes on with a longer written part
  have step : ∀ (src' done : List Byte) (o o' b : Byte) (rest : List Byte),
      (∀ (done old : List Byte), old ≠ [] → LoopEnds done old (urlDecode src')
        (mgUrlDecodeLoop (done.length + old.length) src' done.length (done ++ old))) →
      LoopEnds done (o :: o' :: rest) (b :: (urlDecode src').1, (urlDecode src').2)
        (mgUrlDecodeLoop (done.length + (rest.length + 2)) src' (done.length + 1)
          ((done ++ o :: o' :: rest).set done.length b)) := by
    intro src' done o o' b rest ih
    have := loopEnds_cons o o' b (ih (done ++ [b]) (o' :: rest) (by simp))
    rw [set_length_append]
    simpa only [List.length_append, List.length_cons, List.length_nil, Nat.zero_add,
      Nat.add_assoc, Nat.add_comm 1] using this
  fun_induction urlDecode src generalizing done old with
  | case1 =>
    simp [mgUrlDecodeLoop, LoopEnds]
  | case2 a b src' hesc ih =>
    refine loopEnds_of_room hold (by simp) (by simp) fun o o' rest => ?_
    rw [mgUrlDecodeLoop, if_pos (by omega), if_pos rfl, if_pos hesc]
    exact step src' done o o' _ rest ih
  | case3 a b src' hesc =>
    refine loopEnds_of_room hold (by simp) (by simp) fun o o' rest => ?_
    rw [mgUrlDecodeLoop, if_pos (by omega), if_pos rfl, if_neg hesc]
    exact loopEnds_bad done o o' rest
  | case4 src' hshort =>
    refine loopEnds_of_room hold (by simp) (by simp) fun o o' rest => ?_
    rw [mgUrlDecodeLoop, if_pos (by omega), if_pos rfl]
    · exact loopEnds_bad done o o' rest
    · exact hshort
  | case5 c src' hc ih =>
    refine loopEnds_of_room hold (by simp) (by simp) fun o o' rest => ?_
    rw [mgUrlDecodeLoop_plain (by omega) hc]
    exact step src' done o o' _ rest ih

/-! ## What a handler finds in its buffer -/

@[simp] theorem mgHttpVar_nil (name : List Byte) : mgHttpVar [] name = none := rfl

/-- Without an entry the destination is only cleared: its first byte is zero. -/
theorem mgHttpGetVar_missing {query name dst : List Byte} (h : mgHttpVar query name = none) :
    (mgHttpGetVar query name dst).1 = dst.set 0 0 := by
  unfold mgHttpGetVar
  by_cases hdst : dst = []
  · simp [hdst]
  · by_cases hq : query = []
    · simp [hdst, hq]
    · simp [hdst, hq, h]

theorem mgHttpGetVar_found {query name dst v : List Byte} (hdst : dst ≠ [])
    (h : mgHttpVar query name = some v) :
    (mgHttpGetVar query name dst).1 = (mgUrlDecode v (dst.set 0 0)).1 := by
  have hq : query ≠ [] := by
    rintro rfl
    simp at h
  simp [mgHttpGetVar, hdst, hq, h]

/-- A text that decodes and leaves room for the terminator is what the destination then holds. -/
theorem mgUrlDecode_fits {v dst : List Byte} (hok : (urlDecode v).2 = true)
    (hlen : (urlDecode v).1.length < dst.length) :
    cstr (mgUrlDecode v dst).1 = cstr (urlDecode v).1 := by
  have hne : dst ≠ [] := by
    rintro rfl
    simp at hlen
  have hends := mgUrlDecodeLoop_ends v [] dst hne
  have hw : (urlDecode v).1.take (dst.length - 1) = (urlDecode v).1 :=
    List.take_of_length_le (by omega)
  rw [LoopEnds, if_neg (by simp [hok]), hw] at hends
  obtain ⟨rest, -, hloop⟩ := hends
  simp only [List.length_nil, Nat.zero_add, List.nil_append] at hloop
  obtain ⟨o, tail, hdrop⟩ : ∃ o tail, dst.drop (urlDecode v).1.length = o :: tail :=
    List.exists_cons_of_ne_nil (by simpa using hlen)
  rw [mgUrlDecode, hloop]
  simp only [if_pos hlen, hdrop, set_length_append, cstr]
  by_cases hnul : 0 ∈ (urlDecode v).1
  · obtain ⟨t, ht⟩ := exists_cutAt_append hnul
    rw [ht]
    simp only [List.append_assoc, List.cons_append, cutAt_append_cons (not_mem_cutAt 0 _)]
  · rw [List.append_assoc, List.singleton_append, cutAt_append_cons hnul, cutAt_eq_self hnul]

/-- A text that does not decode, or is too long, leaves the bytes decoded before that, with the old
bytes of the destination behind them. -/
theorem mgUrlDecode_fails {v dst : List Byte} (hlast : dst.getLast? = some 0)
    (hfail : ¬ ((urlDecode v).2 = true ∧ (urlDecode v).1.length < dst.length)) :
    (mgUrlDecode v dst).1 =
      (urlDecode v).1.take (dst.length - 1) ++
        dst.drop ((urlDecode v).1.take (dst.length - 1)).length := by
  have hne : dst ≠ [] := by
    rintro rfl
    simp at hlast
  have hpos : 0 < dst.length := List.length_pos_of_ne_nil hne
  have hends := mgUrlDecodeLoop_ends v [] dst hne
  by_cases hbad : (urlDecode v).2 = false ∧ (urlDecode v).1.length < dst.length - 1
  · rw [LoopEnds, if_pos hbad] at hends
    simp only [List.length_nil, Nat.zero_add, List.nil_append] at hends
    rw [mgUrlDecode, hends]
  · rw [LoopEnds, if_neg hbad] at hends
    obtain ⟨rest, -, hloop⟩ := hends
    simp only [List.length_nil, Nat.zero_add, List.nil_append] at hloop
    -- the destination is full up to its last byte, which is zero already
    have hlong : dst.length - 1 ≤ (urlDecode v).1.length := by
      cases hok : (urlDecode v).2 <;> simp only [hok] at hbad hfail <;> simp at hbad hfail <;> omega
    have hw : ((urlDecode v).1.take (dst.length - 1)).length = dst.length - 1 := by
      rw [List.length_take]
      omega
    have hdrop : dst.drop (dst.length - 1) = [0] := by
      rw [List.drop_length_sub_one hne]
      rw [List.getLast?_eq_some_getLast hne] at hlast
      simpa using hlast
    rw [mgUrlDecode, hloop]
    simp only [hw, hdrop, if_pos (show dst.length - 1 < dst.length by omega)]
    have := set_length_append ((urlDecode v).1.take (dst.length - 1)) 0 0 []
    rw [hw] at this
    simpa using this

end BoardTest.Backend
