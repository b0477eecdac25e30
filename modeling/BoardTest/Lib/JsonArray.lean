import BoardTest.Lib.Fields
import BoardTest.Lib.JsonTemplate

/-!
# Arrays of strings

`stringArray` writes texts between quotes, commas and brackets. When their bytes are plain it
depends on their encoding alone whether the array is read back (`run_stringArray`).
-/

namespace BoardTest.Json

def quote (t : List Byte) : List Byte := 34 :: (t ++ [34])

/-- `["a","b","c"]` -/
def stringArray (ts : List (List Byte)) : List Byte := 91 :: (joinFields 44 (ts.map quote) ++ [93])

theorem strStep_plain_eq_none {b : Byte} (hb : PlainByte b) {owed : Owed}
    (h : utf8Step owed b = none) (acc : List Byte) : strStep (acc, .text owed) b = none := by
  obtain ⟨hcontrol, hquote, hback⟩ := hb
  have hlt : ¬ b < 32 := by simpa using hcontrol
  simp [strStep, hlt, hquote, hback, h]

/-- A string of plain bytes that is not encoded well is not read. -/
theorem run_string_eq_none {stack : List Frame} {t : List Byte} (ht : ∀ b ∈ t, PlainByte b)
    {owed : Owed} (h : t.foldlM utf8Step owed ≠ some []) (acc w : List Byte) :
    run ⟨stack, .string none (acc, .text owed)⟩ (t ++ 34 :: w) = none := by
  induction t generalizing owed acc with
  | nil =>
    have howed : owed ≠ [] := fun howed => h (howed ▸ rfl)
    have hstep : step ⟨stack, .string none (acc, .text owed)⟩ 34 = none := by
      simp [step, strStep, howed]
    rw [List.nil_append, run_cons, hstep, Option.bind_none]
  | cons b t ih =>
    have hb := ht b List.mem_cons_self
    have hquote : ¬ (b = 34 ∧ StrMode.text owed = .text []) := fun hq => hb.2.1 hq.1
    rw [List.cons_append, run_cons]
    cases hutf8 : utf8Step owed b with
    | none =>
      simp only [step, hquote, strStep_plain_eq_none hb hutf8, if_false, Option.map_none,
        Option.bind_none]
    | some owed' =>
      rw [List.foldlM_cons, hutf8] at h
      simp only [step, hquote, strStep_plain hb hutf8, if_false, Option.map_some,
        Option.bind_some]
      exact ih (fun x hx => ht x (List.mem_cons_of_mem b hx)) h _

theorem run_quote {stack : List Frame} {t : List Byte} (ht : ∀ b ∈ t, PlainByte b)
    (w : List Byte) : run ⟨stack, .value⟩ (quote t ++ w) =
      if Utf8 t then run ⟨stack, .after (.str t)⟩ w else none := by
  have hquote : quote t ++ w = 34 :: (t ++ 34 :: w) := by simp [quote]
  rw [hquote]
  by_cases hutf8 : Utf8 t
  · rw [if_pos hutf8, run_quoted ⟨ht, hutf8⟩]
  · rw [if_neg hutf8, run_open, run_string_eq_none ht hutf8]

theorem run_element_comma {stack : List Frame} {done : List Value} {v : Value} (w : List Byte) :
    run ⟨.arr done :: stack, .after v⟩ (44 :: w) = run ⟨.arr (done ++ [v]) :: stack, .value⟩ w := by
  have hcomma : step ⟨.arr done :: stack, .after v⟩ 44 =
      some ⟨.arr (done ++ [v]) :: stack, .value⟩ := by
    simp [step, stepAfter, isSpace]
  rw [run_cons, hcomma, Option.bind_some]

theorem run_element_bracket {stack : List Frame} {done : List Value} {v : Value} (w : List Byte) :
    run ⟨.arr done :: stack, .after v⟩ (93 :: w) = run ⟨stack, .after (.arr (done ++ [v]))⟩ w := by
  have hbracket : step ⟨.arr done :: stack, .after v⟩ 93 =
      some ⟨stack, .after (.arr (done ++ [v]))⟩ := by
    simp [step, stepAfter, isSpace]
  rw [run_cons, hbracket, Option.bind_some]

theorem run_elements (stack : List Frame) {ts : List (List Byte)} (hne : ts ≠ [])
    (hts : ∀ t ∈ ts, ∀ b ∈ t, PlainByte b) (done : List Value) (w : List Byte) :
    run ⟨.arr done :: stack, .value⟩ (joinFields 44 (ts.map quote) ++ 93 :: w) =
      if ∀ t ∈ ts, Utf8 t then run ⟨stack, .after (.arr (done ++ ts.map .str))⟩ w else none := by
  induction ts generalizing done with
  | nil => exact absurd rfl hne
  | cons t ts ih =>
    obtain ⟨ht, hrest⟩ := List.forall_mem_cons.mp hts
    cases ts with
    | nil =>
      have hjoin : joinFields 44 ([t].map quote) = quote t := rfl
      rw [hjoin, run_quote ht, run_element_bracket]
      simp
    | cons t' ts =>
      have hjoin : joinFields 44 ((t :: t' :: ts).map quote) ++ 93 :: w =
          quote t ++ 44 :: (joinFields 44 ((t' :: ts).map quote) ++ 93 :: w) := by
        simp [joinFields]
      rw [hjoin, run_quote ht, run_element_comma, ih (by simp) hrest]
      by_cases hutf8 : Utf8 t <;> simp [hutf8]

/-- An array of plain texts is read back exactly when all of them are UTF-8. -/
theorem run_stringArray {stack : List Frame} {ts : List (List Byte)}
    (hts : ∀ t ∈ ts, ∀ b ∈ t, PlainByte b) (w : List Byte) :
    run ⟨stack, .value⟩ (stringArray ts ++ w) =
      if ∀ t ∈ ts, Utf8 t then run ⟨stack, .after (.arr (ts.map .str))⟩ w else none := by
  have hopen : step ⟨stack, .value⟩ 91 = some ⟨stack, .firstElement⟩ := by
    simp [step, stepValue, valueStart, isSpace]
  rw [stringArray, List.cons_append, run_cons, hopen, Option.bind_some, List.append_assoc]
  cases ts with
  | nil =>
    have hclose : step ⟨stack, .firstElement⟩ 93 = some ⟨stack, .after (.arr [])⟩ := by
      simp [step, isSpace]
    show run ⟨stack, .firstElement⟩ (93 :: w) = _
    rw [run_cons, hclose, Option.bind_some]
    simp
  | cons t ts =>
    -- the first byte is a quotation mark, which is taken for the start of an element
    obtain ⟨rest, hrest⟩ : ∃ rest, joinFields 44 ((t :: ts).map quote) = 34 :: rest := by
      cases ts <;> exact ⟨_, rfl⟩
    have hfirst : step ⟨stack, .firstElement⟩ 34 = step ⟨.arr [] :: stack, .value⟩ 34 := by
      simp [step, isSpace]
    have helements := run_elements stack (List.cons_ne_nil t ts) hts [] w
    rw [hrest, List.cons_append, run_cons] at helements
    rw [hrest, List.cons_append, List.cons_append, run_cons, hfirst]
    simpa using helements

end BoardTest.Json
