import BoardTest.Lib.CString
import Mathlib.Data.List.TakeDrop

/-!
# Separated fields and `strtok`

A separated line is the join of its fields. `strtok` reads a line otherwise than it is written: it
skips every run of separators, so that the tokens of a join are its non-empty fields only
(`strtokAll_joinFields`). `compactFields` is what is left of a list of fields whose last one
carries a trailer, and `compactFields_getD_iff` says when no field has moved to another place.
-/

namespace BoardTest

/-- The fields with one separator between neighbours. -/
def joinFields (sep : Byte) : List (List Byte) → List Byte
  | [] => []
  | [f] => f
  | f :: g :: rest => f ++ sep :: joinFields sep (g :: rest)

/-- `strtok(s, sep)`: separators are skipped, the token runs to the next one, and scanning goes on
behind it. -/
def strtok (sep : Byte) (s : List Byte) : Option (List Byte × List Byte) :=
  match s.dropWhile (· = sep) with
  | [] => none
  | t => some (t.takeWhile (· ≠ sep), (t.dropWhile (· ≠ sep)).drop 1)

/-- At most `limit` successive tokens. -/
def strtokAll (sep : Byte) : Nat → List Byte → List (List Byte)
  | 0, _ => []
  | limit + 1, s =>
    match strtok sep s with
    | none => []
    | some (t, rest) => t :: strtokAll sep limit rest

theorem strtok_cons_sep (sep : Byte) (s : List Byte) : strtok sep (sep :: s) = strtok sep s := by
  simp [strtok]

theorem strtok_field {sep : Byte} {f : List Byte} (hf : sep ∉ f) (hne : f ≠ []) (rest : List Byte) :
    strtok sep (f ++ sep :: rest) = some (f, rest) := by
  obtain ⟨b, t, rfl⟩ := List.exists_cons_of_ne_nil hne
  have hb : b ≠ sep := fun e => hf (by simp [e])
  have ht : ∀ x ∈ t, x ≠ sep := fun x hx e => hf (by simp [← e, hx])
  have hd : ∀ x ∈ b :: t, decide (x ≠ sep) = true := by
    intro x hx
    rcases List.mem_cons.mp hx with rfl | hx
    · simpa using hb
    · simpa using ht x hx
  have hskip : (b :: t ++ sep :: rest).dropWhile (· = sep) = b :: t ++ sep :: rest := by simp [hb]
  rw [strtok, hskip]
  simp only [List.cons_append]
  rw [← List.cons_append, List.takeWhile_append_of_pos hd, List.dropWhile_append_of_pos hd]
  simp

theorem strtok_last {sep : Byte} {f : List Byte} (hf : sep ∉ f) (hne : f ≠ []) :
    strtok sep f = some (f, []) := by
  obtain ⟨b, t, rfl⟩ := List.exists_cons_of_ne_nil hne
  have hb : b ≠ sep := fun e => hf (by simp [e])
  have hd : ∀ x ∈ b :: t, decide (x ≠ sep) = true := by
    intro x hx
    simpa using ne_of_mem_of_not_mem hx hf
  have hskip : (b :: t).dropWhile (· = sep) = b :: t := by simp [hb]
  rw [strtok, hskip]
  simp only
  rw [List.takeWhile_eq_self_iff.mpr hd, List.dropWhile_eq_nil_iff.mpr hd]
  rfl

@[simp] theorem strtok_nil (sep : Byte) : strtok sep [] = none := rfl

@[simp] theorem strtokAll_nil (sep : Byte) (limit : Nat) : strtokAll sep limit [] = [] := by
  cases limit <;> simp [strtokAll]

theorem strtokAll_cons_sep (sep : Byte) (limit : Nat) (s : List Byte) :
    strtokAll sep limit (sep :: s) = strtokAll sep limit s := by
  cases limit <;> simp [strtokAll, strtok_cons_sep]

/-- The tokens of a join are its non-empty fields, when the limit leaves room for them. -/
theorem strtokAll_joinFields {sep : Byte} {fs : List (List Byte)} (hsep : ∀ f ∈ fs, sep ∉ f)
    {limit : Nat} (hlimit : fs.length ≤ limit) :
    strtokAll sep limit (joinFields sep fs) = fs.filter (· ≠ []) := by
  induction fs generalizing limit with
  | nil => simp [joinFields]
  | cons f fs ih =>
    have hf : sep ∉ f := hsep f (by simp)
    have hfs : ∀ g ∈ fs, sep ∉ g := fun g hg => hsep g (by simp [hg])
    obtain ⟨limit, rfl⟩ : ∃ k, limit = k + 1 := ⟨limit - 1, by simp at hlimit; omega⟩
    have hlen : fs.length ≤ limit := by simpa using hlimit
    cases fs with
    | nil =>
      by_cases hne : f = []
      · simp [joinFields, hne]
      · simp [joinFields, strtokAll, strtok_last hf hne, hne]
    | cons g rest =>
      by_cases hne : f = []
      · subst hne
        rw [joinFields, List.nil_append, strtokAll_cons_sep, ih hfs (by omega)]
        simp
      · rw [joinFields, strtokAll, strtok_field hf hne]
        simp only
        rw [ih hfs hlen]
        simp [hne]

/-- A field list without its empty fields, the last one kept as it is. -/
def compactFields : List (List Byte) → List (List Byte)
  | [] => []
  | [f] => [f]
  | f :: g :: rest =>
    if f = [] then compactFields (g :: rest) else f :: compactFields (g :: rest)

/-- No non-empty field stands behind an empty one. -/
def Gapless (fs : List (List Byte)) : Prop := ∀ f ∈ fs.dropWhile (· ≠ []), f = []

instance (fs : List (List Byte)) : Decidable (Gapless fs) := List.decidableBAll _ _

theorem gapless_cons_of_ne {f : List Byte} (hf : f ≠ []) (fs : List (List Byte)) :
    Gapless (f :: fs) ↔ Gapless fs := by
  simp [Gapless, hf]

theorem gapless_cons_nil (fs : List (List Byte)) : Gapless ([] :: fs) ↔ ∀ f ∈ fs, f = [] := by
  simp [Gapless]

theorem compactFields_head {fs : List (List Byte)} (h : (compactFields fs).getD 0 [] = []) :
    ∀ f ∈ fs, f = [] := by
  fun_induction compactFields fs with
  | case1 => simp
  | case2 f => simpa using h
  | case3 g rest ih => simpa using ih h
  | case4 f g rest hne ih => exact absurd (by simpa using h) hne

theorem compactFields_of_empty {fs : List (List Byte)} (h : ∀ f ∈ fs, f = []) (i : Nat) :
    (compactFields fs).getD i [] = [] := by
  fun_induction compactFields fs with
  | case1 => rfl
  | case2 f =>
    have hf : f = [] := h f (by simp)
    cases i <;> simp [hf]
  | case3 g rest ih => exact ih fun f hf => h f (by simp [hf])
  | case4 f g rest hne ih => exact absurd (h f (by simp)) hne

/-- Every field is still found at its own place if and only if none follows an empty one. -/
theorem compactFields_getD_iff (fs : List (List Byte)) :
    (∀ i, (compactFields fs).getD i [] = fs.getD i []) ↔ Gapless fs := by
  fun_induction compactFields fs with
  | case1 => simp [Gapless]
  | case2 f =>
    by_cases hf : f = [] <;> simp [Gapless, hf]
  | case3 g rest ih =>
    rw [gapless_cons_nil]
    constructor
    · intro h
      exact compactFields_head (by simpa using h 0)
    · intro h i
      rw [compactFields_of_empty h]
      cases i with
      | zero => rfl
      | succ i =>
        have hall : ∀ l : List (List Byte), (∀ f ∈ l, f = []) → l.getD i [] = [] := by
          intro l hl
          rw [List.getD_eq_getElem?_getD]
          cases hget : l[i]? with
          | none => rfl
          | some f => exact hl f (List.mem_of_getElem? hget)
        exact (hall _ h).symm
  | case4 f g rest hne ih =>
    rw [gapless_cons_of_ne hne, ← ih]
    constructor
    · intro h i
      simpa using h (i + 1)
    · intro h i
      cases i with
      | zero => rfl
      | succ i => simpa using h i

end BoardTest
