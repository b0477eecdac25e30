import BoardTest.Lib.CString
import Mathlib.Data.List.Flatten

/-!
# The lines of a byte stream

`terminatedLines sep s` are the lines of a stream that have come to their end, without the separator
that ends them; what stands behind the last separator is not a line yet. They are the only way to
cut the stream (`terminatedLines_flatten_append`). `fgetsAll` is what a loop over `fgets` gets of
it: the lines themselves while they have room (`fgetsAll_lines`).
-/

namespace BoardTest

/-- The lines that end in `s`, when `p` is what has come of the first one already. -/
def linesAfter (sep : Byte) (p : List Byte) : List Byte → List (List Byte)
  | [] => []
  | b :: s => if b = sep then p :: linesAfter sep [] s else linesAfter sep (p ++ [b]) s

/-- The lines of a stream. -/
def terminatedLines (sep : Byte) (s : List Byte) : List (List Byte) := linesAfter sep [] s

theorem linesAfter_open {sep : Byte} {q : List Byte} (hq : sep ∉ q) (p : List Byte) :
    linesAfter sep p q = [] := by
  induction q generalizing p with
  | nil => rfl
  | cons b q ih =>
    simp only [List.mem_cons, not_or] at hq
    rw [linesAfter, if_neg (Ne.symm hq.1), ih hq.2]

theorem linesAfter_line {sep : Byte} {q : List Byte} (hq : sep ∉ q) (p s : List Byte) :
    linesAfter sep p (q ++ sep :: s) = (p ++ q) :: terminatedLines sep s := by
  induction q generalizing p with
  | nil => simp [linesAfter, terminatedLines]
  | cons b q ih =>
    simp only [List.mem_cons, not_or] at hq
    rw [List.cons_append, linesAfter, if_neg (Ne.symm hq.1), ih hq.2, List.append_assoc,
      List.singleton_append]

/-- What has come of the line that is open behind `s`. -/
def openAfter (sep : Byte) (p : List Byte) : List Byte → List Byte
  | [] => p
  | b :: s => if b = sep then openAfter sep [] s else openAfter sep (p ++ [b]) s

/-- The lines of a stream are the pieces it was put together from. -/
theorem terminatedLines_flatten_append {sep : Byte} {ls : List (List Byte)} {tail : List Byte}
    (hls : ∀ l ∈ ls, sep ∉ l) (htail : sep ∉ tail) :
    terminatedLines sep ((ls.map (· ++ [sep])).flatten ++ tail) = ls := by
  induction ls with
  | nil => exact linesAfter_open htail []
  | cons l ls ih =>
    have hrest := ih fun k hk => hls k (List.mem_cons_of_mem l hk)
    rw [List.map_cons, List.flatten_cons, List.append_assoc, List.append_assoc,
      List.singleton_append, terminatedLines, linesAfter_line (hls l List.mem_cons_self),
      List.nil_append, hrest]

/-- The chunks that `while (fgets(buffer, n, fp))` gets from a stream with LF, when `acc` has been
read of the first one already: a line with its LF, or the `n - 1` bytes for which there is room. -/
def fgetsAll (n : Nat) (acc : List Byte) : List Byte → List (List Byte)
  | [] => if acc = [] then [] else [acc]
  | b :: s =>
    if b = 10 ∨ acc.length + 2 = n then (acc ++ [b]) :: fgetsAll n [] s
    else fgetsAll n (acc ++ [b]) s

theorem fgetsAll_line {n : Nat} {l : List Byte} (hlf : 10 ∉ l) {acc : List Byte}
    (hlen : acc.length + l.length + 2 ≤ n) (s : List Byte) :
    fgetsAll n acc (l ++ 10 :: s) = (acc ++ l ++ [10]) :: fgetsAll n [] s := by
  induction l generalizing acc with
  | nil => rw [List.nil_append, fgetsAll, if_pos (.inl rfl), List.append_nil]
  | cons b l ih =>
    simp only [List.mem_cons, not_or] at hlf
    rw [List.length_cons] at hlen
    have hgo : ¬ (b = 10 ∨ acc.length + 2 = n) := by
      rintro (rfl | hfull)
      · exact hlf.1 rfl
      · omega
    rw [List.cons_append, fgetsAll, if_neg hgo, ih hlf.2 (by simp; omega)]
    simp

/-- Lines that fit the buffer are got one by one. -/
theorem fgetsAll_lines {n : Nat} {ls : List (List Byte)}
    (hls : ∀ l ∈ ls, 10 ∉ l ∧ l.length + 2 ≤ n) :
    fgetsAll n [] (ls.map (· ++ [10])).flatten = ls.map (· ++ [10]) := by
  induction ls with
  | nil => rfl
  | cons l ls ih =>
    obtain ⟨⟨hlf, hlen⟩, hrest⟩ := List.forall_mem_cons.mp hls
    rw [List.map_cons, List.flatten_cons, List.append_assoc, List.singleton_append,
      fgetsAll_line hlf (by simpa using hlen), ih hrest, List.nil_append]

/-- Two concatenations of which the second has the same pieces or empty ones. -/
theorem flatMap_eq_flatMap_iff {α β : Type*} {f g : α → List β} {l : List α}
    (h : ∀ x ∈ l, f x = g x ∨ g x = []) :
    l.flatMap f = l.flatMap g ↔ ∀ x ∈ l, f x = g x := by
  have hlen : ∀ k : List α, (∀ x ∈ k, f x = g x ∨ g x = []) →
      (k.flatMap g).length ≤ (k.flatMap f).length := by
    intro k hk
    induction k with
    | nil => rfl
    | cons x k ih =>
      have := ih fun y hy => hk y (List.mem_cons_of_mem x hy)
      simp only [List.flatMap_cons, List.length_append]
      rcases hk x List.mem_cons_self with hx | hx
      · rw [hx]
        omega
      · rw [hx, List.length_nil]
        omega
  induction l with
  | nil => simp
  | cons x l ih =>
    have hrest : ∀ y ∈ l, f y = g y ∨ g y = [] := fun y hy => h y (List.mem_cons_of_mem x hy)
    rw [List.forall_mem_cons, List.flatMap_cons, List.flatMap_cons]
    constructor
    · intro heq
      have hx : f x = g x := by
        rcases h x List.mem_cons_self with hx | hx
        · exact hx
        · have hle := hlen l hrest
          have hsum := congrArg List.length heq
          rw [hx, List.nil_append, List.length_append] at hsum
          rw [hx]
          exact List.eq_nil_of_length_eq_zero (by omega)
      rw [hx] at heq
      exact ⟨hx, (ih hrest).mp (List.append_cancel_left heq)⟩
    · rintro ⟨hx, hl⟩
      rw [hx, (ih hrest).mpr hl]

end BoardTest
