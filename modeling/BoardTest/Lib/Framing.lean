import Mathlib.Data.List.Basic

/-!
# Frames at the front of a buffer

A receiver keeps what it has read in a buffer and takes frames from the front of it. `frames` takes
as many as there are. When a frame that is at the front stays there whatever is read behind it
(`Stable`), what is taken does not depend on how the stream was cut into reads (`frames_append`).
-/

namespace BoardTest

variable {α β : Type*}

/-- The frames at the front of a buffer and what is left, `fuel` frames at most. -/
def framesUpTo (front : List α → Option (β × Nat)) : Nat → List α → List β × List α
  | 0, s => ([], s)
  | fuel + 1, s =>
    match front s with
    | none => ([], s)
    | some (b, n) =>
      let (bs, rest) := framesUpTo front fuel (s.drop n)
      (b :: bs, rest)

/-- All frames at the front of a buffer, and what is left. -/
def frames (front : List α → Option (β × Nat)) (s : List α) : List β × List α :=
  framesUpTo front s.length s

/-- A frame takes something, is complete, and stays what it is. -/
structure Stable (front : List α → Option (β × Nat)) : Prop where
  pos : ∀ {s b n}, front s = some (b, n) → 0 < n
  le : ∀ {s b n}, front s = some (b, n) → n ≤ s.length
  append : ∀ {s b n} (t : List α), front s = some (b, n) → front (s ++ t) = some (b, n)

variable {front : List α → Option (β × Nat)} {s t : List α} {b : β} {n : Nat}

theorem framesUpTo_none (fuel : Nat) (h : front s = none) :
    framesUpTo front fuel s = ([], s) := by
  cases fuel with
  | zero => rfl
  | succ fuel => rw [framesUpTo, h]

theorem framesUpTo_fuel (hf : Stable front) {fuel : Nat} (h : s.length ≤ fuel) :
    framesUpTo front fuel s = frames front s := by
  have same : ∀ (k l : Nat) (s : List α), s.length ≤ k → s.length ≤ l →
      framesUpTo front k s = framesUpTo front l s := by
    intro k
    induction k with
    | zero =>
      intro l s hk hl
      cases hs : front s with
      | none => rw [framesUpTo_none 0 hs, framesUpTo_none l hs]
      | some bn =>
        have := hf.pos hs
        have := hf.le hs
        omega
    | succ k ih =>
      intro l s hk hl
      cases hs : front s with
      | none => rw [framesUpTo_none _ hs, framesUpTo_none l hs]
      | some bn =>
        have hpos := hf.pos hs
        have hle := hf.le hs
        cases l with
        | zero => omega
        | succ l =>
          have hdrop := s.length_drop (i := bn.2)
          rw [framesUpTo, framesUpTo, hs]
          dsimp only
          rw [ih l (s.drop bn.2) (by omega) (by omega)]
  exact same _ _ _ h (Nat.le_refl _)

theorem frames_none (h : front s = none) : frames front s = ([], s) := framesUpTo_none _ h

theorem frames_some (hf : Stable front) (h : front s = some (b, n)) :
    frames front s = (b :: (frames front (s.drop n)).1, (frames front (s.drop n)).2) := by
  have hpos := hf.pos h
  have hle := hf.le h
  have hdrop := s.length_drop (i := n)
  rw [← framesUpTo_fuel hf (Nat.le_succ s.length), framesUpTo, h]
  dsimp only
  rw [framesUpTo_fuel hf (by omega)]

/-- Every frame takes something off the buffer. -/
theorem length_frames (hf : Stable front) (s : List α) : (frames front s).1.length ≤ s.length := by
  induction hlen : s.length using Nat.strongRecOn generalizing s with
  | ind k ih =>
    cases hs : front s with
    | none =>
      rw [frames_none hs]
      exact Nat.zero_le _
    | some bn =>
      have hpos := hf.pos hs
      have hle := hf.le hs
      have hdrop := s.length_drop (i := bn.2)
      have hrest := ih _ (by omega) (s.drop bn.2) rfl
      rw [frames_some hf hs, List.length_cons]
      omega

/-- A stream may be cut anywhere: what more is read is taken behind what is left. -/
theorem frames_append (hf : Stable front) (s t : List α) :
    frames front (s ++ t) = ((frames front s).1 ++ (frames front ((frames front s).2 ++ t)).1,
      (frames front ((frames front s).2 ++ t)).2) := by
  induction hlen : s.length using Nat.strongRecOn generalizing s with
  | ind k ih =>
    cases hs : front s with
    | none => rw [frames_none hs, List.nil_append]
    | some bn =>
      have hpos := hf.pos hs
      have hle := hf.le hs
      have hdrop := s.length_drop (i := bn.2)
      rw [frames_some hf hs, frames_some hf (hf.append t hs), List.drop_append_of_le_length hle,
        ih _ (by omega) _ rfl]
      rfl

/-- Frames one after the other. -/
theorem frames_flatMap (hf : Stable front) {γ : Type*} {text : γ → List α} {frame : γ → β}
    {l : List γ} (h : ∀ x ∈ l, front (text x) = some (frame x, (text x).length)) (t : List α) :
    frames front (l.flatMap text ++ t) =
      (l.map frame ++ (frames front t).1, (frames front t).2) := by
  induction l with
  | nil => rfl
  | cons x l ih =>
    rw [List.forall_mem_cons] at h
    rw [List.flatMap_cons, List.append_assoc, frames_some hf (hf.append _ h.1), List.drop_left,
      ih h.2]
    rfl

end BoardTest
