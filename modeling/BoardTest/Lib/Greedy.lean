import Mathlib.Data.List.Perm.Basic
import Mathlib.Data.List.Induction
import Mathlib.Data.List.Pairwise
import Mathlib.Tactic.Common

/-!
# Greedy selection

`greedy conflict l` goes through `l` once and takes every entry that is in conflict with none taken
before. When `l` is in an order, the selection is as `GreedySelection` says: what is taken keeps its
order and is free of conflicts, and what is dropped is in conflict with something taken that comes
before it.
-/

namespace BoardTest

variable {α : Type*}

/-- One entry: taken unless it is in conflict with one taken before. -/
def greedyStep (conflict : α → α → Bool) (picked : List α) (a : α) : List α :=
  if picked.any (conflict a) then picked else picked ++ [a]

def greedy (conflict : α → α → Bool) (l : List α) : List α := l.foldl (greedyStep conflict) []

/-- `l` is split into the entries taken and those dropped, each of which something taken covers. -/
structure GreedySelection (conflict : α → α → Bool) (R : α → α → Prop) (l picked dropped : List α) :
    Prop where
  perm : l.Perm (picked ++ dropped)
  sublist : picked.Sublist l
  apart : picked.Pairwise (fun a b => conflict b a = false)
  covered : ∀ d ∈ dropped, ∃ k ∈ picked, conflict d k = true ∧ R k d

namespace GreedySelection

variable {conflict : α → α → Bool} {R : α → α → Prop} {l picked dropped : List α} {a : α}

theorem nil : GreedySelection conflict R [] [] [] where
  perm := .nil
  sublist := .slnil
  apart := .nil
  covered := by simp

/-- An entry without a conflict is taken. -/
theorem take (h : GreedySelection conflict R l picked dropped)
    (ha : picked.any (conflict a) = false) :
    GreedySelection conflict R (l ++ [a]) (picked ++ [a]) dropped where
  perm := by
    have hmove : (picked ++ dropped ++ [a]).Perm (picked ++ [a] ++ dropped) := by
      rw [List.append_assoc, List.append_assoc]
      exact List.perm_append_comm.append_left picked
    exact (h.perm.append_right [a]).trans hmove
  sublist := h.sublist.append (List.Sublist.refl [a])
  apart := by
    rw [List.pairwise_append]
    refine ⟨h.apart, List.pairwise_singleton _ _, ?_⟩
    intro k hk b hb
    obtain rfl := List.mem_singleton.mp hb
    have := List.any_eq_false.mp ha k hk
    simpa using this
  covered d hd := by
    obtain ⟨k, hk, hconf⟩ := h.covered d hd
    exact ⟨k, List.mem_append_left _ hk, hconf⟩

/-- An entry in conflict is dropped: what it is in conflict with comes before it. -/
theorem drop (h : GreedySelection conflict R l picked dropped)
    (ha : picked.any (conflict a) = true) (hR : ∀ b ∈ l, R b a) :
    GreedySelection conflict R (l ++ [a]) picked (dropped ++ [a]) where
  perm := by
    rw [← List.append_assoc]
    exact h.perm.append_right [a]
  sublist := h.sublist.trans (List.sublist_append_left l [a])
  apart := h.apart
  covered d hd := by
    rcases List.mem_append.mp hd with hd | hd
    · exact h.covered d hd
    · obtain rfl := List.mem_singleton.mp hd
      obtain ⟨k, hk, hconf⟩ := List.any_eq_true.mp ha
      exact ⟨k, hk, hconf, hR k (h.sublist.subset hk)⟩

end GreedySelection

/-- A greedy selection from an ordered list covers what it drops. -/
theorem exists_greedySelection (conflict : α → α → Bool) {R : α → α → Prop} {l : List α}
    (hR : l.Pairwise R) : ∃ dropped, GreedySelection conflict R l (greedy conflict l) dropped := by
  induction l using List.reverseRecOn with
  | nil => exact ⟨[], .nil⟩
  | append_singleton l a ih =>
    obtain ⟨hl, -, hla⟩ := List.pairwise_append.mp hR
    obtain ⟨dropped, h⟩ := ih hl
    have hbefore : ∀ b ∈ l, R b a := fun b hb => hla b hb a (List.mem_singleton.mpr rfl)
    rw [greedy, List.foldl_append, List.foldl_cons, List.foldl_nil, greedyStep, ← greedy]
    cases hconf : (greedy conflict l).any (conflict a) with
    | true =>
      rw [if_pos rfl]
      exact ⟨_, h.drop hconf hbefore⟩
    | false =>
      rw [if_neg Bool.false_ne_true]
      exact ⟨_, h.take hconf⟩

/-! ## How many entries are taken -/

theorem greedy_sublist (conflict : α → α → Bool) (l : List α) : (greedy conflict l).Sublist l := by
  have hany : l.Pairwise fun _ _ => True := List.pairwise_of_forall fun _ _ => trivial
  obtain ⟨dropped, h⟩ := exists_greedySelection conflict hany
  exact h.sublist

theorem greedy_concat (conflict : α → α → Bool) (l : List α) (a : α) :
    greedy conflict (l ++ [a]) = greedyStep conflict (greedy conflict l) a := by
  rw [greedy, List.foldl_append, ← greedy]
  rfl

theorem greedyStep_of_apart {conflict : α → α → Bool} {picked : List α} {a : α}
    (h : ∀ k ∈ picked, conflict a k = false) : greedyStep conflict picked a = picked ++ [a] := by
  rw [greedyStep, if_neg]
  simpa using h

/-- Entries of which none is in conflict with one before it are all taken. -/
theorem greedy_eq_self_of_pairwise {conflict : α → α → Bool} {l : List α}
    (h : l.Pairwise fun a b => conflict b a = false) : greedy conflict l = l := by
  induction l using List.reverseRecOn with
  | nil => rfl
  | append_singleton l a ih =>
    obtain ⟨hl, -, ha⟩ := List.pairwise_append.mp h
    rw [greedy_concat, ih hl]
    exact greedyStep_of_apart fun k hk => ha k hk a (List.mem_singleton_self a)

/-- Without conflicts everything is taken. -/
theorem greedy_eq_self {conflict : α → α → Bool} {l : List α}
    (h : ∀ a ∈ l, ∀ b ∈ l, conflict a b = false) : greedy conflict l = l :=
  greedy_eq_self_of_pairwise (List.pairwise_of_forall_mem_list fun a ha b hb => h b hb a ha)

end BoardTest
