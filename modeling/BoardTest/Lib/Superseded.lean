import Mathlib.Data.List.Basic

/-!
# Records that later ones supersede

Each update puts its own records in front of a list and takes out those it hits. Over a run, what
was in the list at first stays when no update hits it, and of the updates those are left standing
that no later one is over (`foldl_supersede`).
-/

namespace BoardTest

variable {α ρ : Type*}

/-- One update. -/
def supersede (hits : α → ρ → Prop) [∀ a r, Decidable (hits a r)] (lot : α → List ρ) (l : List ρ)
    (a : α) : List ρ :=
  lot a ++ l.filter fun r => ¬ hits a r

/-- The updates that no later one is over, the newest first. -/
def standing (hides : α → α → Prop) [DecidableRel hides] : List α → List α
  | [] => []
  | a :: as => standing hides as ++ if ∀ b ∈ as, ¬ hides b a then [a] else []

/-- What is left after a run of updates, when all records of one update are hit together. -/
theorem foldl_supersede {hits : α → ρ → Prop} [∀ a r, Decidable (hits a r)]
    {hides : α → α → Prop} [DecidableRel hides] {lot : α → List ρ} {as : List α}
    (h : ∀ a ∈ as, ∀ b ∈ as, ∀ r ∈ lot b, hits a r ↔ hides a b) (l : List ρ) :
    as.foldl (supersede hits lot) l =
      (standing hides as).flatMap lot ++ l.filter fun r => ∀ a ∈ as, ¬ hits a r := by
  induction as generalizing l with
  | nil => simp [standing]
  | cons a as ih =>
    have hlot : ((lot a).filter fun r => ∀ b ∈ as, ¬ hits b r) =
        (if ∀ b ∈ as, ¬ hides b a then [a] else []).flatMap lot := by
      have hsame : ∀ r ∈ lot a, (∀ b ∈ as, ¬ hits b r) ↔ ∀ b ∈ as, ¬ hides b a := fun r hr =>
        forall₂_congr fun b hb =>
          not_congr (h b (List.mem_cons_of_mem a hb) a List.mem_cons_self r hr)
      split
      · rename_i hnone
        rw [List.filter_eq_self.mpr fun r hr => decide_eq_true ((hsame r hr).mpr hnone)]
        simp
      · rename_i hsome
        rw [List.filter_eq_nil_iff.mpr fun r hr => by simpa using mt (hsame r hr).mp hsome]
        rfl
    rw [List.foldl_cons, ih fun b hb c hc => h b (List.mem_cons_of_mem a hb) c
      (List.mem_cons_of_mem a hc), supersede, List.filter_append, hlot, List.filter_filter,
      standing, List.flatMap_append, List.append_assoc]
    congr 2
    refine List.filter_congr fun r _ => ?_
    simp [Bool.and_comm]

end BoardTest
