import BoardTest.Lib.Reactive
import Mathlib.Data.List.TakeDrop
import Mathlib.Data.List.Zip

/-!
# One request at a time

Clients share a server that works on one request at a time. A request is passed on when none is
waiting and queued in any case; an answer goes to the client at the head of the queue, and the next
request is passed on. Over a run with an empty queue at its start the requests are passed on in the
order in which they came, one more than there were answers at most, and the `k`-th answer is handed
to the client of the `k`-th request (`serve_run`).
-/

namespace BoardTest

variable {κ ρ σ : Type*}

/-- What the machine is told: a client asks, or the server answers. -/
inductive Ask (κ ρ σ : Type*)
  | submit (c : κ) (r : ρ)
  | answer (a : σ)

/-- What it does: a request is passed on, or an answer is handed to a client. -/
inductive Served (κ ρ σ : Type*)
  | pass (r : ρ)
  | hand (c : κ) (a : σ)

/-- One step of the machine on its queue. -/
def serve (queue : List (κ × ρ)) : Ask κ ρ σ → List (κ × ρ) × List (Served κ ρ σ)
  | .submit c r => (queue ++ [(c, r)], if queue.isEmpty then [.pass r] else [])
  | .answer a =>
    match queue with
    | [] => ([], [])
    | (c, _) :: rest => (rest, .hand c a :: (rest.head?.map fun q => .pass q.2).toList)

/-- The requests among the events. -/
def submitted : List (Ask κ ρ σ) → List (κ × ρ) :=
  List.filterMap fun
    | .submit c r => some (c, r)
    | .answer _ => none

/-- The answers that come while a request is waiting, `n` of them at the start. -/
def taken : Nat → List (Ask κ ρ σ) → List σ
  | _, [] => []
  | n, .submit _ _ :: l => taken (n + 1) l
  | 0, .answer _ :: l => taken 0 l
  | n + 1, .answer a :: l => a :: taken n l

/-- The requests passed on. -/
def passed : List (Served κ ρ σ) → List ρ :=
  List.filterMap fun
    | .pass r => some r
    | .hand _ _ => none

/-- The answers handed out, each with its client. -/
def handed : List (Served κ ρ σ) → List (κ × σ) :=
  List.filterMap fun
    | .pass _ => none
    | .hand c a => some (c, a)

@[simp] theorem passed_nil : passed ([] : List (Served κ ρ σ)) = [] := rfl
@[simp] theorem handed_nil : handed ([] : List (Served κ ρ σ)) = [] := rfl

@[simp] theorem passed_append (l l' : List (Served κ ρ σ)) :
    passed (l ++ l') = passed l ++ passed l' := List.filterMap_append

@[simp] theorem handed_append (l l' : List (Served κ ρ σ)) :
    handed (l ++ l') = handed l ++ handed l' := List.filterMap_append

/-- What a run does from any queue, the head of which has been passed on before. -/
theorem serve_run_from (queue : List (κ × ρ)) (l : List (Ask κ ρ σ)) :
    (react serve queue l).1 = (queue ++ submitted l).drop (taken queue.length l).length ∧
      queue.head?.toList.map Prod.snd ++ passed (react serve queue l).2 =
        ((queue ++ submitted l).map Prod.snd).take ((taken queue.length l).length + 1) ∧
      handed (react serve queue l).2 =
        ((queue ++ submitted l).map Prod.fst).zip (taken queue.length l) := by
  induction l generalizing queue with
  | nil => cases queue <;> simp [taken, submitted]
  | cons e l ih =>
    cases e with
    | submit c r =>
      have hsubmitted : queue ++ submitted (Ask.submit c r :: l) =
          queue ++ [(c, r)] ++ submitted l := by
        simp [submitted]
      have htaken : taken queue.length (Ask.submit c r :: l) =
          taken (queue ++ [(c, r)]).length l := by
        rw [List.length_append]
        rfl
      obtain ⟨hqueue, hpassed, hhanded⟩ := ih (queue ++ [(c, r)])
      rw [react_cons, hsubmitted, htaken]
      refine ⟨hqueue, ?_, ?_⟩
      · rw [← hpassed]
        cases queue <;> simp [serve, passed]
      · rw [handed_append, show serve queue (Ask.submit c r) = (queue ++ [(c, r)], _) from rfl,
          hhanded]
        cases queue <;> simp [handed]
    | answer a =>
      cases queue with
      | nil => exact ih []
      | cons q queue =>
        obtain ⟨hqueue, hpassed, hhanded⟩ := ih queue
        have hsubmitted : submitted (Ask.answer a :: l) = submitted l := rfl
        rw [react_cons, hsubmitted]
        refine ⟨hqueue, ?_, ?_⟩
        · rw [List.length_cons, taken, List.length_cons, List.cons_append, List.map_cons,
            List.take_succ_cons, ← hpassed, passed_append]
          cases queue <;> simp [serve, passed]
        · rw [List.length_cons, taken, List.cons_append, List.map_cons, List.zip_cons_cons,
            ← hhanded, handed_append]
          cases queue <;> simp [serve, handed]

/-- A run from the empty queue: requests go out in their order, at most one of them without an
answer, and each answer goes to the client of its own request. -/
theorem serve_run (l : List (Ask κ ρ σ)) :
    (react serve [] l).1 = (submitted l).drop (taken 0 l).length ∧
      passed (react serve [] l).2 =
        ((submitted l).map Prod.snd).take ((taken 0 l).length + 1) ∧
      handed (react serve [] l).2 = ((submitted l).map Prod.fst).zip (taken 0 l) :=
  serve_run_from [] l

end BoardTest
