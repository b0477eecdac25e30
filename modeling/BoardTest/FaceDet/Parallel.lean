import BoardTest.FaceDet.Sort
import BoardTest.Lib.RandomDescent

/-!
# The parallel sections of the sort

The two calls at the end of `qsort_descent_inplace` stand in parallel sections. Here every access to
the vector is a step of its own, and any section that is not at its end may take the next one; an
access outside the range of its call is a fault that stays. Calls that run side by side own ranges
that share nothing (`Proc.Within`), so that their steps can change places, and by
`Lib/RandomDescent` one schedule, the left call before the right one (`Sort`), decides about all.
-/

namespace BoardTest.FaceDet

variable {α K : Type*}

/-- A call of `qsort_descent_inplace`, by the access that it does next. -/
inductive Task (K : Type*)
  /-- the pivot -/
  | pivot (left right : Int)
  /-- `objects[i].score > p` -/
  | up (left right : Int) (p : K) (i j : Int)
  /-- `objects[j].score < p` -/
  | down (left right : Int) (p : K) (i j : Int)
  /-- `std::swap(objects[i], objects[j])` -/
  | swap (left right : Int) (p : K) (i j : Int)

/-- Calls and their parallel sections. -/
inductive Proc (K : Type*)
  | done
  | fault
  | run (t : Task K)
  | par (P Q : Proc K)

/-- A call, where its range has two entries. -/
def call (left right : Int) : Proc K := if left < right then .run (.pivot left right) else .done

/-- The head of `while (i <= j)`, and the sections behind it. -/
def head (left right : Int) (p : K) (i j : Int) : Proc K :=
  if i ≤ j then .run (.up left right p i j) else .par (call left j) (call i right)

/-- A read at `k`, which has to lie in the range of the call. -/
def read (objects : List α) (left right k : Int) (next : α → Proc K) : List α × Proc K :=
  if left ≤ k ∧ k ≤ right then
    match at? objects k with
    | none => (objects, .fault)
    | some o => (objects, next o)
  else (objects, .fault)

/-- A swap of the entries at `i` and `j`, which have to lie in the range of the call. -/
def exchange (objects : List α) (left right i j : Int) (next : Proc K) : List α × Proc K :=
  if (left ≤ i ∧ i ≤ right) ∧ left ≤ j ∧ j ≤ right then
    match swapAt objects i j with
    | none => (objects, .fault)
    | some objects' => (objects', next)
  else (objects, .fault)

/-- `qsort_descent_inplace(objects)` (line 198) before its first step. -/
def qsortStart (objects : List α) : List α × Proc K :=
  if objects.isEmpty then (objects, .done)
  else (objects, .run (.pivot 0 (toSigned (objects.length - 1))))

/-- A call keeps to its range, and its range to `lo … hi`. -/
def Task.Within (lo hi : Int) : Task K → Prop
  | .pivot left right => lo ≤ left ∧ left ≤ right ∧ right ≤ hi
  | .up left right _ i j => lo ≤ left ∧ left ≤ right ∧ right ≤ hi ∧ left ≤ i ∧ j ≤ right
  | .down left right _ i j => lo ≤ left ∧ left ≤ right ∧ right ≤ hi ∧ left ≤ i ∧ j ≤ right
  | .swap left right _ i j => lo ≤ left ∧ left ≤ right ∧ right ≤ hi ∧ left ≤ i ∧ j ≤ right

/-- Calls that run side by side have a part of `lo … hi` each. -/
def Proc.Within (lo hi : Int) : Proc K → Prop
  | done => True
  | fault => True
  | run t => t.Within lo hi
  | par P Q => ∃ m, lo - 1 ≤ m ∧ m ≤ hi ∧ P.Within lo m ∧ Q.Within (m + 1) hi

/-- Some access went outside. -/
def Proc.Faulty : Proc K → Prop
  | done => False
  | fault => True
  | run _ => False
  | par P Q => P.Faulty ∨ Q.Faulty

/-- The ranges of the calls that run, from left to right. -/
def Proc.ranges : Proc K → List (Int × Int)
  | done => []
  | fault => []
  | run (.pivot left right) => [(left, right)]
  | run (.up left right _ _ _) => [(left, right)]
  | run (.down left right _ _ _) => [(left, right)]
  | run (.swap left right _ _ _) => [(left, right)]
  | par P Q => P.ranges ++ Q.ranges

section Within

variable {lo hi left right i j k : Int} {objects objects' : List α} {p : K}

theorem within_call (h : left < right → lo ≤ left ∧ right ≤ hi) :
    (call left right : Proc K).Within lo hi := by
  unfold call
  split
  · rename_i hlt
    exact ⟨(h hlt).1, hlt.le, (h hlt).2⟩
  · trivial

theorem within_head (h : (Task.up left right p i j).Within lo hi) :
    (head left right p i j).Within lo hi := by
  unfold head
  split
  · exact h
  · obtain ⟨hlo, hle, hhi, hi, hj⟩ := h
    -- the left section has a range only when `j` has stayed behind `left`
    refine ⟨max (lo - 1) j, by omega, by omega, ?_, ?_⟩
    · apply within_call
      omega
    · apply within_call
      omega

theorem within_read {next : α → Proc K} (h : ∀ o, (next o).Within lo hi) :
    (read objects left right k next).2.Within lo hi := by
  unfold read
  split
  · split
    · trivial
    · exact h _
  · trivial

theorem read_fst (objects : List α) (left right k : Int) (next : α → Proc K) :
    (read objects left right k next).1 = objects := by
  unfold read
  split
  · split <;> rfl
  · rfl

/-- A read sees its range only. -/
theorem read_snd_congr {next : α → Proc K} (hlo : lo ≤ left) (hhi : right ≤ hi)
    (hs : SameIn lo hi objects objects') :
    (read objects' left right k next).2 = (read objects left right k next).2 := by
  unfold read
  split
  · rename_i hk
    rw [hs k (hlo.trans hk.1) (hk.2.trans hhi)]
    split <;> rfl
  · rfl

theorem read_of_at? {next : α → Proc K} {o : α} (hleft : left ≤ k) (hright : k ≤ right)
    (ho : at? objects k = some o) : read objects left right k next = (objects, next o) := by
  unfold read
  rw [if_pos ⟨hleft, hright⟩, ho]

theorem within_exchange {next : Proc K} (h : next.Within lo hi) :
    (exchange objects left right i j next).2.Within lo hi := by
  unfold exchange
  split
  · split
    · trivial
    · exact h
  · trivial

/-- A swap is decided by its range, and stays there. -/
theorem exchange_apart {next : Proc K} (hlo : lo ≤ left) (hhi : right ≤ hi)
    (hs : SameIn lo hi objects objects') :
    (exchange objects' left right i j next).2 = (exchange objects left right i j next).2 ∧
      SameIn lo hi (exchange objects left right i j next).1
        (exchange objects' left right i j next).1 ∧
      SameOut lo hi objects' (exchange objects' left right i j next).1 := by
  unfold exchange
  split
  · rename_i hij
    have hil : lo ≤ i ∧ i ≤ hi := by omega
    have hjl : lo ≤ j ∧ j ≤ hi := by omega
    cases ho : swapAt objects i j with
    | none =>
      rw [(hs.swapAt_eq_none_iff hil hjl).mp ho]
      exact ⟨rfl, hs, .refl lo hi objects'⟩
    | some objects₁ =>
      obtain ⟨objects₁', ho', hs'⟩ := hs.exists_swapAt hil hjl ho
      rw [ho']
      exact ⟨rfl, hs', sameOut_of_swapAt hil hjl ho'⟩
  · exact ⟨rfl, hs, .refl lo hi objects'⟩

theorem exchange_of_swapAt {next : Proc K} (hi : left ≤ i ∧ i ≤ right) (hj : left ≤ j ∧ j ≤ right)
    (ho : swapAt objects i j = some objects') :
    exchange objects left right i j next = (objects', next) := by
  unfold exchange
  rw [if_pos ⟨hi, hj⟩, ho]

theorem qsortStart_within {objects : List α} (hlen : objects.length ≤ 2 ^ 30 + 1) :
    (qsortStart objects : List α × Proc K).2.Within 0 (objects.length - 1) := by
  unfold qsortStart
  split
  · trivial
  · rename_i hempty
    have hpos := List.length_pos_iff.mpr (fun hnil => hempty (List.isEmpty_iff.mpr hnil))
    rw [toSigned_length hpos hlen]
    exact ⟨le_rfl, by omega, le_rfl⟩

theorem ranges_within {P : Proc K} (hP : P.Within lo hi) :
    ∀ a ∈ P.ranges, lo ≤ a.1 ∧ a.2 ≤ hi := by
  induction P generalizing lo hi with
  | done | fault =>
    intro a ha
    cases ha
  | run t =>
    intro a ha
    cases t with
    | pivot =>
      obtain rfl := List.mem_singleton.mp ha
      exact ⟨hP.1, hP.2.2⟩
    | up | down | swap =>
      obtain rfl := List.mem_singleton.mp ha
      exact ⟨hP.1, hP.2.2.1⟩
  | par P Q ihP ihQ =>
    obtain ⟨m, hlo, hhi, hPm, hQm⟩ := hP
    intro a ha
    rcases List.mem_append.mp ha with ha | ha
    · have := ihP hPm a ha
      omega
    · have := ihQ hQm a ha
      omega

/-- Calls that run side by side have ranges that share no index. -/
theorem ranges_pairwise {P : Proc K} (hP : P.Within lo hi) :
    P.ranges.Pairwise fun a b => a.2 < b.1 := by
  induction P generalizing lo hi with
  | done | fault => exact .nil
  | run t => cases t <;> exact List.pairwise_singleton _ _
  | par P Q ihP ihQ =>
    obtain ⟨m, -, -, hPm, hQm⟩ := hP
    apply List.pairwise_append.mpr ⟨ihP hPm, ihQ hQm, ?_⟩
    intro a ha b hb
    have := ranges_within hPm a ha
    have := ranges_within hQm b hb
    omega

end Within

variable [LinearOrder K] (score : α → K)

/-- What a call does with one access. -/
def access (objects : List α) : Task K → List α × Proc K
  | .pivot left right =>
    match inInt (left + right) with
    | none => (objects, .fault)
    | some sum =>
      read objects left right (sum.tdiv 2) fun o => head left right (score o) left right
  | .up left right p i j =>
    read objects left right i fun o =>
      if score o > p then .run (.up left right p (i + 1) j) else .run (.down left right p i j)
  | .down left right p i j =>
    read objects left right j fun o =>
      if score o < p then .run (.down left right p i (j - 1))
      else if i ≤ j then .run (.swap left right p i j)
      else head left right p i j
  | .swap left right p i j =>
    exchange objects left right i j (head left right p (i + 1) (j - 1))

/-- A step of any section; two sections that are at their end are behind the join. -/
inductive Step : List α × Proc K → List α × Proc K → Prop
  | access (objects : List α) (t : Task K) : Step (objects, .run t) (access score objects t)
  | left {objects objects' : List α} {P P' Q : Proc K} (h : Step (objects, P) (objects', P')) :
      Step (objects, .par P Q) (objects', .par P' Q)
  | right {objects objects' : List α} {P Q Q' : Proc K} (h : Step (objects, Q) (objects', Q')) :
      Step (objects, .par P Q) (objects', .par P Q')
  | join (objects : List α) : Step (objects, .par .done .done) (objects, .done)

section Steps

variable {score} {lo hi : Int} {objects objects' other : List α} {t : Task K} {P P' : Proc K}

theorem access_within (ht : t.Within lo hi) : (access score objects t).2.Within lo hi := by
  cases t with
  | pivot left right =>
    obtain ⟨hlo, hle, hhi⟩ := ht
    rw [access]
    cases inInt (left + right) with
    | none => trivial
    | some sum => exact within_read fun o => within_head ⟨hlo, hle, hhi, le_rfl, le_rfl⟩
  | up left right p i j =>
    obtain ⟨hlo, hle, hhi, hi, hj⟩ := ht
    apply within_read
    intro o
    split
    · exact ⟨hlo, hle, hhi, by omega, hj⟩
    · exact ⟨hlo, hle, hhi, hi, hj⟩
  | down left right p i j =>
    obtain ⟨hlo, hle, hhi, hi, hj⟩ := ht
    apply within_read
    intro o
    split
    · exact ⟨hlo, hle, hhi, hi, by omega⟩
    split
    · exact ⟨hlo, hle, hhi, hi, hj⟩
    · exact within_head ⟨hlo, hle, hhi, hi, hj⟩
  | swap left right p i j =>
    obtain ⟨hlo, hle, hhi, hi, hj⟩ := ht
    apply within_exchange
    exact within_head ⟨hlo, hle, hhi, by omega, by omega⟩

variable (score) in
/-- What an access does is decided by the range it belongs to, and stays there. -/
theorem access_apart (ht : t.Within lo hi) (hs : SameIn lo hi objects other) :
    (access score other t).2 = (access score objects t).2 ∧
      SameIn lo hi (access score objects t).1 (access score other t).1 ∧
      SameOut lo hi other (access score other t).1 := by
  cases t with
  | pivot left right =>
    rw [access, access]
    cases inInt (left + right) with
    | none => exact ⟨rfl, hs, .refl lo hi other⟩
    | some sum =>
      simp only [read_fst]
      exact ⟨read_snd_congr ht.1 ht.2.2 hs, hs, .refl lo hi other⟩
  | up left right p i j =>
    unfold access
    rw [read_fst, read_fst]
    exact ⟨read_snd_congr ht.1 ht.2.2.1 hs, hs, .refl lo hi other⟩
  | down left right p i j =>
    unfold access
    rw [read_fst, read_fst]
    exact ⟨read_snd_congr ht.1 ht.2.2.1 hs, hs, .refl lo hi other⟩
  | swap left right p i j => exact exchange_apart ht.1 ht.2.2.1 hs

/-- What a step is, by the shape of the calls. -/
theorem step_run_iff {t : Task K} {c : List α × Proc K} :
    Step score (objects, .run t) c ↔ c = access score objects t := by
  constructor
  · intro h
    cases h
    rfl
  · rintro rfl
    exact .access objects t

theorem step_within (hP : P.Within lo hi) (h : Step score (objects, P) (objects', P')) :
    P'.Within lo hi := by
  induction P generalizing lo hi P' with
  | done | fault => cases h
  | run t =>
    have hc := step_run_iff.mp h
    have hw : (access score objects t).2.Within lo hi := access_within hP
    rwa [← hc] at hw
  | par P Q ihP ihQ =>
    obtain ⟨m, hlo, hhi, hPm, hQm⟩ := hP
    cases h with
    | left h => exact ⟨m, hlo, hhi, ihP hPm h, hQm⟩
    | right h => exact ⟨m, hlo, hhi, hPm, ihQ hQm h⟩
    | join => trivial

/-- A step leaves what is outside of the range as it is. -/
theorem step_out (hP : P.Within lo hi) (h : Step score (objects, P) (objects', P')) :
    SameOut lo hi objects objects' := by
  induction P generalizing lo hi P' with
  | done | fault => cases h
  | run t =>
    have hc := step_run_iff.mp h
    obtain ⟨-, -, hout⟩ := access_apart score hP (.refl lo hi objects)
    rwa [← hc] at hout
  | par P Q ihP ihQ =>
    obtain ⟨m, hlo, hhi, hPm, hQm⟩ := hP
    cases h with
    | left h => exact (ihP hPm h).mono le_rfl hhi
    | right h => exact (ihQ hQm h).mono (by omega) le_rfl
    | join => exact .refl lo hi objects

/-- A step can be taken in every vector that is the same in the range. -/
theorem step_apart (hP : P.Within lo hi) (h : Step score (objects, P) (objects', P'))
    (hs : SameIn lo hi objects other) :
    ∃ other', Step score (other, P) (other', P') ∧ SameIn lo hi objects' other' := by
  induction P generalizing lo hi P' with
  | done | fault => cases h
  | run t =>
    have hc := step_run_iff.mp h
    obtain ⟨hsnd, hin, -⟩ := access_apart score hP hs
    rw [← hc] at hsnd hin
    refine ⟨(access score other t).1, ?_, hin⟩
    have hother : access score other t = ((access score other t).1, P') := Prod.ext rfl hsnd
    exact step_run_iff.mpr hother.symm
  | par P Q ihP ihQ =>
    obtain ⟨m, hlo, hhi, hPm, hQm⟩ := hP
    cases h with
    | left h =>
      obtain ⟨other', hstep, hin⟩ := ihP hPm h (hs.mono le_rfl hhi)
      exact ⟨other', .left hstep, hin.glue hs (step_out hPm h) (step_out hPm hstep)⟩
    | right h =>
      obtain ⟨other', hstep, hin⟩ := ihQ hQm h (hs.mono (by omega) le_rfl)
      exact ⟨other', .right hstep, hin.glue hs (step_out hQm h) (step_out hQm hstep)⟩
    | join => exact ⟨other, .join other, hs⟩

/-- A step on the left and one on the right can change places. -/
theorem left_right_meet {Q Q' : Proc K} {objects₁ objects₂ : List α} {m : Int}
    (hP : P.Within lo m) (hQ : Q.Within (m + 1) hi)
    (hleft : Step score (objects, P) (objects₁, P'))
    (hright : Step score (objects, Q) (objects₂, Q')) :
    ∃ objects', Step score (objects₂, P) (objects', P') ∧
      Step score (objects₁, Q) (objects', Q') := by
  have hout₁ := step_out hP hleft
  have hout₂ := step_out hQ hright
  obtain ⟨l, hl, hlin⟩ := step_apart hP hleft (hout₂.sameIn (.inl (by omega)))
  obtain ⟨l', hl', hlin'⟩ := step_apart hQ hright (hout₁.sameIn (.inr (by omega)))
  have hlout := step_out hP hl
  have hlout' := step_out hQ hl'
  have heq : l = l' := by
    apply ext_at?
    intro k
    by_cases hk : lo ≤ k ∧ k ≤ m
    · rw [hlin k hk.1 hk.2, hlout' k (by omega)]
    · rw [hlout k (by omega)]
      by_cases hk' : m + 1 ≤ k ∧ k ≤ hi
      · rw [hlin' k hk'.1 hk'.2]
      · rw [hlout' k (by omega), hout₁ k (by omega), hout₂ k (by omega)]
  subst heq
  exact ⟨l, hl, hl'⟩

/-- Two steps of any schedule meet again. -/
theorem steps_meet {b c : List α × Proc K} (hP : P.Within lo hi)
    (hb : Step score (objects, P) b) (hc : Step score (objects, P) c) :
    b = c ∨ ∃ d, Step score b d ∧ Step score c d := by
  induction P generalizing lo hi b c with
  | done | fault => cases hb
  | run t =>
    left
    rw [step_run_iff.mp hb, step_run_iff.mp hc]
  | par P Q ihP ihQ =>
    obtain ⟨m, -, -, hPm, hQm⟩ := hP
    cases hb with
    | left hb =>
      cases hc with
      | left hc =>
        rcases ihP hPm hb hc with heq | ⟨⟨l, R⟩, hbd, hcd⟩
        · left
          rw [Prod.mk.injEq] at heq
          rw [heq.1, heq.2]
        · exact .inr ⟨(l, .par R Q), .left hbd, .left hcd⟩
      | right hc =>
        obtain ⟨l, hl, hl'⟩ := left_right_meet hPm hQm hb hc
        exact .inr ⟨(l, .par _ _), .right hl', .left hl⟩
      | join => cases hb
    | right hb =>
      cases hc with
      | left hc =>
        obtain ⟨l, hl, hl'⟩ := left_right_meet hPm hQm hc hb
        exact .inr ⟨(l, .par _ _), .left hl, .right hl'⟩
      | right hc =>
        rcases ihQ hQm hb hc with heq | ⟨⟨l, R⟩, hbd, hcd⟩
        · left
          rw [Prod.mk.injEq] at heq
          rw [heq.1, heq.2]
        · exact .inr ⟨(l, .par P R), .right hbd, .right hcd⟩
      | join => cases hb
    | join =>
      cases hc with
      | left hc => cases hc
      | right hc => cases hc
      | join => exact .inl rfl

variable (score) in
/-- The order of the sections does not matter: their steps settle. -/
theorem settling_step (lo hi : Int) :
    Settling (Step score) (fun c : List α × Proc K => c.2.Within lo hi) where
  keeps _ _ hP h := step_within hP h
  meets _ _ _ hP hb hc := steps_meet hP hb hc

/-- A fault stays. -/
theorem step_faulty (hP : P.Faulty) (h : Step score (objects, P) (objects', P')) : P'.Faulty := by
  induction P generalizing P' with
  | done | run => exact hP.elim
  | fault => cases h
  | par P Q ihP ihQ =>
    cases h with
    | left h =>
      rcases hP with hP | hQ
      · exact .inl (ihP hP h)
      · exact .inr hQ
    | right h =>
      rcases hP with hP | hQ
      · exact .inl hP
      · exact .inr (ihQ hQ h)
    | join => rcases hP with hP | hQ <;> assumption

end Steps

section Schedule

variable {score} {objects objects' : List α} {left right i j i' j' : Int} {p : K} {n : Nat}
  {P P' : Proc K}

/-- A section runs beside the other one. -/
theorem runsTo_left (Q : Proc K) (h : RunsTo (Step score) n (objects, P) (objects', P')) :
    RunsTo (Step score) n (objects, .par P Q) (objects', .par P' Q) := by
  have hstep : ∀ a b : List α × Proc K, Step score a b →
      Step score (a.1, .par a.2 Q) (b.1, .par b.2 Q) := fun _ _ first => .left first
  exact RunsTo.map hstep h

theorem runsTo_right (Q : Proc K) (h : RunsTo (Step score) n (objects, P) (objects', P')) :
    RunsTo (Step score) n (objects, .par Q P) (objects', .par Q P') := by
  have hstep : ∀ a b : List α × Proc K, Step score a b →
      Step score (a.1, .par Q a.2) (b.1, .par Q b.2) := fun _ _ first => .right first
  exact RunsTo.map hstep h

theorem runsTo_of_access {t : Task K} {c : List α × Proc K} (h : access score objects t = c) :
    RunsTo (Step score) 1 (objects, .run t) c := by
  subst h
  exact .next (.access objects t) (.here _)

/-- The upward scan, access by access. -/
theorem runsTo_scanUp (h : scanUp score objects p i = some i') (hleft : left ≤ i)
    (hright : i' ≤ right) :
    ∃ n, RunsTo (Step score) n (objects, .run (.up left right p i j))
      (objects, .run (.down left right p i' j)) := by
  fun_induction scanUp score objects p i with
  | case1 => cases h
  | case2 i o ho hgt ih =>
    have hle := (scanUp_eq_some h).1
    obtain ⟨n, hn⟩ := ih h (by omega)
    refine ⟨n + 1, .next ?_ hn⟩
    rw [step_run_iff, access, read_of_at? hleft (by omega) ho, if_pos hgt]
  | case3 i o ho hgt =>
    obtain rfl := Option.some.inj h
    refine ⟨1, runsTo_of_access ?_⟩
    rw [access, read_of_at? hleft hright ho, if_neg hgt]

/-- The downward scan, access by access. -/
theorem runsTo_scanDown (h : scanDown score objects p j = some j') (hleft : left ≤ j')
    (hright : j ≤ right) :
    ∃ n, RunsTo (Step score) n (objects, .run (.down left right p i j))
      (objects, if i ≤ j' then .run (.swap left right p i j') else head left right p i j') := by
  fun_induction scanDown score objects p j with
  | case1 => cases h
  | case2 j o ho hlt ih =>
    have hle := (scanDown_eq_some h).1
    obtain ⟨n, hn⟩ := ih h (by omega)
    refine ⟨n + 1, .next ?_ hn⟩
    rw [step_run_iff, access, read_of_at? (by omega) hright ho, if_pos hlt]
  | case3 j o ho hlt =>
    obtain rfl := Option.some.inj h
    refine ⟨1, runsTo_of_access ?_⟩
    rw [access, read_of_at? hleft hright ho, if_neg hlt]

/-- The loop, access by access: behind it stand the two sections. -/
theorem runsTo_partitionLoop (hs : Straddled score objects p left right i j)
    (h : partitionLoop score objects p i j = some (objects', i', j')) :
    ∃ n, RunsTo (Step score) n (objects, head left right p i j)
      (objects', .par (call left j') (call i' right)) := by
  fun_induction partitionLoop score objects p i j with
  | case1 | case2 | case3 => cases h
  | case4 objects i j hij k hk m hm hkm objects₁ hswap ih =>
    have hwithin := hs.scans_within hij hk hm
    have hleft := hs.left_le.trans (scanUp_eq_some hk).1
    have hright := (scanDown_eq_some hm).1.trans hs.le_right
    obtain ⟨n₁, hup⟩ := runsTo_scanUp (j := j) hk hs.left_le hwithin.1
    obtain ⟨n₂, hdown⟩ := runsTo_scanDown (i := k) hm hwithin.2 hs.le_right
    obtain ⟨n₃, hrest⟩ := ih (hs.swap hk hm hkm hswap) h
    rw [if_pos hkm] at hdown
    have hex : RunsTo (Step score) 1 (objects, .run (.swap left right p k m))
        (objects₁, head left right p (k + 1) (m - 1)) := by
      apply runsTo_of_access
      rw [access, exchange_of_swapAt ⟨hleft, hwithin.1⟩ ⟨hwithin.2, hright⟩ hswap]
    rw [head, if_pos hij]
    exact ⟨_, ((hup.trans hdown).trans hex).trans hrest⟩
  | case5 objects i j hij k hk m hm hkm =>
    cases h
    have hwithin := hs.scans_within hij hk hm
    obtain ⟨n₁, hup⟩ := runsTo_scanUp (j := j) hk hs.left_le hwithin.1
    obtain ⟨n₂, hdown⟩ := runsTo_scanDown (i := i') hm hwithin.2 hs.le_right
    rw [if_neg hkm, head, if_neg hkm] at hdown
    rw [head, if_pos hij]
    exact ⟨_, hup.trans hdown⟩
  | case6 objects i j hij =>
    cases h
    rw [head, if_neg hij]
    exact ⟨0, .here _⟩

/-- One call up to its sections. -/
theorem runsTo_partition (hle : left ≤ right) (h0 : 0 ≤ left) (hsum : left + right < 2 ^ 31)
    (h : partition score objects left right = some (objects', i, j)) :
    ∃ n, RunsTo (Step score) n (objects, .run (.pivot left right))
      (objects', .par (call left j) (call i right)) := by
  have hmid := middle_within hle
  rw [partition] at h
  split at h
  · cases h
  · rename_i o hpivot
    have ho := at?_of_pivot hpivot
    obtain ⟨n, hn⟩ := runsTo_partitionLoop (straddled_first hmid.1 hmid.2 ho) h
    refine ⟨n + 1, .next ?_ hn⟩
    rw [step_run_iff, access, inInt_of_bounds (by omega) hsum]
    simp only [read_of_at? hmid.1 hmid.2 ho]

/-- The left section before the right one is a schedule, which comes to its end. -/
theorem runsTo_qsortDescentRange (h0 : 0 ≤ left) (hle : left ≤ right)
    (hsum : left + right < 2 ^ 31) (hright : right ≤ 2 ^ 30) (hlen : right < objects.length)
    (h : qsortDescentRange score objects left right = some objects') :
    ∃ n, RunsTo (Step score) n (objects, .run (.pivot left right)) (objects', .done) := by
  induction hn : (right - left).toNat using Nat.strong_induction_on
    generalizing objects objects' left right with
  | h n ih =>
    -- a section that has no range of two entries is at its end
    have hsection : ∀ (l l' : List α) (lo hi : Int), left ≤ lo → hi ≤ right →
        l.length = objects.length → (left < lo ∨ hi < right) →
        (if lo < hi then qsortDescentRange score l lo hi else some l) = some l' →
        l'.length = objects.length ∧ ∃ n, RunsTo (Step score) n (l, call lo hi) (l', .done) := by
      intro l l' lo hi hlo hhi hl hlt h'
      unfold call
      split at h'
      · rename_i hlohi
        rw [if_pos hlohi]
        obtain ⟨l₁, hl₁, hsorted⟩ := qsortDescentRange_spec score
          (h0.trans hlo) hlohi.le (by omega) (by omega) (show hi < (l.length : Int) by omega)
        rw [h'] at hl₁
        obtain rfl := Option.some.inj hl₁
        refine ⟨hsorted.rearranged.length_eq.trans hl, ?_⟩
        exact ih (hi - lo).toNat (by omega) (h0.trans hlo) hlohi.le (by omega) (by omega)
          (by omega) h' rfl
      · rename_i hlohi
        rw [if_neg hlohi]
        obtain rfl := Option.some.inj h'
        exact ⟨hl, 0, .here _⟩
    rw [qsortDescentRange] at h
    split at h
    · cases h
    rename_i objects₁ i j hrun
    split at h
    · cases h
    rename_i objects₂ hrun₂
    obtain ⟨p, l, i', j', hrun', hp⟩ := partition_spec score h0 hle hsum hlen
    rw [hrun] at hrun'
    cases hrun'
    have hij := partition_indices hrun hle
    obtain ⟨n₁, h₁⟩ := runsTo_partition hle h0 hsum hrun
    obtain ⟨hlen₂, n₂, h₂⟩ := hsection objects₁ objects₂ left j le_rfl hij.2.le
      hp.rearranged.length_eq (.inr hij.2) hrun₂
    obtain ⟨hlen₃, n₃, h₃⟩ := hsection objects₂ objects' i right hij.1.le le_rfl hlen₂
      (.inl hij.1) h
    have hjoin : RunsTo (Step score) 1 (objects', .par .done .done) (objects', .done) :=
      .next (.join objects') (.here _)
    exact ⟨_, ((h₁.trans (runsTo_left _ h₂)).trans (runsTo_right _ h₃)).trans hjoin⟩

theorem isEnd_done (objects : List α) : IsEnd (Step score) (objects, (.done : Proc K)) := by
  intro b h
  cases h

variable (score)

theorem runsTo_qsortDescentInplace {objects objects' : List α} (hlen : objects.length ≤ 2 ^ 30 + 1)
    (h : qsortDescentInplace score objects = some objects') :
    ∃ n, RunsTo (Step score) n (qsortStart objects) (objects', .done) := by
  unfold qsortDescentInplace at h
  unfold qsortStart
  split at h
  · rename_i hempty
    obtain rfl := Option.some.inj h
    rw [if_pos hempty]
    exact ⟨0, .here _⟩
  · rename_i hempty
    have hpos := List.length_pos_iff.mpr (fun hnil => hempty (List.isEmpty_iff.mpr hnil))
    rw [toSigned_length hpos hlen] at h
    rw [if_neg hempty, toSigned_length hpos hlen]
    exact runsTo_qsortDescentRange le_rfl (by omega) (by omega) (by omega) (by omega) h

/-- Every schedule of the parallel sections ends with the entries sorted: there is one result, a
rearrangement of the vector in an order of non-increasing scores, and whichever section takes the
next step, it is reached after a fixed number of them. On the way no access leaves the range of its
call, the ranges of the calls that run share no index, and nothing stops before the end. -/
def SchedulesSort (objects : List α) : Prop :=
  ∃ (sorted : List α) (n : Nat), sorted.Perm objects ∧
    sorted.Pairwise (fun a b => score b ≤ score a) ∧
    qsortDescentInplace score objects = some sorted ∧
    RunsTo (Step score) n (qsortStart objects) (sorted, .done) ∧
    ∀ m c, RunsTo (Step score) m (qsortStart objects) c →
      m ≤ n ∧ ¬ c.2.Faulty ∧ c.2.ranges.Pairwise (fun a b => a.2 < b.1) ∧
      (∀ a ∈ c.2.ranges, 0 ≤ a.1 ∧ a.2 < objects.length) ∧
      (IsEnd (Step score) c → c = (sorted, .done))

/-- That is so for every vector in which two different indices have a sum that is an `int`. -/
theorem every_schedule_sorts (objects : List α) (hlen : objects.length ≤ 2 ^ 30 + 1) :
    SchedulesSort score objects := by
  obtain ⟨sorted, hrun, hperm, hpairwise⟩ := qsortDescentInplace_spec score objects hlen
  obtain ⟨n, hn⟩ := runsTo_qsortDescentInplace score hlen hrun
  refine ⟨sorted, n, hperm, hpairwise, hrun, hn, ?_⟩
  intro m c hm
  have hsettle := settling_step score 0 ((objects.length : Int) - 1)
  have hstart : (qsortStart objects : List α × Proc K).2.Within 0 (objects.length - 1) :=
    qsortStart_within hlen
  have hwithin := RunsTo.invariant hsettle.keeps hm hstart
  obtain ⟨k, rfl, hrest⟩ := hsettle.runsTo hstart hn (isEnd_done sorted) hm
  refine ⟨by omega, ?_, ranges_pairwise hwithin, ?_, ?_⟩
  · intro hfaulty
    have hkeeps : ∀ a b, a.2.Faulty → Step score a b → b.2.Faulty :=
      fun _ _ ha h => step_faulty ha h
    exact RunsTo.invariant hkeeps hrest hfaulty
  · intro a ha
    have := ranges_within hwithin a ha
    omega
  · intro hend
    cases hrest with
    | here => rfl
    | next first => exact absurd first (hend _)

theorem every_schedule_sorts_three : SchedulesSort id [2, 1, 3] :=
  every_schedule_sorts id [2, 1, 3] (by decide)

end Schedule

/-! ## One entry more -/

section Equal

variable {score} {a : α} {n : Nat} {i j left right : Int}

theorem at?_replicate (h0 : 0 ≤ i) (hi : i < n) : at? (List.replicate n a) i = some a := by
  rw [at?, if_pos h0, List.getElem?_replicate, if_pos (by omega)]

theorem swapAt_replicate (hi : 0 ≤ i ∧ i < n) (hj : 0 ≤ j ∧ j < n) :
    swapAt (List.replicate n a) i j = some (List.replicate n a) := by
  simp [swapAt, at?_replicate hi.1 hi.2, at?_replicate hj.1 hj.2, List.set_replicate_self]

variable (score a) in
/-- Among equal scores the two indices meet in the middle. -/
theorem partitionLoop_replicate (hi : 0 ≤ i) (hj : j < n) (hij : i ≤ j + 2) :
    ∃ i' j', partitionLoop score (List.replicate n a) (score a) i j =
      some (List.replicate n a, i', j') ∧ i' + j' = i + j ∧ j' < i' ∧ i' ≤ j' + 2 := by
  induction hk : (j + 1 - i).toNat using Nat.strong_induction_on generalizing i j with
  | h k ih =>
    rw [partitionLoop]
    by_cases hle : i ≤ j
    · have hup : scanUp score (List.replicate n a) (score a) i = some i := by
        rw [scanUp]
        split
        · rename_i hnone
          rw [at?_replicate hi (by omega)] at hnone
          cases hnone
        · rename_i o ho
          rw [at?_replicate hi (by omega)] at ho
          cases ho
          rw [if_neg (lt_irrefl _)]
      have hdown : scanDown score (List.replicate n a) (score a) j = some j := by
        rw [scanDown]
        split
        · rename_i hnone
          rw [at?_replicate (by omega) hj] at hnone
          cases hnone
        · rename_i o ho
          rw [at?_replicate (by omega) hj] at ho
          cases ho
          rw [if_neg (lt_irrefl _)]
      obtain ⟨i', j', hrun, hsum, hlt, hgap⟩ := ih (j - 1 + 1 - (i + 1)).toNat (by omega)
        (i := i + 1) (j := j - 1) (by omega) (by omega) (by omega) rfl
      refine ⟨i', j', ?_, by omega, hlt, hgap⟩
      rw [if_pos hle]
      split
      · rename_i hnone
        rw [hup] at hnone
        cases hnone
      · rename_i i₁ hi₁
        rw [hup] at hi₁
        cases hi₁
        split
        · rename_i hnone
          rw [hdown] at hnone
          cases hnone
        · rename_i j₁ hj₁
          rw [hdown] at hj₁
          cases hj₁
          rw [if_pos hle, swapAt_replicate ⟨hi, by omega⟩ ⟨by omega, hj⟩]
          exact hrun
    · exact ⟨i, j, by rw [if_neg hle], rfl, by omega, hij⟩

/-- Of `2 ^ 30 + 2` equal entries the last two make a range whose indices have no sum in `int`. -/
theorem qsortDescentRange_replicate (hn : n = 2 ^ 30 + 2) (h0 : 0 ≤ left) (hlt : left < right)
    (hright : right = n - 1) : qsortDescentRange score (List.replicate n a) left right = none := by
  induction hk : (right - left).toNat using Nat.strong_induction_on generalizing left with
  | h k ih =>
    by_cases hsum : left + right < 2 ^ 31
    · obtain ⟨i, j, hrun, hij, hjlt, hgap⟩ := partitionLoop_replicate score a h0
        (by omega : right < n) (by omega)
      have hmid := middle_within hlt.le
      have hpartition : partition score (List.replicate n a) left right =
          some (List.replicate n a, i, j) := by
        rw [partition, pivot_eq h0 hlt.le hsum, at?_replicate (by omega) (by omega)]
        exact hrun
      obtain ⟨hleft, hjright⟩ := partition_indices hpartition hlt.le
      -- the left part is sorted, and is as it was
      have hpart : (if left < j then qsortDescentRange score (List.replicate n a) left j
          else some (List.replicate n a)) = some (List.replicate n a) := by
        split
        · obtain ⟨objects', hrun', hsorted⟩ := qsortDescentRange_spec score
            h0 (by omega : left ≤ j) (by omega) (by omega)
            (by rw [List.length_replicate]; omega : j < (List.replicate n a).length)
          rw [hrun', List.perm_replicate.mp hsorted.rearranged.perm]
        · rfl
      rw [qsortDescentRange]
      split
      · rfl
      · rename_i objects₁ i₁ j₁ hsome
        rw [hpartition] at hsome
        cases hsome
        simp only [hpart]
        rw [if_pos (by omega)]
        exact ih (right - i).toNat (by omega) (by omega) (by omega) rfl
    · have hnone : pivot (List.replicate n a) left right = none := by
        rw [pivot, inInt, if_neg (by omega)]
        rfl
      rw [qsortDescentRange]
      split
      · rfl
      · rename_i hsome
        rw [partition, hnone] at hsome
        cases hsome

/-- A vector of `2 ^ 30 + 2` equal scores is not sorted. -/
theorem equal_scores_overflow :
    ¬ ∀ objects : List Nat, objects ≠ [] → SchedulesSort id objects := by
  intro h
  -- the length is a variable, so that nothing unfolds the list
  obtain ⟨n, hn⟩ : ∃ n : Nat, n = 2 ^ 30 + 2 := ⟨_, rfl⟩
  have hlen : (List.replicate n 0).length = n := List.length_replicate
  have hne : List.replicate n 0 ≠ [] := by
    rw [← List.length_pos_iff, hlen]
    omega
  obtain ⟨sorted, steps, -, -, hrun, -⟩ := h _ hne
  have hright : toSigned ((n : Int) - 1) = n - 1 := toSigned_of_lt (by omega) (by omega)
  rw [qsortDescentInplace, if_neg (by rwa [List.isEmpty_iff]), hlen, hright,
    qsortDescentRange_replicate hn le_rfl (by omega) rfl] at hrun
  cases hrun

end Equal

end BoardTest.FaceDet
