import BoardTest.Qmi.MainLoop
import Mathlib.Data.List.Chain

/-!
# Dialling again

A call that cannot be set up is tried again after 5, 10, 20, 40 and then every 60 seconds
(`attempts_back_off`). Every signal that is read takes the alarm back, so that the next attempt
could be lost; it is not: while there is a network and the call is down, a check or an attempt is
waiting to be read or the alarm is set (`attempt_is_due`).
-/

namespace BoardTest.Qmi

/-- What the clock has shown in an event, in order. -/
def MainEvent.readings : MainEvent → List Nat
  | .signal r _ => [r.checked, r.armed, r.done]
  | .networkState _ now => [now]
  | .dataCallList now => [now]
  | _ => []

/-- The last reading up to the end of an event. -/
def clockAfter (now : Nat) (e : MainEvent) : Nat := e.readings.getLastD now

/-- The clock does not go back. -/
def Clocked (now : Nat) (es : List MainEvent) : Prop :=
  (now :: es.flatMap MainEvent.readings).IsChain (· ≤ ·)

theorem isChain_append_getLastD {a : Nat} {xs ys : List Nat}
    (h : (a :: (xs ++ ys)).IsChain (· ≤ ·)) :
    (a :: xs).IsChain (· ≤ ·) ∧ (xs.getLastD a :: ys).IsChain (· ≤ ·) := by
  induction xs generalizing a with
  | nil => exact ⟨.singleton a, h⟩
  | cons x xs ih =>
    obtain ⟨hax, hrest⟩ := List.isChain_cons_cons.mp h
    obtain ⟨hxs, hys⟩ := ih hrest
    exact ⟨.cons_cons hax hxs, by rwa [List.getLastD_cons]⟩

theorem clocked_cons {now : Nat} {e : MainEvent} {es : List MainEvent} (h : Clocked now (e :: es)) :
    (now :: e.readings).IsChain (· ≤ ·) ∧ Clocked (clockAfter now e) es := by
  rw [Clocked, List.flatMap_cons] at h
  exact isChain_append_getLastD h

theorem clock_signal {now : Nat} {r : StartReplies} {check : CheckReplies}
    (h : (now :: (MainEvent.signal r check).readings).IsChain (· ≤ ·)) :
    now ≤ r.checked ∧ r.checked ≤ r.armed ∧ r.armed ≤ r.done := by
  simpa [MainEvent.readings, List.isChain_cons_cons] using h

theorem le_clockAfter {now : Nat} {e : MainEvent} (h : (now :: e.readings).IsChain (· ≤ ·)) :
    now ≤ clockAfter now e := by
  cases e with
  | signal r check =>
    have := clock_signal h
    exact (by omega : now ≤ r.done)
  | networkState attached t => exact (List.isChain_cons_cons.mp h).1
  | dataCallList t => exact (List.isChain_cons_cons.mp h).1
  | _ => exact Nat.le_refl now

/-- The network has not been lost, and no call that is up has changed. -/
def Quiet (s : MainLoop) : MainEvent → Prop
  | .networkState attached _ => attached.getD s.PSAttachedState = 1
  | .dataCallList _ => ¬ s.Up
  | _ => True

/-- An event without attempts: the failures are counted as before, and the next attempt may be made
when it could have been, or soon. -/
structure Untimed (now : Nat) (s : MainLoop) (e : MainEvent) (r : MainLoop × List Deed) : Prop where
  timeless : ∀ d ∈ r.2, d.time = none
  fail : r.1.SetupCallFail = s.SetupCallFail
  near : r.1.SetupCallAllowTime = s.SetupCallAllowTime ∨
    r.1.SetupCallAllowTime ≤ clockAfter now e + 1000
  quiet : Quiet s e → r.1.SetupCallAllowTime = s.SetupCallAllowTime

theorem untimed_of_same {now : Nat} {s : MainLoop} {e : MainEvent} {r : MainLoop × List Deed}
    (htime : ∀ d ∈ r.2, d.time = none) (hfail : r.1.SetupCallFail = s.SetupCallFail)
    (hallow : r.1.SetupCallAllowTime = s.SetupCallAllowTime) : Untimed now s e r :=
  ⟨htime, hfail, .inl hallow, fun _ => hallow⟩

theorem untimed_mainQuit (now : Nat) (s : MainLoop) (e : MainEvent) :
    Untimed now s e (mainQuit s) :=
  untimed_of_same (timeless_usbnetLinkChange s false) rfl rfl

theorem timeless_sigEventStop (c : CallProfile) (s : MainLoop) :
    ∀ d ∈ (sigEventStop c s).2, d.time = none := by
  have hlink := timeless_usbnetLinkChange s false
  have hquit := timeless_usbnetLinkChange (usbnetLinkChange s false).1 false
  intro d hd
  rw [sigEventStop] at hd
  dsimp only at hd
  simp only [List.mem_append] at hd
  rcases hd with (((hd | hd) | hd) | hd) | hd
  · exact (timeless_ite rfl).1 d hd
  · exact (timeless_ite rfl).1 d hd
  · exact hlink d hd
  · simp only [List.mem_cons, List.not_mem_nil, or_false] at hd
    rcases hd with rfl | rfl <;> rfl
  · exact hquit d hd

theorem untimed_sigEventCheck (c : CallProfile) (now : Nat) (s : MainLoop) (e : MainEvent)
    (check : CheckReplies) (rest : List Signo) :
    Untimed now s e (sigEventCheck c check { s with signals := rest, alarm := none }) := by
  obtain ⟨t, ds, ht, htime, heq⟩ :=
    sigEventCheck_eq c check { s with signals := rest, alarm := none }
  rw [heq]
  refine untimed_of_same htime ?_ ?_
  · dsimp only
    split <;> exact ht.fail
  · dsimp only
    split <;> exact ht.allow

theorem untimed_deviceDisconnected (now : Nat) (s : MainLoop) (e : MainEvent)
    (again : Option (Option Byte)) : Untimed now s e (deviceDisconnected s again) := by
  have hlink := timeless_usbnetLinkChange s false
  unfold deviceDisconnected
  dsimp only
  split
  · cases again <;> exact untimed_of_same hlink rfl rfl
  · refine untimed_of_same (fun d hd => ?_) rfl rfl
    exact (List.mem_append.mp hd).elim (hlink d) (timeless_usbnetLinkChange _ false d)

/-- Only the loss of the network puts the next attempt off. -/
theorem untimed_networkStateChanged (c : CallProfile) (now : Nat) (s : MainLoop)
    (attached : Option Byte) (t : Nat) :
    Untimed now s (.networkState attached t) (networkStateChanged c s attached t, []) := by
  unfold networkStateChanged
  dsimp only
  split
  · split <;> exact untimed_of_same (List.forall_mem_nil _) rfl rfl
  · rename_i hlost
    exact ⟨List.forall_mem_nil _, rfl, .inr (Nat.le_add_right t 1000), fun h => absurd h hlost⟩

theorem untimed_dataCallListChanged (now : Nat) (s : MainLoop) (t : Nat) :
    Untimed now s (.dataCallList t) (dataCallListChanged s t, []) := by
  unfold dataCallListChanged
  split
  · rename_i hup
    exact ⟨List.forall_mem_nil _, rfl, .inr (Nat.le_refl _), fun h => absurd hup h⟩
  · exact untimed_of_same (List.forall_mem_nil _) rfl rfl

theorem untimed_modemReset (now : Nat) (s : MainLoop) (e : MainEvent) (gone : Bool)
    (again : Option (Option Byte)) : Untimed now s e (modemReset s gone again) := by
  have htime : ∀ d ∈ [Deed.toQmiDevice RIL_REQUEST_QUIT, .usbnet_link_state], d.time = none := by
    simp [Deed.time]
  unfold modemReset
  dsimp only
  split
  · refine untimed_of_same (fun d hd => ?_) rfl rfl
    exact (List.mem_append.mp hd).elim (htime d) (timeless_usbnetLinkChange _ false d)
  · cases again <;> exact untimed_of_same htime rfl rfl

/-- A START that is read. -/
theorem handle_start (c : CallProfile) {s : MainLoop} (r : StartReplies) (check : CheckReplies)
    (hrun : s.running = true) {rest : List Signo} (hsignals : s.signals = .start :: rest) :
    s.handle c (.signal r check) =
      sigEventStart c r { s with signals := rest, alarm := none } := by
  unfold MainLoop.handle
  rw [if_pos hrun]
  dsimp only
  rw [readSigno, hsignals]

/-- Any other event -/
theorem handle_untimed (c : CallProfile) (now : Nat) {s : MainLoop} {e : MainEvent}
    (h : s.running = true → (∃ r check, e = .signal r check) → s.signals.head? ≠ some .start) :
    Untimed now s e (s.handle c e) := by
  unfold MainLoop.handle
  split
  · rename_i hrun
    cases e with
    | timeout => exact untimed_of_same (by simp) rfl rfl
    | pollFailed => exact untimed_mainQuit now s _
    | pollError => exact untimed_of_same (by simp [Deed.time]) rfl rfl
    | hangup =>
      refine untimed_of_same (fun d hd => ?_) rfl rfl
      rcases List.mem_cons.mp hd with rfl | hd
      · rfl
      · exact timeless_usbnetLinkChange s false d hd
    | alarm =>
      dsimp only
      split <;> exact untimed_of_same (by simp) rfl rfl
    | interrupt => exact untimed_of_same (by simp [Deed.time]) rfl rfl
    | signal start check =>
      have hhead := h hrun ⟨start, check, rfl⟩
      show Untimed now s _ (readSigno c start check s)
      unfold readSigno
      split
      · exact untimed_of_same (by simp) rfl rfl
      · rename_i signo rest hsignals
        cases signo
        · exact absurd (by rw [hsignals]; rfl) hhead
        · exact untimed_sigEventCheck c now s _ check rest
        · exact untimed_of_same (timeless_sigEventStop c _) rfl rfl
    | disconnected again => exact untimed_deviceDisconnected now s _ again
    | networkState attached t => exact untimed_networkStateChanged c now s attached t
    | dataCallList t => exact untimed_dataCallListChanged now s t
    | reset gone again => exact untimed_modemReset now s _ gone again
    | loopback state =>
      dsimp only
      split <;> exact untimed_of_same (by simp) rfl rfl
  · exact untimed_of_same (by simp) rfl rfl

/-- An event is a START that is read, or one without attempts. -/
theorem handle_cases (c : CallProfile) (now : Nat) (s : MainLoop) (e : MainEvent) :
    (∃ r check rest, e = .signal r check ∧ s.running = true ∧ s.signals = .start :: rest ∧
      s.handle c e = sigEventStart c r { s with signals := rest, alarm := none }) ∨
    Untimed now s e (s.handle c e) := by
  by_cases hstart : s.running = true ∧ (∃ r check, e = .signal r check) ∧
      s.signals.head? = some .start
  · obtain ⟨hrun, ⟨r, check, rfl⟩, hhead⟩ := hstart
    obtain ⟨rest, hsignals⟩ := List.head?_eq_some_iff.mp hhead
    exact .inl ⟨r, check, rest, rfl, hrun, hsignals, handle_start c r check hrun hsignals⟩
  · exact .inr (handle_untimed c now fun hrun he hhead => hstart ⟨hrun, he, hhead⟩)

theorem allowTime_pos (n : Nat) : 0 < allowTime n := by
  unfold allowTime
  match n with
  | 0 | 1 | 2 | 3 | 4 => decide
  | n + 5 => simp

theorem allowTime_le (n : Nat) : allowTime n ≤ 60 := by
  unfold allowTime
  match n with
  | 0 | 1 | 2 | 3 | 4 => decide
  | n + 5 => simp

def Deed.seconds : Deed → Option Nat
  | .later seconds _ => some seconds
  | _ => none

/-- After a message that says how long to wait, nothing is attempted before that. -/
def Waits (x y : Deed) : Prop :=
  ∀ seconds time, x = .later seconds time → ∀ t ∈ y.time, time + 1000 * seconds ≤ t

theorem waits_of_timeless {x y : Deed} (h : x.time = none ∨ y.time = none) : Waits x y := by
  rintro seconds time rfl t ht
  rcases h with h | h
  · cases h
  · rw [h] at ht
    cases ht

/-- What a step does to the timing: nothing is attempted too early, and the messages say when the
next attempt may be made. -/
structure Timed (c : CallProfile) (s : MainLoop) (r : MainLoop × List Deed) : Prop where
  mono : s.SetupCallAllowTime ≤ r.1.SetupCallAllowTime
  notBefore : ∀ d ∈ r.2, ∀ t ∈ d.time, s.SetupCallAllowTime ≤ t
  noted : ∀ seconds time, .later seconds time ∈ r.2 →
    time + 1000 * seconds ≤ r.1.SetupCallAllowTime
  waits : r.2.Pairwise Waits
  counted : r.2.filterMap Deed.seconds = [] ∧
      (r.1.SetupCallFail = s.SetupCallFail ∨ r.1.Up ∧ ¬ r.1.Down c) ∨
    r.2.filterMap Deed.seconds = [allowTime s.SetupCallFail] ∧
      r.1.SetupCallFail = s.SetupCallFail + 1

theorem timed_of_timeless (c : CallProfile) {s : MainLoop} {r : MainLoop × List Deed}
    (hallow : r.1.SetupCallAllowTime = s.SetupCallAllowTime)
    (hfail : r.1.SetupCallFail = s.SetupCallFail) (htime : ∀ d ∈ r.2, d.time = none) :
    Timed c s r where
  mono := hallow.ge
  notBefore := fun d hd t ht => by rw [htime d hd] at ht; cases ht
  noted := fun seconds time hmem => by cases htime _ hmem
  waits := List.pairwise_of_forall_mem_list fun x hx y _ => waits_of_timeless (.inl (htime x hx))
  counted := by
    refine .inl ⟨List.filterMap_eq_nil_iff.mpr fun d hd => ?_, .inl hfail⟩
    have := htime d hd
    cases d <;> first | rfl | cases this

/-- The attempts of one START -/
theorem timed_attempts (c : CallProfile) {r : StartReplies} {s t : MainLoop} {ds : List Deed}
    (hnow : s.SetupCallAllowTime ≤ r.checked) (hdone : r.checked ≤ r.done) (ht : OnlyCalls s t)
    (hds : ∀ d ∈ ds, d.isSetup r.checked = true) :
    Timed c s ((afterSetup c r t).1, ds ++ (afterSetup c r t).2) := by
  have hsetup : ∀ d ∈ ds, d.time = some r.checked ∧ d.seconds = none := by
    intro d hd
    have h := hds d hd
    cases d with
    | setup v6 auth time =>
      exact ⟨congrArg some (by simpa [Deed.isSetup] using h), rfl⟩
    | _ => cases h
  have hnone : ds.filterMap Deed.seconds = [] :=
    List.filterMap_eq_nil_iff.mpr fun d hd => (hsetup d hd).2
  have hbefore : ∀ d ∈ ds, ∀ u ∈ d.time, s.SetupCallAllowTime ≤ u := by
    intro d hd u hu
    rw [(hsetup d hd).1] at hu
    rwa [← Option.mem_some_iff.mp hu]
  have hquiet : ∀ x ∈ ds, ∀ y, Waits x y := by
    rintro x hx y seconds time rfl
    cases (hsetup _ hx).2
  have hnolater : ∀ seconds time, .later seconds time ∉ ds := fun seconds time h => by
    cases (hsetup _ h).2
  have hpair : ds.Pairwise Waits := List.pairwise_of_forall_mem_list fun x hx y _ => hquiet x hx y
  unfold afterSetup
  split
  · refine ⟨?_, ?_, ?_, ?_, .inr ⟨?_, ?_⟩⟩
    · dsimp only
      omega
    · intro d hd u hu
      rcases List.mem_append.mp hd with hd | hd
      · exact hbefore d hd u hu
      · rw [List.mem_singleton.mp hd] at hu
        have : r.done = u := Option.mem_some_iff.mp hu
        omega
    · intro seconds time hmem
      rcases List.mem_append.mp hmem with hmem | hmem
      · exact absurd hmem (hnolater seconds time)
      · obtain ⟨rfl, rfl⟩ := Deed.later.inj (List.mem_singleton.mp hmem)
        dsimp only
        omega
    · exact List.pairwise_append.mpr
        ⟨hpair, List.pairwise_singleton _ _, fun x hx y _ => hquiet x hx y⟩
    · rw [List.filterMap_append, hnone, ← ht.fail]
      rfl
    · exact congrArg (· + 1) ht.fail
  · rename_i hdown
    split
    · rename_i hup
      refine ⟨?_, ?_, ?_, ?_, .inl ⟨?_, .inr ⟨hup, hdown⟩⟩⟩
      · dsimp only
        omega
      · simpa using hbefore
      · exact fun seconds time hmem => absurd (by simpa using hmem) (hnolater seconds time)
      · simpa using hpair
      · simpa using hnone
    · refine ⟨ht.allow.ge, ?_, ?_, ?_, .inl ⟨?_, .inl ht.fail⟩⟩
      · simpa using hbefore
      · exact fun seconds time hmem => absurd (by simpa using hmem) (hnolater seconds time)
      · simpa using hpair
      · simpa using hnone

theorem timed_handle (c : CallProfile) {now : Nat} {s : MainLoop} {e : MainEvent}
    (hclock : (now :: e.readings).IsChain (· ≤ ·)) (hquiet : Quiet s e) :
    Timed c s (s.handle c e) := by
  obtain ⟨r, check, rest, rfl, -, -, heq⟩ | h := handle_cases c now s e
  · have := clock_signal hclock
    rw [heq]
    obtain ⟨-, -, hstart⟩ | ⟨-, hstart⟩ | ⟨hnow, t, ds, ht, hds, hstart⟩ :=
      sigEventStart_cases c r { s with signals := rest, alarm := none }
    · rw [hstart]
      exact timed_of_timeless c rfl rfl (by simp)
    · rw [hstart]
      exact timed_of_timeless c (setAlarm_allow _ _) (setAlarm_fail _ _) (by simp)
    · have h := timed_attempts c hnow (by omega) ht hds
      rw [hstart]
      exact ⟨h.mono, h.notBefore, h.noted, h.waits, h.counted⟩
  · exact timed_of_timeless c (h.quiet hquiet) h.fail h.timeless

/-! ## Runs -/

/-- In a run nothing is attempted before the time that is allowed at its beginning, nor before the
time that a message has announced. -/
theorem timed_run (c : CallProfile) {now : Nat} {s : MainLoop} {es : List MainEvent}
    (hclock : Clocked now es) (hquiet : Throughout (MainLoop.handle c) Quiet s es) :
    (∀ d ∈ (react (MainLoop.handle c) s es).2, ∀ t ∈ d.time, s.SetupCallAllowTime ≤ t) ∧
      (react (MainLoop.handle c) s es).2.Pairwise Waits := by
  induction es generalizing now s with
  | nil => exact ⟨by simp, .nil⟩
  | cons e es ih =>
    obtain ⟨hfirst, hrest⟩ := clocked_cons hclock
    have h := timed_handle c hfirst hquiet.1
    obtain ⟨hbefore, hpair⟩ := ih hrest hquiet.2
    rw [react_cons]
    refine ⟨fun d hd t ht => ?_, List.pairwise_append.mpr ⟨h.waits, hpair, ?_⟩⟩
    · rcases List.mem_append.mp hd with hd | hd
      · exact h.notBefore d hd t ht
      · exact h.mono.trans (hbefore d hd t ht)
    · rintro x hx y hy seconds time rfl t ht
      exact (h.noted seconds time hx).trans (hbefore y hy t ht)

/-- The call does not come up: after the event a family that is wanted is down, or none is up. -/
def Failing (c : CallProfile) (s : MainLoop) (e : MainEvent) : Prop :=
  (s.handle c e).1.Up → (s.handle c e).1.Down c

theorem seconds_run (c : CallProfile) {now : Nat} {s : MainLoop} {es : List MainEvent}
    (hclock : Clocked now es) (hquiet : Throughout (MainLoop.handle c) Quiet s es)
    (hfail : Throughout (MainLoop.handle c) (Failing c) s es) :
    ∃ n, (react (MainLoop.handle c) s es).2.filterMap Deed.seconds =
      (List.range n).map fun i => allowTime (s.SetupCallFail + i) := by
  induction es generalizing now s with
  | nil => exact ⟨0, rfl⟩
  | cons e es ih =>
    obtain ⟨hfirst, hrest⟩ := clocked_cons hclock
    have h := timed_handle c hfirst hquiet.1
    obtain ⟨n, hn⟩ := ih hrest hquiet.2 hfail.2
    rw [react_cons, List.filterMap_append, hn]
    obtain ⟨hnone, hsame | ⟨hup, hdown⟩⟩ | ⟨hone, hnext⟩ := h.counted
    · exact ⟨n, by rw [hnone, hsame, List.nil_append]⟩
    · exact absurd (hfail.1 hup) hdown
    · refine ⟨n + 1, ?_⟩
      rw [hone, hnext, List.range_succ_eq_map, List.map_cons, List.map_map]
      refine congrArg (_ :: ·) (List.map_congr_left fun i _ => ?_)
      rw [Function.comp_apply, Nat.succ_eq_add_one, Nat.add_assoc, Nat.add_comm 1]

/-- Attempts back off: in every run in which the network stays and no call that is up changes,
nothing is attempted before the time that the last failure has announced; and as long as the call
does not come up the failures announce 5, 10, 20, 40 seconds and then 60 each. -/
theorem attempts_back_off (c : CallProfile) (PSAttachedState : Byte) (now : Nat) (auth : Int)
    (main_loop : Bool) (es : List MainEvent) (hclock : Clocked now es)
    (hquiet : Throughout (MainLoop.handle c) Quiet (.enter PSAttachedState now auth main_loop) es) :
    let ds := (react (MainLoop.handle c) (.enter PSAttachedState now auth main_loop) es).2
    ds.Pairwise Waits ∧
      (Throughout (MainLoop.handle c) (Failing c) (.enter PSAttachedState now auth main_loop) es →
        ∃ n, ds.filterMap Deed.seconds = (List.range n).map allowTime) := by
  intro ds
  refine ⟨(timed_run c hclock hquiet).2, fun hfail => ?_⟩
  obtain ⟨n, hn⟩ := seconds_run c hclock hquiet hfail
  exact ⟨n, hn.trans (List.map_congr_left fun i _ => congrArg allowTime (Nat.zero_add i))⟩

/-- Two attempts fail; the message of the first one is read before the alarm, and is too early. -/
theorem attempts_back_off_twice :
    let fails (t : Nat) : StartReplies := ⟨t, t, t + 100, 1, 0, 0, 0, 0⟩
    let down : CheckReplies := ⟨some 1, none, true⟩
    let es : List MainEvent := [.signal (fails 0) down, .signal (fails 100) down, .timeout,
      .signal (fails 300) down, .signal (fails 400) down, .alarm, .signal (fails 5200) down]
    let ds := (react (MainLoop.handle ⟨true, false, false⟩) (.enter 1 0 0 true) es).2
    ds.Pairwise Waits ∧ ∃ n, ds.filterMap Deed.seconds = (List.range n).map allowTime := by
  intro fails down es
  have h := attempts_back_off ⟨true, false, false⟩ 1 0 0 true es
    (by simp [Clocked, es, fails, MainEvent.readings])
    ⟨trivial, trivial, trivial, trivial, trivial, trivial, trivial, trivial⟩
  have hdown : Throughout (MainLoop.handle ⟨true, false, false⟩) (Failing ⟨true, false, false⟩)
      (.enter 1 0 0 true) es := by
    refine ⟨?_, ?_, ?_, ?_, ?_, ?_, ?_, trivial⟩
    all_goals exact fun hup => absurd hup (by decide)
  exact ⟨h.1, h.2 hdown⟩

/-! ## No attempt is lost -/

/-- While there is a network and the call is down, a check or an attempt is waiting to be read, or
the alarm is set, to a minute at most. -/
def Due (c : CallProfile) (s : MainLoop) : Prop :=
  s.running = true → s.PSAttachedState = 1 → s.Down c →
    .check ∈ s.signals ∨ .start ∈ s.signals ∨ ∃ n ∈ s.alarm, n ≤ 60

/-- The clock does not reach the time that is allowed between the two readings of a START that is
too early; the alarm would be set to 0 seconds, which takes it back. -/
def Steady (s : MainLoop) : MainEvent → Prop
  | .signal r _ => r.checked < s.SetupCallAllowTime → r.armed < s.SetupCallAllowTime
  | _ => True

theorem due_of_start {c : CallProfile} {s : MainLoop} (h : .start ∈ s.signals) : Due c s :=
  fun _ _ _ => .inr (.inl h)

theorem due_of_check {c : CallProfile} {s : MainLoop} (h : .check ∈ s.signals) : Due c s :=
  fun _ _ _ => .inl h

theorem due_of_stopped {c : CallProfile} {s : MainLoop} (h : s.running = false) : Due c s := by
  intro hrun
  rw [h] at hrun
  cases hrun

theorem due_restart (c : CallProfile) (s : MainLoop) (again : Option (Option Byte)) :
    Due c (restart s again) := by
  cases again with
  | none => exact due_of_stopped rfl
  | some attached => exact due_of_check List.mem_cons_self

/-- What is due stays due when only more is waiting. -/
theorem Due.mono {c : CallProfile} {s t : MainLoop} (h : Due c s) (hrun : t.running = s.running)
    (hattached : t.PSAttachedState = s.PSAttachedState) (hdown : t.Down c → s.Down c)
    (halarm : t.alarm = s.alarm) (hsignals : s.signals ⊆ t.signals) : Due c t := by
  intro htrun htattached htdown
  rw [halarm]
  obtain hcheck | hstart | halarm := h (hrun ▸ htrun) (hattached ▸ htattached) (hdown htdown)
  · exact .inl (hsignals hcheck)
  · exact .inr (.inl (hsignals hstart))
  · exact .inr (.inr halarm)

theorem due_setAlarm {c : CallProfile} {s : MainLoop} {seconds : Nat} (hpos : 0 < seconds)
    (hle : seconds ≤ 60) : Due c (setAlarm s seconds) := by
  have hmod : seconds % 2 ^ 32 = seconds := Nat.mod_eq_of_lt (by omega)
  refine fun _ _ _ => .inr (.inr ⟨seconds, ?_, hle⟩)
  rw [setAlarm]
  dsimp only
  rw [hmod, if_neg (by omega)]
  rfl

/-- The attempts of one START -/
theorem due_afterSetup (c : CallProfile) (r : StartReplies) (s : MainLoop) :
    Due c (afterSetup c r s).1 ∧ (afterSetup c r s).1.SetupCallAllowTime ≤
      max s.SetupCallAllowTime (r.done + 60000) := by
  unfold afterSetup
  split
  · have hle := allowTime_le s.SetupCallFail
    refine ⟨?_, ?_⟩
    · exact due_setAlarm (s := { s with
        SetupCallFail := s.SetupCallFail + 1
        SetupCallAllowTime := allowTime s.SetupCallFail * 1000 + r.done })
        (allowTime_pos _) hle
    · dsimp only
      omega
  · rename_i hdown
    split
    · exact ⟨fun _ _ h => absurd h hdown, by dsimp only; omega⟩
    · exact ⟨fun _ _ h => absurd h hdown, le_max_left _ _⟩

/-- A START that is read leaves something due: either it may not be made without a network, or it
sets the alarm, or it has been made. -/
theorem due_start (c : CallProfile) {now : Nat} {r : StartReplies} {s : MainLoop}
    (hclock : now ≤ r.checked ∧ r.checked ≤ r.armed ∧ r.armed ≤ r.done)
    (hnear : s.SetupCallAllowTime ≤ now + 60000)
    (hsteady : r.checked < s.SetupCallAllowTime → r.armed < s.SetupCallAllowTime) :
    Due c (sigEventStart c r s).1 ∧
      (sigEventStart c r s).1.SetupCallAllowTime ≤ r.done + 60000 := by
  obtain ⟨hattached, -, heq⟩ | ⟨hearly, heq⟩ | ⟨-, t, ds, ht, -, heq⟩ := sigEventStart_cases c r s
  · rw [heq]
    refine ⟨fun _ h => absurd h hattached, ?_⟩
    dsimp only
    omega
  · have harmed := hsteady hearly
    rw [heq]
    refine ⟨due_setAlarm (by omega) (by omega), ?_⟩
    rw [setAlarm_allow]
    omega
  · obtain ⟨hdue, hle⟩ := due_afterSetup c r t
    rw [heq]
    refine ⟨hdue, hle.trans ?_⟩
    rw [ht.allow]
    omega

theorem due_check (c : CallProfile) (r : CheckReplies) (s : MainLoop) :
    Due c (sigEventCheck c r s).1 := by
  obtain ⟨t, ds, ht, -, heq⟩ := sigEventCheck_eq c r s
  rw [heq]
  dsimp only
  split
  · exact due_of_start (by simp [sendSigno])
  · rename_i hdown
    exact fun _ _ h => absurd h hdown

theorem due_networkStateChanged (c : CallProfile) (s : MainLoop) (attached : Option Byte)
    (now : Nat) : Due c (networkStateChanged c s attached now) := by
  unfold networkStateChanged
  dsimp only
  split
  · split
    · exact due_of_start (by simp [sendSigno])
    · rename_i hdown
      exact fun _ _ h => absurd h hdown
  · rename_i hlost
    exact fun _ h => absurd h hlost

theorem due_deviceDisconnected (c : CallProfile) (s : MainLoop) (again : Option (Option Byte)) :
    Due c (deviceDisconnected s again).1 := by
  unfold deviceDisconnected
  dsimp only
  split
  · exact due_restart c _ again
  · exact due_of_stopped rfl

theorem due_modemReset (c : CallProfile) (s : MainLoop) (gone : Bool)
    (again : Option (Option Byte)) : Due c (modemReset s gone again).1 := by
  unfold modemReset
  dsimp only
  split
  · exact due_of_stopped rfl
  · exact due_restart c _ again

/-- What one event leaves due, and how far off the next attempt is then. -/
theorem due_handle {c : CallProfile} {now : Nat} {s : MainLoop} {e : MainEvent}
    (hclock : (now :: e.readings).IsChain (· ≤ ·)) (hnear : s.SetupCallAllowTime ≤ now + 60000)
    (hsteady : Steady s e) (h : Due c s) : Due c (s.handle c e).1 := by
  unfold MainLoop.handle
  split
  · cases e with
    | timeout => exact due_of_check (by simp [sendSigno])
    | pollFailed => exact due_of_stopped rfl
    | pollError => exact h
    | hangup => exact due_of_stopped rfl
    | alarm =>
      dsimp only
      split
      · exact h
      · exact due_of_start (by simp [sendSigno])
    | interrupt => exact h.mono rfl rfl id rfl (by simp [sendSigno])
    | signal start check =>
      show Due c (readSigno c start check s).1
      unfold readSigno
      split
      · exact h
      · rename_i signo rest _
        cases signo
        · exact (due_start c (s := { s with signals := rest, alarm := none })
            (clock_signal hclock) hnear hsteady).1
        · exact due_check c check _
        · exact due_of_stopped rfl
    | disconnected again => exact due_deviceDisconnected c s again
    | networkState attached t => exact due_networkStateChanged c s attached t
    | dataCallList t => exact due_of_check (by simp [dataCallListChanged, sendSigno])
    | reset gone again => exact due_modemReset c s gone again
    | loopback state =>
      dsimp only
      split
      · exact due_of_start (by simp [sendSigno])
      · exact h.mono rfl rfl id rfl fun _ => id
  · exact h

theorem near_handle (c : CallProfile) {now : Nat} {s : MainLoop} {e : MainEvent}
    (hclock : (now :: e.readings).IsChain (· ≤ ·)) (hnear : s.SetupCallAllowTime ≤ now + 60000)
    (hsteady : Steady s e) : (s.handle c e).1.SetupCallAllowTime ≤ clockAfter now e + 60000 := by
  obtain ⟨r, check, rest, rfl, -, -, heq⟩ | h := handle_cases c now s e
  · rw [heq]
    exact (due_start c (s := { s with signals := rest, alarm := none })
      (clock_signal hclock) hnear hsteady).2
  · have hlater := le_clockAfter hclock
    obtain hsame | hsoon := h.near
    · omega
    · omega

theorem due_run (c : CallProfile) {now : Nat} {s : MainLoop} {es : List MainEvent}
    (hclock : Clocked now es) (hsteady : Throughout (MainLoop.handle c) Steady s es)
    (hnear : s.SetupCallAllowTime ≤ now + 60000) (h : Due c s) :
    Due c (react (MainLoop.handle c) s es).1 := by
  induction es generalizing now s with
  | nil => exact h
  | cons e es ih =>
    obtain ⟨hfirst, hrest⟩ := clocked_cons hclock
    exact ih hrest hsteady.2 (near_handle c hfirst hnear hsteady.1)
      (due_handle hfirst hnear hsteady.1 h)

/-- No attempt is lost: in every run in which the clock does not reach the time that is allowed
between the two readings of one START, while the loop runs, there is a network and the call is down,
a check or an attempt is waiting to be read or the alarm is set, to a minute at most. -/
theorem attempt_is_due (c : CallProfile) (PSAttachedState : Byte) (now : Nat) (auth : Int)
    (main_loop : Bool) (es : List MainEvent) (hclock : Clocked now es)
    (hsteady :
      Throughout (MainLoop.handle c) Steady (.enter PSAttachedState now auth main_loop) es) :
    let s := (react (MainLoop.handle c) (.enter PSAttachedState now auth main_loop) es).1
    s.running = true → s.PSAttachedState = 1 → s.Down c →
      .check ∈ s.signals ∨ .start ∈ s.signals ∨ ∃ n ∈ s.alarm, n ≤ 60 :=
  due_run c hclock hsteady (Nat.le_add_right now 60000) (due_of_check List.mem_cons_self)

/-- The attempt has failed, and a second one comes too early. -/
theorem attempt_is_due_early :
    let fails (t : Nat) : StartReplies := ⟨t, t, t + 100, 1, 0, 0, 0, 0⟩
    let down : CheckReplies := ⟨some 1, none, true⟩
    let es : List MainEvent := [.signal (fails 0) down, .signal (fails 100) down, .timeout,
      .signal (fails 300) down, .signal (fails 400) down]
    let s := (react (MainLoop.handle ⟨true, false, false⟩) (.enter 1 0 0 true) es).1
    .check ∈ s.signals ∨ .start ∈ s.signals ∨ ∃ n ∈ s.alarm, n ≤ 60 := by
  intro fails down es s
  exact attempt_is_due ⟨true, false, false⟩ 1 0 0 true es
    (by simp [Clocked, es, fails, MainEvent.readings]) ⟨id, id, trivial, id, id, trivial⟩
    (by decide) (by decide) (by decide)

end BoardTest.Qmi
