import BoardTest.Qmi.MainLoop

/-!
# The network interface follows the data call

`usbnet_link_change` starts and stops the DHCP client, and does nothing when the link is in the
state that it is asked for. Over a run the starts and stops take turns, but for a reset of the
modem, after which the link counts as down without a stop; and when the loop has ended the link is
down (`link_taken_down`).
-/

namespace BoardTest.Qmi

/-- The deeds that change the link. -/
def Deed.aboutLink : Deed → Bool
  | .udhcpc_start => true
  | .udhcpc_stop => true
  | .usbnet_link_state => true
  | _ => false

/-- What a list of deeds makes of `s_link`, when it starts and stops only where something
changes. -/
def follow : Int → List Deed → Option Int
  | l, [] => some l
  | l, d :: ds =>
    match d with
    | .udhcpc_start => if l = 1 then none else follow 1 ds
    | .udhcpc_stop => if l = 0 then none else follow 0 ds
    | .usbnet_link_state => follow 0 ds
    | _ => follow l ds

theorem follow_append (l : Int) (ds es : List Deed) :
    follow l (ds ++ es) = (follow l ds).bind fun l' => follow l' es := by
  induction ds generalizing l with
  | nil => rfl
  | cons d ds ih =>
    rw [List.cons_append]
    cases d <;> simp only [follow, ih]
    · split <;> rfl
    · split <;> rfl

theorem follow_neutral {l : Int} {ds : List Deed} (h : ∀ d ∈ ds, d.aboutLink = false) :
    follow l ds = some l := by
  induction ds with
  | nil => rfl
  | cons d ds ih =>
    have hd := h d List.mem_cons_self
    have hds := ih fun e he => h e (List.mem_cons_of_mem d he)
    cases d <;> first | exact hds | cases hd

/-- A step that does to the link what its deeds say. -/
def Honest (s : MainLoop) (r : MainLoop × List Deed) : Prop :=
  follow s.s_link r.2 = some r.1.s_link

theorem honest_neutral {s : MainLoop} {r : MainLoop × List Deed} (hlink : r.1.s_link = s.s_link)
    (h : ∀ d ∈ r.2, d.aboutLink = false) : Honest s r := by
  rw [Honest, follow_neutral h, hlink]

theorem Honest.append {s t u : MainLoop} {ds es : List Deed} (h : Honest s (t, ds))
    (h' : Honest t (u, es)) : Honest s (u, ds ++ es) := by
  rw [Honest] at h h' ⊢
  rw [follow_append, h, Option.bind_some, h']

theorem honest_usbnetLinkChange (s : MainLoop) (link : Bool) :
    Honest s (usbnetLinkChange s link) := by
  have hlink : ∀ (l : Int) (d : Deed), (s.s_link ≠ l → follow s.s_link [d] = some l) →
      follow s.s_link (if s.s_link = l then [] else [d]) = some l := by
    intro l d hd
    split
    · rename_i hsame
      rw [hsame]
      rfl
    · rename_i hne
      exact hd hne
  cases link
  · exact hlink 0 .udhcpc_stop fun hne => if_neg hne
  · exact hlink 1 .udhcpc_start fun hne => if_neg hne

theorem honest_mainQuit (s : MainLoop) : Honest s (mainQuit s) := honest_usbnetLinkChange s false

theorem s_link_restart (s : MainLoop) (again : Option (Option Byte)) :
    (restart s again).s_link = s.s_link := by
  cases again <;> rfl

theorem afterSetup_neutral (c : CallProfile) (r : StartReplies) (s : MainLoop) :
    (afterSetup c r s).1.s_link = s.s_link ∧
      ∀ d ∈ (afterSetup c r s).2, d.aboutLink = false := by
  unfold afterSetup
  split
  · simp [setAlarm, Deed.aboutLink]
  · split <;> simp

theorem honest_sigEventStart (c : CallProfile) (r : StartReplies) (s : MainLoop) :
    Honest s (sigEventStart c r s) := by
  obtain ⟨-, -, heq⟩ | ⟨-, heq⟩ | ⟨-, t, ds, ht, hds, heq⟩ := sigEventStart_cases c r s
  · rw [heq]
    exact honest_neutral rfl (by simp)
  · rw [heq]
    exact honest_neutral (setAlarm_s_link s _) (by simp)
  · obtain ⟨hlink, hafter⟩ := afterSetup_neutral c r t
    rw [heq]
    refine honest_neutral (hlink.trans ht.link) fun d hd => ?_
    rcases List.mem_append.mp hd with hd | hd
    · have hsetup := hds d hd
      cases d <;> first | rfl | cases hsetup
    · exact hafter d hd

theorem honest_linkFollows (s : MainLoop) : Honest s (linkFollows s) := by
  unfold linkFollows
  split
  · exact honest_usbnetLinkChange s false
  · split
    · exact honest_usbnetLinkChange s true
    · rfl

theorem honest_sigEventCheck (c : CallProfile) (r : CheckReplies) (s : MainLoop) :
    Honest s (sigEventCheck c r s) := by
  have h₄ : Honest s (queryIpv6 c r (queryIpv4 c r s).1, (queryIpv4 c r s).2) := by
    refine honest_neutral rfl fun d hd => ?_
    rw [queryIpv4] at hd
    dsimp only at hd
    split at hd
    · rw [List.mem_singleton.mp hd]
      rfl
    · cases hd
  have h := h₄.append (honest_linkFollows (queryIpv6 c r (queryIpv4 c r s).1))
  rw [sigEventCheck]
  dsimp only
  split <;> exact h

theorem honest_sigEventStop (c : CallProfile) (s : MainLoop) : Honest s (sigEventStop c s) := by
  rw [sigEventStop]
  dsimp only
  have hcalls : ∀ ds : List Deed, (∀ d ∈ ds, d.aboutLink = false) → Honest s (s, ds) :=
    fun ds hds => honest_neutral rfl hds
  have hdeinit : Honest (usbnetLinkChange s false).1
      ((usbnetLinkChange s false).1, [.deinit, .toQmiDevice RIL_REQUEST_QUIT]) := rfl
  refine (((hcalls _ ?_).append (honest_usbnetLinkChange s false)).append hdeinit).append
    (honest_mainQuit _)
  intro d hd
  rcases List.mem_append.mp hd with hd | hd
  all_goals
    split at hd
    · rw [List.mem_singleton.mp hd]
      rfl
    · cases hd

theorem honest_readSigno (c : CallProfile) (start : StartReplies) (check : CheckReplies)
    (s : MainLoop) : Honest s (readSigno c start check s) := by
  unfold readSigno
  split
  · rfl
  · rename_i signo rest _
    cases signo
    · exact honest_sigEventStart c start { s with signals := rest, alarm := none }
    · exact honest_sigEventCheck c check { s with signals := rest, alarm := none }
    · exact honest_sigEventStop c { s with signals := rest, alarm := none }

theorem honest_deviceDisconnected (s : MainLoop) (again : Option (Option Byte)) :
    Honest s (deviceDisconnected s again) := by
  have h := honest_usbnetLinkChange s false
  unfold deviceDisconnected
  dsimp only
  split
  · rw [Honest] at h ⊢
    rw [h, s_link_restart]
  · exact h.append (honest_mainQuit _)

theorem honest_modemReset (s : MainLoop) (gone : Bool) (again : Option (Option Byte)) :
    Honest s (modemReset s gone again) := by
  unfold modemReset
  dsimp only
  split
  · rfl
  · show some 0 = some (restart _ again).s_link
    rw [s_link_restart]

theorem s_link_networkStateChanged (c : CallProfile) (s : MainLoop) (attached : Option Byte)
    (now : Nat) : (networkStateChanged c s attached now).s_link = s.s_link := by
  unfold networkStateChanged
  dsimp only
  repeat' split
  all_goals rfl

theorem s_link_dataCallListChanged (s : MainLoop) (now : Nat) :
    (dataCallListChanged s now).s_link = s.s_link := by
  unfold dataCallListChanged
  split <;> rfl

/-- What the loop says that it does to the link is what it does. -/
theorem honest_handle (c : CallProfile) (s : MainLoop) (e : MainEvent) :
    Honest s (s.handle c e) := by
  unfold MainLoop.handle
  split
  · cases e with
    | timeout => rfl
    | pollFailed => exact honest_mainQuit s
    | pollError => rfl
    | hangup =>
      have h : Honest s (s, [.toQmiDevice RIL_REQUEST_QUIT]) := rfl
      exact h.append (honest_mainQuit s)
    | alarm =>
      dsimp only
      split <;> rfl
    | interrupt => rfl
    | signal start check => exact honest_readSigno c start check s
    | disconnected again => exact honest_deviceDisconnected s again
    | networkState attached now =>
      exact honest_neutral (s_link_networkStateChanged c s attached now) (by simp)
    | dataCallList now =>
      exact honest_neutral (s_link_dataCallListChanged s now) (by simp)
    | reset gone again => exact honest_modemReset s gone again
    | loopback state =>
      refine honest_neutral ?_ (by simp)
      dsimp only
      split <;> rfl
  · rfl

/-- When the loop has ended the link is down. -/
def Ended (s : MainLoop) : Prop := s.running = false → s.s_link = 0

theorem ended_of_running {s : MainLoop} (h : s.running = true) : Ended s := by
  intro hend
  rw [h] at hend
  cases hend

theorem ended_restart {s : MainLoop} (hlink : s.s_link = 0) (again : Option (Option Byte)) :
    Ended (restart s again) := fun _ => (s_link_restart s again).trans hlink

theorem running_sigEventStart (c : CallProfile) (r : StartReplies) (s : MainLoop) :
    (sigEventStart c r s).1.running = s.running := by
  have hafter : ∀ t, (afterSetup c r t).1.running = t.running := by
    intro t
    unfold afterSetup
    split
    · rfl
    · split <;> rfl
  obtain ⟨-, -, heq⟩ | ⟨-, heq⟩ | ⟨-, t, ds, ht, -, heq⟩ := sigEventStart_cases c r s
  · rw [heq]
  · rw [heq]
    exact setAlarm_running s _
  · rw [heq]
    exact (hafter t).trans ht.running

theorem running_sigEventCheck (c : CallProfile) (r : CheckReplies) (s : MainLoop) :
    (sigEventCheck c r s).1.running = s.running := by
  obtain ⟨t, ds, ht, -, heq⟩ := sigEventCheck_eq c r s
  rw [heq]
  dsimp only
  split <;> exact ht.running

theorem running_networkStateChanged (c : CallProfile) (s : MainLoop) (attached : Option Byte)
    (now : Nat) : (networkStateChanged c s attached now).running = s.running := by
  unfold networkStateChanged
  dsimp only
  repeat' split
  all_goals rfl

theorem running_dataCallListChanged (s : MainLoop) (now : Nat) :
    (dataCallListChanged s now).running = s.running := by
  unfold dataCallListChanged
  split <;> rfl

theorem ended_readSigno (c : CallProfile) (start : StartReplies) (check : CheckReplies)
    {s : MainLoop} (hrun : s.running = true) : Ended (readSigno c start check s).1 := by
  unfold readSigno
  split
  · exact ended_of_running hrun
  · rename_i signo rest _
    cases signo
    · exact ended_of_running ((running_sigEventStart ..).trans hrun)
    · exact ended_of_running ((running_sigEventCheck ..).trans hrun)
    · exact fun _ => rfl

theorem ended_deviceDisconnected (s : MainLoop) (again : Option (Option Byte)) :
    Ended (deviceDisconnected s again).1 := by
  unfold deviceDisconnected
  dsimp only
  split
  · exact ended_restart rfl again
  · exact fun _ => rfl

theorem ended_modemReset (s : MainLoop) (gone : Bool) (again : Option (Option Byte)) :
    Ended (modemReset s gone again).1 := by
  unfold modemReset
  dsimp only
  split
  · exact fun _ => rfl
  · exact ended_restart rfl again

theorem ended_handle {c : CallProfile} {s : MainLoop} (hs : Ended s) (e : MainEvent) :
    Ended (s.handle c e).1 := by
  unfold MainLoop.handle
  split
  · rename_i hrun
    cases e with
    | timeout => exact ended_of_running hrun
    | pollFailed => exact fun _ => rfl
    | pollError => exact ended_of_running hrun
    | hangup => exact fun _ => rfl
    | alarm =>
      dsimp only
      split <;> exact ended_of_running hrun
    | interrupt => exact ended_of_running hrun
    | signal start check => exact ended_readSigno c start check hrun
    | disconnected again => exact ended_deviceDisconnected s again
    | networkState attached now =>
      exact ended_of_running ((running_networkStateChanged c s attached now).trans hrun)
    | dataCallList now => exact ended_of_running ((running_dataCallListChanged s now).trans hrun)
    | reset gone again => exact ended_modemReset s gone again
    | loopback state =>
      refine ended_of_running ?_
      dsimp only
      split <;> exact hrun
  · exact hs

/-! ## Runs -/

theorem follow_run (c : CallProfile) (s : MainLoop) (es : List MainEvent) :
    follow s.s_link (react (MainLoop.handle c) s es).2 =
      some (react (MainLoop.handle c) s es).1.s_link := by
  induction es generalizing s with
  | nil => rfl
  | cons e es ih =>
    have he : follow s.s_link (s.handle c e).2 = some (s.handle c e).1.s_link :=
      honest_handle c s e
    rw [react_cons, follow_append, he, Option.bind_some, ih]

/-- From a link that is up the next change is one down. -/
theorem find?_aboutLink {ds : List Deed} {l : Int} (h : follow 1 ds = some l) :
    ds.find? Deed.aboutLink = some .udhcpc_stop ∨
      ds.find? Deed.aboutLink = some .usbnet_link_state ∨
      ds.find? Deed.aboutLink = none ∧ l = 1 := by
  induction ds with
  | nil => exact .inr (.inr ⟨rfl, (Option.some.inj h).symm⟩)
  | cons d ds ih =>
    cases d with
    | udhcpc_start => cases h
    | udhcpc_stop => exact .inl rfl
    | usbnet_link_state => exact .inr (.inl rfl)
    | _ => exact ih h

/-- The link is taken down again: in every run, after each start of the DHCP client the next
change of the link is a stop or a reset of the modem, and when there is none yet the loop is still
running with the link up. -/
theorem link_taken_down (c : CallProfile) (PSAttachedState : Byte) (now : Nat) (auth : Int)
    (main_loop : Bool) (es : List MainEvent) (before after : List Deed)
    (h : (react (MainLoop.handle c) (.enter PSAttachedState now auth main_loop) es).2 =
      before ++ .udhcpc_start :: after) :
    let s := (react (MainLoop.handle c) (.enter PSAttachedState now auth main_loop) es).1
    after.find? Deed.aboutLink = some .udhcpc_stop ∨
      after.find? Deed.aboutLink = some .usbnet_link_state ∨
      after.find? Deed.aboutLink = none ∧ s.s_link = 1 ∧ s.running = true := by
  have hended :
      Ended (react (MainLoop.handle c) (.enter PSAttachedState now auth main_loop) es).1 := by
    have hstep : ∀ s e, Ended s → True → Ended (s.handle c e).1 := fun s e hs _ => ended_handle hs e
    exact react_invariant hstep (ended_of_running rfl) (throughout_of_forall fun _ _ => trivial)
  intro s
  have hfollow := follow_run c (.enter PSAttachedState now auth main_loop) es
  rw [h, follow_append] at hfollow
  obtain ⟨l, -, hl⟩ := Option.bind_eq_some_iff.mp hfollow
  have hup : follow 1 after = some s.s_link := by
    rw [follow] at hl
    split at hl
    · cases hl
    · exact hl
  obtain hstop | hlost | ⟨hnone, hlink⟩ := find?_aboutLink hup
  · exact .inl hstop
  · exact .inr (.inl hlost)
  · refine .inr (.inr ⟨hnone, hlink, ?_⟩)
    by_contra hend
    have hzero : s.s_link = 0 := hended (by simpa using hend)
    omega

/-- The call is up at the first check; then the program is interrupted. -/
theorem link_taken_down_interrupt :
    let start : StartReplies := ⟨0, 0, 0, 0, 0, 0, 0, 0⟩
    let es : List MainEvent := [.signal start ⟨some 2, none, true⟩, .interrupt,
      .signal start ⟨none, none, true⟩]
    let after : List Deed := [.toQmiDevice SIG_EVENT_STOP, .deactivate false, .udhcpc_stop, .deinit,
      .toQmiDevice RIL_REQUEST_QUIT]
    let s := (react (MainLoop.handle ⟨true, false, false⟩) (.enter 1 0 0 true) es).1
    after.find? Deed.aboutLink = some .udhcpc_stop ∨
      after.find? Deed.aboutLink = some .usbnet_link_state ∨
      after.find? Deed.aboutLink = none ∧ s.s_link = 1 ∧ s.running = true := by
  intro start es after s
  exact link_taken_down ⟨true, false, false⟩ 1 0 0 true es [] after (by decide)

end BoardTest.Qmi
