import BoardTest.Lib.CString
import BoardTest.Lib.Reactive

/-!
# Keeping the data call up (`main.c`)

`qmi_main` waits for signals and for what the thread that reads has to tell, and sets the data call
up again when it is gone. A signal number is a message to itself on a socket pair: SIGALRM and the
checks send START, every 15 seconds without an event send CHECK, SIGINT and SIGTERM send STOP.

What the modem answers and what the clock shows comes with the event. The initialisation that
follows a `goto __main_loop` is one step, with the state in which it leaves the loop.
-/

namespace BoardTest.Qmi

def QWDS_PKT_DATA_DISCONNECTED : Byte := 0x01
def QWDS_PKT_DATA_CONNECTED : Byte := 0x02

/-- What is written to `signal_control_fd`. -/
inductive Signo
  | start
  | check
  | stop
deriving DecidableEq

/-- The fields of the profile that stay as they are; `credentials` says that there are a user and a
password and neither is empty. -/
structure CallProfile where
  enable_ipv4 : Bool
  enable_ipv6 : Bool
  credentials : Bool

/-- The variables of `qmi_main`, `s_link`, `main_loop` and the fields of the profile that change;
`alarm` is the alarm that is set, and `signals` what has been written to `signal_control_fd` and not
been read. `SetupCallFail` is an `unsigned`, which would have to count 2 ^ 32 failures, at least
five seconds apart, before it began again; here it counts on. -/
structure MainLoop where
  PSAttachedState : Byte
  IPv4ConnectionStatus : Byte
  IPv6ConnectionStatus : Byte
  SetupCallFail : Nat
  SetupCallAllowTime : Nat
  s_link : Int
  auth : Int
  loopback_state : Byte
  main_loop : Bool
  alarm : Option Nat
  signals : List Signo
  running : Bool

/-- What the loop does; `setup` is `requestSetupDataCall`, with the time at which the signal was let
through, and `later` the message that says when the next attempt is made. -/
inductive Deed
  | setup (v6 : Bool) (auth : Int) (time : Nat)
  | deactivate (v6 : Bool)
  | udhcpc_start
  | udhcpc_stop
  | usbnet_link_state
  | later (seconds time : Nat)
  | deinit
  | toQmiDevice (triger_event : Nat)
deriving DecidableEq

def SIG_EVENT_STOP : Nat := 2
def RIL_REQUEST_QUIT : Nat := 0x1000

/-- `alarm(seconds)`, of an `unsigned long` that becomes an `unsigned int` -/
def setAlarm (s : MainLoop) (seconds : Nat) : MainLoop :=
  { s with alarm := if seconds % 2 ^ 32 = 0 then none else some (seconds % 2 ^ 32) }

@[simp] theorem setAlarm_s_link (s : MainLoop) (seconds : Nat) :
    (setAlarm s seconds).s_link = s.s_link := rfl

@[simp] theorem setAlarm_running (s : MainLoop) (seconds : Nat) :
    (setAlarm s seconds).running = s.running := rfl

@[simp] theorem setAlarm_allow (s : MainLoop) (seconds : Nat) :
    (setAlarm s seconds).SetupCallAllowTime = s.SetupCallAllowTime := rfl

@[simp] theorem setAlarm_fail (s : MainLoop) (seconds : Nat) :
    (setAlarm s seconds).SetupCallFail = s.SetupCallFail := rfl

/-- `send_signo_to_main` -/
def sendSigno (s : MainLoop) (signo : Signo) : MainLoop :=
  { s with signals := s.signals ++ [signo] }

/-- `usbnet_link_change` -/
def usbnetLinkChange (s : MainLoop) (link : Bool) : MainLoop × List Deed :=
  ({ s with s_link := if link then 1 else 0 },
    if s.s_link = if link then 1 else 0 then []
    else [if link then .udhcpc_start else .udhcpc_stop])

/-- An enabled family is known to be disconnected. -/
def MainLoop.Down (c : CallProfile) (s : MainLoop) : Prop :=
  c.enable_ipv4 ∧ s.IPv4ConnectionStatus = QWDS_PKT_DATA_DISCONNECTED ∨
    c.enable_ipv6 ∧ s.IPv6ConnectionStatus = QWDS_PKT_DATA_DISCONNECTED

instance (c : CallProfile) (s : MainLoop) : Decidable (s.Down c) :=
  inferInstanceAs (Decidable (_ ∨ _))

def MainLoop.Up (s : MainLoop) : Prop :=
  s.IPv4ConnectionStatus = QWDS_PKT_DATA_CONNECTED ∨
    s.IPv6ConnectionStatus = QWDS_PKT_DATA_CONNECTED

instance (s : MainLoop) : Decidable s.Up := inferInstanceAs (Decidable (_ ∨ _))

/-- `__main_quit` -/
def mainQuit (s : MainLoop) : MainLoop × List Deed :=
  let (s', ds) := usbnetLinkChange s false
  ({ s' with running := false }, ds)

/-- The clock when `SetupCallAllowTime` is looked at, when the alarm is set and when the attempts
are over; and what the requests return. -/
structure StartReplies where
  checked : Nat
  armed : Nat
  done : Nat
  setup4 : Int
  retry4 : Int
  address4 : Int
  setup6 : Int
  address6 : Int

/-- The other kind of authentication -/
def otherAuth (auth : Int) : Int := if auth = 1 then 2 else 1

/-- `requestSetupDataCall` and `requestGetIPAddress` for IPv4, with a second attempt when the kind
of authentication may be wrong -/
def setupIpv4 (c : CallProfile) (r : StartReplies) (s : MainLoop) : MainLoop × List Deed :=
  let again := r.setup4 > 0 ∧ c.credentials
  let qmierr := if again then r.retry4 else r.setup4
  ({ s with
      -- the old kind comes back when the second attempt has failed, too
      auth := if again ∧ qmierr = 0 then otherAuth s.auth else s.auth
      IPv4ConnectionStatus :=
        if qmierr = 0 ∧ r.address4 = 0 then QWDS_PKT_DATA_CONNECTED
        else s.IPv4ConnectionStatus },
    .setup false s.auth r.checked ::
      if again then [.setup false (otherAuth s.auth) r.checked] else [])

/-- `requestSetupDataCall` and `requestGetIPAddress` for IPv6 -/
def setupIpv6 (r : StartReplies) (s : MainLoop) : MainLoop × List Deed :=
  ({ s with
      IPv6ConnectionStatus :=
        if r.setup6 = 0 ∧ r.address6 = 0 then QWDS_PKT_DATA_CONNECTED
        else s.IPv6ConnectionStatus },
    [.setup true s.auth r.checked])

/-- `allow_time`, and 60 beyond its end -/
def allowTime (SetupCallFail : Nat) : Nat := [5, 10, 20, 40, 60].getD SetupCallFail 60

/-- What is noted when the attempts are over. -/
def afterSetup (c : CallProfile) (r : StartReplies) (s : MainLoop) : MainLoop × List Deed :=
  if s.Down c then
    let seconds := allowTime s.SetupCallFail
    ({ setAlarm s seconds with
        SetupCallFail := s.SetupCallFail + 1
        SetupCallAllowTime := seconds * 1000 + r.done }, [.later seconds r.done])
  else if s.Up then ({ s with SetupCallFail := 0, SetupCallAllowTime := r.done }, [])
  else (s, [])

/-- `case SIG_EVENT_START` -/
def sigEventStart (c : CallProfile) (r : StartReplies) (s : MainLoop) : MainLoop × List Deed :=
  if s.PSAttachedState ≠ 1 ∧ s.loopback_state = 0 then (s, [])
  else if s.SetupCallAllowTime > r.checked then
    -- the clock is read a second time, and the difference is one of unsigned numbers
    (setAlarm s ((s.SetupCallAllowTime + 2 ^ 64 - r.armed + 999) % 2 ^ 64 / 1000), [])
  else
    let (s₄, ds₄) :=
      if c.enable_ipv4 ∧ s.IPv4ConnectionStatus ≠ QWDS_PKT_DATA_CONNECTED then setupIpv4 c r s
      else (s, [])
    let (s₆, ds₆) :=
      if c.enable_ipv6 ∧ s₄.IPv6ConnectionStatus ≠ QWDS_PKT_DATA_CONNECTED then setupIpv6 r s₄
      else (s₄, [])
    let (s', ds) := afterSetup c r s₆
    (s', ds₄ ++ ds₆ ++ ds)

/-- The states that `requestQueryDataCall` finds, if it gets an answer, and whether
`check_ipv4_address` says that the address is still the same. -/
structure CheckReplies where
  status4 : Option Byte
  status6 : Option Byte
  sameAddress : Bool

/-- The state of IPv4. A call whose address is no longer the same is given up. -/
def queryIpv4 (c : CallProfile) (r : CheckReplies) (s : MainLoop) : MainLoop × List Deed :=
  let status := r.status4.getD s.IPv4ConnectionStatus
  let lost := c.enable_ipv4 ∧ status = QWDS_PKT_DATA_CONNECTED ∧ r.sameAddress = false
  ({ s with
      IPv4ConnectionStatus :=
        if c.enable_ipv4 = false ∨ lost then QWDS_PKT_DATA_DISCONNECTED else status },
    if lost then [.deactivate false] else [])

/-- The state of IPv6 -/
def queryIpv6 (c : CallProfile) (r : CheckReplies) (s : MainLoop) : MainLoop :=
  { s with IPv6ConnectionStatus :=
      if c.enable_ipv6 then r.status6.getD s.IPv6ConnectionStatus
      else QWDS_PKT_DATA_DISCONNECTED }

/-- The network interface follows the state of the call. -/
def linkFollows (s : MainLoop) : MainLoop × List Deed :=
  if s.IPv4ConnectionStatus = QWDS_PKT_DATA_DISCONNECTED ∧
      s.IPv6ConnectionStatus = QWDS_PKT_DATA_DISCONNECTED then usbnetLinkChange s false
  else if s.Up then usbnetLinkChange s true
  else (s, [])

/-- `case SIG_EVENT_CHECK` -/
def sigEventCheck (c : CallProfile) (r : CheckReplies) (s : MainLoop) : MainLoop × List Deed :=
  let (s₄, ds₄) := queryIpv4 c r s
  let (s', ds) := linkFollows (queryIpv6 c r s₄)
  (if s'.Down c then sendSigno s' .start else s', ds₄ ++ ds)

/-- `case SIG_EVENT_STOP` -/
def sigEventStop (c : CallProfile) (s : MainLoop) : MainLoop × List Deed :=
  let ds₄ := if c.enable_ipv4 ∧ s.IPv4ConnectionStatus = QWDS_PKT_DATA_CONNECTED then
    [.deactivate false] else []
  let ds₆ := if c.enable_ipv6 ∧ s.IPv6ConnectionStatus = QWDS_PKT_DATA_CONNECTED then
    [.deactivate true] else []
  let (s₁, ds₁) := usbnetLinkChange s false
  let (s', ds) := mainQuit s₁
  (s', ds₄ ++ ds₆ ++ ds₁ ++ [.deinit, .toQmiDevice RIL_REQUEST_QUIT] ++ ds)

/-- An event, and what the requests that it leads to return. After `disconnected` and `reset` the
program begins again, when the initialisation succeeds, and `again` is what
`requestRegistrationState` has found then, if it got an answer; `gone` says that the node of the
device has disappeared. -/
inductive MainEvent
  | timeout
  | pollFailed
  | pollError
  | hangup
  | alarm
  | interrupt
  | signal (start : StartReplies) (check : CheckReplies)
  | disconnected (again : Option (Option Byte))
  | networkState (attached : Option Byte) (now : Nat)
  | dataCallList (now : Nat)
  | reset (gone : Bool) (again : Option (Option Byte))
  | loopback (state : Byte)

/-- `goto __main_loop`, as far as the loop -/
def restart (s : MainLoop) (again : Option (Option Byte)) : MainLoop :=
  match again with
  | none => { s with running := false }
  | some attached =>
    { s with
      PSAttachedState := attached.getD s.PSAttachedState
      loopback_state := 0
      signals := [.check] }

/-- A signal number is read; the alarm is taken back first. -/
def readSigno (c : CallProfile) (start : StartReplies) (check : CheckReplies) (s : MainLoop) :
    MainLoop × List Deed :=
  match s.signals with
  | [] => (s, [])
  | signo :: rest =>
    let s := { s with signals := rest, alarm := none }
    match signo with
    | .start => sigEventStart c start s
    | .check => sigEventCheck c check s
    | .stop => sigEventStop c s

/-- `case RIL_INDICATE_DEVICE_DISCONNECTED` -/
def deviceDisconnected (s : MainLoop) (again : Option (Option Byte)) : MainLoop × List Deed :=
  let (s', ds) := usbnetLinkChange s false
  if s'.main_loop then (restart s' again, ds)
  else
    let (s'', rest) := mainQuit s'
    (s'', ds ++ rest)

/-- `case RIL_UNSOL_RESPONSE_VOICE_NETWORK_STATE_CHANGED` -/
def networkStateChanged (c : CallProfile) (s : MainLoop) (attached : Option Byte) (now : Nat) :
    MainLoop :=
  let s := { s with PSAttachedState := attached.getD s.PSAttachedState }
  if s.PSAttachedState = 1 then if s.Down c then sendSigno s .start else s
  else { s with SetupCallAllowTime := now }

/-- `case RIL_UNSOL_DATA_CALL_LIST_CHANGED` -/
def dataCallListChanged (s : MainLoop) (now : Nat) : MainLoop :=
  sendSigno (if s.Up then { s with SetupCallAllowTime := now + 1000 } else s) .check

/-- `case MODEM_REPORT_RESET_EVENT` -/
def modemReset (s : MainLoop) (gone : Bool) (again : Option (Option Byte)) :
    MainLoop × List Deed :=
  let s' := { s with s_link := 0 }
  let ds := [.toQmiDevice RIL_REQUEST_QUIT, .usbnet_link_state]
  if gone then
    let (s'', rest) := mainQuit s'
    (s'', ds ++ rest)
  else (restart s' again, ds)

/-- The body of the loop. -/
def MainLoop.handle (c : CallProfile) (s : MainLoop) (e : MainEvent) : MainLoop × List Deed :=
  if s.running then
    match e with
    | .timeout => (sendSigno s .check, [])
    | .pollFailed => mainQuit s
    | .pollError => (s, [.toQmiDevice RIL_REQUEST_QUIT])
    | .hangup =>
      let (s', ds) := mainQuit s
      (s', .toQmiDevice RIL_REQUEST_QUIT :: ds)
    | .alarm =>
      match s.alarm with
      | none => (s, [])
      | some _ => (sendSigno { s with alarm := none } .start, [])
    | .interrupt => (sendSigno { s with main_loop := false } .stop, [.toQmiDevice SIG_EVENT_STOP])
    | .signal start check => readSigno c start check s
    | .disconnected again => deviceDisconnected s again
    | .networkState attached now => (networkStateChanged c s attached now, [])
    | .dataCallList now => (dataCallListChanged s now, [])
    | .reset gone again => modemReset s gone again
    | .loopback state =>
      let s := { s with loopback_state := state }
      (if state ≠ 0 then sendSigno s .start else s, [])
  else (s, [])

/-- The loop as it is entered for the first time. -/
def MainLoop.enter (PSAttachedState : Byte) (now : Nat) (auth : Int) (main_loop : Bool) :
    MainLoop :=
  ⟨PSAttachedState, 0xFF, 0xFF, 0, now, -1, auth, 0, main_loop, none, [.check], true⟩

/-- The attempts to set a call up change the state of the connections and the authentication. -/
structure OnlyCalls (s t : MainLoop) : Prop where
  attached : t.PSAttachedState = s.PSAttachedState
  fail : t.SetupCallFail = s.SetupCallFail
  allow : t.SetupCallAllowTime = s.SetupCallAllowTime
  link : t.s_link = s.s_link
  loopback : t.loopback_state = s.loopback_state
  alarm : t.alarm = s.alarm
  signals : t.signals = s.signals
  running : t.running = s.running

/-- Attempts at one time. -/
def Deed.isSetup (time : Nat) : Deed → Bool
  | .setup _ _ t => t = time
  | _ => false

theorem setups_eq (c : CallProfile) (r : StartReplies) (s : MainLoop)
    (hmay : ¬ (s.PSAttachedState ≠ 1 ∧ s.loopback_state = 0))
    (hnow : s.SetupCallAllowTime ≤ r.checked) :
    ∃ t ds, OnlyCalls s t ∧ (∀ d ∈ ds, d.isSetup r.checked = true) ∧
      sigEventStart c r s = ((afterSetup c r t).1, ds ++ (afterSetup c r t).2) := by
  have hsetup4 : ∀ d ∈ (setupIpv4 c r s).2, d.isSetup r.checked = true := by
    intro d hd
    rcases List.mem_cons.mp hd with rfl | hd
    · simp [Deed.isSetup]
    · split at hd
      · rw [List.mem_singleton.mp hd]
        simp [Deed.isSetup]
      · cases hd
  rw [sigEventStart, if_neg hmay, if_neg (by omega)]
  dsimp only
  by_cases h4 : c.enable_ipv4 ∧ s.IPv4ConnectionStatus ≠ QWDS_PKT_DATA_CONNECTED
  · rw [if_pos h4]
    by_cases h6 : c.enable_ipv6 ∧
        (setupIpv4 c r s).1.IPv6ConnectionStatus ≠ QWDS_PKT_DATA_CONNECTED
    · rw [if_pos h6]
      refine ⟨(setupIpv6 r (setupIpv4 c r s).1).1, _, ⟨rfl, rfl, rfl, rfl, rfl, rfl, rfl, rfl⟩, ?_,
        rfl⟩
      intro d hd
      rcases List.mem_append.mp hd with hd | hd
      · exact hsetup4 d hd
      · rw [List.mem_singleton.mp hd]
        simp [Deed.isSetup]
    · rw [if_neg h6]
      refine ⟨(setupIpv4 c r s).1, _, ⟨rfl, rfl, rfl, rfl, rfl, rfl, rfl, rfl⟩, ?_, rfl⟩
      simpa using hsetup4
  · rw [if_neg h4]
    by_cases h6 : c.enable_ipv6 ∧ s.IPv6ConnectionStatus ≠ QWDS_PKT_DATA_CONNECTED
    · rw [if_pos h6]
      refine ⟨(setupIpv6 r s).1, _, ⟨rfl, rfl, rfl, rfl, rfl, rfl, rfl, rfl⟩, ?_, rfl⟩
      simp [setupIpv6, Deed.isSetup]
    · rw [if_neg h6]
      exact ⟨s, [], ⟨rfl, rfl, rfl, rfl, rfl, rfl, rfl, rfl⟩, by simp, rfl⟩

/-- What a START can do: nothing, when there is no network; set the alarm, when it is too early;
or make its attempts and note how they went. -/
theorem sigEventStart_cases (c : CallProfile) (r : StartReplies) (s : MainLoop) :
    (s.PSAttachedState ≠ 1 ∧ s.loopback_state = 0 ∧ sigEventStart c r s = (s, [])) ∨
    (r.checked < s.SetupCallAllowTime ∧ sigEventStart c r s =
      (setAlarm s ((s.SetupCallAllowTime + 2 ^ 64 - r.armed + 999) % 2 ^ 64 / 1000), [])) ∨
    (s.SetupCallAllowTime ≤ r.checked ∧ ∃ t ds, OnlyCalls s t ∧
      (∀ d ∈ ds, d.isSetup r.checked = true) ∧
      sigEventStart c r s = ((afterSetup c r t).1, ds ++ (afterSetup c r t).2)) := by
  by_cases hmay : s.PSAttachedState ≠ 1 ∧ s.loopback_state = 0
  · exact .inl ⟨hmay.1, hmay.2, if_pos hmay⟩
  · by_cases hnow : s.SetupCallAllowTime ≤ r.checked
    · exact .inr (.inr ⟨hnow, setups_eq c r s hmay hnow⟩)
    · refine .inr (.inl ⟨by omega, ?_⟩)
      rw [sigEventStart, if_neg hmay, if_pos (by omega)]

/-! ## What a CHECK can do -/

/-- The times of the attempts, and of the messages about them. -/
def Deed.time : Deed → Option Nat
  | .setup _ _ time => some time
  | .later _ time => some time
  | _ => none

/-- A deed that is done in one case, and nothing in the other. -/
theorem timeless_ite {p : Prop} [Decidable p] {x : Deed} (hx : x.time = none) :
    (∀ d ∈ if p then [x] else [], d.time = none) ∧ ∀ d ∈ if p then [] else [x], d.time = none := by
  by_cases h : p <;> simp [h, hx]

theorem timeless_usbnetLinkChange (s : MainLoop) (link : Bool) :
    ∀ d ∈ (usbnetLinkChange s link).2, d.time = none := by
  cases link
  · exact (timeless_ite rfl).2
  · exact (timeless_ite rfl).2

/-- A check finds out how the connections are, and the link follows them. -/
structure OnlyState (s t : MainLoop) : Prop where
  attached : t.PSAttachedState = s.PSAttachedState
  fail : t.SetupCallFail = s.SetupCallFail
  allow : t.SetupCallAllowTime = s.SetupCallAllowTime
  alarm : t.alarm = s.alarm
  signals : t.signals = s.signals
  running : t.running = s.running

theorem linkFollows_spec (s : MainLoop) :
    OnlyState s (linkFollows s).1 ∧ ∀ d ∈ (linkFollows s).2, d.time = none := by
  unfold linkFollows
  split
  · exact ⟨⟨rfl, rfl, rfl, rfl, rfl, rfl⟩, timeless_usbnetLinkChange s false⟩
  · split
    · exact ⟨⟨rfl, rfl, rfl, rfl, rfl, rfl⟩, timeless_usbnetLinkChange s true⟩
    · exact ⟨⟨rfl, rfl, rfl, rfl, rfl, rfl⟩, by simp⟩

/-- What a CHECK can do: bring its knowledge up to date, and send a START when the call is
down. -/
theorem sigEventCheck_eq (c : CallProfile) (r : CheckReplies) (s : MainLoop) :
    ∃ t ds, OnlyState s t ∧ (∀ d ∈ ds, d.time = none) ∧
      sigEventCheck c r s = (if t.Down c then sendSigno t .start else t, ds) := by
  obtain ⟨h, htime⟩ := linkFollows_spec (queryIpv6 c r (queryIpv4 c r s).1)
  refine ⟨_, _, ⟨h.attached, h.fail, h.allow, h.alarm, h.signals, h.running⟩, fun d hd => ?_, rfl⟩
  rcases List.mem_append.mp hd with hd | hd
  · exact (timeless_ite rfl).1 d hd
  · exact htime d hd

end BoardTest.Qmi
