import BoardTest.Backend.Handlers

/-!
# What a reply of success is worth

The handlers of the GPIO, serial and RTC tests answer `"status": "成功"` with the parameter values
of the request whatever their commands came to. `Setting` is one such value, `Command.settings` the
ones a command line puts into effect; a reply is truthful when all it reports was put into effect
and every command succeeded (`WorkerEndpoint.truthful_iff`).
-/

namespace BoardTest.Backend

/-- A parameter value that a reply reports or a command puts into effect. -/
inductive Setting
  | pin (v : List Byte)
  | direction (v : List Byte)
  | value (v : List Byte)
  | port (v : List Byte)
  | baudrate (v : List Byte)
  | dataBits (v : List Byte)
  | parity (v : List Byte)
  | stopBits (v : List Byte)
  | time (v : List Byte)
  deriving DecidableEq, Repr

def Setting.text : Setting → List Byte
  | .pin v | .direction v | .value v | .port v | .baudrate v | .dataBits v | .parity v
  | .stopBits v | .time v => v

/-- The parity that the words of the `stty` line set. -/
def ParityArg.name : ParityArg → List Byte
  | .none => bytes "none"
  | .even => bytes "even"
  | .odd => bytes "odd"

/-- The values a command line is issued with and puts into effect when it succeeds. The log line
only writes them to a file. -/
def Command.settings : Command → List Setting
  | .gpioExport pin => [.pin pin]
  | .gpioDirection direction pin => [.pin pin, .direction direction]
  | .gpioSetValue value pin => [.pin pin, .value value]
  | .gpioReadValue pin => [.pin pin]
  | .gpioLog _ _ _ => []
  | .sttySetup port baudrate dataBits parity =>
    [.port port, .baudrate baudrate, .dataBits dataBits, .parity parity.name]
  | .uartSend _ port => [.port port]
  | .hwclockRead => []
  | .dateSet time => [.time time]
  | .hwclockWrite => []

/-- The parameter values the reply reports. -/
def WorkerEndpoint.reported (e : WorkerEndpoint) (query : List Byte) : List Setting :=
  let serial : List Setting :=
    [.port (orDefault (uartPort.read query) (bytes "/dev/ttyS0")),
      .baudrate (orDefault (uartBaudrate.read query) (bytes "115200")),
      .dataBits (orDefault (uartDataBits.read query) (bytes "8")),
      .parity (orDefault (uartParity.read query) (bytes "none")),
      .stopBits (orDefault (uartStopBits.read query) (bytes "1"))]
  match e with
  | .gpio =>
    [.pin (gpioPin.read query), .direction (gpioDirection.read query),
      .value (gpioValue.read query)]
  | .uart => serial
  | .uartOpen => serial
  | .rtc => if rtcAction.read query = bytes "read" then [] else [.time (rtcTime.read query)]

/-- The reported values are arguments of the reply. -/
theorem WorkerEndpoint.reported_mem_args (e : WorkerEndpoint) (query : List Byte) (o : Outcomes)
    {s : Setting} (h : s ∈ e.reported query) : s.text ∈ (e.endpoint.reply query o).args := by
  cases e with
  | gpio =>
    simp only [reported, List.mem_cons, List.not_mem_nil, or_false] at h
    rcases h with rfl | rfl | rfl <;> simp [Setting.text, endpoint, Endpoint.reply]
  | uart | uartOpen =>
    simp only [reported, List.mem_cons, List.not_mem_nil, or_false] at h
    rcases h with rfl | rfl | rfl | rfl | rfl <;> simp [Setting.text, endpoint, Endpoint.reply]
  | rtc =>
    by_cases hread : rtcAction.read query = bytes "read"
    · simp [reported, hread] at h
    · simp only [reported, if_neg hread, List.mem_singleton] at h
      subst h
      simp [Setting.text, endpoint, Endpoint.reply, hread]

/-- The reply says `"status": "成功"`. -/
def Reply.SaysSuccess (r : Reply) : Prop := bytes "\"status\": \"成功\"" <:+: bytes r.format

instance (r : Reply) : Decidable r.SaysSuccess :=
  inferInstanceAs (Decidable (_ <:+: _))

/-- Every one of these handlers says so in every reply. -/
theorem WorkerEndpoint.saysSuccess (e : WorkerEndpoint) (query : List Byte) (o : Outcomes) :
    (e.endpoint.reply query o).SaysSuccess := by
  cases e with
  | gpio | uart | uartOpen =>
    unfold Reply.SaysSuccess
    simp only [endpoint, Endpoint.reply]
    decide +kernel
  | rtc =>
    unfold Reply.SaysSuccess
    simp only [endpoint, Endpoint.reply]
    split
    · dsimp only
      decide +kernel
    · dsimp only
      decide +kernel

/-- A reply of success with these values was earned: each value was put into effect by an issued
command, and every issued command succeeded. -/
def WorkerEndpoint.Truthful (e : WorkerEndpoint) (query : List Byte) (o : Outcomes) : Prop :=
  (e.endpoint.reply query o).SaysSuccess →
    (∀ s ∈ e.reported query, ∃ c ∈ e.endpoint.issued query o, s ∈ c.command.settings) ∧
    ∀ c ∈ e.endpoint.issued query o, c.ok = true

/-- The requests and results for which the handler of an endpoint has done what it reports. -/
def WorkerEndpoint.DoneAsReported (e : WorkerEndpoint) (query : List Byte) (o : Outcomes) : Prop :=
  match e with
  | .gpio => gpioDirection.read query = bytes "out" ∧ ∀ i < 5, o.system i = 0
  | .uart => False
  | .uartOpen => False
  | .rtc =>
    (rtcAction.read query = bytes "read" ∧ o.popen.getD [] ≠ [] ∧ o.system 0 = 0) ∨
    (rtcAction.read query = bytes "write" ∧ rtcTime.read query ≠ [] ∧
      o.system 0 = 0 ∧ o.system 1 = 0)

theorem forall_lt_five {p : Nat → Prop} :
    (∀ i < 5, p i) ↔ p 0 ∧ p 1 ∧ p 2 ∧ p 3 ∧ p 4 := by
  constructor
  · intro h
    exact ⟨h 0 (by omega), h 1 (by omega), h 2 (by omega), h 3 (by omega), h 4 (by omega)⟩
  · rintro ⟨h0, h1, h2, h3, h4⟩ i hi
    match i, hi with
    | 0, _ => exact h0
    | 1, _ => exact h1
    | 2, _ => exact h2
    | 3, _ => exact h3
    | 4, _ => exact h4

theorem gpio_truthful_iff (query : List Byte) (o : Outcomes) :
    WorkerEndpoint.gpio.Truthful query o ↔ WorkerEndpoint.gpio.DoneAsReported query o := by
  rw [WorkerEndpoint.Truthful, imp_iff_right (WorkerEndpoint.gpio.saysSuccess query o)]
  simp only [WorkerEndpoint.reported, WorkerEndpoint.endpoint, Endpoint.issued, testGpio,
    WorkerEndpoint.DoneAsReported, forall_lt_five]
  by_cases hout : gpioDirection.read query = bytes "out"
  · simp [hout, systemCalls, Command.settings]
  · simp [hout, systemCalls, Command.settings]

/-- No command of the serial test sets the stop bits. -/
theorem stopBits_not_issued (o : Outcomes) (port baudrate dataBits parity v : List Byte)
    (sendData : Option (List Byte)) :
    ∀ c ∈ testUart o port baudrate dataBits parity sendData,
      Setting.stopBits v ∉ c.command.settings := by
  intro c hc
  cases sendData with
  | none =>
    simp only [testUart, systemCalls, List.mem_singleton] at hc
    subst hc
    simp [Command.settings]
  | some data =>
    by_cases hdata : 0 < data.length
    · simp only [testUart, if_pos hdata, systemCalls, List.mem_cons, List.not_mem_nil,
        or_false] at hc
      rcases hc with rfl | rfl <;> simp [Command.settings]
    · simp only [testUart, if_neg hdata, systemCalls, List.mem_singleton] at hc
      subst hc
      simp [Command.settings]

theorem serial_not_truthful {e : WorkerEndpoint} (he : e = .uart ∨ e = .uartOpen)
    (query : List Byte) (o : Outcomes) : ¬ e.Truthful query o := by
  intro h
  have hstop : Setting.stopBits (orDefault (uartStopBits.read query) (bytes "1")) ∈
      e.reported query := by
    rcases he with rfl | rfl <;> simp [WorkerEndpoint.reported]
  obtain ⟨c, hc, hset⟩ := (h (e.saysSuccess query o)).1 _ hstop
  rcases he with rfl | rfl
  · exact stopBits_not_issued o (uartPort.read query) (uartBaudrate.read query)
      (uartDataBits.read query) (uartParity.read query) _ (some (uartSendData.read query)) c hc hset
  · exact stopBits_not_issued o (uartPort.read query) (uartBaudrate.read query)
      (uartDataBits.read query) (uartParity.read query) _ none c hc hset

theorem rtc_truthful_iff (query : List Byte) (o : Outcomes) :
    WorkerEndpoint.rtc.Truthful query o ↔ WorkerEndpoint.rtc.DoneAsReported query o := by
  rw [WorkerEndpoint.Truthful, imp_iff_right (WorkerEndpoint.rtc.saysSuccess query o)]
  simp only [WorkerEndpoint.reported, WorkerEndpoint.endpoint, Endpoint.issued, testRtc,
    WorkerEndpoint.DoneAsReported]
  have hne : bytes "write" ≠ bytes "read" := by decide
  by_cases hread : rtcAction.read query = bytes "read"
  · simp [hread, hne.symm, systemCalls]
  · by_cases hwrite : rtcAction.read query = bytes "write" ∧ 0 < (rtcTime.read query).length
    · have htime : rtcTime.read query ≠ [] := List.length_pos_iff.mp hwrite.2
      by_cases hdate : o.system 0 = 0
      · simp [hwrite, hne, htime, hdate, systemCalls, Command.settings]
      · simp [hwrite, hne, htime, hdate, systemCalls, Command.settings]
    · have hnone : ¬ (rtcAction.read query = bytes "write" ∧ rtcTime.read query ≠ []) := by
        rwa [List.length_pos_iff] at hwrite
      constructor
      · rintro ⟨hset, -⟩
        obtain ⟨c, hc, -⟩ := hset (.time (rtcTime.read query)) (by simp [hread])
        rw [if_neg hread, if_neg hwrite] at hc
        exact absurd hc List.not_mem_nil
      · rintro (⟨h, -⟩ | ⟨hw, ht, -⟩)
        · exact absurd h hread
        · exact absurd ⟨hw, ht⟩ hnone

/-- When a reply of success is truthful: for GPIO if the direction is `out` and all five
commands succeeded, for the serial handlers never, for the RTC if the time was read, or set and
written back. -/
theorem WorkerEndpoint.truthful_iff (e : WorkerEndpoint) (query : List Byte) (o : Outcomes) :
    e.Truthful query o ↔ e.DoneAsReported query o := by
  cases e with
  | gpio => exact gpio_truthful_iff query o
  | uart => exact iff_of_false (serial_not_truthful (.inl rfl) query o) (fun h => h)
  | uartOpen => exact iff_of_false (serial_not_truthful (.inr rfl) query o) (fun h => h)
  | rtc => exact rtc_truthful_iff query o

/-- A board on which every command fails. -/
def allFail : Outcomes where
  system := fun _ => 1
  popen := none
  fopen := false
  ready := false
  read := []

/-- `/api/test/gpio?pin=4&direction=out&value=1` on such a board is still answered with success. -/
theorem gpio_not_truthful_when_commands_fail :
    ¬ WorkerEndpoint.gpio.Truthful (bytes "pin=4&direction=out&value=1") allFail := by
  intro h
  have hok := (h (by decide +kernel)).2 ⟨.gpioExport (bytes "4"), false⟩ (by decide +kernel)
  exact absurd hok (by decide)

end BoardTest.Backend
