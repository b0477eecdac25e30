import BoardTest.Backend.Handlers
import BoardTest.Lib.ShellWords

/-!
# What a request can do to the command lines

The parameters reach the shell as they were decoded. `Command.items` is the fixed template of each
command line, with the parameter values in the places where they are pasted. The line is parsed to
the template's own command and redirections exactly when its items are clean
(`Command.parsesAsTemplate_iff`), which for a request comes down to a condition on its parameter
values (`WorkerEndpoint.issued_parse_iff`).
-/

namespace BoardTest.Backend

open Shell (Piece Item StartPlain Plain)

def ParityArg.items : ParityArg → List Item
  | .none => [.arg [.text (bytes "-parity")]]
  | .even => [.arg [.text (bytes "parity")], .arg [.text (bytes "even")]]
  | .odd => [.arg [.text (bytes "parity")], .arg [.text (bytes "odd")]]

/-- The words and redirections of a command line. -/
def Command.items : Command → List Item
  | .gpioExport pin =>
    [.arg [.text (bytes "echo")], .arg [.text pin],
      .out [.text (bytes "/sys/class/gpio/export")]]
  | .gpioDirection direction pin =>
    [.arg [.text (bytes "echo")], .arg [.text direction],
      .out [.text (bytes "/sys/class/gpio/gpio"), .text pin, .text (bytes "/direction")]]
  | .gpioSetValue value pin =>
    [.arg [.text (bytes "echo")], .arg [.text value],
      .out [.text (bytes "/sys/class/gpio/gpio"), .text pin, .text (bytes "/value")]]
  | .gpioReadValue pin =>
    [.arg [.text (bytes "cat")],
      .arg [.text (bytes "/sys/class/gpio/gpio"), .text pin, .text (bytes "/value")]]
  | .gpioLog pin direction value =>
    [.arg [.text (bytes "echo")],
      .arg [.quoted (bytes "GPIO测试: 引脚=" ++ (pin ++ (bytes ", 方向=" ++ (direction ++
        (bytes ", 值=" ++ value)))))],
      .out [.text (bytes "/tmp/gpio_test.log")]]
  | .sttySetup port baudrate dataBits parity =>
    [.arg [.text (bytes "stty")], .arg [.text (bytes "-F")], .arg [.text port],
      .arg [.text baudrate], .arg [.text (bytes "cs"), .text dataBits]] ++
    parity.items ++
    [.arg [.text (bytes "-echo")], .arg [.text (bytes "-icanon")], .arg [.text (bytes "min")],
      .arg [.text (bytes "1")], .arg [.text (bytes "time")], .arg [.text (bytes "5")]]
  | .uartSend sendData port =>
    [.arg [.text (bytes "echo")], .arg [.text (bytes "-n")], .arg [.quoted sendData],
      .out [.text port]]
  | .hwclockRead => [.arg [.text (bytes "hwclock")], .arg [.text (bytes "-r")]]
  | .dateSet time =>
    [.arg [.text (bytes "date")], .arg [.text (bytes "-s")], .arg [.quoted time]]
  | .hwclockWrite =>
    [.arg [.text (bytes "hwclock")], .arg [.text (bytes "-w")], .arg [.text (bytes "-u")]]

/-- The shell takes the line for the command of its template. -/
def Command.ParsesAsTemplate (c : Command) : Prop :=
  Shell.parse c.line = some (Shell.intended c.items)

/-- The literal pieces of a command's format. -/
def Command.pieces : Command → List (List Byte)
  | .gpioExport _ => [bytes "echo" ++ [32], 32 :: 62 :: 32 :: bytes "/sys/class/gpio/export"]
  | .gpioDirection _ _ =>
    [bytes "echo" ++ [32], 32 :: 62 :: 32 :: bytes "/sys/class/gpio/gpio", bytes "/direction"]
  | .gpioSetValue _ _ =>
    [bytes "echo" ++ [32], 32 :: 62 :: 32 :: bytes "/sys/class/gpio/gpio", bytes "/value"]
  | .gpioReadValue _ => [bytes "cat" ++ 32 :: bytes "/sys/class/gpio/gpio", bytes "/value"]
  | .gpioLog _ _ _ =>
    [bytes "echo" ++ 32 :: 39 :: bytes "GPIO测试: 引脚=", bytes ", 方向=", bytes ", 值=",
      39 :: 32 :: 62 :: 32 :: bytes "/tmp/gpio_test.log"]
  | .sttySetup _ _ _ _ =>
    [bytes "stty" ++ 32 :: bytes "-F" ++ [32], [32], 32 :: bytes "cs", [32],
      32 :: bytes "-echo" ++ 32 :: bytes "-icanon" ++ 32 :: bytes "min" ++ 32 :: bytes "1" ++
        32 :: bytes "time" ++ 32 :: bytes "5"]
  | .uartSend _ _ => [bytes "echo" ++ 32 :: bytes "-n" ++ [32, 39], [39, 32, 62, 32], []]
  | .hwclockRead => [bytes "hwclock" ++ 32 :: bytes "-r"]
  | .dateSet _ => [bytes "date" ++ 32 :: bytes "-s" ++ [32, 39], [39]]
  | .hwclockWrite => [bytes "hwclock" ++ 32 :: bytes "-w" ++ 32 :: bytes "-u"]

theorem Command.formatPieces_format (c : Command) : formatPieces (bytes c.format) = c.pieces := by
  cases c <;> dsimp only [Command.format, Command.pieces] <;> decide +kernel

/-- The arguments leave room for the longest format in the 256 bytes. -/
def Command.Short (c : Command) : Prop := (c.args.map List.length).sum ≤ 150

theorem Command.literalLength_pieces_le (c : Command) : literalLength c.pieces ≤ 105 := by
  cases c <;> dsimp only [Command.pieces] <;> decide +kernel

theorem Command.weave_pieces (c : Command) : weave c.pieces c.args = Shell.render c.items := by
  cases c with
  | sttySetup port baudrate dataBits parity =>
    have heven : bytes "parity even" = bytes "parity" ++ 32 :: bytes "even" := by decide
    have hodd : bytes "parity odd" = bytes "parity" ++ 32 :: bytes "odd" := by decide
    cases parity <;>
      simp [Command.pieces, Command.args, Command.items, ParityArg.items, weave, Shell.render,
        List.intercalate, Item.render, Piece.render, ParityArg.text, heven, hodd]
  | _ =>
    simp [Command.pieces, Command.args, Command.items, weave, Shell.render, List.intercalate,
      Item.render, Piece.render]

/-- A short line is not cut, so it is the template with the values in place. -/
theorem Command.Short.line_eq {c : Command} (h : c.Short) : c.line = Shell.render c.items := by
  have hpieces := sprintf_eq c.formatPieces_format c.args
  have hlength := length_weave (show c.pieces.length = c.args.length + 1 by cases c <;> rfl)
  have hliteral := c.literalLength_pieces_le
  rw [Command.Short] at h
  rw [Command.line, snprintf_eq_sprintf (by rw [hpieces]; omega), hpieces, c.weave_pieces]

/-- The values of a command stay within their places. -/
def Command.Clean : Command → Prop
  | .gpioExport pin => StartPlain pin
  | .gpioDirection direction pin => StartPlain direction ∧ Plain pin
  | .gpioSetValue value pin => StartPlain value ∧ Plain pin
  | .gpioReadValue pin => Plain pin
  | .gpioLog pin direction value => 39 ∉ pin ∧ 39 ∉ direction ∧ 39 ∉ value
  | .sttySetup port baudrate dataBits _ => StartPlain port ∧ StartPlain baudrate ∧ Plain dataBits
  | .uartSend sendData port => 39 ∉ sendData ∧ port ≠ [] ∧ StartPlain port
  | .hwclockRead => True
  | .dateSet time => 39 ∉ time
  | .hwclockWrite => True

theorem ParityArg.clean_of_mem_items (parity : ParityArg) : ∀ i ∈ parity.items, i.Clean := by
  cases parity <;> simp +decide [ParityArg.items, Shell.cleanWord_text_iff]

/-- The items of a template are clean when the pasted values are. -/
theorem Command.items_clean_iff (c : Command) : (∀ i ∈ c.items, i.Clean) ↔ c.Clean := by
  have hnil : Shell.word [] = [] := rfl
  cases c with
  | gpioLog pin direction value =>
    simp +decide [Command.items, Command.Clean, Shell.cleanWord_text_iff,
      Shell.cleanWord_quoted_iff, Shell.wellMarked_text_iff]
  | sttySetup port baudrate dataBits parity =>
    have hcs : bytes "cs" ≠ [] ∧ StartPlain (bytes "cs") := by decide
    have hparity := parity.clean_of_mem_items
    simp +decide only [Command.items, Command.Clean, List.forall_mem_append, List.forall_mem_cons,
      iff_true_intro hparity, Item.clean_arg, Shell.cleanWord_text_iff,
      Shell.cleanWord_text_cons_iff hcs.1 hcs.2, Shell.partMarked_text_cons_iff, hnil,
      List.not_mem_nil, IsEmpty.forall_iff, implies_true, and_true, true_and]
  | _ =>
    have hsys : bytes "/sys/class/gpio/gpio" ≠ [] ∧ StartPlain (bytes "/sys/class/gpio/gpio") := by
      decide
    simp +decide [Command.items, Command.Clean, Shell.cleanWord_text_iff,
      Shell.cleanWord_quoted_iff, Shell.wellMarked_text_iff,
      Shell.cleanWord_text_cons_iff hsys.1 hsys.2, Shell.wellMarked_text_cons_iff hsys.1 hsys.2,
      Shell.partMarked_text_cons_iff, hnil]

theorem Command.parsesAsTemplate_iff {c : Command} (h : c.Short) :
    c.ParsesAsTemplate ↔ c.Clean := by
  rw [Command.ParsesAsTemplate, h.line_eq, Shell.parse_render_iff, c.items_clean_iff]

/-! ## The commands of a request -/

theorem forall_mem_systemCalls {o : Outcomes} {i : Nat} {cs : List Command} {p : Command → Prop} :
    (∀ c ∈ systemCalls o i cs, p c.command) ↔ ∀ c ∈ cs, p c := by
  induction cs generalizing i with
  | nil => simp [systemCalls]
  | cons c cs ih => simp [systemCalls, ih]

theorem forall_mem_testGpio {o : Outcomes} {pin direction value : List Byte} {p : Command → Prop} :
    (∀ c ∈ testGpio o pin direction value, p c.command) ↔
      p (.gpioExport pin) ∧ p (.gpioDirection direction pin) ∧
      (direction = bytes "out" → p (.gpioSetValue value pin)) ∧
      p (.gpioReadValue pin) ∧ p (.gpioLog pin direction value) := by
  rw [testGpio, forall_mem_systemCalls]
  by_cases hout : direction = bytes "out" <;> simp [hout]

theorem forall_mem_testUart {o : Outcomes} {port baudrate dataBits parity : List Byte}
    {sendData : Option (List Byte)} {p : Command → Prop} :
    (∀ c ∈ testUart o port baudrate dataBits parity sendData, p c.command) ↔
      p (.sttySetup port baudrate dataBits (parityArg parity)) ∧
      ∀ data ∈ sendData, data ≠ [] → p (.uartSend data port) := by
  unfold testUart
  rw [forall_mem_systemCalls]
  cases sendData with
  | none => simp
  | some data => by_cases hdata : data = [] <;> simp [hdata, List.length_pos_iff]

/-- What holds of the two `hwclock` lines holds of all but the line that sets the time. -/
theorem forall_mem_testRtc {o : Outcomes} {action time : List Byte} {p : Command → Prop}
    (hread : p .hwclockRead) (hwrite : p .hwclockWrite) :
    (∀ c ∈ testRtc o action time, p c.command) ↔
      (action = bytes "write" → time ≠ [] → p (.dateSet time)) := by
  have hne : bytes "read" ≠ bytes "write" := by decide
  unfold testRtc
  split
  · rename_i h
    simp [h, hne, systemCalls, hread]
  split
  · rename_i h
    have htime := List.length_pos_iff.mp h.2
    by_cases hdate : o.system 0 = 0 <;> simp [h.1, htime, hdate, systemCalls, hwrite]
  · rename_i h
    rw [List.length_pos_iff, not_and] at h
    simp only [List.not_mem_nil, IsEmpty.forall_iff, implies_true, true_iff]
    intro haction htime
    exact absurd htime (h haction)

/-- The buffers of the parameters keep every command line short. -/
theorem WorkerEndpoint.issued_short (e : WorkerEndpoint) (query : List Byte) (o : Outcomes) :
    ∀ c ∈ e.endpoint.issued query o, c.command.Short := by
  cases e with
  | gpio =>
    have hpin : (gpioPin.read query).length < 10 := gpioPin.length_read_lt query
    have hdirection : (gpioDirection.read query).length < 5 := gpioDirection.length_read_lt query
    have hvalue : (gpioValue.read query).length < 2 := gpioValue.length_read_lt query
    refine forall_mem_testGpio.mpr ⟨?_, ?_, fun _ => ?_, ?_, ?_⟩ <;>
      simp [Command.Short, Command.args] <;> omega
  | uart | uartOpen =>
    have hport : (uartPort.read query).length < 20 := uartPort.length_read_lt query
    have hbaudrate : (uartBaudrate.read query).length < 10 := uartBaudrate.length_read_lt query
    have hdataBits : (uartDataBits.read query).length < 2 := uartDataBits.length_read_lt query
    have hsendData : (uartSendData.read query).length < 100 := uartSendData.length_read_lt query
    have hparity (parity : ParityArg) : parity.text.length ≤ 11 := by cases parity <;> decide
    have hparity := hparity (parityArg (uartParity.read query))
    simp only [WorkerEndpoint.endpoint, Endpoint.issued]
    rw [forall_mem_testUart]
    refine ⟨?_, ?_⟩ <;> simp [Command.Short, Command.args] <;> omega
  | rtc =>
    have htime : (rtcTime.read query).length < 20 := rtcTime.length_read_lt query
    have hread : Command.hwclockRead.Short := by simp [Command.Short, Command.args]
    have hwrite : Command.hwclockWrite.Short := by simp [Command.Short, Command.args]
    apply (forall_mem_testRtc hread hwrite).mpr
    intro _ _
    simp [Command.Short, Command.args]
    omega

/-- The requests whose parameter values stay within their places in every command line: unquoted
values are plain and do not start a comment or a home directory, quoted ones have no quote. -/
def WorkerEndpoint.Harmless (e : WorkerEndpoint) (query : List Byte) : Prop :=
  let serial := StartPlain (uartPort.read query) ∧ StartPlain (uartBaudrate.read query) ∧
    Plain (uartDataBits.read query)
  match e with
  | .gpio =>
    StartPlain (gpioPin.read query) ∧ StartPlain (gpioDirection.read query) ∧
      39 ∉ gpioValue.read query ∧
      (gpioDirection.read query = bytes "out" → StartPlain (gpioValue.read query))
  | .uart =>
    serial ∧
      (uartSendData.read query ≠ [] → 39 ∉ uartSendData.read query ∧ uartPort.read query ≠ [])
  | .uartOpen => serial
  | .rtc => rtcAction.read query = bytes "write" → 39 ∉ rtcTime.read query

theorem plain_noQuote {v : List Byte} (h : Plain v) : 39 ∉ v := by
  intro hmem
  exact absurd (h 39 hmem) (by decide)

theorem WorkerEndpoint.issued_clean_iff (e : WorkerEndpoint) (query : List Byte) (o : Outcomes) :
    (∀ c ∈ e.endpoint.issued query o, c.command.Clean) ↔ e.Harmless query := by
  cases e with
  | gpio =>
    apply forall_mem_testGpio.trans
    simp only [Command.Clean, WorkerEndpoint.Harmless]
    constructor
    · rintro ⟨hpin, ⟨hdirection, -⟩, hout, -, -, -, hvalue⟩
      exact ⟨hpin, hdirection, hvalue, fun h => (hout h).1⟩
    · rintro ⟨hpin, hdirection, hvalue, hout⟩
      exact ⟨hpin, ⟨hdirection, hpin.1⟩, fun h => ⟨hout h, hpin.1⟩, hpin.1,
        plain_noQuote hpin.1, plain_noQuote hdirection.1, hvalue⟩
  | uart =>
    simp only [WorkerEndpoint.endpoint, Endpoint.issued]
    rw [forall_mem_testUart]
    simp only [Command.Clean, WorkerEndpoint.Harmless, Option.mem_def, Option.some.injEq,
      forall_eq']
    tauto
  | uartOpen =>
    simp only [WorkerEndpoint.endpoint, Endpoint.issued]
    rw [forall_mem_testUart]
    simp [Command.Clean, WorkerEndpoint.Harmless]
  | rtc =>
    apply (forall_mem_testRtc trivial trivial).trans
    simp only [Command.Clean, WorkerEndpoint.Harmless]
    constructor
    · intro h haction
      by_cases htime : rtcTime.read query = []
      · simp [htime]
      · exact h haction htime
    · intro h haction _
      exact h haction

/-- Every command line of a request means its template exactly for the harmless requests. -/
theorem WorkerEndpoint.issued_parse_iff (e : WorkerEndpoint) (query : List Byte) (o : Outcomes) :
    (∀ c ∈ e.endpoint.issued query o, c.command.ParsesAsTemplate) ↔ e.Harmless query := by
  rw [← e.issued_clean_iff query o]
  have hshort := e.issued_short query o
  constructor
  · intro h c hc
    exact (Command.parsesAsTemplate_iff (hshort c hc)).mp (h c hc)
  · intro h c hc
    exact (Command.parsesAsTemplate_iff (hshort c hc)).mpr (h c hc)

/-- A semicolon in the pin ends the `echo` and starts a command of the client's choice. -/
theorem gpio_pin_runs_a_command :
    ¬ ∀ (e : WorkerEndpoint) (query : List Byte) (o : Outcomes),
      ∀ c ∈ e.endpoint.issued query o, c.command.ParsesAsTemplate := by
  intro h
  have hall := h .gpio (bytes "pin=4;reboot") ⟨fun _ => 0, none, false, false, []⟩
  have hpin : Shell.parse (Command.gpioExport (bytes "4;reboot")).line =
      some (Shell.intended (Command.gpioExport (bytes "4;reboot")).items) :=
    hall ⟨.gpioExport (bytes "4;reboot"), true⟩ (by decide +kernel)
  exact absurd hpin (by decide +kernel)

end BoardTest.Backend
