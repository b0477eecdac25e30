import BoardTest.Backend.Params

/-!
# The test handlers of the backend

`test_gpio`, `test_uart` and `test_rtc` of `backend/main.c` with the command lines they build, and
the replies `ev_handler` makes. What the board does is an `Outcomes` record: the results of the
`system`, `popen`, `fopen`, `select` and `read` calls of one request. A command line is kept as a
`Command`, the values its `snprintf` gets; `Command.line` is the text passed to the shell.
-/

namespace BoardTest.Backend

/-- The parity words of the `stty` line (`main.c:305`). -/
inductive ParityArg
  | none | even | odd
  deriving DecidableEq, Repr

def ParityArg.text : ParityArg → List Byte
  | .none => bytes "-parity"
  | .even => bytes "parity even"
  | .odd => bytes "parity odd"

/-- `strcmp(parity, "none") == 0 ? ... : (strcmp(parity, "even") == 0 ? ... : ...)`. -/
def parityArg (parity : List Byte) : ParityArg :=
  if parity = bytes "none" then .none else if parity = bytes "even" then .even else .odd

/-- The command lines of `test_gpio`, `test_uart` and `test_rtc`. -/
inductive Command
  | gpioExport (pin : List Byte)
  | gpioDirection (direction pin : List Byte)
  | gpioSetValue (value pin : List Byte)
  | gpioReadValue (pin : List Byte)
  | gpioLog (pin direction value : List Byte)
  | sttySetup (port baudrate dataBits : List Byte) (parity : ParityArg)
  | uartSend (sendData port : List Byte)
  | hwclockRead
  | dateSet (time : List Byte)
  | hwclockWrite
  deriving DecidableEq, Repr

/-- The format of a command line. -/
def Command.format : Command → String
  | .gpioExport _ => "echo %s > /sys/class/gpio/export"
  | .gpioDirection _ _ => "echo %s > /sys/class/gpio/gpio%s/direction"
  | .gpioSetValue _ _ => "echo %s > /sys/class/gpio/gpio%s/value"
  | .gpioReadValue _ => "cat /sys/class/gpio/gpio%s/value"
  | .gpioLog _ _ _ => "echo 'GPIO测试: 引脚=%s, 方向=%s, 值=%s' > /tmp/gpio_test.log"
  | .sttySetup _ _ _ _ => "stty -F %s %s cs%s %s -echo -icanon min 1 time 5"
  | .uartSend _ _ => "echo -n '%s' > %s"
  | .hwclockRead => "hwclock -r"
  | .dateSet _ => "date -s '%s'"
  | .hwclockWrite => "hwclock -w -u"

/-- Its arguments, in the order of the conversions. -/
def Command.args : Command → List (List Byte)
  | .gpioExport pin => [pin]
  | .gpioDirection direction pin => [direction, pin]
  | .gpioSetValue value pin => [value, pin]
  | .gpioReadValue pin => [pin]
  | .gpioLog pin direction value => [pin, direction, value]
  | .sttySetup port baudrate dataBits parity => [port, baudrate, dataBits, parity.text]
  | .uartSend sendData port => [sendData, port]
  | .hwclockRead => []
  | .dateSet time => [time]
  | .hwclockWrite => []

/-- `char cmd[256]` after its `snprintf`. -/
def Command.line (c : Command) : List Byte := snprintf 256 c.format c.args

/-- The results of the calls one request makes. -/
structure Outcomes where
  /-- the return value of the `i`-th `system` call -/
  system : Nat → Int
  /-- `popen`: the output of the command, or `NULL` -/
  popen : Option (List Byte)
  /-- `fopen` gave a stream -/
  fopen : Bool
  /-- `select` found the port readable within the second -/
  ready : Bool
  /-- the bytes `read` delivered; none when it failed or met the end -/
  read : List Byte

/-- A command passed to the shell, and whether it succeeded. -/
structure Issued where
  command : Command
  ok : Bool
  deriving DecidableEq, Repr

/-- Successive `system` calls, from the `i`-th on. -/
def systemCalls (o : Outcomes) : Nat → List Command → List Issued
  | _, [] => []
  | i, c :: cs => ⟨c, o.system i = 0⟩ :: systemCalls o (i + 1) cs

/-- `test_gpio` (`main.c:250-290`). -/
def testGpio (o : Outcomes) (pin direction value : List Byte) : List Issued :=
  systemCalls o 0 <|
    [.gpioExport pin, .gpioDirection direction pin] ++
    (if direction = bytes "out" then [.gpioSetValue value pin] else []) ++
    [.gpioReadValue pin, .gpioLog pin direction value]

/-- The commands of `test_uart` (`main.c:297-319`); `sendData` is `none` for a null pointer. The
stop bits are printed and used in no command. -/
def testUart (o : Outcomes) (port baudrate dataBits parity : List Byte)
    (sendData : Option (List Byte)) : List Issued :=
  systemCalls o 0 <|
    .sttySetup port baudrate dataBits (parityArg parity) ::
    (match sendData with
     | some data => if 0 < data.length then [.uartSend data port] else []
     | none => [])

/-- `receive_data` after `test_uart` (`main.c:321-373`), a buffer of 256 bytes. -/
def receiveData (o : Outcomes) : List Byte :=
  if o.fopen then
    if o.ready then
      if o.read ≠ [] then (cstr (o.read.take 255)).take 255 else bytes "(无数据)"
    else bytes "(无数据)"
  else bytes "(无法打开串口)"

/-- The commands of `test_rtc` (`main.c:392-431`). -/
def testRtc (o : Outcomes) (action time : List Byte) : List Issued :=
  if action = bytes "read" then
    ⟨.hwclockRead, o.popen.getD [] ≠ []⟩ :: systemCalls o 0 [.hwclockRead]
  else if action = bytes "write" ∧ 0 < time.length then
    systemCalls o 0 [.dateSet time] ++
      (if o.system 0 ≠ 0 then [] else systemCalls o 1 [.hwclockWrite])
  else []

/-- `rtc_time` after `test_rtc`: the first line of the output that `fgets` gets into 20 bytes. -/
def rtcTimeRead (o : Outcomes) (action : List Byte) : List Byte :=
  if action = bytes "read" then cstr (cutAt 10 ((o.popen.getD []).take 19)) else []

/-- The format of `send_json_response`. -/
def responseFormat : String := "\x7b\"status\": %d, \"message\": \"%s\", \"data\": %s\x7d"

/-- `send_json_response` (`main.c:17-23`): the body of the reply. -/
def sendJsonResponse (statusCode : Nat) (message data : List Byte) : List Byte :=
  snprintf 2048 responseFormat [decimal statusCode, message, data]

/-- The arguments of a handler's `snprintf` into `response_data` and its message. -/
structure Reply where
  size : Nat
  format : String
  args : List (List Byte)
  message : String

def Reply.data (r : Reply) : List Byte := snprintf r.size r.format r.args

def Reply.body (r : Reply) : List Byte := sendJsonResponse 200 (bytes r.message) r.data

/-- The handlers that answer with the outcome of a test. -/
inductive Endpoint
  | gpio | uart | uartOpen | uartClose | led | rtc | watchdog
  deriving DecidableEq, Repr

/-- `mg_strcmp(hm->uri, ...)`. -/
def Endpoint.uri : Endpoint → String
  | .gpio => "/api/test/gpio"
  | .uart => "/api/test/uart"
  | .uartOpen => "/api/test/uart/open"
  | .uartClose => "/api/test/uart/close"
  | .led => "/api/test/led"
  | .rtc => "/api/test/rtc"
  | .watchdog => "/api/test/watchdog"

/-- The endpoints whose handlers run commands. -/
inductive WorkerEndpoint
  | gpio | uart | uartOpen | rtc
  deriving DecidableEq, Repr

def WorkerEndpoint.endpoint : WorkerEndpoint → Endpoint
  | .gpio => .gpio
  | .uart => .uart
  | .uartOpen => .uartOpen
  | .rtc => .rtc

/-- The commands the handler of an endpoint runs (`main.c:36-237`). -/
def Endpoint.issued (e : Endpoint) (query : List Byte) (o : Outcomes) : List Issued :=
  match e with
  | .gpio => testGpio o (gpioPin.read query) (gpioDirection.read query) (gpioValue.read query)
  | .uart =>
    testUart o (uartPort.read query) (uartBaudrate.read query) (uartDataBits.read query)
      (uartParity.read query) (some (uartSendData.read query))
  | .uartOpen =>
    testUart o (uartPort.read query) (uartBaudrate.read query) (uartDataBits.read query)
      (uartParity.read query) none
  | .uartClose => []
  | .led => []
  | .rtc => testRtc o (rtcAction.read query) (rtcTime.read query)
  | .watchdog => []

/-- The reply of an endpoint's handler (`main.c:49-236`). -/
def Endpoint.reply (e : Endpoint) (query : List Byte) (o : Outcomes) : Reply :=
  match e with
  | .gpio =>
    { size := 256
      format := "\x7b\"pin\": \"%s\", \"direction\": \"%s\", \"value\": \"%s\", " ++
        "\"status\": \"成功\"\x7d"
      args := [gpioPin.read query, gpioDirection.read query, gpioValue.read query]
      message := "GPIO测试完成" }
  | .uart =>
    { size := 512
      format := "\x7b\"status\": \"成功\", \"port\": \"%s\", \"baudrate\": %s, \"data_bits\": %s, " ++
        "\"parity\": \"%s\", \"stop_bits\": %s, \"send_data\": \"%s\", \"receive_data\": \"%s\"\x7d"
      args := [orDefault (uartPort.read query) (bytes "/dev/ttyS0"),
        orDefault (uartBaudrate.read query) (bytes "115200"),
        orDefault (uartDataBits.read query) (bytes "8"),
        orDefault (uartParity.read query) (bytes "none"),
        orDefault (uartStopBits.read query) (bytes "1"),
        orDefault (uartSendData.read query) (bytes "Hello UART!"),
        receiveData o]
      message := "串口测试完成" }
  | .uartOpen =>
    { size := 256
      format := "\x7b\"status\": \"成功\", \"port\": \"%s\", \"baudrate\": %s, \"data_bits\": %s, " ++
        "\"parity\": \"%s\", \"stop_bits\": %s, \"message\": \"串口打开成功\"\x7d"
      args := [orDefault (uartPort.read query) (bytes "/dev/ttyS0"),
        orDefault (uartBaudrate.read query) (bytes "115200"),
        orDefault (uartDataBits.read query) (bytes "8"),
        orDefault (uartParity.read query) (bytes "none"),
        orDefault (uartStopBits.read query) (bytes "1")]
      message := "串口打开成功" }
  | .uartClose =>
    { size := 256
      format := "\x7b\"status\": \"成功\", \"port\": \"%s\", \"message\": \"串口关闭成功\"\x7d"
      args := [orDefault (uartPort.read query) (bytes "/dev/ttyS0")]
      message := "串口关闭成功" }
  | .led =>
    { size := 256
      format := "\x7b\"pattern\": \"%s\", \"count\": %s, \"led0\": \"闪烁3次\", " ++
        "\"led1\": \"常亮2秒\", \"led2\": \"常灭\", \"led3\": \"闪烁5次\"\x7d"
      args := [orDefault (ledPattern.read query) (bytes "blink"),
        orDefault (ledCount.read query) (bytes "3")]
      message := "LED测试完成" }
  | .rtc =>
    if rtcAction.read query = bytes "read" then
      { size := 256
        format := "\x7b\"status\": \"成功\", \"action\": \"%s\", \"current_time\": \"%s\"\x7d"
        args := [rtcAction.read query,
          orDefault (rtcTimeRead o (rtcAction.read query)) (bytes "(读取失败)")]
        message := "RTC测试完成" }
    else
      { size := 256
        format := "\x7b\"status\": \"成功\", \"action\": \"%s\", \"set_time\": \"%s\"\x7d"
        args := [rtcAction.read query, rtcTime.read query]
        message := "RTC测试完成" }
  | .watchdog =>
    { size := 256
      format := "\x7b\"timeout\": %s, \"status\": \"成功\", \"operation\": \"喂狗\", " ++
        "\"result\": \"看门狗复位正常\"\x7d"
      args := [orDefault (watchdogTimeout.read query) (bytes "10")]
      message := "看门狗测试完成" }

/-- The body sent for a request. -/
def Endpoint.body (e : Endpoint) (query : List Byte) (o : Outcomes) : List Byte :=
  (e.reply query o).body

/-! ## Lengths -/

theorem Param.length_read_lt (p : Param) (query : List Byte) : (p.read query).length < p.size := by
  have hsize : 0 < p.size := by have := p.init_lt; omega
  cases hentry : mgHttpVar query p.name with
  | none => simpa [p.read_missing hentry] using hsize
  | some v =>
    by_cases hfits : (urlDecode v).2 = true ∧ (urlDecode v).1.length < p.size
    · rw [p.read_fits hentry hfits.1 hfits.2]
      exact Nat.lt_of_le_of_lt (cutAt_isPrefix 0 _).length_le hfits.2
    · by_cases hw : p.decodedPart v = []
      · simpa [p.read_nothing hentry hfits hw] using hsize
      · rw [p.read_fails hentry hfits hw]
        -- the last byte of the buffer is still the zero it was initialised with
        have hlt := p.init_lt
        have hpart : (p.decodedPart v).length ≤ p.size - 1 := by
          rw [Param.decodedPart, List.length_take]
          omega
        obtain ⟨k, hk⟩ : ∃ k, p.size - p.init.length = k + 1 :=
          ⟨p.size - p.init.length - 1, by omega⟩
        have hdrop : ∃ t, (cbuf p.size p.init).drop (p.decodedPart v).length = t ++ [0] ∧
            (p.decodedPart v).length + t.length = p.size - 1 := by
          refine ⟨(p.init ++ List.replicate k 0).drop (p.decodedPart v).length, ?_, ?_⟩
          · rw [cbuf, hk, List.replicate_succ', ← List.append_assoc,
              List.drop_append_of_le_length (by simp; omega)]
          · simp; omega
        obtain ⟨t, ht, hlen⟩ := hdrop
        have hnul : (0 : Byte) ∈ p.decodedPart v ++ (t ++ [0]) := by simp
        rw [ht]
        obtain ⟨r, hr⟩ := exists_cutAt_append hnul
        have := congrArg List.length hr
        simp only [List.length_append, List.length_cons, List.length_nil, cstr] at this ⊢
        omega

end BoardTest.Backend
