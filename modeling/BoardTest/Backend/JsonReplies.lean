import BoardTest.Backend.Handlers
import BoardTest.Lib.JsonTemplate

/-!
# The replies as JSON

The handlers print their replies with `snprintf` and paste what they hold as it is.
`Endpoint.members` is the object each of them means to send. The body is that object, whole, exactly
when the texts between quotes are safe, the texts in number places are JSON values and, for the
serial test, all of them together leave room for the template in 512 bytes
(`Endpoint.faithful_iff`). -/

namespace BoardTest.Backend

open Json (Member Safe Denotes renderObject)

/-- The members of a handler's `data` object, with the values the handler holds. -/
def Endpoint.members (e : Endpoint) (query : List Byte) (o : Outcomes) : List Member :=
  let port := orDefault (uartPort.read query) (bytes "/dev/ttyS0")
  let baudrate := orDefault (uartBaudrate.read query) (bytes "115200")
  let dataBits := orDefault (uartDataBits.read query) (bytes "8")
  let parity := orDefault (uartParity.read query) (bytes "none")
  let stopBits := orDefault (uartStopBits.read query) (bytes "1")
  match e with
  | .gpio =>
    [⟨bytes "pin", .quoted (gpioPin.read query)⟩,
      ⟨bytes "direction", .quoted (gpioDirection.read query)⟩,
      ⟨bytes "value", .quoted (gpioValue.read query)⟩,
      ⟨bytes "status", .quoted (bytes "成功")⟩]
  | .uart =>
    [⟨bytes "status", .quoted (bytes "成功")⟩, ⟨bytes "port", .quoted port⟩,
      ⟨bytes "baudrate", .raw baudrate⟩, ⟨bytes "data_bits", .raw dataBits⟩,
      ⟨bytes "parity", .quoted parity⟩, ⟨bytes "stop_bits", .raw stopBits⟩,
      ⟨bytes "send_data", .quoted (orDefault (uartSendData.read query) (bytes "Hello UART!"))⟩,
      ⟨bytes "receive_data", .quoted (receiveData o)⟩]
  | .uartOpen =>
    [⟨bytes "status", .quoted (bytes "成功")⟩, ⟨bytes "port", .quoted port⟩,
      ⟨bytes "baudrate", .raw baudrate⟩, ⟨bytes "data_bits", .raw dataBits⟩,
      ⟨bytes "parity", .quoted parity⟩, ⟨bytes "stop_bits", .raw stopBits⟩,
      ⟨bytes "message", .quoted (bytes "串口打开成功")⟩]
  | .uartClose =>
    [⟨bytes "status", .quoted (bytes "成功")⟩, ⟨bytes "port", .quoted port⟩,
      ⟨bytes "message", .quoted (bytes "串口关闭成功")⟩]
  | .led =>
    [⟨bytes "pattern", .quoted (orDefault (ledPattern.read query) (bytes "blink"))⟩,
      ⟨bytes "count", .raw (orDefault (ledCount.read query) (bytes "3"))⟩,
      ⟨bytes "led0", .quoted (bytes "闪烁3次")⟩, ⟨bytes "led1", .quoted (bytes "常亮2秒")⟩,
      ⟨bytes "led2", .quoted (bytes "常灭")⟩, ⟨bytes "led3", .quoted (bytes "闪烁5次")⟩]
  | .rtc =>
    [⟨bytes "status", .quoted (bytes "成功")⟩, ⟨bytes "action", .quoted (rtcAction.read query)⟩,
      if rtcAction.read query = bytes "read" then
        ⟨bytes "current_time",
          .quoted (orDefault (rtcTimeRead o (rtcAction.read query)) (bytes "(读取失败)"))⟩
      else ⟨bytes "set_time", .quoted (rtcTime.read query)⟩]
  | .watchdog =>
    [⟨bytes "timeout", .raw (orDefault (watchdogTimeout.read query) (bytes "10"))⟩,
      ⟨bytes "status", .quoted (bytes "成功")⟩, ⟨bytes "operation", .quoted (bytes "喂狗")⟩,
      ⟨bytes "result", .quoted (bytes "看门狗复位正常")⟩]

/-- The body is whole and is the JSON object that the handler means: the string members decode to
the values held, the others are what their texts denote. -/
structure Endpoint.Faithful (e : Endpoint) (query : List Byte) (o : Outcomes) : Prop where
  data_fits : (sprintf (e.reply query o).format (e.reply query o).args).length <
    (e.reply query o).size
  body_fits : (sprintf responseFormat
    [decimal 200, bytes (e.reply query o).message, (e.reply query o).data]).length < 2048
  parses : ∃ d, Denotes (e.members query o) d ∧
    Json.parse (e.body query o) = some (.obj [(bytes "status", .num (decimal 200)),
      (bytes "message", .str (bytes (e.reply query o).message)), (bytes "data", .obj d)])

/-- `"key": ` -/
def keyText (key : List Byte) : List Byte := 34 :: (key ++ [34, 58, 32])

/-- The end of one quoted member and the start of the next. -/
def quotedTo (key : List Byte) : List Byte := 34 :: 44 :: 32 :: keyText key

/-- A quoted member with a fixed text, behind another. -/
def fixedMember (key text : List Byte) : List Byte :=
  44 :: 32 :: (keyText key ++ 34 :: (text ++ [34]))

/-- The literal pieces of a reply's format. -/
def Endpoint.pieces (e : Endpoint) (query : List Byte) : List (List Byte) :=
  let serial : List (List Byte) :=
    [123 :: (keyText (bytes "status") ++ 34 :: (bytes "成功" ++ (quotedTo (bytes "port") ++ [34]))),
      quotedTo (bytes "baudrate"), 44 :: 32 :: keyText (bytes "data_bits"),
      44 :: 32 :: (keyText (bytes "parity") ++ [34]), quotedTo (bytes "stop_bits")]
  match e with
  | .gpio =>
    [123 :: (keyText (bytes "pin") ++ [34]), quotedTo (bytes "direction") ++ [34],
      quotedTo (bytes "value") ++ [34], 34 :: (fixedMember (bytes "status") (bytes "成功") ++ [125])]
  | .uart =>
    serial ++ [44 :: 32 :: (keyText (bytes "send_data") ++ [34]),
      quotedTo (bytes "receive_data") ++ [34], [34, 125]]
  | .uartOpen => serial ++ [fixedMember (bytes "message") (bytes "串口打开成功") ++ [125]]
  | .uartClose =>
    [123 :: (keyText (bytes "status") ++ 34 :: (bytes "成功" ++ (quotedTo (bytes "port") ++ [34]))),
      34 :: (fixedMember (bytes "message") (bytes "串口关闭成功") ++ [125])]
  | .led =>
    [123 :: (keyText (bytes "pattern") ++ [34]), quotedTo (bytes "count"),
      fixedMember (bytes "led0") (bytes "闪烁3次") ++ (fixedMember (bytes "led1") (bytes "常亮2秒") ++
        (fixedMember (bytes "led2") (bytes "常灭") ++
          (fixedMember (bytes "led3") (bytes "闪烁5次") ++ [125])))]
  | .rtc =>
    [123 :: (keyText (bytes "status") ++ 34 :: (bytes "成功" ++
        (quotedTo (bytes "action") ++ [34]))),
      quotedTo (if rtcAction.read query = bytes "read" then bytes "current_time"
        else bytes "set_time") ++ [34], [34, 125]]
  | .watchdog =>
    [123 :: keyText (bytes "timeout"),
      fixedMember (bytes "status") (bytes "成功") ++
        (fixedMember (bytes "operation") (bytes "喂狗") ++
          (fixedMember (bytes "result") (bytes "看门狗复位正常") ++ [125]))]

theorem Endpoint.formatPieces_format (e : Endpoint) (query : List Byte) (o : Outcomes) :
    formatPieces (bytes (e.reply query o).format) = e.pieces query := by
  cases e with
  | rtc =>
    by_cases hread : rtcAction.read query = bytes "read"
    · simp only [Endpoint.reply, Endpoint.pieces, if_pos hread]
      decide +kernel
    · simp only [Endpoint.reply, Endpoint.pieces, if_neg hread]
      decide +kernel
  | _ =>
    simp only [Endpoint.reply, Endpoint.pieces]
    decide +kernel

theorem Endpoint.weave_pieces (e : Endpoint) (query : List Byte) (o : Outcomes) :
    weave (e.pieces query) (e.reply query o).args = renderObject (e.members query o) := by
  cases e with
  | rtc =>
    by_cases hread : rtcAction.read query = bytes "read" <;>
      simp [Endpoint.reply, Endpoint.pieces, Endpoint.members, weave, renderObject,
        Json.renderMembers, Member.render, Json.Slot.render, keyText, quotedTo, hread]
  | _ =>
    simp [Endpoint.reply, Endpoint.pieces, Endpoint.members, weave, renderObject,
      Json.renderMembers, Member.render, Json.Slot.render, keyText, quotedTo, fixedMember]

theorem Endpoint.length_pieces (e : Endpoint) (query : List Byte) (o : Outcomes) :
    (e.pieces query).length = (e.reply query o).args.length + 1 := by
  cases e with
  | rtc =>
    by_cases hread : rtcAction.read query = bytes "read" <;>
      simp [Endpoint.pieces, Endpoint.reply, hread]
  | _ => rfl

/-- The formatted data is the object with the values pasted in. -/
theorem Endpoint.sprintf_data (e : Endpoint) (query : List Byte) (o : Outcomes) :
    sprintf (e.reply query o).format (e.reply query o).args =
      renderObject (e.members query o) := by
  rw [sprintf_eq (e.formatPieces_format query o), e.weave_pieces query o]

theorem Endpoint.length_data (e : Endpoint) (query : List Byte) (o : Outcomes) :
    (sprintf (e.reply query o).format (e.reply query o).args).length =
      literalLength (e.pieces query) + ((e.reply query o).args.map List.length).sum := by
  rw [sprintf_eq (e.formatPieces_format query o), length_weave (e.length_pieces query o)]

/-- The members of the whole body. -/
def responseMembers (message data : List Byte) : List Member :=
  [⟨bytes "status", .raw (decimal 200)⟩, ⟨bytes "message", .quoted message⟩,
    ⟨bytes "data", .raw data⟩]

theorem sprintf_response (message data : List Byte) :
    sprintf responseFormat [decimal 200, message, data] =
      renderObject (responseMembers message data) := by
  have hpieces : formatPieces (bytes responseFormat) =
      [123 :: keyText (bytes "status"), 44 :: 32 :: (keyText (bytes "message") ++ [34]),
        quotedTo (bytes "data"), [125]] := by
    decide +kernel
  rw [sprintf_eq hpieces]
  simp [weave, renderObject, Json.renderMembers, responseMembers, Member.render,
    Json.Slot.render, keyText, quotedTo]

theorem length_orDefault_lt {s default : List Byte} {n : Nat} (hs : s.length < n)
    (hdefault : default.length < n) : (orDefault s default).length < n := by
  unfold orDefault
  split
  · exact hs
  · exact hdefault

/-- A parameter with its default in place of nothing fits the parameter's buffer. -/
theorem Param.length_orDefault_lt (p : Param) (query : List Byte) :
    (orDefault (p.read query) p.init).length < p.size :=
  Backend.length_orDefault_lt (p.length_read_lt query) p.init_lt

theorem length_cutAt_le (c : Byte) (s : List Byte) : (cutAt c s).length ≤ s.length :=
  (cutAt_isPrefix c s).length_le

theorem length_rtcTimeRead_lt (o : Outcomes) (action : List Byte) :
    (rtcTimeRead o action).length < 20 := by
  unfold rtcTimeRead
  split
  · have houter := length_cutAt_le 0 (cutAt 10 ((o.popen.getD []).take 19))
    have hinner := length_cutAt_le 10 ((o.popen.getD []).take 19)
    have htake := List.length_take_le 19 (o.popen.getD [])
    rw [cstr]
    omega
  · simp

/-- But for the serial test, with its sent and received data, the pasted texts are short. -/
theorem Endpoint.length_args_le {e : Endpoint} (he : e ≠ .uart) (query : List Byte)
    (o : Outcomes) : ((e.reply query o).args.map List.length).sum ≤ 40 := by
  have hport : (orDefault (uartPort.read query) (bytes "/dev/ttyS0")).length < 20 :=
    uartPort.length_orDefault_lt query
  cases e with
  | uart => exact absurd rfl he
  | gpio =>
    have hpin : (gpioPin.read query).length < 10 := gpioPin.length_read_lt query
    have hdirection : (gpioDirection.read query).length < 5 := gpioDirection.length_read_lt query
    have hvalue : (gpioValue.read query).length < 2 := gpioValue.length_read_lt query
    simp [Endpoint.reply]
    omega
  | uartOpen =>
    have hbaudrate : (orDefault (uartBaudrate.read query) (bytes "115200")).length < 10 :=
      uartBaudrate.length_orDefault_lt query
    have hdataBits : (orDefault (uartDataBits.read query) (bytes "8")).length < 2 :=
      uartDataBits.length_orDefault_lt query
    have hparity : (orDefault (uartParity.read query) (bytes "none")).length < 10 :=
      uartParity.length_orDefault_lt query
    have hstopBits : (orDefault (uartStopBits.read query) (bytes "1")).length < 2 :=
      uartStopBits.length_orDefault_lt query
    simp [Endpoint.reply]
    omega
  | uartClose =>
    simp [Endpoint.reply]
    omega
  | led =>
    have hpattern : (orDefault (ledPattern.read query) (bytes "blink")).length < 10 :=
      ledPattern.length_orDefault_lt query
    have hcount : (orDefault (ledCount.read query) (bytes "3")).length < 3 :=
      ledCount.length_orDefault_lt query
    simp [Endpoint.reply]
    omega
  | rtc =>
    have haction : (rtcAction.read query).length < 10 := rtcAction.length_read_lt query
    have htime : (rtcTime.read query).length < 20 := rtcTime.length_read_lt query
    have hcurrent : (orDefault (rtcTimeRead o (rtcAction.read query))
        (bytes "(读取失败)")).length < 20 :=
      length_orDefault_lt (length_rtcTimeRead_lt o _) (by decide)
    by_cases hread : rtcAction.read query = bytes "read"
    · simp only [hread] at hcurrent haction
      simp [Endpoint.reply, hread]
      omega
    · simp [Endpoint.reply, hread]
      omega
  | watchdog =>
    have htimeout : (orDefault (watchdogTimeout.read query) (bytes "10")).length < 4 :=
      watchdogTimeout.length_orDefault_lt query
    simp [Endpoint.reply]
    omega

theorem Endpoint.literalLength_pieces_le (e : Endpoint) (query : List Byte) :
    literalLength (e.pieces query) ≤ 127 := by
  cases e with
  | rtc =>
    by_cases hread : rtcAction.read query = bytes "read"
    · simp only [Endpoint.pieces, if_pos hread]
      decide +kernel
    · simp only [Endpoint.pieces, if_neg hread]
      decide +kernel
  | _ =>
    simp only [Endpoint.pieces]
    decide +kernel

/-- The serial reply has 384 bytes for its values; the others fit whatever the values. -/
theorem Endpoint.data_fits_iff (e : Endpoint) (query : List Byte) (o : Outcomes) :
    (sprintf (e.reply query o).format (e.reply query o).args).length < (e.reply query o).size ↔
      (e = .uart → ((e.reply query o).args.map List.length).sum ≤ 384) := by
  rw [e.length_data query o]
  by_cases he : e = .uart
  · subst he
    have hliteral : literalLength (Endpoint.uart.pieces query) = 127 := by
      simp only [Endpoint.pieces]
      decide +kernel
    rw [hliteral]
    simp only [Endpoint.reply, forall_const]
    omega
  · have hargs := Endpoint.length_args_le he query o
    have hliteral := e.literalLength_pieces_le query
    have hsize : 256 ≤ (e.reply query o).size := by
      cases e with
      | rtc =>
        simp only [Endpoint.reply]
        split <;> exact le_rfl
      | _ => simp [Endpoint.reply]
    refine iff_of_true ?_ fun h => absurd h he
    omega

/-- The outer buffer is always large enough. -/
theorem Endpoint.body_fits (e : Endpoint) (query : List Byte) (o : Outcomes) :
    (sprintf responseFormat
      [decimal 200, bytes (e.reply query o).message, (e.reply query o).data]).length < 2048 := by
  have hsize : (e.reply query o).size ≤ 512 ∧ (bytes (e.reply query o).message).length ≤ 30 := by
    cases e with
    | rtc =>
      simp only [Endpoint.reply]
      split <;> exact ⟨by simp, by dsimp only; decide +kernel⟩
    | _ => exact ⟨by simp [Endpoint.reply], by simp only [Endpoint.reply]; decide +kernel⟩
  have hdata : (e.reply query o).data.length ≤ (e.reply query o).size - 1 :=
    List.length_take_le _ _
  have hpieces : literalLength (formatPieces (bytes responseFormat)) = 37 := by decide +kernel
  have hcount : (formatPieces (bytes responseFormat)).length = 4 := by decide +kernel
  have hdecimal : (decimal 200).length = 3 := by decide
  rw [sprintf, length_weave hcount, hpieces]
  simp only [List.map_cons, List.map_nil, List.sum_cons, List.sum_nil, hdecimal]
  omega

/-! ## Which replies are sound -/

/-- The text denotes a JSON value. -/
def IsJson (t : List Byte) : Prop := (Json.parse t).isSome = true

/-- The texts that a handler pastes between quotes are safe, the bare ones denote JSON values, and
those of the serial test take at most 384 bytes. -/
def Endpoint.Presentable (e : Endpoint) (query : List Byte) (o : Outcomes) : Prop :=
  let port := orDefault (uartPort.read query) (bytes "/dev/ttyS0")
  let baudrate := orDefault (uartBaudrate.read query) (bytes "115200")
  let dataBits := orDefault (uartDataBits.read query) (bytes "8")
  let parity := orDefault (uartParity.read query) (bytes "none")
  let stopBits := orDefault (uartStopBits.read query) (bytes "1")
  let sendData := orDefault (uartSendData.read query) (bytes "Hello UART!")
  match e with
  | .gpio =>
    Safe (gpioPin.read query) ∧ Safe (gpioDirection.read query) ∧ Safe (gpioValue.read query)
  | .uart =>
    (Safe port ∧ IsJson baudrate ∧ IsJson dataBits ∧ Safe parity ∧ IsJson stopBits ∧
      Safe sendData ∧ Safe (receiveData o)) ∧
    ([port, baudrate, dataBits, parity, stopBits, sendData, receiveData o].map
      List.length).sum ≤ 384
  | .uartOpen => Safe port ∧ IsJson baudrate ∧ IsJson dataBits ∧ Safe parity ∧ IsJson stopBits
  | .uartClose => Safe port
  | .led =>
    Safe (orDefault (ledPattern.read query) (bytes "blink")) ∧
      IsJson (orDefault (ledCount.read query) (bytes "3"))
  | .rtc =>
    if rtcAction.read query = bytes "read" then
      Safe (orDefault (rtcTimeRead o (rtcAction.read query)) (bytes "(读取失败)"))
    else Safe (rtcAction.read query) ∧ Safe (rtcTime.read query)
  | .watchdog => IsJson (orDefault (watchdogTimeout.read query) (bytes "10"))

theorem Endpoint.presentable_iff (e : Endpoint) (query : List Byte) (o : Outcomes) :
    e.Presentable query o ↔ (∀ m ∈ e.members query o, m.slot.Clean) ∧
      (e = .uart → ((e.reply query o).args.map List.length).sum ≤ 384) := by
  cases e with
  | rtc =>
    by_cases hread : rtcAction.read query = bytes "read" <;>
      simp +decide [Endpoint.Presentable, Endpoint.members, Json.Slot.Clean, hread]
  | uart =>
    simp +decide [Endpoint.Presentable, Endpoint.members, Json.Slot.Clean, IsJson, Endpoint.reply]
  | _ =>
    simp +decide [Endpoint.Presentable, Endpoint.members, Json.Slot.Clean, IsJson]

theorem Endpoint.safe_key (e : Endpoint) (query : List Byte) (o : Outcomes) :
    ∀ m ∈ e.members query o, Safe m.key := by
  cases e with
  | rtc =>
    by_cases hread : rtcAction.read query = bytes "read" <;>
      simp +decide [Endpoint.members, hread]
  | _ => simp +decide [Endpoint.members]

theorem Endpoint.safe_message (e : Endpoint) (query : List Byte) (o : Outcomes) :
    Safe (bytes (e.reply query o).message) := by
  cases e with
  | rtc =>
    simp only [Endpoint.reply]
    split <;> dsimp only <;> decide +kernel
  | _ =>
    simp only [Endpoint.reply]
    decide +kernel

theorem clean_decimal : (Json.Slot.raw (decimal 200)).Denotes (.num (decimal 200)) := by
  rfl

theorem Endpoint.faithful_of_clean {e : Endpoint} {query : List Byte} {o : Outcomes}
    (hclean : ∀ m ∈ e.members query o, m.slot.Clean)
    (hfits : e = .uart → ((e.reply query o).args.map List.length).sum ≤ 384) :
    e.Faithful query o := by
  have hdata := (e.data_fits_iff query o).mpr hfits
  have hbody := e.body_fits query o
  refine ⟨hdata, hbody, ?_⟩
  obtain ⟨d, hd⟩ := Json.exists_denotes hclean
  refine ⟨d, hd, ?_⟩
  have hne : e.members query o ≠ [] := by cases e <;> simp [Endpoint.members]
  have hinner : Json.parse (e.reply query o).data = some (.obj d) := by
    rw [Reply.data, snprintf_eq_sprintf hdata, e.sprintf_data query o]
    exact Json.parse_renderObject hne hd (e.safe_key query o) hclean
  have houter : Denotes (responseMembers (bytes (e.reply query o).message) (e.reply query o).data)
      [(bytes "status", .num (decimal 200)),
        (bytes "message", .str (bytes (e.reply query o).message)), (bytes "data", .obj d)] :=
    .cons ⟨rfl, clean_decimal⟩ (.cons ⟨rfl, rfl⟩ (.cons ⟨rfl, hinner⟩ .nil))
  rw [Endpoint.body, Reply.body, sendJsonResponse, snprintf_eq_sprintf hbody, sprintf_response]
  apply Json.parse_renderObject (by simp [responseMembers]) houter
  · simp +decide [responseMembers]
  · simp [responseMembers, Json.Slot.Clean, hinner, e.safe_message query o]
    decide

theorem Endpoint.clean_of_faithful {e : Endpoint} {query : List Byte} {o : Outcomes}
    (h : e.Faithful query o) : ∀ m ∈ e.members query o, m.slot.Clean := by
  obtain ⟨d, hd, hparse⟩ := h.parses
  have hmessage := e.safe_message query o
  generalize hm : bytes (e.reply query o).message = message at hparse hmessage
  -- the body up to the members of its `data` object
  rw [Endpoint.body, Reply.body, sendJsonResponse, snprintf_eq_sprintf h.body_fits,
    sprintf_response, Reply.data, snprintf_eq_sprintf h.data_fits, e.sprintf_data query o,
    hm] at hparse
  obtain ⟨s, hrun, hfinish⟩ := Option.bind_eq_some_iff.mp hparse
  have hstatus : Json.Slot.Clean (.raw (decimal 200)) := by decide
  have hkey : Safe (bytes "message") := by decide
  have hquoted : Json.Slot.Clean (.quoted message) := hmessage
  have hstr : Json.Slot.Denotes (.quoted message) (.str message) := rfl
  have hrender : renderObject (responseMembers message (renderObject (e.members query o))) =
      123 :: (Member.render ⟨bytes "status", .raw (decimal 200)⟩ ++ 44 :: 32 ::
        (Member.render ⟨bytes "message", .quoted message⟩ ++ 44 :: 32 ::
          (34 :: (bytes "data" ++ (34 :: 58 :: 32 :: (123 ::
            (Json.renderMembers (e.members query o) ++ 125 :: [125]))))))) := by
    simp [renderObject, Json.renderMembers, responseMembers, Member.render, Json.Slot.render]
  have hcomma : (44 : Byte) = 44 ∨ (44 : Byte) = 125 := .inl rfl
  rw [hrender, Json.State.init, Json.run_object,
    Json.run_member (by decide) hstatus clean_decimal hcomma, Json.run_after_comma,
    Json.run_member hkey hquoted hstr hcomma, Json.run_after_comma,
    Json.run_key (by decide), Json.run_object] at hrun
  apply Json.clean_of_run_members hd (e.safe_key query o) hrun hfinish
  rintro d' ⟨more, hmore⟩
  simp [Json.Fills] at hmore
  simp [hmore]

/-- The body is the handler's object, whole, exactly for the presentable requests and
results. -/
theorem Endpoint.faithful_iff (e : Endpoint) (query : List Byte) (o : Outcomes) :
    e.Faithful query o ↔ e.Presentable query o := by
  rw [e.presentable_iff query o]
  constructor
  · intro h
    exact ⟨Endpoint.clean_of_faithful h, (e.data_fits_iff query o).mp h.data_fits⟩
  · rintro ⟨hclean, hfits⟩
    exact Endpoint.faithful_of_clean hclean hfits

/-- A quotation mark in the pin breaks the reply. -/
theorem gpio_quote_not_faithful :
    ¬ ∀ (e : Endpoint) (query : List Byte) (o : Outcomes), e.Faithful query o := by
  intro h
  obtain ⟨d, -, hparse⟩ :=
    (h .gpio (bytes "pin=%22") ⟨fun _ => 0, none, false, false, []⟩).parses
  have hnone : (Json.parse (Endpoint.gpio.body (bytes "pin=%22")
      ⟨fun _ => 0, none, false, false, []⟩)).isNone = true := by
    decide +kernel
  rw [hparse] at hnone
  exact absurd hnone (by simp)

end BoardTest.Backend
