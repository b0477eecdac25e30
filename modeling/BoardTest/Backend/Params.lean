import BoardTest.Backend.Mongoose

/-!
# The parameters of the test handlers

Every handler of `backend/main.c` reads its parameters the same way: a buffer initialised with the
default, one `mg_http_get_var` into it, its return value ignored. `Param.read` is the string the
handler goes on with. Since `mg_http_get_var` clears the first byte before it looks the name up,
the default does not come back when the parameter is missing, except where the reply puts it in the
place of nothing. `DefaultedParam.uses_expected_iff` says exactly for which queries the handler goes
on with the value a reader of the code expects.
-/

namespace BoardTest.Backend

/-- `char name[size] = "init"`, a parameter buffer with its default. -/
structure Param where
  name : List Byte
  size : Nat
  init : List Byte
  init_noNul : (0 : Byte) ∉ init := by decide
  init_lt : init.length < size := by decide

/-- The string in the buffer after `mg_http_get_var(&hm->query, "name", name, sizeof(name))`. -/
def Param.read (p : Param) (query : List Byte) : List Byte :=
  cstr (mgHttpGetVar query p.name (cbuf p.size p.init)).1

def gpioPin : Param := { name := bytes "pin", size := 10, init := bytes "4" }
def gpioDirection : Param := { name := bytes "direction", size := 5, init := bytes "out" }
def gpioValue : Param := { name := bytes "value", size := 2, init := bytes "1" }
def uartPort : Param := { name := bytes "port", size := 20, init := bytes "/dev/ttyS0" }
def uartBaudrate : Param := { name := bytes "baudrate", size := 10, init := bytes "115200" }
def uartDataBits : Param := { name := bytes "data_bits", size := 2, init := bytes "8" }
def uartParity : Param := { name := bytes "parity", size := 10, init := bytes "none" }
def uartStopBits : Param := { name := bytes "stop_bits", size := 2, init := bytes "1" }
def uartSendData : Param := { name := bytes "send_data", size := 100, init := bytes "Hello UART!" }
def ledPattern : Param := { name := bytes "pattern", size := 10, init := bytes "blink" }
def ledCount : Param := { name := bytes "count", size := 3, init := bytes "3" }
def rtcAction : Param := { name := bytes "action", size := 10, init := bytes "read" }
def rtcTime : Param := { name := bytes "time", size := 20, init := [] }
def watchdogTimeout : Param := { name := bytes "timeout", size := 4, init := bytes "10" }

/-- The parameters with a default of their own; `time` starts empty. -/
inductive DefaultedParam
  | pin | direction | value
  | port | baudrate | dataBits | parity | stopBits | sendData
  | pattern | count
  | action
  | timeout
  deriving DecidableEq, Repr

def DefaultedParam.param : DefaultedParam → Param
  | .pin => gpioPin
  | .direction => gpioDirection
  | .value => gpioValue
  | .port => uartPort
  | .baudrate => uartBaudrate
  | .dataBits => uartDataBits
  | .parity => uartParity
  | .stopBits => uartStopBits
  | .sendData => uartSendData
  | .pattern => ledPattern
  | .count => ledCount
  | .action => rtcAction
  | .timeout => watchdogTimeout

/-- `p[0] ? p : "default"` (`main.c:78-83`). -/
def orDefault (s : List Byte) (default : List Byte) : List Byte := if s ≠ [] then s else default

/-- What becomes of a parameter: it is used as it was read, it is reported with the default in the
place of nothing, or both. -/
inductive Use
  | asRead | both | reported

/-- The serial parameters go to `test_uart` as they are; `test_led` and `test_watchdog` take
none. -/
def DefaultedParam.use : DefaultedParam → Use
  | .pin | .direction | .value | .action => .asRead
  | .port | .baudrate | .dataBits | .parity | .stopBits | .sendData => .both
  | .pattern | .count | .timeout => .reported

/-- The values a handler goes on to use for a parameter. -/
def DefaultedParam.uses (p : DefaultedParam) (query : List Byte) : List (List Byte) :=
  match p.use with
  | .asRead => [p.param.read query]
  | .both => [p.param.read query, orDefault (p.param.read query) p.param.init]
  | .reported => [orDefault (p.param.read query) p.param.init]

theorem DefaultedParam.init_ne_nil (p : DefaultedParam) : p.param.init ≠ [] := by
  cases p <;> decide

theorem Param.cbuf_ne_nil (p : Param) : cbuf p.size p.init ≠ [] := by
  have := length_cbuf (Nat.le_of_lt p.init_lt)
  have := p.init_lt
  intro h
  simp [h] at *
  omega

theorem Param.cleared_getLast (p : Param) : ((cbuf p.size p.init).set 0 0).getLast? = some 0 := by
  have hlt := p.init_lt
  have hzero : (cbuf p.size p.init).getLast? = some 0 := by
    obtain ⟨k, hk⟩ : ∃ k, p.size - p.init.length = k + 1 := ⟨p.size - p.init.length - 1, by omega⟩
    rw [cbuf, hk, List.replicate_succ', ← List.append_assoc, List.getLast?_concat]
  cases hbuf : cbuf p.size p.init with
  | nil => exact absurd hbuf p.cbuf_ne_nil
  | cons b rest =>
    cases rest with
    | nil => rfl
    | cons c rest =>
      rw [hbuf, List.getLast?_cons_cons] at hzero
      rwa [List.set_cons_zero, List.getLast?_cons_cons]

/-- What an entry decodes to when it fits. -/
theorem Param.read_fits (p : Param) {query v : List Byte}
    (hentry : mgHttpVar query p.name = some v) (hok : (urlDecode v).2 = true)
    (hlen : (urlDecode v).1.length < p.size) : p.read query = cstr (urlDecode v).1 := by
  rw [Param.read, mgHttpGetVar_found p.cbuf_ne_nil hentry]
  apply mgUrlDecode_fits hok
  rwa [List.length_set, length_cbuf (Nat.le_of_lt p.init_lt)]

/-- The bytes decoded before the decoding gave up, or the buffer was full. -/
def Param.decodedPart (p : Param) (v : List Byte) : List Byte := (urlDecode v).1.take (p.size - 1)

theorem Param.read_fails (p : Param) {query v : List Byte}
    (hentry : mgHttpVar query p.name = some v)
    (hfail : ¬ ((urlDecode v).2 = true ∧ (urlDecode v).1.length < p.size))
    (hw : p.decodedPart v ≠ []) :
    p.read query =
      cstr (p.decodedPart v ++ (cbuf p.size p.init).drop (p.decodedPart v).length) := by
  have hlen : ((cbuf p.size p.init).set 0 0).length = p.size := by
    rw [List.length_set, length_cbuf (Nat.le_of_lt p.init_lt)]
  rw [Param.read, mgHttpGetVar_found p.cbuf_ne_nil hentry,
    mgUrlDecode_fails p.cleared_getLast (by rwa [hlen]), hlen, ← Param.decodedPart]
  -- the cleared first byte has been written over
  obtain ⟨b, w, hb⟩ := List.exists_cons_of_ne_nil hw
  obtain ⟨o, old, ho⟩ := List.exists_cons_of_ne_nil p.cbuf_ne_nil
  simp [hb, ho]

/-- A missing parameter leaves the empty string, whatever its default. -/
theorem Param.read_missing (p : Param) {query : List Byte}
    (hentry : mgHttpVar query p.name = none) : p.read query = [] := by
  obtain ⟨o, old, ho⟩ := List.exists_cons_of_ne_nil p.cbuf_ne_nil
  simp [Param.read, mgHttpGetVar_missing hentry, ho, cstr]

/-- So does one of which not a single byte is decoded. -/
theorem Param.read_nothing (p : Param) {query v : List Byte}
    (hentry : mgHttpVar query p.name = some v)
    (hfail : ¬ ((urlDecode v).2 = true ∧ (urlDecode v).1.length < p.size))
    (hw : p.decodedPart v = []) : p.read query = [] := by
  have hlen : ((cbuf p.size p.init).set 0 0).length = p.size := by
    rw [List.length_set, length_cbuf (Nat.le_of_lt p.init_lt)]
  rw [Param.read, mgHttpGetVar_found p.cbuf_ne_nil hentry,
    mgUrlDecode_fails p.cleared_getLast (by rwa [hlen]), hlen, ← Param.decodedPart, hw]
  obtain ⟨o, old, ho⟩ := List.exists_cons_of_ne_nil p.cbuf_ne_nil
  simp [ho, cstr]

/-! ## The value the code is meant to use -/

/-- The decoded value of the first entry when it decodes and fits, the default in every other
case. -/
def Param.expected (p : Param) (query : List Byte) : List Byte :=
  match mgHttpVar query p.name with
  | none => p.init
  | some v =>
    if (urlDecode v).2 = true ∧ (urlDecode v).1.length < p.size then (urlDecode v).1 else p.init

/-- The entry is there, and either it decodes without a NUL and fits; or it fails, but only after
bytes that repeat the default: a piece of its start, or all of it and a NUL. -/
def Param.Readable (p : Param) (query : List Byte) : Prop :=
  match mgHttpVar query p.name with
  | none => False
  | some v =>
    if (urlDecode v).2 = true ∧ (urlDecode v).1.length < p.size then 0 ∉ (urlDecode v).1
    else p.decodedPart v ≠ [] ∧ (p.decodedPart v <+: p.init ∨ p.init ++ [0] <+: p.decodedPart v)

theorem Param.read_eq_expected_iff_readable (p : Param) (hinit : p.init ≠ []) (query : List Byte) :
    p.read query = p.expected query ↔ p.Readable query := by
  unfold Param.expected Param.Readable
  cases hentry : mgHttpVar query p.name with
  | none => simpa [p.read_missing hentry] using hinit.symm
  | some v =>
    simp only
    split
    · rename_i hfits
      rw [p.read_fits hentry hfits.1 hfits.2]
      constructor
      · intro h
        rw [← h]
        exact not_mem_cutAt 0 _
      · exact cutAt_eq_self
    · rename_i hfail
      by_cases hw : p.decodedPart v = []
      · rw [p.read_nothing hentry hfail hw]
        simpa [hw] using hinit.symm
      · rw [p.read_fails hentry hfail hw, cstr_overwrite_iff p.init_noNul]
        simp [hw]

/-- The entry is missing, or fails before a byte other than a NUL is decoded. -/
def Param.Lost (p : Param) (query : List Byte) : Prop :=
  match mgHttpVar query p.name with
  | none => True
  | some v =>
    ¬ ((urlDecode v).2 = true ∧ (urlDecode v).1.length < p.size) ∧
      (p.decodedPart v).head?.getD 0 = 0

/-- Then the buffer is empty, and the default is wanted. -/
theorem Param.lost_iff (p : Param) (hinit : p.init ≠ []) (query : List Byte) :
    p.Lost query ↔ p.read query = [] ∧ p.expected query = p.init := by
  unfold Param.expected Param.Lost
  cases hentry : mgHttpVar query p.name with
  | none => simp [p.read_missing hentry]
  | some v =>
    simp only
    split
    · rename_i hfits
      rw [p.read_fits hentry hfits.1 hfits.2]
      apply iff_of_false
      · rintro ⟨hfail, -⟩
        exact hfail hfits
      · rintro ⟨hnil, hvalue⟩
        rw [hvalue, cstr, cutAt_eq_self p.init_noNul] at hnil
        exact hinit hnil
    · rename_i hfail
      by_cases hw : p.decodedPart v = []
      · simp [p.read_nothing hentry hfail hw, hw, hfail]
      · rw [p.read_fails hentry hfail hw]
        obtain ⟨b, w, hb⟩ := List.exists_cons_of_ne_nil hw
        by_cases hzero : b = 0
        · simp [hb, hzero, cstr, cutAt, hfail]
        · simp [hb, hzero, cstr, cutAt]

/-- `orDefault` makes up for what is lost, but puts the default in the place of an empty value,
too. -/
theorem Param.orDefault_read_eq_expected_iff (p : Param) (hinit : p.init ≠ []) (query : List Byte) :
    orDefault (p.read query) p.init = p.expected query ↔
      p.Lost query ∨ (p.Readable query ∧ p.expected query ≠ []) := by
  rw [p.lost_iff hinit, ← p.read_eq_expected_iff_readable hinit]
  by_cases hread : p.read query = []
  · rw [orDefault, if_neg (not_not.mpr hread), hread, eq_comm]
    constructor
    · intro h
      exact .inl ⟨rfl, h⟩
    · rintro (⟨-, h⟩ | ⟨h, hne⟩)
      · exact h
      · exact absurd h.symm hne
  · rw [orDefault, if_pos hread]
    constructor
    · intro h
      exact .inr ⟨h, h ▸ hread⟩
    · rintro (⟨h, -⟩ | ⟨h, -⟩)
      · exact absurd h hread
      · exact h

/-- The queries for which nothing goes wrong with a parameter. A value that is only reported may be
lost; a value that is reported is not to be empty. -/
def DefaultedParam.GoesRight (p : DefaultedParam) (query : List Byte) : Prop :=
  match p.use with
  | .asRead => p.param.Readable query
  | .both => p.param.Readable query ∧ p.param.expected query ≠ []
  | .reported => p.param.Lost query ∨ (p.param.Readable query ∧ p.param.expected query ≠ [])

/-- A test handler goes on with the value the query gives, or else the default, exactly for these
queries. -/
theorem DefaultedParam.uses_expected_iff (p : DefaultedParam) (query : List Byte) :
    (∀ v ∈ p.uses query, v = p.param.expected query) ↔ p.GoesRight query := by
  have hread := p.param.read_eq_expected_iff_readable p.init_ne_nil query
  have horDefault := p.param.orDefault_read_eq_expected_iff p.init_ne_nil query
  unfold uses GoesRight
  cases p.use with
  | asRead => simpa using hread
  | reported => simpa using horDefault
  | both =>
    simp only [List.forall_mem_cons, List.not_mem_nil, IsEmpty.forall_iff, implies_true, and_true]
    rw [hread, horDefault]
    constructor
    · rintro ⟨hreadable, hlost | hboth⟩
      · have ⟨hnil, hdefault⟩ := (p.param.lost_iff p.init_ne_nil query).mp hlost
        have hvalue := hread.mpr hreadable
        exact absurd (hdefault.symm.trans (hvalue.symm.trans hnil)) p.init_ne_nil
      · exact hboth
    · intro h
      exact ⟨h.1, .inr h⟩

/-- The empty query leaves the pin empty, not at its default. -/
theorem pin_of_empty_query_not_expected :
    ¬ ∀ (p : DefaultedParam) (query : List Byte),
      ∀ v ∈ p.uses query, v = p.param.expected query := by
  intro h
  have hpin : gpioPin.read [] = gpioPin.expected [] := h .pin [] _ (List.mem_singleton.mpr rfl)
  exact absurd hpin (by decide)

end BoardTest.Backend
