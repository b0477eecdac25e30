import BoardTest.Backend.Params
import BoardTest.Lib.JsNumber

/-!
# The settings of the device dashboard

`saveConfig` of `dashboard.js` posts two numbers as JSON; the handler in `device_dashboard.c` looks
them up as form variables (its `mongoose.c` is that of the peripheral test, byte for byte). What
the handler finds in such a body is computed for every pair of numbers, and for the form encoding
that the requests of the same script with a command use.
-/

namespace BoardTest.Dashboard

open Backend

/-- A request, as far as the handler reads it. -/
structure Request where
  method : List Byte
  uri : List Byte
  body : List Byte

structure Reply where
  status : Nat
  headers : List Byte
  body : List Byte

inductive Answer
  | reply (r : Reply)
  /-- `mg_http_serve_dir(c, hm, &opts)` -/
  | serveDir
  | silent

/-- `mg_strcasecmp` (`mongoose.c:10712-10724`). -/
def mgStrcasecmp : List Byte → List Byte → Int
  | c1 :: s1, c2 :: s2 =>
    if mgToLower c1 < mgToLower c2 then -1
    else if mgToLower c1 > mgToLower c2 then 1
    else mgStrcasecmp s1 s2
  | _ :: _, [] => 1
  | [], _ :: _ => -1
  | [], [] => 0

/-- `is_method` (`device_dashboard.c:20-22`). -/
def isMethod (r : Request) (method : List Byte) : Bool := mgStrcasecmp r.method method = 0

theorem noNul_of_empty : (0 : Byte) ∉ ([] : List Byte) := List.not_mem_nil

theorem empty_lt_sixteen : ([] : List Byte).length < 16 := Nat.zero_lt_succ 15

/-- `char confidence[16] = {0}` and `char frequency[16] = {0}`. -/
def confidence : Param := ⟨bytes "confidence", 16, [], noNul_of_empty, empty_lt_sixteen⟩
def frequency : Param := ⟨bytes "frequency", 16, [], noNul_of_empty, empty_lt_sixteen⟩

/-- The two strings that the handler reads from a body (`device_dashboard.c:67-69`). -/
def configValues (body : List Byte) : List Byte × List Byte :=
  (confidence.read body, frequency.read body)

def jsonHeader : List Byte := bytes "Content-Type: application/json\r\n"

def configFormat : String :=
  "\x7b\"status\":\"success\",\"confidence\":\"%s\",\"frequency\":\"%s\"\x7d"

/-- `fn` (`device_dashboard.c:37-89`) on an `MG_EV_HTTP_MSG`; the text of a device status is given.
The patterns of `mg_match` have no wildcard. -/
def fn (deviceStatus : List Byte) (r : Request) : Answer :=
  if r.uri = bytes "/api/device/status" then
    .reply ⟨200, jsonHeader ++ bytes "Access-Control-Allow-Origin: *\r\n", deviceStatus⟩
  else if r.uri = bytes "/api/ai/control" then
    if isMethod r (bytes "POST") then
      .reply ⟨200, jsonHeader, bytes "\x7b\"status\":\"success\",\"message\":\"AI控制命令已执行\"\x7d"⟩
    else .reply ⟨405, jsonHeader, bytes "\x7b\"error\":\"方法不允许\"\x7d"⟩
  else if r.uri = bytes "/api/config/update" then
    if isMethod r (bytes "POST") then
      let values := configValues r.body
      .reply ⟨200, jsonHeader, sprintf configFormat [values.1, values.2]⟩
    else .silent
  else if r.uri = bytes "/api/system/info" then
    .reply ⟨200, jsonHeader, bytes <|
      "\x7b\"device\":\"RV1126\",\"version\":\"1.0.0\"," ++
        "\"sdk\":\"Rock-X 2.0\",\"model\":\"YOLOv5s\"\x7d"⟩
  else .serveDir

/-- The request of `saveConfig` (`dashboard.js:271-288`) for the numbers that `parseFloat` and
`parseInt` make of the sliders' values. -/
def saveConfig (c f : JsNumber) : Request where
  method := bytes "POST"
  uri := bytes "/api/config/update"
  body := bytes "\x7b\"confidence\":" ++ c.stringify ++ bytes ",\"frequency\":" ++ f.stringify ++
    bytes "\x7d"

/-- The handler reads the two numbers that were sent. -/
def Preserved (c f : JsNumber) : Prop :=
  configValues (saveConfig c f).body = (c.toText, f.toText)

theorem forall_ne_of_not_mem {s : List Byte} {sep : Byte} (h : sep ∉ s) :
    ∀ b ∈ s, decide (b ≠ sep) = true := by
  intro b hb
  exact decide_eq_true (ne_of_mem_of_not_mem hb h)

theorem mgSpan_of_not_mem {s : List Byte} {sep : Byte} (hne : s ≠ []) (h : sep ∉ s) :
    mgSpan s sep = some (s, []) := by
  have hall := forall_ne_of_not_mem h
  rw [mgSpan, if_neg hne, List.takeWhile_eq_self_iff.mpr hall, List.dropWhile_eq_nil_iff.mpr hall]
  rfl

theorem mgSpan_append {s : List Byte} {sep : Byte} (h : sep ∉ s) (t : List Byte) :
    mgSpan (s ++ sep :: t) sep = some (s, t) := by
  have hall := forall_ne_of_not_mem h
  rw [mgSpan, if_neg (by simp), List.takeWhile_append_of_pos hall,
    List.dropWhile_append_of_pos hall]
  simp

/-- `mg_http_var` on a body with an entry in front. -/
theorem mgHttpVar_eq {buf entry rest name : List Byte} (h : mgSpan buf 38 = some (entry, rest)) :
    mgHttpVar buf name = match mgSpan entry 61 with
      | none => mgHttpVar rest name
      | some (k, v) =>
        if name.length = k.length ∧ mgNcasecmp name k = 0 then some v else mgHttpVar rest name := by
  have hshort := mgSpan_shorter h
  obtain ⟨n, hn⟩ : ∃ n, buf.length = n + 1 := ⟨buf.length - 1, by omega⟩
  have hrest := mgHttpVarLoop_fuel name (show rest.length ≤ n by omega)
  rw [mgHttpVar, hn, mgHttpVarLoop, h]
  cases hvalue : mgSpan entry 61 <;> simp only [hvalue, hrest]

/-- A body without separators is one entry without a value, named like the body. -/
theorem mgHttpVar_of_no_separator {body name : List Byte} (hamp : 38 ∉ body) (heq : 61 ∉ body)
    (hlen : name.length ≠ body.length) : mgHttpVar body name = none := by
  by_cases hne : body = []
  · rw [hne]
    rfl
  · rw [mgHttpVar_eq (mgSpan_of_not_mem hne hamp), mgSpan_of_not_mem hne heq]
    exact if_neg fun h => hlen h.1

theorem saveConfig_no_separator (c f : JsNumber) (sep : Byte) (h : isNumberByte sep = false)
    (hframe : sep ∉ bytes "\x7b\"confidence\":" ++ bytes ",\"frequency\":" ++ bytes "\x7d") :
    sep ∉ (saveConfig c f).body := by
  have hnumber (x : JsNumber) : sep ∉ x.stringify := by
    intro hsep
    rw [x.numberText_stringify sep hsep] at h
    cases h
  simp only [List.mem_append, not_or] at hframe
  simp only [saveConfig, List.mem_append, not_or]
  exact ⟨⟨⟨⟨hframe.1.1, hnumber c⟩, hframe.1.2⟩, hnumber f⟩, hframe.2⟩

theorem le_length_saveConfig (c f : JsNumber) : 28 ≤ (saveConfig c f).body.length := by
  have hstart : (bytes "\x7b\"confidence\":").length = 14 := rfl
  have hmiddle : (bytes ",\"frequency\":").length = 13 := rfl
  have hend : (bytes "\x7d").length = 1 := rfl
  simp only [saveConfig, List.length_append, hstart, hmiddle, hend]
  omega

/-- The handler reads two empty strings, whatever the numbers. -/
theorem configValues_saveConfig (c f : JsNumber) :
    configValues (saveConfig c f).body = ([], []) := by
  have hamp := saveConfig_no_separator c f 38 (by decide) (by decide)
  have heq := saveConfig_no_separator c f 61 (by decide) (by decide)
  have hlen := le_length_saveConfig c f
  have hconfidence : confidence.name.length = 10 := rfl
  have hfrequency : frequency.name.length = 9 := rfl
  rw [configValues, confidence.read_missing (mgHttpVar_of_no_separator hamp heq (by omega)),
    frequency.read_missing (mgHttpVar_of_no_separator hamp heq (by omega))]

/-- The reply reports success with the two empty strings. -/
theorem fn_saveConfig (deviceStatus : List Byte) (c f : JsNumber) :
    fn deviceStatus (saveConfig c f) =
      .reply ⟨200, jsonHeader, sprintf configFormat [[], []]⟩ := by
  have huri : (saveConfig c f).uri = bytes "/api/config/update" := rfl
  have hmethod : isMethod (saveConfig c f) (bytes "POST") = true := rfl
  rw [fn, huri, if_neg (by decide), if_neg (by decide), if_pos rfl, if_pos hmethod]
  simp only [configValues_saveConfig]

/-- No pair of numbers reaches the handler. -/
theorem not_preserved (c f : JsNumber) : ¬ Preserved c f := by
  rw [Preserved, configValues_saveConfig]
  intro h
  exact c.toText_ne_nil (congrArg Prod.fst h).symm

/-- 0.5, where the slider of the page stands. -/
def half : JsNumber := .finite false ⟨bytes "5", 0, by decide, by decide, by decide⟩

/-- 1, where the other one stands. -/
def one : JsNumber := .finite false ⟨bytes "1", 1, by decide, by decide, by decide⟩

theorem initial_sliders_lost : ¬ ∀ c f : JsNumber, Preserved c f := by
  intro h
  have hhalf : configValues (saveConfig half one).body = (bytes "0.5", bytes "1") := h half one
  exact absurd hhalf (by decide)

/-! ## The form encoding -/

/-- The body the handler understands, in the form of the script's `command=start`. -/
def formBody (c f : List Byte) : List Byte :=
  bytes "confidence=" ++ c ++ bytes "&frequency=" ++ f

/-- A text that form encoding leaves as it is. -/
def Unescaped (t : List Byte) : Prop := 0 ∉ t ∧ 37 ∉ t ∧ 38 ∉ t ∧ 43 ∉ t

theorem urlDecode_of_unescaped {t : List Byte} (h37 : 37 ∉ t) (h43 : 43 ∉ t) :
    urlDecode t = (t, true) := by
  induction t with
  | nil => rfl
  | cons b t ih =>
    rw [List.mem_cons, not_or] at h37 h43
    unfold urlDecode
    rw [if_neg (Ne.symm h37.1), if_neg (Ne.symm h43.1), ih h37.2 h43.2]

theorem Param.read_of_unescaped (p : Param) {body v : List Byte} (hv : Unescaped v)
    (hlen : v.length < p.size) (h : mgHttpVar body p.name = some v) : p.read body = v := by
  have hdecode := urlDecode_of_unescaped hv.2.1 hv.2.2.2
  rw [p.read_fits h (by rw [hdecode]) (by rw [hdecode]; exact hlen), hdecode]
  exact cutAt_eq_self hv.1

theorem not_mem_entry {name v : List Byte} (hname : 38 ∉ name) (hv : 38 ∉ v) :
    38 ∉ name ++ 61 :: v := by
  simp [hname, hv]

/-- Had the script sent the numbers as a form, the handler would read them, as long as they fit
its buffers. -/
theorem configValues_formBody {c f : List Byte} (hc : Unescaped c) (hf : Unescaped f)
    (hclen : c.length < 16) (hflen : f.length < 16) : configValues (formBody c f) = (c, f) := by
  have hbody : formBody c f =
      (bytes "confidence" ++ 61 :: c) ++ 38 :: (bytes "frequency" ++ 61 :: f) := by
    have hfirst : bytes "confidence=" = bytes "confidence" ++ [61] := by decide
    have hsecond : bytes "&frequency=" = 38 :: (bytes "frequency" ++ [61]) := by decide
    simp [formBody, hfirst, hsecond]
  have hfirst : mgSpan (formBody c f) 38 =
      some (bytes "confidence" ++ 61 :: c, bytes "frequency" ++ 61 :: f) := by
    rw [hbody]
    exact mgSpan_append (not_mem_entry (by decide) hc.2.2.1) _
  have hsecond : mgSpan (bytes "frequency" ++ 61 :: f) 38 =
      some (bytes "frequency" ++ 61 :: f, []) :=
    mgSpan_of_not_mem (by simp) (not_mem_entry (by decide) hf.2.2.1)
  have hconfidence : mgHttpVar (formBody c f) confidence.name = some c := by
    rw [mgHttpVar_eq hfirst, mgSpan_append (by decide) c]
    exact if_pos (by decide)
  have hfrequency : mgHttpVar (formBody c f) frequency.name = some f := by
    rw [mgHttpVar_eq hfirst, mgSpan_append (by decide) c]
    have hother : ¬ (frequency.name.length = (bytes "confidence").length ∧
      mgNcasecmp frequency.name (bytes "confidence") = 0) := by decide
    simp only [if_neg hother]
    rw [mgHttpVar_eq hsecond, mgSpan_append (by decide) f]
    exact if_pos (by decide)
  rw [configValues, Param.read_of_unescaped _ hc hclen hconfidence,
    Param.read_of_unescaped _ hf hflen hfrequency]

end BoardTest.Dashboard
