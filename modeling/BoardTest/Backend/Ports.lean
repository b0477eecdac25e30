import BoardTest.Backend.JsonReplies
import BoardTest.Lib.JsonArray
import BoardTest.Lib.Lines
import Mathlib.Data.List.Infix

/-!
# The list of serial ports

The handler of `/api/test/uart/ports` puts the lines of an `ls` between quotes and commas into a
buffer of 1024 bytes with `strcat`, and prints that into another of the same size. Nothing is
checked: the reply lists the ports exactly when their names, with three bytes for each, take at most
991 bytes (`listed_iff`).
-/

namespace BoardTest.Backend

open Json (Safe PlainByte Utf8 Member Denotes stringArray quote renderObject)

/-- `strcat(dst, src)` for strings in a buffer of `size` bytes; beyond it is undefined. -/
def strcat (size : Nat) (dst src : List Byte) : Option (List Byte) :=
  if dst.length + src.length < size then some (dst ++ src) else none

/-- The filter of line 148. -/
def IsPort (buffer : List Byte) : Prop :=
  bytes "/dev/ttyS" <:+: buffer ∨ bytes "/dev/ttyUSB" <:+: buffer

instance (buffer : List Byte) : Decidable (IsPort buffer) :=
  @instDecidableOr _ _ (List.decidableInfix _ _) (List.decidableInfix _ _)

structure PortsState where
  ports : List Byte
  first : Bool

/-- `char ports[1024] = "["; int first = 1;` -/
def PortsState.init : PortsState := ⟨bytes "[", true⟩

/-- The body of the `while` loop (`main.c:143-156`). -/
def PortsState.add (s : PortsState) (chunk : List Byte) : Option PortsState :=
  let buffer := cutAt 10 (cstr chunk)
  if IsPort buffer then do
    let ports ← if s.first then some s.ports else strcat 1024 s.ports (bytes ",")
    let ports ← strcat 1024 ports (bytes "\"")
    let ports ← strcat 1024 ports buffer
    let ports ← strcat 1024 ports (bytes "\"")
    some ⟨ports, false⟩
  else some s

/-- `ports` when the output of `ls` has been read (`main.c:139-157`). -/
def portsText (output : List Byte) : Option (List Byte) := do
  let s ← (fgetsAll 256 [] output).foldlM PortsState.add .init
  strcat 1024 s.ports (bytes "]")

/-- The `snprintf` of line 162. -/
def listReply (ports : List Byte) : Reply where
  size := 1024
  format := "\x7b\"status\": \"成功\", \"ports\": %s\x7d"
  args := [ports]
  message := "获取串口端口成功"

/-- The handler (`main.c:133-174`), with what `popen` gave. -/
def portsReply (popen : Option (List Byte)) : Option Reply :=
  match popen with
  | some output => (portsText output).map listReply
  | none =>
    some
      { size := 256
        format := "\x7b\"status\": \"成功\", \"ports\": " ++
          "[\"/dev/ttyS0\", \"/dev/ttyS1\", \"/dev/ttyS2\", \"/dev/ttyS3\"]\x7d"
        args := []
        message := "获取串口端口成功" }

/-- The output of `ls`: lines that fit the buffer, of bytes that need no escape. -/
structure Listing where
  lines : List (List Byte)
  length_le : ∀ l ∈ lines, l.length ≤ 254
  plain : ∀ l ∈ lines, ∀ b ∈ l, PlainByte b

namespace Listing

variable (ls : Listing)

def output : List Byte := (ls.lines.map (· ++ [10])).flatten

/-- The lines to be shown. -/
def shown : List (List Byte) := ls.lines.filter IsPort

/-- The value of the body that lists the lines. -/
def value : Json.Value :=
  .obj [(bytes "status", .num (decimal 200)), (bytes "message", .str (bytes "获取串口端口成功")),
    (bytes "data", .obj [(bytes "status", .str (bytes "成功")),
      (bytes "ports", .arr (ls.shown.map .str))])]

/-- The reply is made within its buffers, whole, and is the JSON object with the lines. -/
def Listed : Prop :=
  ∃ r, portsReply (some ls.output) = some r ∧ (sprintf r.format r.args).length < r.size ∧
    (sprintf responseFormat [decimal 200, bytes r.message, r.data]).length < 2048 ∧
    Json.parse r.body = some ls.value

/-- The names to be shown have room, and they are UTF-8. -/
def Fits : Prop := (ls.shown.map fun l => l.length + 3).sum ≤ 991 ∧ ∀ l ∈ ls.shown, Utf8 l

end Listing

/-- One `strcat` after the other. -/
theorem strcat_bind {β : Type} (size : Nat) (dst src src' : List Byte) (f : List Byte → Option β) :
    ((strcat size dst src).bind fun dst => (strcat size dst src').bind f) =
      (strcat size dst (src ++ src')).bind f := by
  unfold strcat
  by_cases h : dst.length + src.length < size
  · rw [if_pos h, Option.bind_some, List.length_append, List.length_append, List.append_assoc,
      Nat.add_assoc]
  · have h' : ¬ dst.length + (src ++ src').length < size := by
      rw [List.length_append]
      omega
    rw [if_neg h, if_neg h', Option.bind_none, Option.bind_none]

theorem add_of_isPort {s : PortsState} {l : List Byte} (hl : cutAt 10 (cstr (l ++ [10])) = l)
    (hport : IsPort l) : s.add (l ++ [10]) =
      (strcat 1024 s.ports ((if s.first then [] else [44]) ++ quote l)).map (⟨·, false⟩) := by
  have hquote : bytes "\"" = [34] := by decide
  have hcomma : bytes "," = [44] := by decide
  have hmark : quote l = [34] ++ (l ++ [34]) := rfl
  rw [PortsState.add, hl, hquote, hcomma, hmark, Option.map_eq_bind]
  refine (if_pos hport).trans ?_
  cases s.first with
  | true =>
    simp only [if_true, Option.bind_eq_bind, Option.bind_some, strcat_bind, List.nil_append]
    rfl
  | false =>
    simp only [Bool.false_eq_true, if_false, Option.bind_eq_bind, strcat_bind]
    rfl

theorem add_of_not_isPort {s : PortsState} {l : List Byte} (hl : cutAt 10 (cstr (l ++ [10])) = l)
    (hport : ¬ IsPort l) : s.add (l ++ [10]) = some s := by
  rw [PortsState.add, hl]
  exact if_neg hport

/-- The array without its closing bracket. -/
def opened (ts : List (List Byte)) : List Byte := 91 :: joinFields 44 (ts.map quote)

theorem joinFields_concat (sep : Byte) (fs : List (List Byte)) (f : List Byte) :
    joinFields sep (fs ++ [f]) = joinFields sep fs ++ ((if fs = [] then [] else [sep]) ++ f) := by
  induction fs with
  | nil => rfl
  | cons g fs ih =>
    cases fs with
    | nil => rfl
    | cons g' fs =>
      have hcons : joinFields sep ((g :: g' :: fs) ++ [f]) =
          g ++ sep :: joinFields sep ((g' :: fs) ++ [f]) := rfl
      have hcons' : joinFields sep (g :: g' :: fs) = g ++ sep :: joinFields sep (g' :: fs) := rfl
      rw [hcons, hcons', ih]
      simp

theorem opened_concat (ts : List (List Byte)) (t : List Byte) :
    opened (ts ++ [t]) = opened ts ++ ((if ts = [] then [] else [44]) ++ quote t) := by
  rw [opened, List.map_append, List.map_singleton, joinFields_concat, opened, List.cons_append]
  simp only [List.map_eq_nil_iff]

/-- What the loop has written of the lines so far. -/
def PortsState.after (ts : List (List Byte)) : PortsState := ⟨opened ts, ts = []⟩

/-- A line to be shown is written behind the others. -/
theorem add_after {l : List Byte} (hl : cutAt 10 (cstr (l ++ [10])) = l) (hport : IsPort l)
    (done : List (List Byte)) : (PortsState.after done).add (l ++ [10]) =
      if (opened (done ++ [l])).length < 1024 then some (.after (done ++ [l])) else none := by
  have hafter : PortsState.after (done ++ [l]) = ⟨opened (done ++ [l]), false⟩ := by
    simp [PortsState.after]
  rw [add_of_isPort hl hport, hafter, opened_concat, List.length_append]
  simp only [PortsState.after, strcat, decide_eq_true_eq]
  split_ifs <;> rfl

theorem length_opened_le (done more : List (List Byte)) :
    (opened done).length ≤ (opened (done ++ more)).length := by
  induction more using List.reverseRecOn with
  | nil => rw [List.append_nil]
  | append_singleton more t ih =>
    rw [← List.append_assoc, opened_concat, List.length_append]
    omega

/-- The loop writes the array of the lines to be shown, or leaves the buffer. -/
theorem foldlM_add {lines : List (List Byte)}
    (hlines : ∀ l ∈ lines, cutAt 10 (cstr (l ++ [10])) = l)
    {done : List (List Byte)} (hdone : (opened done).length < 1024) :
    (lines.map (· ++ [10])).foldlM PortsState.add (.after done) =
      if (opened (done ++ lines.filter IsPort)).length < 1024 then
        some (.after (done ++ lines.filter IsPort))
      else none := by
  induction lines generalizing done with
  | nil => simp [hdone]
  | cons l lines ih =>
    obtain ⟨hl, hrest⟩ := List.forall_mem_cons.mp hlines
    rw [List.map_cons, List.foldlM_cons]
    by_cases hport : IsPort l
    · have hsplit : done ++ (l :: lines).filter IsPort = (done ++ [l]) ++ lines.filter IsPort := by
        rw [List.filter_cons_of_pos (by simpa using hport), List.append_assoc,
          List.singleton_append]
      rw [add_after hl hport, hsplit]
      by_cases hroom : (opened (done ++ [l])).length < 1024
      · rw [if_pos hroom]
        exact ih hrest hroom
      · have hle := length_opened_le (done ++ [l]) (lines.filter IsPort)
        rw [if_neg hroom, if_neg (by omega)]
        rfl
    · rw [add_of_not_isPort hl hport, List.filter_cons_of_neg (by simpa using hport)]
      exact ih hrest hdone

/-! ## The reply -/

/-- Three bytes for each name. -/
theorem length_opened {ts : List (List Byte)} (hne : ts ≠ []) :
    (opened ts).length = (ts.map fun t => t.length + 3).sum := by
  induction ts with
  | nil => exact absurd rfl hne
  | cons t ts ih =>
    cases ts with
    | nil => simp [opened, joinFields, quote]
    | cons t' ts =>
      have hopened : opened (t :: t' :: ts) = 91 :: (quote t ++ 44 :: (opened (t' :: ts)).tail) :=
        rfl
      have hrest := ih (by simp)
      have hpos : 0 < (opened (t' :: ts)).length := Nat.succ_pos _
      have hquote : (quote t).length = t.length + 2 := by simp [quote]
      rw [hopened, List.length_cons, List.length_append, List.length_cons, List.length_tail,
        hquote, List.map_cons, List.sum_cons]
      omega

/-- The array has room in `response_data` exactly when the names have. -/
theorem length_stringArray_le_iff (ts : List (List Byte)) :
    (stringArray ts).length ≤ 992 ↔ (ts.map fun t => t.length + 3).sum ≤ 991 := by
  have harray : (stringArray ts).length = (opened ts).length + 1 := by simp [stringArray, opened]
  by_cases hne : ts = []
  · rw [hne]
    decide
  · rw [harray, length_opened hne]
    omega

/-- The members of the `data` object. -/
def portsMembers (ports : List Byte) : List Member :=
  [⟨bytes "status", .quoted (bytes "成功")⟩, ⟨bytes "ports", .raw ports⟩]

theorem sprintf_listReply (ports : List Byte) :
    sprintf (listReply ports).format (listReply ports).args =
      renderObject (portsMembers ports) := by
  have hpieces : formatPieces (bytes (listReply ports).format) =
      [123 :: (keyText (bytes "status") ++ 34 :: (bytes "成功" ++ quotedTo (bytes "ports"))),
        [125]] := by
    simp only [listReply]
    decide +kernel
  rw [sprintf_eq hpieces]
  simp [listReply, weave, renderObject, Json.renderMembers, portsMembers, Member.render,
    Json.Slot.render, keyText, quotedTo]

theorem length_sprintf_listReply (ports : List Byte) :
    (sprintf (listReply ports).format (listReply ports).args).length = 31 + ports.length := by
  have hmembers : (renderObject (portsMembers [])).length = 31 := by decide +kernel
  have hports : (renderObject (portsMembers ports)).length =
      (renderObject (portsMembers [])).length + ports.length := by
    simp only [renderObject, portsMembers, Json.renderMembers, Member.render, Json.Slot.render,
      List.length_cons, List.length_append, List.length_nil]
    omega
  rw [sprintf_listReply, hports, hmembers]

/-- The outer buffer is large enough for all that is in `response_data`. -/
theorem length_body_lt (ports : List Byte) :
    (sprintf responseFormat
      [decimal 200, bytes (listReply ports).message, (listReply ports).data]).length < 2048 := by
  have hmessage : (bytes (listReply ports).message).length = 24 := by
    simp only [listReply]
    decide +kernel
  have hdata : (listReply ports).data.length ≤ 1023 := List.length_take_le _ _
  have hpieces : literalLength (formatPieces (bytes responseFormat)) = 37 := by decide +kernel
  have hcount : (formatPieces (bytes responseFormat)).length = 4 := by decide +kernel
  have hdecimal : (decimal 200).length = 3 := by decide
  rw [sprintf, length_weave hcount, hpieces]
  simp only [List.map_cons, List.map_nil, List.sum_cons, List.sum_nil, hdecimal, hmessage]
  omega

namespace Listing

variable (ls : Listing)

theorem fgetsAll_output : fgetsAll 256 [] ls.output = ls.lines.map (· ++ [10]) := by
  apply fgetsAll_lines
  intro l hl
  refine ⟨?_, by have := ls.length_le l hl; omega⟩
  intro hlf
  exact absurd (ls.plain l hl 10 hlf).1 (by decide)

/-- `buffer[strcspn(buffer, "\n")] = '\0'` leaves the line. -/
theorem cutAt_chunk {l : List Byte} (hl : l ∈ ls.lines) : cutAt 10 (cstr (l ++ [10])) = l := by
  have hnot (c : Byte) (hc : c < 32) : c ∉ l := by
    intro hmem
    exact absurd hc (UInt8.not_lt.mpr (ls.plain l hl c hmem).1)
  have hcstr : cstr (l ++ [10]) = l ++ [10] := by
    rw [cstr, cutAt_append (hnot 0 (by decide))]
    rfl
  rw [hcstr, cutAt_append_cons (hnot 10 (by decide))]

theorem portsText_output : portsText ls.output =
    if (stringArray ls.shown).length < 1024 then some (stringArray ls.shown) else none := by
  have hinit : PortsState.init = .after [] := rfl
  have hbracket : bytes "]" = [93] := by decide
  have hstart : (opened []).length < 1024 := by decide
  have hloop := foldlM_add (fun l hl => ls.cutAt_chunk hl) hstart
  have harray : stringArray ls.shown = opened ls.shown ++ [93] := rfl
  rw [portsText, ls.fgetsAll_output, hinit, hloop, hbracket, List.nil_append, ← shown, harray,
    List.length_append, List.length_singleton]
  by_cases hroom : (opened ls.shown).length < 1024
  · rw [if_pos hroom]
    rfl
  · have hfull : ¬ (opened ls.shown).length + 1 < 1024 := by omega
    rw [if_neg hroom, if_neg hfull]
    rfl

theorem portsReply_output : portsReply (some ls.output) =
    if (stringArray ls.shown).length < 1024 then some (listReply (stringArray ls.shown))
    else none := by
  rw [portsReply, ls.portsText_output]
  split <;> rfl

/-- The body is read up to the array, and on from its end. -/
theorem parse_body (hroom : (stringArray ls.shown).length ≤ 992) :
    Json.parse (listReply (stringArray ls.shown)).body =
      if ∀ l ∈ ls.shown, Utf8 l then some ls.value else none := by
  have hcomma : (44 : Byte) = 44 ∨ (44 : Byte) = 125 := .inl rfl
  have hstatus : Json.Slot.Clean (.raw (decimal 200)) := by decide
  have hmessage : Json.Slot.Clean (.quoted (bytes "获取串口端口成功")) := by decide +kernel
  have hsuccess : Json.Slot.Clean (.quoted (bytes "成功")) := by decide +kernel
  have hstr (t : List Byte) : Json.Slot.Denotes (.quoted t) (.str t) := rfl
  have hplain : ∀ t ∈ ls.shown, ∀ b ∈ t, PlainByte b :=
    fun t ht => ls.plain t (List.mem_of_mem_filter ht)
  have hfits : (sprintf (listReply (stringArray ls.shown)).format
      (listReply (stringArray ls.shown)).args).length <
        (listReply (stringArray ls.shown)).size := by
    rw [length_sprintf_listReply]
    show 31 + (stringArray ls.shown).length < 1024
    omega
  have hdata : (listReply (stringArray ls.shown)).data =
      renderObject (portsMembers (stringArray ls.shown)) := by
    rw [Reply.data, snprintf_eq_sprintf hfits, sprintf_listReply]
  have hrender : renderObject (responseMembers (bytes "获取串口端口成功")
      (renderObject (portsMembers (stringArray ls.shown)))) =
      123 :: (Member.render ⟨bytes "status", .raw (decimal 200)⟩ ++ 44 :: 32 ::
        (Member.render ⟨bytes "message", .quoted (bytes "获取串口端口成功")⟩ ++ 44 :: 32 ::
          (34 :: (bytes "data" ++ (34 :: 58 :: 32 :: (123 ::
            (Member.render ⟨bytes "status", .quoted (bytes "成功")⟩ ++ 44 :: 32 ::
              (34 :: (bytes "ports" ++ (34 :: 58 :: 32 ::
                (stringArray ls.shown ++ 125 :: [125]))))))))))) := by
    simp [renderObject, Json.renderMembers, responseMembers, portsMembers, Member.render,
      Json.Slot.render]
  rw [Reply.body, sendJsonResponse, snprintf_eq_sprintf (length_body_lt _), sprintf_response,
    hdata]
  simp only [listReply]
  rw [hrender, Json.parse, Json.State.init, Json.run_object,
    Json.run_member (by decide) hstatus clean_decimal hcomma, Json.run_after_comma,
    Json.run_member (by decide) hmessage (hstr _) hcomma, Json.run_after_comma,
    Json.run_key (by decide), Json.run_object,
    Json.run_member (by decide) hsuccess (hstr _) hcomma, Json.run_after_comma,
    Json.run_key (by decide), Json.run_stringArray hplain]
  by_cases hutf8 : ∀ l ∈ ls.shown, Utf8 l
  · rw [if_pos hutf8, if_pos hutf8, Json.run_after_brace, Json.run_after_brace]
    rfl
  · rw [if_neg hutf8, if_neg hutf8]
    rfl

/-- Names without room are not listed. -/
theorem fits_of_listed (h : ls.Listed) : ls.Fits := by
  obtain ⟨r, hr, hdata, -, hparse⟩ := h
  rw [ls.portsReply_output] at hr
  split at hr
  · cases hr
    have hroom : (stringArray ls.shown).length ≤ 992 := by
      rw [length_sprintf_listReply] at hdata
      have hsize : (listReply (stringArray ls.shown)).size = 1024 := rfl
      omega
    refine ⟨(length_stringArray_le_iff _).mp hroom, ?_⟩
    by_contra hutf8
    rw [ls.parse_body hroom, if_neg hutf8] at hparse
    cases hparse
  · cases hr

/-- The ports are listed exactly when their names have room and are UTF-8. -/
theorem listed_iff : ls.Listed ↔ ls.Fits := by
  refine ⟨ls.fits_of_listed, ?_⟩
  rintro ⟨hlen, hutf8⟩
  have hroom := (length_stringArray_le_iff _).mpr hlen
  refine ⟨listReply (stringArray ls.shown), ?_, ?_, length_body_lt _, ?_⟩
  · rw [ls.portsReply_output, if_pos (by omega)]
  · rw [length_sprintf_listReply]
    show 31 + (stringArray ls.shown).length < 1024
    omega
  · rw [ls.parse_body hroom, if_pos hutf8]

end Listing

theorem plain_of_all {lines : List (List Byte)}
    (h : (lines.all fun l => l.all fun b => decide (PlainByte b)) = true) :
    ∀ l ∈ lines, ∀ b ∈ l, PlainByte b := by
  intro l hl b hb
  exact of_decide_eq_true (List.all_eq_true.mp (List.all_eq_true.mp h l hl) b hb)

/-- `/dev/ttyS0` to `/dev/ttyS99` -/
def hundredPorts : Listing where
  lines := (List.range 100).map fun i => bytes "/dev/ttyS" ++ decimal i
  length_le := by decide +kernel
  plain := plain_of_all (by decide +kernel)

/-- A hundred ports are too many. -/
theorem hundredPorts_not_listed : ¬ ∀ ls : Listing, ls.Listed := by
  intro h
  have hlen := (hundredPorts.fits_of_listed (h hundredPorts)).1
  exact absurd hlen (by decide +kernel)

end BoardTest.Backend
