import BoardTest.Backend.HttpMessages
import BoardTest.Backend.Ports

/-!
# The replies of the backend

What `mg_http_reply` puts into the send buffer is a message that is read back with the status, the
headers and the body it was made of (`reply_read_back`). So a client that sends requests for the
tests, in one stream and cut in any way, reads one reply for each of them, in order
(`replies_in_order`).
-/

namespace BoardTest.Backend

open Numeral Strtol

/-- The header that `mg_http_reply` writes behind the others -/
def lengthLine (len : Nat) : HeaderLine :=
  ⟨bytes "Content-Length", [32], decimal len, List.replicate (11 - (decimal len).length) 32, true⟩

/-- The head of a reply: the status, the headers, and the length with blanks behind it. -/
def replyHead (code : Nat) (ls : List HeaderLine) (len : Nat) : Head where
  method := bytes "HTTP/1.1"
  path := decimal code
  query := none
  gap := 1
  proto := bytes (statusCodeStr code)
  firstCrlf := true
  lines := ls ++ [lengthLine len]
  lastCrlf := true

theorem overwrite_middle (a old b w : List Byte) (h : w.length = old.length) :
    overwrite (a ++ old ++ b) a.length w = a ++ w ++ b := by
  rw [overwrite, h, ← List.length_append, List.drop_left, List.append_assoc a old b, List.take_left]

theorem mgHttpReply_eq (code : Nat) (ls : List HeaderLine) {body : List Byte}
    (hbody : body.length < 10 ^ 10) : mgHttpReply code (ls.flatMap HeaderLine.text) body =
      (replyHead code ls body.length).text ++ body := by
  obtain ⟨k, hk⟩ : ∃ k, (decimal body.length).length + k = 10 := by
    have hle := (length_decimal_le_iff (by decide)).mpr hbody
    exact ⟨10 - (decimal body.length).length, by omega⟩
  obtain ⟨a, ha⟩ : ∃ a, a = bytes "HTTP/1.1 " ++ decimal code ++ [32] ++
      bytes (statusCodeStr code) ++ [13, 10] ++ ls.flatMap HeaderLine.text ++
        bytes "Content-Length: " := ⟨_, rfl⟩
  have hpieces : formatPieces (bytes "HTTP/1.1 %d %s\r\n%sContent-Length:            \r\n\r\n") =
      [bytes "HTTP/1.1 ", [32], [13, 10], bytes "Content-Length: " ++ List.replicate 11 32 ++
        [13, 10, 13, 10]] := by decide +kernel
  have hhead : sprintf "HTTP/1.1 %d %s\r\n%sContent-Length:            \r\n\r\n"
      [decimal code, bytes (statusCodeStr code), ls.flatMap HeaderLine.text] =
        a ++ List.replicate 11 32 ++ [13, 10, 13, 10] := by
    rw [sprintf_eq hpieces, ha]
    simp [weave]
  have hlen : (a ++ List.replicate 11 32 ++ [13, 10, 13, 10]).length - 15 = a.length := by
    simp
  have hprinted : (decimal body.length ++ List.replicate (10 - (decimal body.length).length) 32 :
      List Byte).length = 10 := by
    rw [List.length_append, List.length_replicate]
    omega
  have htext : (replyHead code ls body.length).text = a ++ (decimal body.length ++
      List.replicate (10 - (decimal body.length).length) 32 ++ [32]) ++ [13, 10, 13, 10] := by
    have hblanks : List.replicate (11 - (decimal body.length).length) (32 : Byte) =
        List.replicate (10 - (decimal body.length).length) 32 ++ [32] := by
      rw [← List.replicate_succ']
      congr 1
      omega
    have hfirst : bytes "HTTP/1.1 " = bytes "HTTP/1.1" ++ [32] := by decide
    have hname : bytes "Content-Length: " = bytes "Content-Length" ++ [58, 32] := by decide
    rw [ha, hfirst, hname]
    simp [replyHead, lengthLine, Head.text, Head.firstLine, Head.target, HeaderLine.text,
      HeaderLine.line, eol, hblanks]
  rw [mgHttpReply, hhead, hlen, hprinted, htext, List.take_of_length_le hprinted.le,
    List.append_assoc _ _ body,
    overwrite_middle _ _ _ _ (by rw [List.length_append, hprinted]; rfl)]
  obtain ⟨p, hp⟩ : ∃ p, p = (decimal body.length ++
      List.replicate (10 - (decimal body.length).length) 32 : List Byte) := ⟨_, rfl⟩
  rw [← hp] at hprinted ⊢
  rw [show a ++ (p ++ [0]) ++ ([13, 10, 13, 10] ++ body) =
    (a ++ p) ++ 0 :: ([13, 10, 13, 10] ++ body) by simp, ← hprinted, ← List.length_append,
    List.set_append_right _ _ (Nat.le_refl _), Nat.sub_self, List.set_cons_zero]
  simp

theorem token_of_ascii {stop : Byte → Bool} {t : List Byte}
    (h : ∀ b ∈ t, 32 < b ∧ b ≤ 126 ∧ stop b = false) : Token stop t := by
  induction t with
  | nil => rfl
  | cons b t ih =>
    rw [List.forall_mem_cons] at h
    have hone : Token stop [b] := by
      simp [Token, chars, charsLoop, clen, h.1.1, h.1.2.1, h.1.2.2]
    exact hone.append (ih h.2)

theorem digit_bounds {b : Byte} (h : isDigit b = true) :
    32 < b ∧ b ≤ 126 ∧ b ≠ 63 ∧ isBlank b = false := by
  revert h
  exact forall_byte (p := fun b => isDigit b = true → 32 < b ∧ b ≤ 126 ∧ b ≠ 63 ∧
    isBlank b = false) (by decide +kernel) b

/-- The reason that is given for a status may stand in a line. -/
theorem statusCodeStr_inline (code : Nat) : Inline (bytes (statusCodeStr code)) ∧
    (bytes (statusCodeStr code)).head? ≠ some 32 ∧ (bytes (statusCodeStr code)).length ≤ 40 := by
  have hall : (statusCodes.all fun p => Inline (bytes p.2) ∧ (bytes p.2).head? ≠ some 32 ∧
      (bytes p.2).length ≤ 40) = true := by decide +kernel
  have hnone : Inline (bytes "") ∧ (bytes "").head? ≠ some 32 ∧ (bytes "").length ≤ 40 := by decide
  rw [statusCodeStr]
  cases hfind : statusCodes.find? (·.1 = code) with
  | none => exact hnone
  | some p => exact of_decide_eq_true (List.all_eq_true.mp hall p (List.mem_of_find?_eq_some hfind))

/-- A header with this name -/
def HeaderLine.Named (l : HeaderLine) (name : String) : Prop :=
  (bytes name).length = l.name.length ∧ mgNcasecmp l.name (bytes name) = 0

instance (l : HeaderLine) (name : String) : Decidable (l.Named name) :=
  inferInstanceAs (Decidable (_ ∧ _))

/-- A header is found where no other has its name. -/
theorem header_of_lines {h : Head} {ls : List HeaderLine} {l : HeaderLine} {name : String}
    (hlines : h.lines = ls ++ [l]) (hcount : ls.length ≤ 29) (hls : ∀ l ∈ ls, ¬ l.Named name) :
    h.message.header name = if l.Named name then some l.value else none := by
  have hheaders : h.message.headers =
      ls.map (fun l => (l.name, l.value)) ++ [(l.name, l.value)] := by
    have hall : (ls ++ [l]).length ≤ 30 := by
      rw [List.length_append]
      exact Nat.succ_le_succ hcount
    rw [Head.message, hlines, List.take_of_length_le hall, List.map_append]
    rfl
  have hothers : (ls.map fun l => (l.name, l.value)).find? (fun h =>
      (bytes name).length = h.1.length ∧ mgNcasecmp h.1 (bytes name) = 0) = none := by
    rw [List.find?_eq_none]
    intro p hp
    obtain ⟨l, hl, rfl⟩ := List.mem_map.mp hp
    have hnot := hls l hl
    simpa [HeaderLine.Named] using hnot
  rw [HttpMessage.header, hheaders, List.find?_append, hothers, Option.none_or]
  by_cases hnamed : l.Named name
  · rw [if_pos hnamed]
    exact congrArg (Option.map Prod.snd) (List.find?_cons_of_pos (decide_eq_true hnamed))
  · rw [if_neg hnamed]
    exact congrArg (Option.map Prod.snd)
      (List.find?_cons_of_neg fun h => hnamed (of_decide_eq_true h))

variable {code : Nat} {ls : List HeaderLine}

/-- Headers that may be given to `mg_http_reply` -/
structure ReplyHeaders (ls : List HeaderLine) : Prop where
  ok : ∀ l ∈ ls, l.Ok
  count : ls.length ≤ 29
  length : ∀ l ∈ ls, ¬ l.Named "Content-Length"
  short : (ls.flatMap HeaderLine.text).length < 2 ^ 30

theorem replyHead_short (hls : ReplyHeaders ls) {code len : Nat} (hcode : code < 2 ^ 31)
    (hlen : len < 10 ^ 10) : (replyHead code ls len).text.length < 2 ^ 31 := by
  have hmethod : (bytes "HTTP/1.1").length = 8 ∧ (bytes "Content-Length").length = 14 := by decide
  have hstatus := (statusCodeStr_inline code).2.2
  have hdigits := (length_decimal_le_iff (n := len) (k := 10) (by decide)).mpr hlen
  have hcodes := (length_decimal_le_iff (n := code) (k := 10) (by decide)).mpr (by omega)
  have hshort := hls.short
  simp only [replyHead, lengthLine, Head.text, Head.firstLine, Head.target, HeaderLine.text,
    HeaderLine.line, eol, List.length_append, List.length_cons, List.length_replicate,
    List.length_nil, List.flatMap_append, List.flatMap_cons, List.flatMap_nil, Option.map_none,
    Option.getD_none, if_true, hmethod.1, hmethod.2]
  omega

theorem replyHead_ok (hls : ReplyHeaders ls) {code len : Nat} (hcode : code < 2 ^ 31)
    (hlen : len < 10 ^ 10) : (replyHead code ls len).Ok := by
  have hdigits : ∀ n, ∀ b ∈ decimal n, 32 < b ∧ b ≤ 126 ∧ b ≠ 63 ∧ isBlank b = false :=
    fun n b hb => digit_bounds ((isNumeral_decimal n).2 b hb)
  have htarget : (replyHead code ls len).target = decimal code := by
    simp [replyHead, Head.target]
  have hmethod : bytes "HTTP/1.1" ≠ [] ∧ Token (fun _ => false) (bytes "HTTP/1.1") ∧
      isResponseMethod (bytes "HTTP/1.1") = true := by decide
  have hname : bytes "Content-Length" ≠ [] ∧ Token (· = 58) (bytes "Content-Length") := by decide
  refine ⟨hmethod.1, hmethod.2.1, (isNumeral_decimal code).1, ?_, ?_, fun _ => Nat.one_pos,
    (statusCodeStr_inline code).1, (statusCodeStr_inline code).2.1, .inl hmethod.2.2, ?_,
    replyHead_short hls hcode hlen⟩
  · exact fun hmem => (hdigits code 63 hmem).2.2.1 rfl
  · rw [htarget]
    exact token_of_ascii fun b hb => ⟨(hdigits code b hb).1, (hdigits code b hb).2.1, rfl⟩
  · intro l hl
    rcases List.mem_append.mp hl with hl | hl
    · exact hls.ok l hl
    · rw [List.mem_singleton.mp hl]
      refine ⟨hname.1, hname.2, ?_, ?_, ?_, ?_, ?_⟩
      · exact fun b hb => by rw [List.mem_singleton.mp hb]; rfl
      · exact inline_of_visible fun b hb => (hdigits len b hb).1
      · exact fun b hb => (hdigits len b (List.mem_of_mem_head? hb)).2.2.2
      · exact fun b hb => (hdigits len b (List.mem_of_mem_getLast? hb)).2.2.2
      · exact fun b hb => by rw [List.eq_of_mem_replicate hb]; rfl

theorem lengthLine_named (len : Nat) (name : String) : (lengthLine len).Named name ↔
    (bytes name).length = (bytes "Content-Length").length ∧
      mgNcasecmp (bytes "Content-Length") (bytes name) = 0 := Iff.rfl

theorem reply_header (hls : ReplyHeaders ls) (code len : Nat) {name : String}
    (hname : ∀ l ∈ ls, ¬ l.Named name) : (replyHead code ls len).message.header name =
      if (lengthLine len).Named name then some (decimal len) else none :=
  header_of_lines (l := lengthLine len) rfl hls.count hname

theorem reply_sized (hls : ReplyHeaders ls) (code : Nat) (body : List Byte) :
    (Written.mk (replyHead code ls body.length) body).Sized := by
  have hnamed : (lengthLine body.length).Named "Content-Length" :=
    (lengthLine_named ..).mpr (by decide)
  exact .inl ((reply_header hls code _ hls.length).trans (if_pos hnamed))

theorem reply_short (hls : ReplyHeaders ls) {code : Nat} (hcode : code < 2 ^ 31) {body : List Byte}
    (hbody : body.length < 10 ^ 10) :
    (Written.mk (replyHead code ls body.length) body).text.length < 2 ^ 64 - 1 := by
  have hhead := replyHead_short hls hcode hbody
  rw [Written.text, List.length_append]
  dsimp only
  omega

/-- A reply is a message. -/
theorem reply_ok (hls : ReplyHeaders ls) (hencoding : ∀ l ∈ ls, ¬ l.Named "Transfer-Encoding")
    (hconnection : ∀ l ∈ ls, ¬ l.Named "Connection") {code : Nat} (hcode : code < 2 ^ 31)
    {body : List Byte} (hbody : body.length < 10 ^ 10) :
    (Written.mk (replyHead code ls body.length) body).Ok := by
  have hnot : ¬ (lengthLine body.length).Named "Transfer-Encoding" ∧
      ¬ (lengthLine body.length).Named "Connection" :=
    ⟨fun h => absurd ((lengthLine_named ..).mp h) (by decide),
      fun h => absurd ((lengthLine_named ..).mp h) (by decide)⟩
  have hlength : (lengthLine body.length).Named "Content-Length" :=
    (lengthLine_named ..).mpr (by decide)
  refine ⟨replyHead_ok hls hcode hbody, reply_sized hls code body,
    ⟨(reply_header hls code _ hencoding).trans (if_neg hnot.1), ?_, ?_⟩,
    reply_short hls hcode hbody⟩
  · rw [HttpMessage.unsized, header_length, reply_header hls code _ hls.length, if_pos hlength]
    rfl
  · rw [HttpMessage.asksToClose, reply_header hls code _ hconnection, if_neg hnot.2]
    rfl

theorem mgHttpStatus_decimal {hm : HttpMessage} {code : Nat} (h : hm.uri = decimal code)
    (hcode : code < 2 ^ 31) : mgHttpStatus hm = code := by
  have hread : readInteger (decimal code) = some ((code : Int), []) := by
    have hprint := readInteger_printInt (code : Int) (t := []) (by simp)
    rwa [List.append_nil] at hprint
  have hsaturate : saturate (code : Int) = code := by
    rw [saturate, min_eq_left (by omega), max_eq_right (by omega)]
  rw [mgHttpStatus, h, strtol_of_isInteger (readInteger_eq_iff.mp hread), hsaturate]
  exact Int.bmod_eq_of_le (by omega) (by omega)

/-- A reply is read back with the status, the headers and the body that were given, and what
follows it is left alone. -/
theorem reply_read_back (hls : ReplyHeaders ls) {code : Nat} (hcode : code < 2 ^ 31)
    {body : List Byte} (hbody : body.length < 10 ^ 10) (t : List Byte) :
    ∃ n hm, mgHttpParse (mgHttpReply code (ls.flatMap HeaderLine.text) body ++ t) = .message n hm ∧
      (mgHttpReply code (ls.flatMap HeaderLine.text) body ++ t).drop n = body ++ t ∧
      hm.bodyLen = body.length ∧ mgHttpStatus hm = code ∧
      hm.headers = ls.map (fun l => (l.name, l.value)) ++
        [(bytes "Content-Length", decimal body.length)] := by
  have hparse := (replyHead_ok hls hcode hbody).parse_text (body ++ t)
  have hlen := (reply_sized hls code body).bodyLength (reply_short hls hcode hbody)
  dsimp only at hlen
  rw [hlen] at hparse
  rw [mgHttpReply_eq code ls hbody, List.append_assoc]
  refine ⟨_, _, hparse, List.drop_left .., rfl, mgHttpStatus_decimal rfl hcode, ?_⟩
  have hall : (ls ++ [lengthLine body.length]).length ≤ 30 := by
    rw [List.length_append]
    exact Nat.succ_le_succ hls.count
  show ((ls ++ [lengthLine body.length]).take 30).map _ = _
  rw [List.take_of_length_le hall, List.map_append]
  rfl

theorem reply_read_back_missing : ∃ n hm,
    mgHttpParse (mgHttpReply 404
      (([⟨bytes "Server", [], bytes "board", [32], true⟩] : List HeaderLine).flatMap
        HeaderLine.text) (bytes "no") ++ bytes "HTTP") = .message n hm ∧
      (mgHttpReply 404
        (([⟨bytes "Server", [], bytes "board", [32], true⟩] : List HeaderLine).flatMap
          HeaderLine.text) (bytes "no") ++ bytes "HTTP").drop n = bytes "no" ++ bytes "HTTP" ∧
      hm.bodyLen = (bytes "no").length ∧ mgHttpStatus hm = 404 ∧
      hm.headers = ([⟨bytes "Server", [], bytes "board", [32], true⟩] : List HeaderLine).map
        (fun l => (l.name, l.value)) ++ [(bytes "Content-Length", decimal (bytes "no").length)] :=
  reply_read_back
    { ok := List.forall_mem_singleton.mpr (by constructor <;> decide +kernel)
      count := by decide
      length := by decide
      short := by decide } (by decide) (by decide) (bytes "HTTP")

/-! ## `ev_handler` -/

/-- The requests that are answered by the program itself -/
inductive Route
  | test (e : Endpoint)
  | ports

/-- The comparisons of `ev_handler` (`main.c:31-238`) -/
def route (uri : List Byte) : Option Route :=
  if uri = bytes Endpoint.gpio.uri then some (.test .gpio)
  else if uri = bytes Endpoint.uart.uri then some (.test .uart)
  else if uri = bytes Endpoint.uartOpen.uri then some (.test .uartOpen)
  else if uri = bytes Endpoint.uartClose.uri then some (.test .uartClose)
  else if uri = bytes "/api/test/uart/ports" then some .ports
  else if uri = bytes Endpoint.led.uri then some (.test .led)
  else if uri = bytes Endpoint.rtc.uri then some (.test .rtc)
  else if uri = bytes Endpoint.watchdog.uri then some (.test .watchdog)
  else none

def Route.reply (query : List Byte) (o : Outcomes) : Route → Option Reply
  | .test e => some (e.reply query o)
  | .ports => portsReply o.popen

/-- The body of the reply, when the program makes one. -/
def answer (o : Outcomes) (hm : HttpMessage) : Option (List Byte) :=
  ((route hm.uri).bind (Route.reply hm.query o)).map Reply.body

/-- The headers of `send_json_response` -/
def jsonHeaders : String := "Content-Type: application/json\nAccess-Control-Allow-Origin: *\n"

/-- `ev_handler`, with what the board does at each request; `other` is `mg_http_serve_dir`, and what
there is when the list of ports leaves its buffer. -/
def evHandler (o : Nat → Outcomes) (other : Handler) : Handler := fun i hm =>
  match answer (o i) hm with
  | some body => (mgHttpReply 200 (bytes jsonHeaders) body, false)
  | none => other i hm

/-- What has been put into the send buffer. -/
def Deed.bytes : Deed → List Byte
  | .handled _ => []
  | .sent bs => bs
  | .file bs => bs

def sentBytes (ds : List Deed) : List Byte := ds.flatMap Deed.bytes

theorem answer_length {o : Outcomes} {hm : HttpMessage} {body : List Byte}
    (h : answer o hm = some body) : body.length ≤ 2047 := by
  obtain ⟨r, -, rfl⟩ := Option.map_eq_some_iff.mp h
  exact List.length_take_le _ _

/-- The headers of `send_json_response` as lines, each ended by LF alone. -/
def jsonLines : List HeaderLine :=
  [⟨bytes "Content-Type", [32], bytes "application/json", [], false⟩,
    ⟨bytes "Access-Control-Allow-Origin", [32], bytes "*", [], false⟩]

theorem jsonLines_text : jsonLines.flatMap HeaderLine.text = bytes jsonHeaders := by decide +kernel

theorem jsonLines_headers : ReplyHeaders jsonLines where
  ok := by
    have hfirst : HeaderLine.Ok
        ⟨bytes "Content-Type", [32], bytes "application/json", [], false⟩ := by
      constructor <;> decide +kernel
    have hsecond : HeaderLine.Ok
        ⟨bytes "Access-Control-Allow-Origin", [32], bytes "*", [], false⟩ := by
      constructor <;> decide +kernel
    exact List.forall_mem_cons.mpr ⟨hfirst, List.forall_mem_singleton.mpr hsecond⟩
  count := by decide
  length := by decide +kernel
  short := by
    rw [jsonLines_text]
    decide +kernel

/-- The reply of `send_json_response` as a message -/
def jsonReply (body : List Byte) : Written := ⟨replyHead 200 jsonLines body.length, body⟩

theorem jsonReply_ok {body : List Byte} (h : body.length ≤ 2047) : (jsonReply body).Ok :=
  reply_ok jsonLines_headers (by decide +kernel) (by decide +kernel) (by decide) (by omega)

theorem jsonReply_text {body : List Byte} (h : body.length ≤ 2047) :
    mgHttpReply 200 (bytes jsonHeaders) body = (jsonReply body).text := by
  rw [← jsonLines_text]
  exact mgHttpReply_eq 200 jsonLines (by omega)

variable {o : Nat → Outcomes} {other : Handler}

/-- What is sent for requests that are all answered by the program. -/
theorem sentBytes_dealt {k : Nat} {rs : List Request}
    (h : ∀ i r, rs[i]? = some r → (answer (o (k + i)) r.hm).isSome) :
    ∃ bodies : List (List Byte), (∀ b ∈ bodies, b.length ≤ 2047) ∧
      sentBytes (dealt (evHandler o other) k rs) =
        (bodies.map jsonReply).flatMap Written.text ∧
      bodies.map some = rs.mapIdx fun i r => answer (o (k + i)) r.hm := by
  induction rs generalizing k with
  | nil => exact ⟨[], List.forall_mem_nil _, rfl, rfl⟩
  | cons r rs ih =>
    obtain ⟨body, hbody⟩ := Option.isSome_iff_exists.mp (h 0 r rfl)
    rw [Nat.add_zero] at hbody
    have hrest : ∀ i r', rs[i]? = some r' → (answer (o (k + 1 + i)) r'.hm).isSome := by
      intro i r' hr
      rw [Nat.add_right_comm]
      exact h (i + 1) r' hr
    obtain ⟨bodies, hlen, hsent, hbodies⟩ := ih hrest
    refine ⟨body :: bodies, List.forall_mem_cons.mpr ⟨answer_length hbody, hlen⟩, ?_, ?_⟩
    · have hreply : (evHandler o other k r.hm).1 = (jsonReply body).text := by
        rw [evHandler, hbody]
        exact jsonReply_text (answer_length hbody)
      have hcons : sentBytes (dealt (evHandler o other) k (r :: rs)) =
          (evHandler o other k r.hm).1 ++ sentBytes (dealt (evHandler o other) (k + 1) rs) := rfl
      rw [hcons, hreply, hsent]
      rfl
    · rw [List.map_cons, hbodies, List.mapIdx_cons]
      simp only [Nat.add_zero, Nat.add_assoc, Nat.add_comm 1, hbody]

/-- One reply for each request, in order: a client that takes messages from what the server has
sent gets, for requests that the program answers itself, the replies with status 200 and their
bodies, and nothing else. -/
theorem replies_in_order (o : Nat → Outcomes) (other : Handler) (es : List ConnEvent)
    (hcalm : Throughout (Conn.step (evHandler o other)) Calm .accepted es)
    (horderly : Orderly (stream es))
    (hanswers : ∀ i r, (requests (stream es)).1[i]? = some r → (answer (o i) r.hm).isSome) :
    ∃ replies, requests (sentBytes (react (Conn.step (evHandler o other)) .accepted es).2) =
        (replies, []) ∧
      (replies.map fun r => some r.body) =
        (requests (stream es)).1.mapIdx (fun i r => answer (o i) r.hm) ∧
      ∀ r ∈ replies, mgHttpStatus r.hm = 200 := by
  obtain ⟨rs, h⟩ := advanced_accepted hcalm horderly
  have hleft := h.left
  rw [show Conn.accepted.recv ++ stream es = stream es from rfl] at hleft
  have hquiet : Finished (evHandler o other) 0 (requests (stream es)).1 := by
    intro i r hr
    obtain ⟨body, hbody⟩ := Option.isSome_iff_exists.mp (hanswers i r hr)
    rw [Nat.zero_add, evHandler, hbody]
  rw [hleft] at hquiet
  obtain ⟨hidle, hown, hkept⟩ := h.quiet rfl (finished_append.mp hquiet).1
  have hall : (requests (stream es)).1 = rs := by
    rw [hleft, hkept Conn.accepted_caughtUp hidle, List.append_nil]
  have hdeeds : (react (Conn.step (evHandler o other)) .accepted es).2 =
      dealt (evHandler o other) 0 rs := by
    rw [← hown]
    exact h.deeds
  rw [hall] at hanswers ⊢
  obtain ⟨bodies, hlen, hsent, hbodies⟩ := @sentBytes_dealt o other 0 rs
    (fun i r hr => by rw [Nat.zero_add]; exact hanswers i r hr)
  have hback := @requests_texts (bodies.map jsonReply)
    (fun w hw => by
      obtain ⟨b, hb, rfl⟩ := List.mem_map.mp hw
      exact jsonReply_ok (hlen b hb)) []
  rw [List.append_nil, requests_nil, List.append_nil] at hback
  rw [hdeeds, hsent]
  refine ⟨_, hback, ?_, ?_⟩
  · simp only [Nat.zero_add] at hbodies
    rw [← hbodies, List.map_map, List.map_map]
    rfl
  · intro r hr
    rw [List.map_map] at hr
    obtain ⟨b, -, rfl⟩ := List.mem_map.mp hr
    exact @mgHttpStatus_decimal _ 200 rfl (by decide)

/-- A board on which nothing can be opened. -/
def deadBoard : Outcomes := ⟨fun _ => 0, none, false, false, []⟩

/-- Two requests in two reads. -/
def twoTests : List ConnEvent :=
  [.read (bytes "GET /api/test/led?count=5 HTTP/1.1\r\nHost: board\r\n\r\nGET /api/test/ua") 0,
    .read (bytes "rt/ports HTTP/1.1\r\n\r\n") 0]

theorem replies_in_order_two : ∃ replies,
    requests (sentBytes (react (Conn.step (evHandler (fun _ => deadBoard) fileForRoot)) .accepted
      twoTests).2) = (replies, []) ∧
      (replies.map fun r => some r.body) =
        (requests (stream twoTests)).1.mapIdx (fun _ r => answer deadBoard r.hm) ∧
      ∀ r ∈ replies, mgHttpStatus r.hm = 200 :=
  have hall : ∀ r ∈ (requests (stream twoTests)).1, (answer deadBoard r.hm).isSome := by
    decide +kernel
  replies_in_order (fun _ => deadBoard) fileForRoot twoTests (by decide +kernel) (by decide +kernel)
    fun _ r hr => hall r (List.mem_of_getElem? hr)

end BoardTest.Backend
