import BoardTest.Backend.HttpParse
import BoardTest.Lib.Framing
import BoardTest.Lib.Reactive
import BoardTest.Lib.Strtol
import Mathlib.Data.Int.Init

/-!
# A connection of the server (`mongoose.c:2000-2088, 2615-2746`)

`http_cb` takes requests from the front of the buffer of a connection and hands them to the handler,
one after the other, until there is none that is complete or the handler goes on sending a file. The
handler is a parameter here; it tells what it puts into the send buffer and whether it is done.
-/

namespace BoardTest.Backend

open Numeral Strtol

/-- The cases of `mg_http_status_code_str` -/
def statusCodes : List (Nat × String) :=
  [(100, "Continue"), (101, "Switching Protocols"), (102, "Processing"), (200, "OK"),
  (201, "Created"), (202, "Accepted"), (203, "Non-authoritative Information"),
  (204, "No Content"), (205, "Reset Content"), (206, "Partial Content"), (207, "Multi-Status"),
  (208, "Already Reported"), (226, "IM Used"), (300, "Multiple Choices"),
  (301, "Moved Permanently"), (302, "Found"), (303, "See Other"), (304, "Not Modified"),
  (305, "Use Proxy"), (307, "Temporary Redirect"), (308, "Permanent Redirect"),
  (400, "Bad Request"), (401, "Unauthorized"), (402, "Payment Required"), (403, "Forbidden"),
  (404, "Not Found"), (405, "Method Not Allowed"), (406, "Not Acceptable"),
  (407, "Proxy Authentication Required"), (408, "Request Timeout"), (409, "Conflict"),
  (410, "Gone"), (411, "Length Required"), (412, "Precondition Failed"),
  (413, "Payload Too Large"), (414, "Request-URI Too Long"), (415, "Unsupported Media Type"),
  (416, "Requested Range Not Satisfiable"), (417, "Expectation Failed"), (418, "I'm a teapot"),
  (421, "Misdirected Request"), (422, "Unprocessable Entity"), (423, "Locked"),
  (424, "Failed Dependency"), (426, "Upgrade Required"), (428, "Precondition Required"),
  (429, "Too Many Requests"), (431, "Request Header Fields Too Large"),
  (444, "Connection Closed Without Response"), (451, "Unavailable For Legal Reasons"),
  (499, "Client Closed Request"), (500, "Internal Server Error"), (501, "Not Implemented"),
  (502, "Bad Gateway"), (503, "Service Unavailable"), (504, "Gateway Timeout"),
  (505, "HTTP Version Not Supported"), (506, "Variant Also Negotiates"),
  (507, "Insufficient Storage"), (508, "Loop Detected"), (510, "Not Extended"),
  (511, "Network Authentication Required"), (599, "Network Connect Timeout Error")]

/-- `mg_http_status_code_str` -/
def statusCodeStr (code : Nat) : String :=
  ((statusCodes.find? (·.1 = code)).map Prod.snd).getD ""

/-- Bytes are written over those from a place on. -/
def overwrite (buf : List Byte) (place : Nat) (w : List Byte) : List Byte :=
  buf.take place ++ w ++ buf.drop (place + w.length)

/-- `mg_http_reply`: twelve spaces stand behind `Content-Length:` until the length is known, and the
length is written into them, with a NUL behind that becomes a space. -/
def mgHttpReply (code : Nat) (headers body : List Byte) : List Byte :=
  let head := sprintf "HTTP/1.1 %d %s\r\n%sContent-Length:            \r\n\r\n"
    [decimal code, bytes (statusCodeStr code), headers]
  let len := head.length
  let digits := decimal body.length
  let printed := digits ++ List.replicate (10 - digits.length) 32
  (overwrite (head ++ body) (len - 15) (printed.take 10 ++ [0])).set (len - 15 + printed.length) 32

inductive Skipped
  | more
  | bad
  | chunk (pl dl total : Nat)
deriving DecidableEq

/-- `skip_chunk`. When the bytes end with the CR behind the length, the byte behind them is looked
at, too. -/
def skipChunk (beyond : Byte) (len : Int) (buf : List Byte) : Skipped :=
  let i := ((buf.take len.toNat).takeWhile isx).length
  if len < 3 then .more
  else if i = 0 then .bad
  else if i > 8 then .bad
  else if len < i + 1 ∨ buf[i]? ≠ some 13 ∨ (buf ++ [beyond])[i + 1]? ≠ some 10 then .bad
  else
    let n := (buf.take i).foldl (fun v c => 16 * v + mgHexDigit c) 0
    if n ≥ 2 ^ 31 then .bad
    else if n > len - i - 4 then .more
    else if buf[i + n + 2]? ≠ some 13 ∨ buf[i + n + 3]? ≠ some 10 then .bad
    else .chunk (i + 2) n (i + 2 + n + 2)

inductive Chunked
  | more
  | bad
  | done (body : List Byte) (o : Nat)
deriving DecidableEq

/-- The chunks of a body up to the one of length zero, with `len - o` for the bytes that are there;
their data are moved together. -/
def chunks (beyond : Byte) : Nat → Int → List Byte → Chunked
  | 0, _, _ => .more
  | fuel + 1, len, s =>
    match skipChunk beyond len s with
    | .more => .more
    | .bad => .bad
    | .chunk pl dl cl =>
      if dl = 0 then .done [] cl
      else
        match chunks beyond fuel (len - cl) (s.drop cl) with
        | .done body o => .done ((s.drop pl).take dl ++ body) (cl + o)
        | r => r

/-! ## `http_cb` -/

/-- What the connection keeps. While `is_resp` is set a file is being sent; `calls` counts the
requests that the handler has got. -/
structure Conn where
  recv : List Byte
  calls : Nat
  is_resp : Bool
  is_draining : Bool
  is_closing : Bool

/-- What the handler does with a request: it puts bytes into the send buffer, and it may go on
sending. -/
abbrev Handler := Nat → HttpMessage → List Byte × Bool

structure Request where
  hm : HttpMessage
  body : List Byte
deriving DecidableEq

/-- What is done on a connection: the handler gets a request, something is put into the send buffer
for it, and so is the rest of a file later on. -/
inductive Deed
  | handled (r : Request)
  | sent (bs : List Byte)
  | file (bs : List Byte)
deriving DecidableEq

/-- `mg_http_status` -/
def mgHttpStatus (hm : HttpMessage) : Int := Int.bmod (strtol hm.uri).1 (2 ^ 32)

/-- `is_response` of `http_cb`, which a method of these five bytes is enough for. Behind a shorter
one stands a byte that is none of them. -/
def HttpMessage.isResponse (hm : HttpMessage) : Bool :=
  5 ≤ hm.method.length ∧ mgNcasecmp (hm.method.take 5) (bytes "HTTP/") = 0

def HttpMessage.isPost (hm : HttpMessage) : Bool :=
  !hm.isResponse && (mgStrcaseeq hm.method (bytes "POST") || mgStrcaseeq hm.method (bytes "PUT"))

/-- A message without a length that ought to have one -/
def HttpMessage.unsized (hm : HttpMessage) : Bool :=
  (hm.header "Content-length").isNone && (hm.isPost || hm.isResponse &&
    decide (mgHttpStatus hm ≥ 200 ∧ mgHttpStatus hm ≠ 204 ∧ mgHttpStatus hm ≠ 304))

def HttpMessage.asksToClose (hm : HttpMessage) : Bool :=
  (hm.header "Connection").any (mgStrcaseeq · (bytes "close"))

/-- How a round of the loop ends: it goes on or stops behind so many bytes, or the function
returns. -/
inductive Round
  | again (c : Conn) (n : Nat) (ds : List Deed)
  | stop (c : Conn) (n : Nat) (ds : List Deed)
  | quit (c : Conn)

/-- The call of the handler. -/
def deliver (handler : Handler) (c : Conn) (r : Request) (n : Nat) (ds : List Deed) : Round :=
  let (bs, is_resp) := handler c.calls r.hm
  let c := { c with calls := c.calls + 1, is_resp := is_resp }
  let ds := ds ++ [.handled r, .sent bs]
  if is_resp = false ∧ r.hm.asksToClose then .stop { c with is_draining := true } n ds
  else .again c n ds

/-- The data of the chunks are moved together right behind the head, in the bytes `buf` at the end
of the buffer. -/
def Conn.moved (c : Conn) (buf : List Byte) (n : Nat) (body : List Byte) : Conn :=
  { c with recv := c.recv.take (c.recv.length - buf.length) ++ overwrite buf n body }

/-- A message without chunks, with its head of `n` bytes in front of the buffer. Behind a POST
without a length the loop goes on before it has looked whether there is a body. -/
def plainMessage (handler : Handler) (c : Conn) (buf : List Byte) (n : Nat) (hm : HttpMessage) :
    Round :=
  let ofs := if (hm.header "Content-length").isNone ∧ hm.isPost then n else 0
  let ds := if hm.unsized then [.sent (mgHttpReply 411 [] [])] else []
  let len := (2 ^ 64 + buf.length - ofs - n) % 2 ^ 64
  if hm.bodyLen > len then .stop c ofs ds
  else deliver handler c ⟨hm, (buf.drop n).take hm.bodyLen⟩ ((ofs + n + hm.bodyLen) % 2 ^ 64) ds

/-- A round of the loop, on the bytes from the offset on. -/
def round (handler : Handler) (closing : Bool) (beyond : Byte) (c : Conn) (buf : List Byte) :
    Round :=
  match mgHttpParse buf with
  | .bad => .quit { c with is_draining := true, recv := [] }
  | .incomplete => .stop c 0 []
  | .message n hm =>
    let hm := if closing then { hm with bodyLen := buf.length - n } else hm
    match hm.header "Transfer-Encoding" with
    | some te =>
      if mgStrcaseeq te (bytes "chunked") then
        match chunks beyond (buf.length - n) (toSigned (buf.length - n : Nat)) (buf.drop n) with
        | .more => .stop c 0 []
        | .bad => .stop { c with is_closing := true } 0 []
        | .done body o =>
          deliver handler (c.moved buf n body) ⟨{ hm with bodyLen := body.length }, body⟩ (n + o) []
      else .quit { c with is_closing := true }
    | none => plainMessage handler c buf n hm

/-- `mg_iobuf_del(&c->recv, 0, ofs)` -/
def Conn.del (c : Conn) (ofs : Nat) : Conn := { c with recv := c.recv.drop ofs }

def httpLoop (handler : Handler) (closing : Bool) (beyond : Byte) :
    Nat → Conn → Nat → Conn × List Deed
  | 0, c, ofs => (c.del ofs, [])
  | fuel + 1, c, ofs =>
    if c.is_resp = false ∧ ofs < c.recv.length then
      match round handler closing beyond c (c.recv.drop ofs) with
      | .again c' n ds =>
        let (c'', rest) := httpLoop handler closing beyond fuel c' (ofs + n)
        (c'', ds ++ rest)
      | .stop c' n ds => (c'.del (ofs + n), ds)
      | .quit c' => (c', [])
    else (c.del ofs, [])

/-- `http_cb`; every round takes a byte at least. -/
def httpCb (handler : Handler) (closing : Bool) (beyond : Byte) (c : Conn) : Conn × List Deed :=
  httpLoop handler closing beyond (c.recv.length + 1) c 0

/-- What happens to a connection: bytes are read, a round of `mg_mgr_poll` begins, a file that has
been put into the send buffer comes to its end (in `MG_EV_POLL` or in `MG_EV_WRITE`), the connection
is closed. -/
inductive ConnEvent
  | read (bs : List Byte) (beyond : Byte)
  | poll (beyond : Byte)
  | served (bs : List Byte) (beyond : Byte)
  | written (bs : List Byte)
  | close (beyond : Byte)

def MG_MAX_RECV_SIZE : Nat := 3 * 1024 * 1024

def MG_IO_SIZE : Nat := 16384

/-- `MG_EV_POLL` -/
def Conn.poll (handler : Handler) (beyond : Byte) (c : Conn) : Conn × List Deed :=
  if c.is_draining = false ∧ c.recv ≠ [] then httpCb handler false beyond c else (c, [])

def Conn.step (handler : Handler) (c : Conn) : ConnEvent → Conn × List Deed
  | .read bs beyond =>
    if c.recv.length ≥ MG_MAX_RECV_SIZE then ({ c with is_closing := true }, [])
    else httpCb handler false beyond { c with recv := c.recv ++ bs }
  | .poll beyond => c.poll handler beyond
  | .served bs beyond =>
    if c.is_resp then
      -- `if (is_resp && !c->is_resp) mg_call(c, MG_EV_READ, &n)` in `mg_mgr_poll`
      let (c', ds) := httpCb handler false beyond { c with is_resp := false }
      (c', .file bs :: ds)
    else c.poll handler beyond
  -- `write_conn` comes behind that line
  | .written bs => if c.is_resp then ({ c with is_resp := false }, [.file bs]) else (c, [])
  -- while a file is being sent only the file is closed
  | .close beyond =>
    if c.is_resp then ({ c with is_resp := false }, []) else httpCb handler true beyond c

/-- A connection that has been accepted. -/
def Conn.accepted : Conn := ⟨[], 0, false, false, false⟩

end BoardTest.Backend
