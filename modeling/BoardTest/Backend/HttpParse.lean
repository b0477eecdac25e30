import BoardTest.Backend.Mongoose
import BoardTest.Lib.CInt
import BoardTest.Lib.Numerals
import Mathlib.Data.List.DropRight

/-!
# HTTP heads as the bundled mongoose reads them (`mongoose.c:1814-1971`)

`mg_http_parse` looks for the blank line behind a head and takes the head apart: a request line or a
status line, and up to thirty headers. What it returns does not depend on what has been read behind
the blank line (`mgHttpParse_append`).
-/

namespace BoardTest.Backend

open Numeral

def isok (c : Byte) : Bool := c = 10 ∨ c = 13 ∨ c = 9 ∨ 32 ≤ c

/-- The loop of `mg_http_get_request_len` at index `i`, with the two bytes in front. It returns
`(int) i + 1`; only in a buffer of 2 ^ 31 bytes the sum can overflow. -/
def requestLenLoop : Nat → Byte → Byte → List Byte → Int
  | _, _, _, [] => 0
  | i, b₂, b₁, c :: s =>
    if isok c = false then -1
    else if 0 < i ∧ c = 10 ∧ b₁ = 10 ∨ 3 < i ∧ c = 10 ∧ b₁ = 13 ∧ b₂ = 10 then toSigned i + 1
    else requestLenLoop (i + 1) b₁ c s

def mgHttpGetRequestLen (buf : List Byte) : Int := requestLenLoop 0 0 0 buf

/-- A continuation byte -/
def vcb (c : Byte) : Bool := c &&& 0xc0 = 0x80

/-- The bytes up to `end` begin with `n` of them. -/
def continued (n : Nat) (u : List Byte) : Bool := n ≤ u.length ∧ (u.take n).all vcb

/-- `clen`: the length of the character in front, 0 when there is none that may stand in a name. -/
def clen : List Byte → Nat
  | [] => 0
  | c :: u =>
    if 32 < c ∧ c ≤ 126 then 1
    else if c &&& 0xe0 = 0xc0 ∧ continued 1 u then 2
    else if c &&& 0xf0 = 0xe0 ∧ continued 2 u then 3
    else if c &&& 0xf8 = 0xf0 ∧ continued 3 u then 4
    else 0

/-- `while (s < end && (n = clen(s, end)) > 0) s += n, k.len += n`, which in a header ends at a
colon, too. -/
def charsLoop (stop : Byte → Bool) : Nat → List Byte → List Byte × List Byte
  | 0, s => ([], s)
  | fuel + 1, s =>
    if s.head?.all (!stop ·) ∧ 0 < clen s then
      let (t, rest) := charsLoop stop fuel (s.drop (clen s))
      (s.take (clen s) ++ t, rest)
    else ([], s)

def chars (stop : Byte → Bool) (s : List Byte) : List Byte × List Byte := charsLoop stop s.length s

/-- `skiptorn`: the rest of the line, and what follows it. -/
def skiptorn (s : List Byte) : Option (List Byte × List Byte) :=
  let v := s.takeWhile fun c => c ≠ 10 ∧ c ≠ 13
  match s.drop v.length with
  | 10 :: rest => some (v, rest)
  | 13 :: 10 :: rest => some (v, rest)
  | _ => none

def isBlank (c : Byte) : Bool := c = 32 ∨ c = 9

/-- `mg_http_parse_headers` -/
def parseHeaders : Nat → List Byte → Option (List (List Byte × List Byte))
  | 0, _ => some []
  | max_hdrs + 1, s =>
    match s with
    | [] => none
    | c :: _ =>
      if c = 10 ∨ c = 13 ∧ s[1]? = some 10 then some []
      else
        let (k, s) := chars (· = 58) s
        if k = [] ∨ s = [] ∨ clen s = 0 then none
        else if s.head? ≠ some 58 then none
        else do
          let (v, s) ← skiptorn ((s.drop 1).dropWhile isBlank)
          let hs ← parseHeaders max_hdrs s
          some ((k, v.rdropWhile isBlank) :: hs)

def MG_MAX_HTTP_HEADERS : Nat := 30

/-- `mg_to_size_t` -/
def mgToSizeT (str : List Byte) : Option Nat :=
  let s := str.dropWhile isBlank
  if s.head? = some 45 then none
  else do
    let ds := s.takeWhile isDigit
    let result ← ds.foldlM (fun result d =>
      if result > (2 ^ 64 - 1) / 10 then none
      else if result * 10 > 2 ^ 64 - 1 - digitValue d then none
      else some (result * 10 + digitValue d)) 0
    if ds = [] then none
    else if (s.drop ds.length).dropWhile isBlank ≠ [] then none
    else some result

/-- `mg_strcasecmp(str1, str2) == 0` -/
def mgStrcaseeq (str1 str2 : List Byte) : Bool := str1.map mgToLower = str2.map mgToLower

/-- What `mg_http_parse` finds; the body is behind the head, and its length is `2 ^ 64 - 1` when it
goes on to the end of the connection. -/
structure HttpMessage where
  method : List Byte
  uri : List Byte
  query : List Byte
  proto : List Byte
  headers : List (List Byte × List Byte)
  bodyLen : Nat
deriving DecidableEq

/-- `mg_http_get_header` -/
def HttpMessage.header (hm : HttpMessage) (name : String) : Option (List Byte) :=
  (hm.headers.find? fun h =>
    (bytes name).length = h.1.length ∧ mgNcasecmp h.1 (bytes name) = 0).map Prod.snd

theorem mgNcasecmp_congr {s t t' : List Byte} (h : t.map mgToLower = t'.map mgToLower) :
    mgNcasecmp s t = mgNcasecmp s t' := by
  induction s generalizing t t' with
  | nil => rfl
  | cons c s ih =>
    cases t with
    | nil =>
      obtain rfl := List.map_eq_nil_iff.mp h.symm
      rfl
    | cons d t =>
      cases t' with
      | nil => cases h
      | cons d' t' =>
        obtain ⟨hd, ht⟩ := List.cons.inj h
        rw [mgNcasecmp, mgNcasecmp, hd, ih ht]

/-- The case of a name does not matter. -/
theorem HttpMessage.header_congr (hm : HttpMessage) {name name' : String}
    (h : (bytes name).map mgToLower = (bytes name').map mgToLower) :
    hm.header name = hm.header name' := by
  have hlen : (bytes name).length = (bytes name').length := by
    simpa using congrArg List.length h
  simp only [HttpMessage.header, hlen, mgNcasecmp_congr h]

/-- `is_response` of `mg_http_parse`: a longer method that begins with `HTTP/` -/
def isResponseMethod (method : List Byte) : Bool :=
  5 < method.length ∧ mgNcasecmp (method.take 5) (bytes "HTTP/") = 0

/-- The version of a request, when there is one, is HTTP/x.x. -/
def versionOk (proto : List Byte) : Bool :=
  proto = [] ∨ proto.length = 8 ∧ mgNcasecmp (proto.take 5) (bytes "HTTP/") = 0 ∧
    proto[5]?.any isDigit ∧ proto[6]? = some 46 ∧ proto[7]?.any isDigit

inductive Parsed
  | incomplete
  | bad
  | message (n : Nat) (hm : HttpMessage)
deriving DecidableEq

/-- `body.len` and `message.len` as the headers give them -/
def contentLength (reqLen : Nat) (hm : HttpMessage) : Option (Nat × Nat) :=
  match hm.header "Content-Length" with
  | some cl => (mgToSizeT cl).map fun len => (len, (reqLen + len) % 2 ^ 64)
  | none => some (2 ^ 64 - 1, 2 ^ 64 - 1)

/-- The length of the body. Where none is given, a request other than PUT and POST and a response
204 have no body. -/
def bodyLength (reqLen : Nat) (hm : HttpMessage) : Option Nat := do
  let isResponse := isResponseMethod hm.method
  let (body, message) ← contentLength reqLen hm
  let (body, message) :=
    if body = 2 ^ 64 - 1 ∧ isResponse = false ∧ mgStrcaseeq hm.method (bytes "PUT") = false ∧
        mgStrcaseeq hm.method (bytes "POST") = false then (0, reqLen)
    else if body = 2 ^ 64 - 1 ∧ isResponse = true ∧ mgStrcaseeq hm.uri (bytes "204") then
      (0, reqLen)
    else (body, message)
  -- the sum may have overflowed
  if message < reqLen then none else some body

/-- `mg_http_parse` of the bytes as far as the blank line -/
def parseHead (head : List Byte) : Parsed :=
  let (method, s) := chars (fun _ => false) head
  let (target, s) := chars (fun _ => false) (s.dropWhile (· = 32))
  match skiptorn (s.dropWhile (· = 32)) with
  -- `return false`, which is what is returned when the blank line has not been read
  | none => .incomplete
  | some (proto, s) =>
    if isResponseMethod method = false ∧ versionOk proto = false then .bad
    else
      let uri := target.takeWhile (· ≠ 63)
      if method = [] ∨ uri = [] then .bad
      else match parseHeaders MG_MAX_HTTP_HEADERS s with
        | none => .bad
        | some headers =>
          let hm : HttpMessage :=
            ⟨method, uri, (target.drop uri.length).drop 1, proto, headers, 2 ^ 64 - 1⟩
          match bodyLength head.length hm with
          | none => .bad
          | some len => .message head.length { hm with bodyLen := len }

/-- `mg_http_parse` -/
def mgHttpParse (s : List Byte) : Parsed :=
  match mgHttpGetRequestLen s with
  | .ofNat 0 => .incomplete
  | .ofNat n => parseHead (s.take n)
  | .negSucc _ => .bad

/-! ## What is read behind a head -/

theorem requestLenLoop_append {i : Nat} {b₂ b₁ : Byte} {s : List Byte}
    (h : requestLenLoop i b₂ b₁ s ≠ 0) (t : List Byte) :
    requestLenLoop i b₂ b₁ (s ++ t) = requestLenLoop i b₂ b₁ s := by
  induction s generalizing i b₂ b₁ with
  | nil => exact absurd rfl h
  | cons c s ih =>
    rw [List.cons_append]
    simp only [requestLenLoop] at h ⊢
    split
    · rfl
    · rename_i hok
      rw [if_neg hok] at h
      split
      · rfl
      · rename_i hend
        rw [if_neg hend] at h
        exact ih h

theorem requestLenLoop_le {i n : Nat} {b₂ b₁ : Byte} {s : List Byte}
    (h : requestLenLoop i b₂ b₁ s = n) : n ≤ i + s.length := by
  induction s generalizing i b₂ b₁ with
  | nil =>
    have hzero : 0 = n := Int.ofNat.inj h
    omega
  | cons c s ih =>
    rw [requestLenLoop] at h
    split at h
    · omega
    · split at h
      · have hle := toSigned_le_self (Int.natCast_nonneg i)
        simp only [List.length_cons]
        omega
      · have := ih h
        simp only [List.length_cons]
        omega

theorem mgHttpGetRequestLen_append {s : List Byte} (h : mgHttpGetRequestLen s ≠ 0) (t : List Byte) :
    mgHttpGetRequestLen (s ++ t) = mgHttpGetRequestLen s := requestLenLoop_append h t

theorem mgHttpGetRequestLen_bounds {s : List Byte} {n : Nat} (h : mgHttpGetRequestLen s = n)
    (hn : n ≠ 0) : 0 < n ∧ n ≤ s.length := by
  have hle := requestLenLoop_le h
  omega

theorem mgHttpParse_of_requestLen {s : List Byte} {n : Nat} (h : mgHttpGetRequestLen s = n)
    (hn : n ≠ 0) : mgHttpParse s = parseHead (s.take n) := by
  rw [mgHttpParse, h]
  cases n with
  | zero => exact absurd rfl hn
  | succ n => rfl

theorem parseHead_message {head : List Byte} {n : Nat} {hm : HttpMessage}
    (h : parseHead head = .message n hm) : n = head.length := by
  unfold parseHead at h
  dsimp only at h
  repeat' split at h
  all_goals cases h
  rfl

theorem bodyLength_of_message {s : List Byte} {n : Nat} {hm : HttpMessage}
    (h : mgHttpParse s = .message n hm) : bodyLength n hm = some hm.bodyLen := by
  have hhead : ∀ head, parseHead head = .message n hm → bodyLength n hm = some hm.bodyLen := by
    intro head h
    unfold parseHead at h
    dsimp only at h
    repeat' split at h
    all_goals cases h
    rename_i hlen
    exact hlen
  rw [mgHttpParse] at h
  split at h
  · cases h
  · exact hhead _ h
  · cases h

/-- What follows a head has no part in what is found. -/
theorem mgHttpParse_append {s : List Byte} (h : mgHttpGetRequestLen s ≠ 0) (t : List Byte) :
    mgHttpParse (s ++ t) = mgHttpParse s := by
  rw [mgHttpParse, mgHttpParse, mgHttpGetRequestLen_append h]
  split
  · rfl
  · rename_i n hn hlen
    have hbound := mgHttpGetRequestLen_bounds hlen hn
    rw [List.take_append_of_le_length hbound.2]
  · rfl

theorem requestLen_of_message {s : List Byte} {n : Nat} {hm : HttpMessage}
    (h : mgHttpParse s = .message n hm) : mgHttpGetRequestLen s = n ∧ 0 < n ∧ n ≤ s.length := by
  rw [mgHttpParse] at h
  split at h
  · cases h
  · rename_i m hne hlen
    have hbound := mgHttpGetRequestLen_bounds hlen hne
    obtain rfl : n = m := by
      rw [parseHead_message h, List.length_take]
      omega
    exact ⟨hlen, hbound⟩
  · cases h

theorem ne_nil_of_message {s : List Byte} {n : Nat} {hm : HttpMessage}
    (h : mgHttpParse s = .message n hm) : s ≠ [] := by
  obtain ⟨-, hpos, hn⟩ := requestLen_of_message h
  exact List.ne_nil_of_length_pos (by omega)

theorem message_append {s : List Byte} {n : Nat} {hm : HttpMessage}
    (h : mgHttpParse s = .message n hm) (t : List Byte) :
    mgHttpParse (s ++ t) = .message n hm := by
  obtain ⟨hlen, hpos, -⟩ := requestLen_of_message h
  rw [mgHttpParse_append (by rw [hlen]; omega), h]

theorem bad_append {s : List Byte} (h : mgHttpParse s = .bad) (t : List Byte) :
    mgHttpParse (s ++ t) = .bad := by
  rw [mgHttpParse_append, h]
  intro hzero
  rw [mgHttpParse, hzero] at h
  cases h

end BoardTest.Backend
