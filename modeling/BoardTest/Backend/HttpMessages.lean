import BoardTest.Backend.HttpHeads
import BoardTest.Backend.Refusals
import BoardTest.Lib.Decimal

/-!
# Messages that are read back

A message is a head and a body. When the head is well formed and tells how long the body is,
messages that are written one after the other are read back as they were written, whatever follows
(`messages_read_back`).
-/

namespace BoardTest.Backend

open Numeral

theorem mgToSizeT_digits {ds : List Byte} (hds : IsNumeral ds) (h : numeral 10 ds < 2 ^ 64) :
    mgToSizeT ds = some (numeral 10 ds) := by
  have hfirst : ∀ b ∈ ds, isBlank b = false ∧ b ≠ 45 := by
    intro b hb
    have hdigit := hds.2 b hb
    revert hdigit
    exact forall_byte (p := fun b => isDigit b = true → isBlank b = false ∧ b ≠ 45)
      (by decide +kernel) b
  have hstart : ds.dropWhile isBlank = ds :=
    dropWhile_of_head fun b hb => (hfirst b (List.mem_of_head? hb)).1
  have hminus : ds.head? ≠ some 45 := by
    intro hhead
    exact (hfirst 45 (List.mem_of_head? hhead)).2 rfl
  have hall : ds.takeWhile isDigit = ds := List.takeWhile_eq_self_iff.mpr hds.2
  have hfold : ∀ es : List Byte, numeral 10 es < 2 ^ 64 → es.foldlM (fun result d =>
      if result > (2 ^ 64 - 1) / 10 then none
      else if result * 10 > 2 ^ 64 - 1 - digitValue d then none
      else some (result * 10 + digitValue d)) 0 = some (numeral 10 es) := by
    intro es
    induction es using List.reverseRecOn with
    | nil => exact fun _ => rfl
    | append_singleton es d ih =>
      intro hes
      rw [numeral_concat] at hes ⊢
      rw [List.foldlM_append, ih (by omega), Option.bind_eq_bind, Option.bind_some,
        List.foldlM_cons, if_neg (by omega), if_neg (by omega)]
      rfl
  rw [mgToSizeT, hstart]
  dsimp only
  rw [if_neg hminus, hall, hfold ds h, Option.bind_eq_bind, Option.bind_some, if_neg hds.1,
    if_neg (by simp)]

theorem mgToSizeT_decimal {k : Nat} (h : k < 2 ^ 64) : mgToSizeT (decimal k) = some k := by
  rw [mgToSizeT_digits (isNumeral_decimal k) (by rwa [numeral_decimal]), numeral_decimal]

/-- A message as it is written. -/
structure Written where
  head : Head
  body : List Byte

def Written.text (w : Written) : List Byte := w.head.text ++ w.body

/-- What is to be read. -/
def Written.request (w : Written) : Request :=
  ⟨{ w.head.message with bodyLen := w.body.length }, w.body⟩

/-- The head tells how long the body is, or there is none and need not be one. -/
def Written.Sized (w : Written) : Prop :=
  w.head.message.header "Content-Length" = some (decimal w.body.length) ∨
    w.head.message.header "Content-Length" = none ∧ w.head.message.isPost = false ∧
      isResponseMethod w.head.method = false ∧ w.body = []

structure Written.Ok (w : Written) : Prop where
  head : w.head.Ok
  sized : w.Sized
  plain : w.head.message.Plain
  short : w.text.length < 2 ^ 64 - 1

variable {w : Written}

theorem length_of_mgStrcaseeq {s t : List Byte} (h : mgStrcaseeq s t = true) :
    s.length = t.length := by
  simpa using congrArg List.length (of_decide_eq_true h)

/-- Neither POST nor PUT is long enough for the beginning of a status line. -/
theorem HttpMessage.isPost_eq (hm : HttpMessage) : hm.isPost =
    (mgStrcaseeq hm.method (bytes "POST") || mgStrcaseeq hm.method (bytes "PUT")) := by
  rw [isPost]
  cases hmethod : mgStrcaseeq hm.method (bytes "POST") || mgStrcaseeq hm.method (bytes "PUT") with
  | false => exact Bool.and_false _
  | true =>
    have hlen : hm.method.length ≤ 4 := by
      rcases (Bool.or_eq_true ..).mp hmethod with h | h
      · exact (length_of_mgStrcaseeq h).le
      · exact (length_of_mgStrcaseeq h).le.trans (by decide)
    rw [isResponse, decide_eq_false (by omega)]
    rfl

theorem Written.Sized.bodyLength (h : w.Sized) (hshort : w.text.length < 2 ^ 64 - 1) :
    bodyLength w.head.text.length w.head.message = some w.body.length := by
  rw [Written.text, List.length_append] at hshort
  rcases h with hgiven | ⟨hnone, hpost, hresponse, hempty⟩
  · have hnum : ¬ (w.body.length = 2 ^ 64 - 1) := by omega
    rw [Backend.bodyLength, contentLength, hgiven]
    dsimp only
    rw [mgToSizeT_decimal (by omega), Option.map_some, Option.bind_eq_bind, Option.bind_some]
    dsimp only
    simp only [hnum, false_and, if_false]
    rw [Nat.mod_eq_of_lt (by omega), if_neg (by omega)]
  · rw [HttpMessage.isPost_eq, show w.head.message.method = w.head.method from rfl,
      Bool.or_eq_false_iff] at hpost
    rw [Backend.bodyLength, contentLength, hnone, Option.bind_eq_bind, Option.bind_some, hempty]
    have hmethod : w.head.message.method = w.head.method := rfl
    simp [hmethod, hresponse, hpost.1, hpost.2]

/-- A message that has been written is at the front of what is read. -/
theorem Written.Ok.plainRequest (h : w.Ok) :
    plainRequest w.text = some (w.request, w.text.length) := by
  have hparse := h.head.parse_text w.body
  rw [h.sized.bodyLength h.short] at hparse
  refine plainRequest_eq_some_iff.mpr ⟨w.head.text.length, hparse, h.plain, ?_, ?_, ?_⟩
  · exact (List.length_append ..).ge
  · show w.body = (w.text.drop w.head.text.length).take w.body.length
    rw [Written.text, List.drop_left, List.take_length]
  · exact List.length_append ..

theorem requests_texts {ws : List Written} (h : ∀ w ∈ ws, w.Ok) (t : List Byte) :
    requests (ws.flatMap Written.text ++ t) =
      (ws.map Written.request ++ (requests t).1, (requests t).2) :=
  frames_flatMap stable_plainRequest (fun w hw => (h w hw).plainRequest) t

/-- Messages written one after the other reach the handler as they were written, however the
stream is cut, with nothing between them and nothing left over. -/
theorem messages_read_back (handler : Handler) {ws : List Written} (hws : ∀ w ∈ ws, w.Ok)
    {es : List ConnEvent} (hstream : stream es = ws.flatMap Written.text)
    (hcalm : Throughout (Conn.step handler) Calm .accepted es)
    (hfinished : Finished handler 0 (ws.map Written.request)) :
    ∃ c, react (Conn.step handler) .accepted es = (c, dealt handler 0 (ws.map Written.request)) ∧
      c.recv = [] ∧ c.calls = ws.length := by
  have hback := requests_texts hws []
  rw [List.append_nil, ← hstream, requests_nil, List.append_nil] at hback
  have horderly : Orderly (stream es) := by
    rw [Orderly, hback]
    trivial
  obtain ⟨rs, h⟩ := advanced_accepted hcalm horderly
  have hleft := h.left
  rw [show Conn.accepted.recv ++ stream es = stream es from rfl, hback] at hleft
  have hall := (Prod.mk.inj hleft).1
  have hparts : Finished handler 0 rs := by
    rw [hall] at hfinished
    exact (finished_append.mp hfinished).1
  obtain ⟨hidle, hown, hkept⟩ := h.quiet rfl hparts
  have hnone := hkept Conn.accepted_caughtUp hidle
  rw [hnone, List.append_nil] at hall
  refine ⟨_, Prod.ext rfl ?_, ?_, ?_⟩
  · rw [hall, ← hown, h.deeds]
    rfl
  · rw [← eq_of_requests_nil hnone]
    exact (Prod.mk.inj hleft).2.symm
  · have hlen := congrArg List.length hall
    rw [List.length_map] at hlen
    rw [h.calls, hlen]
    exact Nat.zero_add _

/-- A request without a body, its lines ended in two ways, and one with two bytes. -/
def getThenPost : List Written :=
  [⟨⟨bytes "GET", bytes "/a", some (bytes "b=1"), 2, bytes "HTTP/1.1", false,
      [⟨bytes "Host", [32], bytes "board", [9], true⟩], false⟩, []⟩,
    ⟨⟨bytes "POST", bytes "/c", none, 1, bytes "HTTP/1.0", true,
      [⟨bytes "content-length", [], bytes "2", [], false⟩], true⟩, bytes "ok"⟩]

theorem getThenPost_ok : ∀ w ∈ getThenPost, w.Ok := by
  have hhost : HeaderLine.Ok ⟨bytes "Host", [32], bytes "board", [9], true⟩ := by
    constructor <;> decide +kernel
  have hlength : HeaderLine.Ok ⟨bytes "content-length", [], bytes "2", [], false⟩ := by
    constructor <;> decide +kernel
  refine List.forall_mem_cons.mpr ⟨⟨?_, .inr (by decide), by decide, by decide⟩,
    List.forall_mem_singleton.mpr ⟨?_, .inl (by decide), by decide, by decide⟩⟩
  · constructor
    case lines => exact List.forall_mem_singleton.mpr hhost
    all_goals decide +kernel
  · constructor
    case lines => exact List.forall_mem_singleton.mpr hlength
    all_goals decide +kernel

theorem messages_read_back_two : ∃ c,
    react (Conn.step fun k _ => (decimal k, false)) .accepted
      [.read ((getThenPost.flatMap Written.text).take 40) 0, .poll 0,
        .read ((getThenPost.flatMap Written.text).drop 40) 0] =
      (c, dealt (fun k _ => (decimal k, false)) 0 (getThenPost.map Written.request)) ∧
      c.recv = [] ∧ c.calls = 2 :=
  messages_read_back _ getThenPost_ok
    (by rw [stream]; simp [ConnEvent.bytes]) (by decide +kernel) fun _ _ _ => rfl

end BoardTest.Backend
