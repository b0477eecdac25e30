import BoardTest.Backend.Pipelining

/-!
# Messages that are not taken as they stand

A request that is cut short by the close of the connection is handled as if it were complete
(`cut_short_at_close`). A `Transfer-Encoding` other than chunked closes the connection, and the
requests in front of it are still in the buffer then: the first of them is handled again
(`handled_again`). A POST without a length is refused and, at one length of the rest of the buffer,
handled all the same (`post_without_length`). A response that is sent to the server is refused again
and again (`refused_at_every_turn`).
-/

namespace BoardTest.Backend

variable {handler : Handler} {c : Conn} {closing : Bool} {beyond : Byte}

theorem httpLoop_end {fuel ofs : Nat} (h : c.recv.length ≤ ofs) :
    httpLoop handler closing beyond fuel c ofs = (c.del ofs, []) := by
  cases fuel with
  | zero => rfl
  | succ fuel => rw [httpLoop, if_neg fun hgo => absurd hgo.2 (Nat.not_lt.mpr h)]

theorem httpCb_again {c' : Conn} {ds : List Deed} (hidle : c.is_resp = false) (hne : c.recv ≠ [])
    (hround : round handler closing beyond c c.recv = .again c' c.recv.length ds)
    (hrecv : c'.recv.length = c.recv.length) :
    httpCb handler closing beyond c = ({ c' with recv := [] }, ds) := by
  rw [httpCb, httpLoop, if_pos ⟨hidle, List.length_pos_of_ne_nil hne⟩, List.drop_zero, hround]
  dsimp only
  rw [Nat.zero_add, httpLoop_end (Nat.le_of_eq hrecv), Conn.del, ← hrecv, List.drop_length,
    List.append_nil]

theorem httpCb_stop {c' : Conn} {n : Nat} {ds : List Deed} (hidle : c.is_resp = false)
    (hne : c.recv ≠ []) (hround : round handler closing beyond c c.recv = .stop c' n ds) :
    httpCb handler closing beyond c = (c'.del n, ds) := by
  rw [httpCb, httpLoop, if_pos ⟨hidle, List.length_pos_of_ne_nil hne⟩, List.drop_zero, hround]
  dsimp only
  rw [Nat.zero_add]

/-- A request with all that is there for its body. -/
def Request.upToEnd (hm : HttpMessage) (n : Nat) (buf : List Byte) : Request :=
  ⟨{ hm with bodyLen := buf.length - n }, buf.drop n⟩

/-- The request whose head is there, and perhaps not all of its body. -/
def cutShort (buf : List Byte) : List Request :=
  match mgHttpParse buf with
  | .message n hm => [.upToEnd hm n buf]
  | _ => []

variable {buf : List Byte} {n : Nat} {hm : HttpMessage}

theorem round_close (h : mgHttpParse buf = .message n hm) (hplain : hm.Plain)
    (hlen : buf.length < 2 ^ 64) : round handler true beyond c buf =
      .again (c.after handler (Request.upToEnd hm n buf).hm) buf.length
        (dealt handler c.calls [.upToEnd hm n buf]) := by
  have hn := (requestLen_of_message h).2.2
  have hplain' : (Request.upToEnd hm n buf).hm.Plain := hplain
  have hroom : ¬ (Request.upToEnd hm n buf).hm.bodyLen >
      (2 ^ 64 + buf.length - 0 - n) % 2 ^ 64 := by
    rw [bytes_behind hn hlen]
    exact Nat.lt_irrefl _
  have hbody : (buf.drop n).take (buf.length - n) = buf.drop n :=
    List.take_of_length_le (by rw [List.length_drop])
  rw [round, h]
  dsimp only
  rw [if_pos rfl, show HttpMessage.mk hm.method hm.uri hm.query hm.proto hm.headers
    (buf.length - n) = (Request.upToEnd hm n buf).hm from rfl, hplain'.1]
  dsimp only
  rw [plainMessage, if_neg hplain'.sized, hplain'.2.1, if_neg hroom, if_neg Bool.false_ne_true,
    show (Request.upToEnd hm n buf).hm.bodyLen = buf.length - n from rfl, hbody, Nat.zero_add,
    Nat.add_sub_cancel' hn, Nat.mod_eq_of_lt hlen]
  exact deliver_of_plain (r := .upToEnd hm n buf) handler c hplain' _ []

theorem httpCb_close (hidle : c.is_resp = false) (h : mgHttpParse c.recv = .message n hm)
    (hplain : hm.Plain) (hlen : c.recv.length < 2 ^ 64) :
    (httpCb handler true beyond c).2 = dealt handler c.calls [.upToEnd hm n c.recv] := by
  rw [httpCb_again hidle (ne_nil_of_message h) (round_close h hplain hlen) rfl]

theorem eq_of_requests_nil (h : (requests buf).1 = []) : (requests buf).2 = buf := by
  cases hp : plainRequest buf with
  | none => rw [requests_none hp]
  | some rn =>
    rw [requests_some hp] at h
    cases h

theorem close_of_waits (hidle : c.is_resp = false) (hwaits : Waits c.recv)
    (hlen : c.recv.length < 2 ^ 64) :
    (c.step handler (.close beyond)).2 = dealt handler c.calls (cutShort c.recv) := by
  rw [Conn.step, if_neg (by rw [hidle]; exact Bool.false_ne_true), cutShort]
  unfold Waits at hwaits
  split at hwaits
  · rename_i hparse
    rw [hparse]
    by_cases hne : c.recv = []
    · rw [httpCb, httpLoop_end (by rw [hne]; exact Nat.le_refl _)]
      rfl
    · rw [httpCb_stop hidle hne (by rw [round, hparse])]
      rfl
  · exact hwaits.elim
  · rename_i n hm hparse
    rw [hparse]
    exact httpCb_close hidle hparse hwaits hlen

/-- A request that the close cuts short is handled, with what has come of its body. When a file has
come to its end in `MG_EV_WRITE` right before, complete requests `rest` may be there, and the first
of them is handled with all that is behind its head. -/
theorem cut_short_at_close (handler : Handler) (es : List ConnEvent) (beyond : Byte)
    (hcalm : Throughout (Conn.step handler) Calm .accepted es) (horderly : Orderly (stream es))
    (hidle : (react (Conn.step handler) .accepted es).1.is_resp = false) :
    ∃ rs rest, requests (stream es) = (rs ++ (requests rest).1, (requests rest).2) ∧
      own (react (Conn.step handler) .accepted es).2 = dealt handler 0 rs ∧
      own (react (Conn.step handler) .accepted (es ++ [.close beyond])).2 =
        dealt handler 0 (rs ++ cutShort rest) ∧
      (Settled es → requests (stream es) = (rs, rest)) := by
  obtain ⟨rs, h⟩ : ∃ rs, Advanced handler .accepted (stream es) (Settled es) rs
      (react (Conn.step handler) .accepted es) := advanced_accepted hcalm horderly
  obtain ⟨c, hc⟩ : ∃ c, c = (react (Conn.step handler) .accepted es).1 := ⟨_, rfl⟩
  have hcaught := h.caughtUp
  have hleft := h.left
  have hcalls := h.calls
  have hshort := h.inv.short
  rw [← hc] at hidle hcaught hleft hcalls hshort
  rw [show Conn.accepted.recv ++ stream es = stream es from rfl] at hleft
  rw [show Conn.accepted.calls = 0 from rfl, Nat.zero_add] at hcalls
  have hrest : Orderly c.recv := by
    rw [Orderly, hleft] at horderly
    exact horderly
  have hend : (c.step handler (.close beyond)).2 = dealt handler rs.length (cutShort c.recv) := by
    rw [close_of_waits hidle hrest.waits (lt_of_le_of_lt hshort (by decide)), hcalls]
  have hfirst : own (react (Conn.step handler) .accepted es).2 = dealt handler 0 rs := h.deeds
  refine ⟨rs, c.recv, hleft, hfirst, ?_, fun hsettled => ?_⟩
  · rw [react_append, own_append, hfirst, react_cons, react_nil, ← hc, hend, List.append_nil,
      own_dealt, dealt_append, Nat.zero_add]
  · have hnone := hcaught hsettled hidle
    rw [hleft, hnone, eq_of_requests_nil hnone, List.append_nil]

/-- Half a body has come when the connection is closed. -/
def halfBody : List ConnEvent :=
  [.read (bytes "POST /api HTTP/1.1\r\nContent-Length: 4\r\n\r\n12") 0]

theorem cut_short_at_close_half : ∃ rs rest,
    requests (stream halfBody) = (rs ++ (requests rest).1, (requests rest).2) ∧
      own (react (Conn.step fileForRoot) .accepted halfBody).2 = dealt fileForRoot 0 rs ∧
      own (react (Conn.step fileForRoot) .accepted (halfBody ++ [.close 0])).2 =
        dealt fileForRoot 0 (rs ++ cutShort rest) ∧
      (Settled halfBody → requests (stream halfBody) = (rs, rest)) :=
  cut_short_at_close fileForRoot halfBody 0 (by decide +kernel) (by decide +kernel)
    (by decide +kernel)

/-- A message whose `Transfer-Encoding` the server does not know. -/
def Refused (buf : List Byte) : Prop :=
  match mgHttpParse buf with
  | .message _ hm =>
    (hm.header "Transfer-Encoding").any (!mgStrcaseeq · (bytes "chunked")) = true
  | _ => False

instance (buf : List Byte) : Decidable (Refused buf) := by
  unfold Refused
  exact match mgHttpParse buf with
    | .message .. => inferInstanceAs (Decidable (_ = true))
    | .incomplete => instDecidableFalse
    | .bad => instDecidableFalse

/-- Nothing is left over for later. -/
def AtOnce (handler : Handler) : Prop := ∀ k hm, (handler k hm).2 = false

theorem round_refused (h : Refused buf) :
    round handler false beyond c buf = .quit { c with is_closing := true } := by
  unfold Refused at h
  split at h
  · rename_i n hm hparse
    rw [Option.any_eq_true] at h
    obtain ⟨te, hte, hnot⟩ := h
    rw [round, hparse]
    dsimp only
    rw [if_neg Bool.false_ne_true, hte]
    dsimp only
    rw [if_neg (by simpa using hnot)]
  · exact h.elim

theorem Conn.after_atOnce (hnow : AtOnce handler) (hidle : c.is_resp = false) (hm : HttpMessage) :
    c.after handler hm = { c with calls := c.calls + 1 } := by
  rw [Conn.after, hnow, ← hidle]

variable {r : Request} {rs : List Request} {text rest bs : List Byte}

/-- The loop comes to what is behind the requests. -/
theorem httpLoop_past (hnow : AtOnce handler) {fuel ofs : Nat} (hidle : c.is_resp = false)
    (hsplit : c.recv.drop ofs = text ++ rest) (htext : requests text = (rs, []))
    (hlen : c.recv.length < 2 ^ 64) :
    httpLoop handler false beyond (fuel + rs.length) c ofs =
      ((httpLoop handler false beyond fuel { c with calls := c.calls + rs.length }
          (ofs + text.length)).1,
        dealt handler c.calls rs ++ (httpLoop handler false beyond fuel
          { c with calls := c.calls + rs.length } (ofs + text.length)).2) := by
  induction rs generalizing c ofs text with
  | nil =>
    obtain rfl : text = [] := by
      rw [← eq_of_requests_nil (congrArg Prod.fst htext), htext]
    rfl
  | cons r rs ih =>
    obtain ⟨n, hp, hnext⟩ : ∃ n, plainRequest text = some (r, n) ∧
        requests (text.drop n) = (rs, []) := by
      cases hp : plainRequest text with
      | none =>
        rw [requests_none hp] at htext
        cases htext
      | some rn =>
        rw [requests_some hp] at htext
        obtain ⟨hfirst, hlast⟩ := Prod.mk.inj htext
        obtain ⟨rfl, hrest⟩ := List.cons.inj hfirst
        exact ⟨rn.2, rfl, Prod.ext hrest hlast⟩
    have hpos := stable_plainRequest.pos hp
    have hle := stable_plainRequest.le hp
    have hdrop := c.recv.length_drop (i := ofs)
    rw [hsplit, List.length_append] at hdrop
    have hround := @round_plain (text ++ rest) n r handler c beyond
      (stable_plainRequest.append rest hp) (by rw [List.length_append]; omega)
    have hsplit' : c.recv.drop (ofs + n) = text.drop n ++ rest := by
      rw [← List.drop_drop, hsplit, List.drop_append_of_le_length hle]
    rw [List.length_cons, ← Nat.add_assoc, httpLoop, if_pos ⟨hidle, by omega⟩, hsplit, hround,
      Conn.after_atOnce hnow hidle]
    dsimp only
    rw [@ih { c with calls := c.calls + 1 } (text.drop n) (ofs + n) hidle hsplit' hnext hlen,
      List.length_drop, Nat.add_assoc ofs, Nat.add_sub_cancel' hle, Nat.add_right_comm c.calls]
    rfl

/-- A refused message has the first request handled again: it is still in the buffer when the
connection is closed, and all that is behind its head is its body now. -/
theorem handled_again (hnow : AtOnce handler) (hidle : c.is_resp = false) {beyond' : Byte}
    (hroom : Calm c (.read bs beyond)) (hsplit : c.recv ++ bs = text ++ rest)
    (htext : requests text = (r :: rs, [])) (hrest : Refused rest) :
    ∃ n, mgHttpParse text = .message n r.hm ∧
      (react (Conn.step handler) c [.read bs beyond, .close beyond']).2 =
        dealt handler c.calls (r :: rs ++ [.upToEnd r.hm n (text ++ rest)]) := by
  obtain ⟨n, hparse, hplain⟩ : ∃ n, mgHttpParse text = .message n r.hm ∧ r.hm.Plain := by
    cases hp : plainRequest text with
    | none =>
      rw [requests_none hp] at htext
      cases htext
    | some rn =>
      rw [requests_some hp] at htext
      obtain ⟨k, hk⟩ := plainRequest_eq_some_iff.mp hp
      rw [← (List.cons.inj (Prod.mk.inj htext).1).1]
      exact ⟨k, hk.1, hk.2.1⟩
  have hlen : (c.recv ++ bs).length < 2 ^ 64 := by
    rw [List.length_append]
    exact lt_of_le_of_lt hroom.2 (by decide)
  have hcount : (r :: rs).length ≤ text.length := by
    have hle := length_frames stable_plainRequest text
    rw [← requests, htext] at hle
    exact hle
  have hmore : rest ≠ [] := by
    rintro rfl
    exact hrest
  have hread : c.step handler (.read bs beyond) =
      ({ c with recv := text ++ rest, calls := c.calls + (r :: rs).length, is_closing := true },
        dealt handler c.calls (r :: rs)) := by
    obtain ⟨fuel, hfuel⟩ : ∃ fuel, (text ++ rest).length + 1 = (fuel + 1) + (r :: rs).length :=
      ⟨(text ++ rest).length - (r :: rs).length, by rw [List.length_append]; omega⟩
    have hloop := @httpLoop_past handler { c with recv := text ++ rest } beyond (r :: rs) text rest
      hnow (fuel + 1) 0 hidle rfl htext (by rw [← hsplit]; exact hlen)
    have hpos := List.length_pos_of_ne_nil hmore
    have hgo : 0 + text.length < (text ++ rest).length := by
      rw [List.length_append]
      omega
    rw [Conn.step, if_neg (Nat.not_le.mpr hroom.1), httpCb, hsplit]
    dsimp only
    rw [hfuel, hloop, httpLoop, if_pos ⟨hidle, hgo⟩, Nat.zero_add, List.drop_left,
      round_refused hrest]
    dsimp only
    rw [List.append_nil]
  have hclose := @httpCb_close handler _ beyond' n r.hm
    (show (c.step handler (.read bs beyond)).1.is_resp = false by rw [hread]; exact hidle)
    (by rw [hread]; exact message_append hparse rest) hplain
    (by rw [hread, ← hsplit]; exact hlen)
  rw [hread] at hclose
  refine ⟨n, hparse, ?_⟩
  rw [react_cons, react_cons, react_nil, hread, Conn.step,
    if_neg (by rw [hidle]; exact Bool.false_ne_true), hclose, List.append_nil, ← dealt_append]

theorem handled_again_first : ∃ n,
    mgHttpParse (bytes "GET /a HTTP/1.1\r\n\r\nGET /b HTTP/1.1\r\n\r\n") =
      .message n ⟨bytes "GET", bytes "/a", [], bytes "HTTP/1.1", [], 0⟩ ∧
      (react (Conn.step fun k _ => (decimal k, false)) .accepted
        [.read (bytes "GET /a HTTP/1.1\r\n\r\nGET /b HTTP/1.1\r\n\r\n" ++
          bytes "GET / HTTP/1.1\r\nTransfer-Encoding: gzip\r\n\r\n") 0, .close 0]).2 =
        dealt (fun k _ => (decimal k, false)) 0
          (⟨⟨bytes "GET", bytes "/a", [], bytes "HTTP/1.1", [], 0⟩, []⟩ ::
            [⟨⟨bytes "GET", bytes "/b", [], bytes "HTTP/1.1", [], 0⟩, []⟩] ++
            [.upToEnd ⟨bytes "GET", bytes "/a", [], bytes "HTTP/1.1", [], 0⟩ n
              (bytes "GET /a HTTP/1.1\r\n\r\nGET /b HTTP/1.1\r\n\r\n" ++
                bytes "GET / HTTP/1.1\r\nTransfer-Encoding: gzip\r\n\r\n")]) :=
  @handled_again _ .accepted 0 ⟨⟨bytes "GET", bytes "/a", [], bytes "HTTP/1.1", [], 0⟩, []⟩
    [⟨⟨bytes "GET", bytes "/b", [], bytes "HTTP/1.1", [], 0⟩, []⟩] _ _ _ (fun _ _ => rfl) rfl 0
    (by decide +kernel) rfl (by decide +kernel) (by decide +kernel)

/-- A POST or PUT that does not tell how long it is -/
def HttpMessage.Lengthless (hm : HttpMessage) : Prop :=
  hm.isPost = true ∧ hm.header "Transfer-Encoding" = none ∧ hm.header "Content-Length" = none

instance (hm : HttpMessage) : Decidable hm.Lengthless := inferInstanceAs (Decidable (_ ∧ _))

theorem header_length (hm : HttpMessage) :
    hm.header "Content-length" = hm.header "Content-Length" :=
  hm.header_congr (by decide)

/-- Where no length is given and there may be a body, it goes on to the end of the connection. -/
theorem bodyLen_of_none (hmsg : mgHttpParse buf = .message n hm)
    (hnone : hm.header "Content-Length" = none)
    (hrequest : ¬ (isResponseMethod hm.method = false ∧
      mgStrcaseeq hm.method (bytes "PUT") = false ∧ mgStrcaseeq hm.method (bytes "POST") = false))
    (hresponse : ¬ (isResponseMethod hm.method = true ∧ mgStrcaseeq hm.uri (bytes "204") = true)) :
    hm.bodyLen = 2 ^ 64 - 1 := by
  have hlen := bodyLength_of_message hmsg
  have hgiven : ∀ b m : Nat × Nat, (if (2 ^ 64 - 1 : Nat) = 2 ^ 64 - 1 ∧
      isResponseMethod hm.method = false ∧ mgStrcaseeq hm.method (bytes "PUT") = false ∧
        mgStrcaseeq hm.method (bytes "POST") = false then b
      else if (2 ^ 64 - 1 : Nat) = 2 ^ 64 - 1 ∧ isResponseMethod hm.method = true ∧
        mgStrcaseeq hm.uri (bytes "204") = true then b else m) = m := fun b m =>
    (if_neg fun h => hrequest h.2).trans (if_neg fun h => hresponse h.2)
  rw [bodyLength, contentLength, hnone, Option.bind_eq_bind, Option.bind_some] at hlen
  dsimp only at hlen
  rw [hgiven] at hlen
  dsimp only at hlen
  split at hlen
  · cases hlen
  · exact (Option.some.inj hlen).symm

theorem HttpMessage.isResponse_of_isResponseMethod (h : isResponseMethod hm.method = true) :
    hm.isResponse = true := by
  obtain ⟨hlen, hname⟩ : 5 < hm.method.length ∧
    mgNcasecmp (hm.method.take 5) (bytes "HTTP/") = 0 := of_decide_eq_true h
  exact decide_eq_true ⟨Nat.le_of_lt hlen, hname⟩

theorem HttpMessage.Lengthless.bodyLen (h : hm.Lengthless)
    (hmsg : mgHttpParse buf = .message n hm) : hm.bodyLen = 2 ^ 64 - 1 := by
  obtain ⟨hpost, -, hnone⟩ := h
  rw [HttpMessage.isPost, Bool.and_eq_true, Bool.or_eq_true, Bool.not_eq_true'] at hpost
  refine bodyLen_of_none hmsg hnone ?_ ?_
  · rintro ⟨-, hput, hpost'⟩
    rcases hpost.2 with h | h
    · rw [hpost'] at h
      cases h
    · rw [hput] at h
      cases h
  · rintro ⟨hmethod, -⟩
    have hresponse := HttpMessage.isResponse_of_isResponseMethod hmethod
    rw [hpost.1] at hresponse
    cases hresponse

/-- A response without a length -/
def Unending (buf : List Byte) : Prop :=
  match mgHttpParse buf with
  | .message _ hm =>
    isResponseMethod hm.method = true ∧ hm.unsized = true ∧ hm.header "Transfer-Encoding" = none
  | _ => False

instance (buf : List Byte) : Decidable (Unending buf) := by
  unfold Unending
  exact match mgHttpParse buf with
    | .message .. => inferInstanceAs (Decidable (_ ∧ _))
    | .incomplete => instDecidableFalse
    | .bad => instDecidableFalse

theorem Unending.append (h : Unending buf) (t : List Byte) : Unending (buf ++ t) := by
  unfold Unending at h ⊢
  split at h
  · rename_i hparse
    rw [message_append hparse]
    exact h
  · exact h.elim

/-- `204` is the only spelling of it. -/
theorem eq_of_mgStrcaseeq_204 {s : List Byte} (h : mgStrcaseeq s (bytes "204") = true) :
    s = bytes "204" := by
  have hdigit : ∀ b : Byte, (mgToLower b = 48 → b = 48) ∧ (mgToLower b = 50 → b = 50) ∧
      (mgToLower b = 52 → b = 52) := by
    intro b
    exact forall_byte (p := fun b => (mgToLower b = 48 → b = 48) ∧ (mgToLower b = 50 → b = 50) ∧
      (mgToLower b = 52 → b = 52)) (by decide +kernel) b
  have hmap : s.map mgToLower = [50, 48, 52] := by
    have hlower : (bytes "204").map mgToLower = [50, 48, 52] := by decide
    rw [← hlower]
    exact of_decide_eq_true h
  obtain ⟨a, s₁, rfl, ha, h₁⟩ := List.map_eq_cons_iff.mp hmap
  obtain ⟨b, s₂, rfl, hb, h₂⟩ := List.map_eq_cons_iff.mp h₁
  obtain ⟨c, s₃, rfl, hc, h₃⟩ := List.map_eq_cons_iff.mp h₂
  rw [List.map_eq_nil_iff.mp h₃, (hdigit a).2.1 ha, (hdigit b).1 hb, (hdigit c).2.2 hc]
  decide

theorem bodyLen_of_response (hmsg : mgHttpParse buf = .message n hm)
    (hresponse : isResponseMethod hm.method = true) (hunsized : hm.unsized = true) :
    hm.bodyLen = 2 ^ 64 - 1 := by
  simp only [HttpMessage.unsized, HttpMessage.isPost,
    HttpMessage.isResponse_of_isResponseMethod hresponse, Bool.and_eq_true, decide_eq_true_eq,
    Bool.not_true, Bool.false_and, Bool.false_or, true_and, header_length,
    Option.isNone_iff_eq_none] at hunsized
  refine bodyLen_of_none hmsg hunsized.1 (by simp [hresponse]) ?_
  rintro ⟨-, h⟩
  refine hunsized.2.2.1 ?_
  rw [mgHttpStatus, eq_of_mgStrcaseeq_204 h]
  decide

theorem round_unending (h : Unending buf) (hlen : buf.length < 2 ^ 64) :
    round handler false beyond c buf = .stop c 0 [.sent (mgHttpReply 411 [] [])] := by
  unfold Unending at h
  split at h
  · rename_i n hm hparse
    obtain ⟨hresponse, hunsized, hplain⟩ := h
    obtain ⟨-, hpos, hn⟩ := requestLen_of_message hparse
    have hbody := bodyLen_of_response hparse hresponse hunsized
    have hofs : (if (hm.header "Content-length").isNone = true ∧ hm.isPost = true then n
        else 0) = 0 := if_neg (by
      simp [HttpMessage.isPost, HttpMessage.isResponse_of_isResponseMethod hresponse])
    rw [round, hparse]
    dsimp only
    rw [if_neg Bool.false_ne_true, hplain]
    dsimp only
    rw [plainMessage, hofs, hunsized, hbody, bytes_behind hn hlen, if_pos (by omega), if_pos rfl]
  · exact h.elim

/-- A turn of `http_cb` -/
def ConnEvent.isTurn : ConnEvent → Bool
  | .read _ _ => true
  | .poll _ => true
  | .served _ _ => true
  | _ => false

theorem Unending.ne_nil (h : Unending buf) : buf ≠ [] := by
  rintro rfl
  exact h

theorem httpCb_unending (hidle : c.is_resp = false) (h : Unending c.recv)
    (hshort : c.recv.length ≤ MG_MAX_RECV_SIZE + MG_IO_SIZE) :
    httpCb handler false beyond c = (c, [.sent (mgHttpReply 411 [] [])]) := by
  have hlen : c.recv.length < 2 ^ 64 := lt_of_le_of_lt hshort (by decide)
  exact httpCb_stop hidle h.ne_nil (round_unending h hlen)

theorem Calm.short {e : ConnEvent} (h : Calm c e)
    (hshort : c.recv.length ≤ MG_MAX_RECV_SIZE + MG_IO_SIZE) :
    (c.recv ++ e.bytes).length ≤ MG_MAX_RECV_SIZE + MG_IO_SIZE := by
  have hstay : (c.recv ++ []).length ≤ MG_MAX_RECV_SIZE + MG_IO_SIZE := by
    rwa [List.append_nil]
  cases e with
  | read bs b =>
    rw [List.length_append]
    exact h.2
  | poll b => exact hstay
  | served bs b => exact hstay
  | written bs => exact hstay
  | close b => exact hstay

theorem poll_unending (hidle : c.is_resp = false) (hdrain : c.is_draining = false)
    (hshort : c.recv.length ≤ MG_MAX_RECV_SIZE + MG_IO_SIZE) (h : Unending c.recv) :
    c.poll handler beyond = (c, [.sent (mgHttpReply 411 [] [])]) :=
  (if_pos ⟨hdrain, h.ne_nil⟩).trans (httpCb_unending hidle h hshort)

theorem step_unending {e : ConnEvent} (hidle : c.is_resp = false) (hdrain : c.is_draining = false)
    (hshort : c.recv.length ≤ MG_MAX_RECV_SIZE + MG_IO_SIZE) (h : Unending c.recv)
    (hcalm : Calm c e) : c.step handler e = ({ c with recv := c.recv ++ e.bytes },
      if e.isTurn then [.sent (mgHttpReply 411 [] [])] else []) := by
  have hstay : { c with recv := c.recv ++ [] } = c := by rw [List.append_nil]
  cases e with
  | read bs b =>
    exact (if_neg (Nat.not_le.mpr hcalm.1)).trans
      (httpCb_unending hidle (h.append bs) (hcalm.short hshort))
  | poll b =>
    rw [show (ConnEvent.poll b).bytes = [] from rfl, hstay]
    exact poll_unending hidle hdrain hshort h
  | served bs b =>
    rw [show (ConnEvent.served bs b).bytes = [] from rfl, hstay]
    exact (if_neg (by rw [hidle]; exact Bool.false_ne_true)).trans
      (poll_unending hidle hdrain hshort h)
  | written bs =>
    rw [show (ConnEvent.written bs).bytes = [] from rfl, hstay]
    exact if_neg (by rw [hidle]; exact Bool.false_ne_true)
  | close b => exact hcalm.elim

/-- A response that is sent to the server is refused at every turn, and stays in the buffer. -/
theorem refused_at_every_turn (handler : Handler) {es : List ConnEvent} (hidle : c.is_resp = false)
    (hdrain : c.is_draining = false) (hshort : c.recv.length ≤ MG_MAX_RECV_SIZE + MG_IO_SIZE)
    (hresponse : Unending c.recv) (hcalm : Throughout (Conn.step handler) Calm c es) :
    react (Conn.step handler) c es = ({ c with recv := c.recv ++ stream es },
      List.replicate (es.countP ConnEvent.isTurn) (.sent (mgHttpReply 411 [] []))) := by
  induction es generalizing c with
  | nil => simp [stream]
  | cons e es ih =>
    have hstep := @step_unending handler c e hidle hdrain hshort hresponse hcalm.1
    have hnext : Throughout (Conn.step handler) Calm (c.step handler e).1 es := hcalm.2
    rw [hstep] at hnext
    have hrest := @ih { c with recv := c.recv ++ e.bytes } hidle hdrain (hcalm.1.short hshort)
      (hresponse.append e.bytes) hnext
    rw [react_cons, hstep]
    dsimp only
    rw [hrest]
    refine Prod.ext ?_ ?_
    · simp [stream]
    · cases hkind : e.isTurn with
      | false =>
        rw [List.countP_cons_of_neg (by simp [hkind])]
        rfl
      | true =>
        rw [List.countP_cons_of_pos hkind]
        rfl

/-- A response has been read. -/
def answered : Conn := { Conn.accepted with recv := bytes "HTTP/1.1 200 OK\r\n\r\n" }

theorem refused_at_every_turn_three :
    react (Conn.step fileForRoot) answered [.poll 0, .read (bytes "more") 0, .poll 0] =
      ({ answered with recv := answered.recv ++ stream [.poll 0, .read (bytes "more") 0, .poll 0] },
        List.replicate ([.poll 0, .read (bytes "more") 0, .poll 0].countP ConnEvent.isTurn)
          (.sent (mgHttpReply 411 [] []))) :=
  refused_at_every_turn fileForRoot rfl rfl (by decide +kernel) (by decide +kernel)
    (by decide +kernel)

end BoardTest.Backend
