import BoardTest.Backend.HttpServer

/-!
# Requests in order

Requests may come in one stream, cut into reads in any way. As long as each of them has a length,
comes without `Transfer-Encoding` and does not ask for the connection to be closed, they are handed
to the handler in order, each once (`requests_in_order`). A complete one is left over only while a
file is being sent, or when the file has come to its end in `MG_EV_WRITE`, until the next round.
-/

namespace BoardTest.Backend

/-- A message that is taken as it stands. -/
def HttpMessage.Plain (hm : HttpMessage) : Prop :=
  hm.header "Transfer-Encoding" = none ∧ hm.unsized = false ∧ hm.asksToClose = false

instance (hm : HttpMessage) : Decidable hm.Plain := inferInstanceAs (Decidable (_ ∧ _))

/-- The request at the front of a buffer, when all of it is there. -/
def plainRequest (buf : List Byte) : Option (Request × Nat) :=
  match mgHttpParse buf with
  | .message n hm =>
    if hm.Plain ∧ n + hm.bodyLen ≤ buf.length then
      some (⟨hm, (buf.drop n).take hm.bodyLen⟩, n + hm.bodyLen)
    else none
  | _ => none

/-- The complete requests of a stream, and what is behind them. -/
def requests (s : List Byte) : List Request × List Byte := frames plainRequest s

/-- What is behind the complete requests may still become a plain one. -/
def Waits (buf : List Byte) : Prop :=
  match mgHttpParse buf with
  | .incomplete => True
  | .bad => False
  | .message _ hm => hm.Plain

instance (buf : List Byte) : Decidable (Waits buf) := by
  unfold Waits
  split <;> infer_instance

/-- A stream of plain requests, the last of which may not be complete. -/
def Orderly (s : List Byte) : Prop := Waits (requests s).2

instance (s : List Byte) : Decidable (Orderly s) := inferInstanceAs (Decidable (Waits _))

variable {buf s t : List Byte} {n : Nat} {hm : HttpMessage} {r : Request}

theorem plainRequest_eq_some_iff : plainRequest buf = some (r, n) ↔
    ∃ k, mgHttpParse buf = .message k r.hm ∧ r.hm.Plain ∧ k + r.hm.bodyLen ≤ buf.length ∧
      r.body = (buf.drop k).take r.hm.bodyLen ∧ n = k + r.hm.bodyLen := by
  obtain ⟨hm, body⟩ := r
  unfold plainRequest
  constructor
  · intro h
    split at h
    · rename_i k hm' hparse
      split at h
      · rename_i hplain
        obtain ⟨hreq, rfl⟩ := Prod.mk.inj (Option.some.inj h)
        obtain ⟨rfl, rfl⟩ := Request.mk.inj hreq
        exact ⟨k, hparse, hplain.1, hplain.2, rfl, rfl⟩
      · cases h
    · cases h
  · rintro ⟨k, hparse, hplain, hle, hbody, rfl⟩
    rw [hparse, show body = (buf.drop k).take hm.bodyLen from hbody]
    exact if_pos ⟨hplain, hle⟩

theorem stable_plainRequest : Stable plainRequest where
  pos := by
    intro s r n h
    obtain ⟨k, hparse, -, -, -, rfl⟩ := plainRequest_eq_some_iff.mp h
    have := (requestLen_of_message hparse).2.1
    omega
  le := by
    intro s r n h
    obtain ⟨k, -, -, hle, -, rfl⟩ := plainRequest_eq_some_iff.mp h
    exact hle
  append := by
    intro s r n t h
    obtain ⟨k, hparse, hplain, hle, hbody, rfl⟩ := plainRequest_eq_some_iff.mp h
    refine plainRequest_eq_some_iff.mpr ⟨k, message_append hparse t, hplain, ?_, ?_, rfl⟩
    · rw [List.length_append]
      omega
    · rw [hbody, List.drop_append_of_le_length (by omega), List.take_append_of_le_length]
      rw [List.length_drop]
      omega

theorem waits_of_append (h : Waits (s ++ t)) : Waits s := by
  unfold Waits at h ⊢
  split
  · trivial
  · rename_i hbad
    rw [bad_append hbad] at h
    exact h
  · rename_i k hm hparse
    rw [message_append hparse] at h
    exact h

theorem waits_of_request (h : plainRequest buf = some (r, n)) : Waits buf := by
  obtain ⟨k, hparse, hplain, -⟩ := plainRequest_eq_some_iff.mp h
  rw [Waits, hparse]
  exact hplain

theorem requests_append (s t : List Byte) : requests (s ++ t) =
    ((requests s).1 ++ (requests ((requests s).2 ++ t)).1, (requests ((requests s).2 ++ t)).2) :=
  frames_append stable_plainRequest s t

theorem requests_none (h : plainRequest buf = none) : requests buf = ([], buf) := frames_none h

theorem requests_some (h : plainRequest buf = some (r, n)) :
    requests buf = (r :: (requests (buf.drop n)).1, (requests (buf.drop n)).2) :=
  frames_some stable_plainRequest h

theorem Orderly.waits (h : Orderly buf) : Waits buf := by
  cases hp : plainRequest buf with
  | none => rwa [Orderly, requests_none hp] at h
  | some rn => exact waits_of_request hp

theorem Orderly.of_append (h : Orderly (s ++ t)) : Orderly s := by
  rw [Orderly, requests_append] at h
  have hrest : Orderly ((requests s).2 ++ t) := h
  exact waits_of_append hrest.waits

variable {handler : Handler} {c : Conn} {beyond : Byte}

/-- What the connection is once the handler has got one request more. -/
def Conn.after (handler : Handler) (c : Conn) (hm : HttpMessage) : Conn :=
  { c with calls := c.calls + 1, is_resp := (handler c.calls hm).2 }

theorem deliver_of_plain (handler : Handler) (c : Conn) (hplain : r.hm.Plain) (n : Nat)
    (ds : List Deed) : deliver handler c r n ds =
      .again (c.after handler r.hm) n (ds ++ [.handled r, .sent (handler c.calls r.hm).1]) := by
  rw [deliver]
  exact if_neg (by simp [hplain.2.2])

theorem HttpMessage.Plain.sized (h : hm.Plain) :
    ¬ ((hm.header "Content-length").isNone = true ∧ hm.isPost = true) := by
  have hsized := h.2.1
  rw [HttpMessage.unsized] at hsized
  rintro ⟨hnone, hpost⟩
  simp [hnone, hpost] at hsized

/-- `c->recv.len - ofs - n`, where nothing has been skipped -/
theorem bytes_behind {k len : Nat} (hk : k ≤ len) (hlen : len < 2 ^ 64) :
    (2 ^ 64 + len - 0 - k) % 2 ^ 64 = len - k := by
  rw [show 2 ^ 64 + len - 0 - k = len - k + 2 ^ 64 by omega, Nat.add_mod_right,
    Nat.mod_eq_of_lt (by omega)]

/-- A message in front that is plain and complete goes to the handler. -/
theorem round_plain (h : plainRequest buf = some (r, n)) (hlen : buf.length < 2 ^ 64) :
    round handler false beyond c buf =
      .again (c.after handler r.hm) n [.handled r, .sent (handler c.calls r.hm).1] := by
  obtain ⟨k, hparse, hplain, hle, hbody, rfl⟩ := plainRequest_eq_some_iff.mp h
  have hroom : ¬ r.hm.bodyLen > (2 ^ 64 + buf.length - 0 - k) % 2 ^ 64 := by
    rw [bytes_behind (by omega) hlen]
    omega
  rw [round, hparse]
  dsimp only
  rw [if_neg Bool.false_ne_true, hplain.1]
  dsimp only
  rw [plainMessage, if_neg hplain.sized, hplain.2.1, if_neg hroom, if_neg Bool.false_ne_true,
    ← hbody, Nat.zero_add, Nat.mod_eq_of_lt (by omega)]
  exact deliver_of_plain handler c hplain _ []

/-- When there is none the loop stops, if what is there may still become one. -/
theorem round_waits (h : plainRequest buf = none) (hwaits : Waits buf)
    (hlen : buf.length < 2 ^ 64) :
    round handler false beyond c buf = .stop c 0 [] := by
  unfold Waits at hwaits
  rw [round]
  split at hwaits
  · rename_i hparse
    rw [hparse]
  · exact hwaits.elim
  · rename_i k hm hparse
    have hshort : ¬ k + hm.bodyLen ≤ buf.length := by
      intro hle
      rw [plainRequest, hparse] at h
      dsimp only at h
      rw [if_pos ⟨hwaits, hle⟩] at h
      cases h
    have hk := (requestLen_of_message hparse).2.2
    rw [hparse]
    dsimp only
    rw [if_neg Bool.false_ne_true, hwaits.1]
    dsimp only
    rw [plainMessage, if_neg hwaits.sized, hwaits.2.1, bytes_behind hk hlen, if_pos (by omega),
      if_neg Bool.false_ne_true]

/-- What is done with requests one after the other. -/
def dealt (handler : Handler) : Nat → List Request → List Deed
  | _, [] => []
  | k, r :: rs => .handled r :: .sent (handler k r.hm).1 :: dealt handler (k + 1) rs

/-- With none of them the handler goes on sending. -/
def Finished (handler : Handler) (k : Nat) (rs : List Request) : Prop :=
  ∀ i r, rs[i]? = some r → (handler (k + i) r.hm).2 = false

theorem finished_append {handler : Handler} {k : Nat} {rs rs' : List Request} :
    Finished handler k (rs ++ rs') ↔
      Finished handler k rs ∧ Finished handler (k + rs.length) rs' := by
  constructor
  · refine fun h => ⟨fun i r hr => h i r ?_, fun i r hr => ?_⟩
    · rw [List.getElem?_append_left (List.getElem?_eq_some_iff.mp hr).1, hr]
    · rw [Nat.add_assoc]
      refine h (rs.length + i) r ?_
      rw [List.getElem?_append_right (Nat.le_add_right _ _), Nat.add_sub_cancel_left, hr]
  · rintro ⟨h, h'⟩ i r hr
    by_cases hi : i < rs.length
    · exact h i r (by rwa [List.getElem?_append_left hi] at hr)
    · rw [List.getElem?_append_right (Nat.not_lt.mp hi)] at hr
      have hlast := h' (i - rs.length) r hr
      rwa [Nat.add_assoc, Nat.add_sub_cancel' (Nat.not_lt.mp hi)] at hlast

/-- No complete request is left over, unless a file is being sent. -/
def Conn.CaughtUp (c : Conn) : Prop := c.is_resp = false → (requests c.recv).1 = []

/-- Requests `rs` have been taken from the front of a buffer. -/
structure Took (handler : Handler) (c : Conn) (buf : List Byte) (rs : List Request)
    (out : Conn × List Deed) : Prop where
  deeds : out.2 = dealt handler c.calls rs
  calls : out.1.calls = c.calls + rs.length
  left : requests buf = (rs ++ (requests out.1.recv).1, (requests out.1.recv).2)
  draining : out.1.is_draining = c.is_draining
  closing : out.1.is_closing = c.is_closing
  shrinks : out.1.recv.length ≤ c.recv.length
  caughtUp : out.1.CaughtUp
  quiet : c.is_resp = false → Finished handler c.calls rs → out.1.is_resp = false

theorem requests_nil : requests [] = ([], []) := requests_none rfl

/-- The loop takes requests until none is complete or a file is being sent. -/
theorem httpLoop_took {fuel ofs : Nat} (hfuel : c.recv.length - ofs < fuel)
    (horderly : Orderly (c.recv.drop ofs)) (hlen : c.recv.length < 2 ^ 64) :
    ∃ rs, Took handler c (c.recv.drop ofs) rs (httpLoop handler false beyond fuel c ofs) := by
  induction fuel generalizing c ofs with
  | zero => omega
  | succ fuel ih =>
    rw [httpLoop]
    have hdrop := c.recv.length_drop (i := ofs)
    have hdel : (c.del ofs).recv.length ≤ c.recv.length := (List.drop_sublist ..).length_le
    split
    · rename_i hgo
      cases hp : plainRequest (c.recv.drop ofs) with
      | none =>
        have hnone := requests_none hp
        have hwaits : Waits (c.recv.drop ofs) := by
          rwa [Orderly, hnone] at horderly
        rw [round_waits hp hwaits (by omega)]
        exact ⟨[], rfl, rfl, rfl, rfl, rfl, hdel,
          fun _ => congrArg Prod.fst hnone, fun h _ => h⟩
      | some rn =>
        obtain ⟨r, n⟩ := rn
        have hsome := requests_some hp
        have hpos := stable_plainRequest.pos hp
        have hnext : Orderly (c.recv.drop (ofs + n)) := by
          rw [Orderly, hsome, List.drop_drop] at horderly
          exact horderly
        obtain ⟨rs, h⟩ := @ih (c.after handler r.hm) (ofs + n)
          (show c.recv.length - (ofs + n) < fuel by omega) hnext hlen
        rw [round_plain hp (by omega)]
        refine ⟨r :: rs, ?_, ?_, ?_, h.draining, h.closing, h.shrinks, h.caughtUp, ?_⟩
        · exact congrArg (_ :: _ :: ·) h.deeds
        · rw [h.calls, List.length_cons]
          exact Nat.add_right_comm c.calls 1 rs.length
        · have hleft := h.left
          rw [hsome, List.drop_drop, show c.recv.drop (ofs + n) =
            (c.after handler r.hm).recv.drop (ofs + n) from rfl, hleft]
          rfl
        · intro _ hfinished
          have hcons : Finished handler c.calls ([r] ++ rs) := hfinished
          have hparts := finished_append.mp hcons
          exact h.quiet (hparts.1 0 r rfl) hparts.2
    · rename_i hstop
      refine ⟨[], rfl, rfl, rfl, rfl, rfl, hdel, fun hidle => ?_, fun h _ => h⟩
      have hend : c.recv.drop ofs = [] := by
        rw [List.drop_eq_nil_iff]
        by_contra hmore
        exact hstop ⟨hidle, by omega⟩
      rw [show (c.del ofs).recv = c.recv.drop ofs from rfl, hend, requests_nil]

theorem httpCb_took (horderly : Orderly c.recv) (hlen : c.recv.length < 2 ^ 64) :
    ∃ rs, Took handler c c.recv rs (httpCb handler false beyond c) :=
  @httpLoop_took handler c beyond (c.recv.length + 1) 0 (by omega) horderly hlen

/-! ## Runs -/

def ConnEvent.bytes : ConnEvent → List Byte
  | .read bs _ => bs
  | _ => []

/-- The bytes that are read in a run. -/
def stream (es : List ConnEvent) : List Byte := es.flatMap ConnEvent.bytes

/-- The connection stays open, and what is read has room in its buffer. -/
def Calm (c : Conn) : ConnEvent → Prop
  | .read bs _ => c.recv.length < MG_MAX_RECV_SIZE ∧
      c.recv.length + bs.length ≤ MG_MAX_RECV_SIZE + MG_IO_SIZE
  | .close _ => False
  | _ => True

instance (c : Conn) (e : ConnEvent) : Decidable (Calm c e) := by
  cases e <;> unfold Calm <;> infer_instance

/-- What is done but for the files. -/
def Deed.isOwn : Deed → Bool
  | .file _ => false
  | _ => true

def own (ds : List Deed) : List Deed := ds.filter Deed.isOwn

theorem own_append (ds ds' : List Deed) : own (ds ++ ds') = own ds ++ own ds' :=
  List.filter_append ..

theorem own_dealt (handler : Handler) (k : Nat) (rs : List Request) :
    own (dealt handler k rs) = dealt handler k rs := by
  induction rs generalizing k with
  | nil => rfl
  | cons r rs ih => exact congrArg (_ :: _ :: ·) (ih (k + 1))

theorem dealt_append (handler : Handler) (k : Nat) (rs rs' : List Request) :
    dealt handler k (rs ++ rs') = dealt handler k rs ++ dealt handler (k + rs.length) rs' := by
  induction rs generalizing k with
  | nil => rfl
  | cons r rs ih =>
    rw [List.cons_append, dealt, ih, List.length_cons, Nat.add_right_comm k, ← Nat.add_assoc]
    rfl

/-- What holds of a connection between two events. -/
structure Conn.Inv (c : Conn) : Prop where
  draining : c.is_draining = false
  short : c.recv.length ≤ MG_MAX_RECV_SIZE + MG_IO_SIZE

theorem Conn.accepted_inv : Conn.accepted.Inv := ⟨rfl, Nat.zero_le _⟩

theorem Conn.accepted_caughtUp : Conn.accepted.CaughtUp := fun _ => congrArg Prod.fst requests_nil

/-- Requests `rs` have been taken out of what was there and what has been read; `looked` says that
`http_cb` has looked at the buffer since. -/
structure Advanced (handler : Handler) (c : Conn) (read : List Byte) (looked : Prop)
    (rs : List Request) (out : Conn × List Deed) : Prop where
  deeds : own out.2 = dealt handler c.calls rs
  calls : out.1.calls = c.calls + rs.length
  left : requests (c.recv ++ read) = (rs ++ (requests out.1.recv).1, (requests out.1.recv).2)
  inv : out.1.Inv
  caughtUp : looked → out.1.CaughtUp
  quiet : c.is_resp = false → Finished handler c.calls rs →
    out.1.is_resp = false ∧ own out.2 = out.2 ∧ (c.CaughtUp → out.1.CaughtUp)

/-- A step of `http_cb`. -/
theorem advanced_httpCb {read : List Byte} {looked : Prop} {c' : Conn}
    (hrecv : c'.recv = c.recv ++ read) (hcalls : c'.calls = c.calls)
    (hresp : c.is_resp = false → c'.is_resp = false) (hdrain : c'.is_draining = false)
    (horderly : Orderly (c.recv ++ read))
    (hshort : c'.recv.length ≤ MG_MAX_RECV_SIZE + MG_IO_SIZE) :
    ∃ rs, Advanced handler c read looked rs (httpCb handler false beyond c') := by
  have hlen : c'.recv.length < 2 ^ 64 := lt_of_le_of_lt hshort (by decide)
  rw [← hrecv] at horderly
  obtain ⟨rs, h⟩ := @httpCb_took handler c' beyond horderly hlen
  refine ⟨rs, ?_, ?_, ?_, ⟨?_, ?_⟩, fun _ => h.caughtUp, fun hidle hfinished =>
    ⟨?_, ?_, fun _ => h.caughtUp⟩⟩
  · rw [h.deeds, own_dealt, hcalls]
  · rw [h.calls, hcalls]
  · rw [← hrecv, h.left]
  · rw [h.draining, hdrain]
  · exact le_trans h.shrinks hshort
  · exact h.quiet (hresp hidle) (hcalls ▸ hfinished)
  · rw [h.deeds, own_dealt]

/-- An event at which nothing is done. -/
theorem advanced_stay {looked : Prop} (hinv : c.Inv) (hlooked : looked → c.CaughtUp) :
    Advanced handler c [] looked [] (c, []) :=
  ⟨rfl, rfl, by rw [List.append_nil, List.nil_append], hinv, hlooked,
    fun hidle _ => ⟨hidle, rfl, fun h => h⟩⟩

theorem advanced_poll {looked : Prop} (hinv : c.Inv) (horderly : Orderly (c.recv ++ [])) :
    ∃ rs, Advanced handler c [] looked rs (c.poll handler beyond) := by
  rw [Conn.poll]
  split
  · exact advanced_httpCb (List.append_nil _).symm rfl id hinv.draining horderly hinv.short
  · rename_i hnothing
    have hempty : c.recv = [] := by
      by_contra hne
      exact hnothing ⟨hinv.draining, hne⟩
    refine ⟨[], advanced_stay hinv fun _ _ => ?_⟩
    rw [hempty, requests_nil]

theorem advanced_step {e : ConnEvent} (hinv : c.Inv) (hcalm : Calm c e)
    (horderly : Orderly (c.recv ++ e.bytes)) :
    ∃ rs, Advanced handler c e.bytes (∀ bs, e ≠ .written bs) rs (c.step handler e) := by
  cases e with
  | read bs b =>
    rw [Conn.step, if_neg (Nat.not_le.mpr hcalm.1)]
    refine advanced_httpCb rfl rfl id hinv.draining horderly ?_
    rw [List.length_append]
    exact hcalm.2
  | poll b => exact advanced_poll hinv horderly
  | served bs b =>
    rw [Conn.step]
    split
    · rename_i hresp
      obtain ⟨rs, h⟩ := @advanced_httpCb handler c b []
        (∀ bs', ConnEvent.served bs b ≠ .written bs') { c with is_resp := false }
        (List.append_nil _).symm rfl (fun _ => rfl) hinv.draining horderly hinv.short
      refine ⟨rs, h.deeds, h.calls, h.left, h.inv, h.caughtUp, fun hidle => ?_⟩
      rw [hidle] at hresp
      cases hresp
    · exact advanced_poll hinv horderly
  | written bs =>
    have hlooked : (∀ bs', ConnEvent.written bs ≠ .written bs') → False := fun h => h bs rfl
    rw [Conn.step]
    split
    · rename_i hresp
      refine ⟨[], rfl, rfl, ?_, ⟨hinv.draining, hinv.short⟩, fun h => (hlooked h).elim,
        fun hidle => ?_⟩
      · exact congrArg requests (List.append_nil c.recv)
      · rw [hidle] at hresp
        cases hresp
    · exact ⟨[], advanced_stay hinv fun h => (hlooked h).elim⟩
  | close b => exact hcalm.elim

/-- The run does not break off between the end of a file in `MG_EV_WRITE` and the next round. -/
def Settled (es : List ConnEvent) : Prop := ∀ bs, es.getLast? ≠ some (.written bs)

/-- A run from any state between two events. -/
theorem advanced_run {es : List ConnEvent} (hinv : c.Inv)
    (hcalm : Throughout (Conn.step handler) Calm c es) (horderly : Orderly (c.recv ++ stream es)) :
    ∃ rs, Advanced handler c (stream es) (es ≠ [] ∧ Settled es) rs
      (react (Conn.step handler) c es) := by
  induction es generalizing c with
  | nil => exact ⟨[], advanced_stay hinv fun h => absurd rfl h.1⟩
  | cons e es ih =>
    have hstream : c.recv ++ stream (e :: es) = (c.recv ++ e.bytes) ++ stream es :=
      (List.append_assoc ..).symm
    rw [hstream] at horderly
    obtain ⟨rs, h⟩ : ∃ rs, Advanced handler c e.bytes (∀ bs, e ≠ .written bs) rs
        (c.step handler e) := advanced_step hinv hcalm.1 horderly.of_append
    have hrest : requests (c.recv ++ stream (e :: es)) =
        (rs ++ (requests ((c.step handler e).1.recv ++ stream es)).1,
          (requests ((c.step handler e).1.recv ++ stream es)).2) := by
      rw [hstream, requests_append, h.left, requests_append (c.step handler e).1.recv,
        List.append_assoc]
    have hnext : Orderly ((c.step handler e).1.recv ++ stream es) := by
      rw [Orderly, ← hstream, hrest] at horderly
      exact horderly
    obtain ⟨rs', h'⟩ := ih h.inv hcalm.2 hnext
    refine ⟨rs ++ rs', ?_, ?_, ?_, h'.inv, fun hlooked => ?_, fun hidle hfinished => ?_⟩
    · rw [react_cons, own_append, h.deeds, h'.deeds, dealt_append, h.calls]
    · rw [react_cons, h'.calls, h.calls, List.length_append, Nat.add_assoc]
    · rw [hrest, h'.left, List.append_assoc]
      rfl
    · -- the last event is the first one, or one of the others
      cases es with
      | nil => exact h.caughtUp fun bs he => hlooked.2 bs (congrArg some he)
      | cons e' es => exact h'.caughtUp ⟨List.cons_ne_nil _ _, hlooked.2⟩
    · have hparts := finished_append.mp hfinished
      obtain ⟨hidle', hown, hkept⟩ := h.quiet hidle hparts.1
      obtain ⟨hlast, hown', hkept'⟩ := h'.quiet hidle' (h.calls ▸ hparts.2)
      refine ⟨hlast, ?_, fun hc => hkept' (hkept hc)⟩
      rw [react_cons, own_append, hown, hown']

/-- A run from the beginning. -/
theorem advanced_accepted {es : List ConnEvent}
    (hcalm : Throughout (Conn.step handler) Calm .accepted es) (horderly : Orderly (stream es)) :
    ∃ rs, Advanced handler .accepted (stream es) (Settled es) rs
      (react (Conn.step handler) .accepted es) := by
  obtain ⟨rs, h⟩ := advanced_run Conn.accepted_inv hcalm horderly
  refine ⟨rs, h.deeds, h.calls, h.left, h.inv, fun hsettled => ?_, h.quiet⟩
  by_cases hes : es = []
  · rw [hes]
    exact Conn.accepted_caughtUp
  · exact h.caughtUp ⟨hes, hsettled⟩

/-- However the stream is cut, the handler gets the requests in order, each once, and what it sends
for one is sent before it gets the next. None is left over unless a file is being sent, or has just
come to its end in `MG_EV_WRITE`. -/
theorem requests_in_order (handler : Handler) (es : List ConnEvent)
    (hcalm : Throughout (Conn.step handler) Calm .accepted es) (horderly : Orderly (stream es)) :
    ∃ rs c ds, react (Conn.step handler) .accepted es = (c, ds) ∧ own ds = dealt handler 0 rs ∧
      requests (stream es) = (rs ++ (requests c.recv).1, (requests c.recv).2) ∧
      (c.is_resp = false → Settled es → rs = (requests (stream es)).1) := by
  obtain ⟨rs, h⟩ : ∃ rs, Advanced handler .accepted (stream es) (Settled es) rs
      (react (Conn.step handler) .accepted es) := advanced_accepted hcalm horderly
  refine ⟨rs, _, _, rfl, h.deeds, h.left, fun hidle hsettled => ?_⟩
  rw [show stream es = Conn.accepted.recv ++ stream es from rfl, h.left,
    h.caughtUp hsettled hidle, List.append_nil]

/-- Three requests and the beginning of a fourth, in three reads; the second and the third are for
a file. -/
def fileInBetween : List ConnEvent :=
  [.read (bytes "GET /api/tests HTTP/1.1\r\nHost: board\r\n") 0,
    .read (bytes "\r\nGET / HTTP/1.1\n\nGET / HTTP/1.1\n\nPOST /api HTTP/1.1\r\n") 0,
    .poll 0, .written (bytes "<html>"), .poll 0,
    .read (bytes "Content-Length: 2\r\n\r\n1") 0, .served (bytes "<html>") 0]

/-- A file for `/`, and an empty reply for the others. -/
def fileForRoot : Handler := fun _ hm =>
  if hm.uri = bytes "/" then ([], true) else (mgHttpReply 200 [] [], false)

theorem requests_in_order_two : ∃ rs c ds,
    react (Conn.step fileForRoot) .accepted fileInBetween = (c, ds) ∧
      own ds = dealt fileForRoot 0 rs ∧
      requests (stream fileInBetween) = (rs ++ (requests c.recv).1, (requests c.recv).2) ∧
      (c.is_resp = false → Settled fileInBetween → rs = (requests (stream fileInBetween)).1) :=
  requests_in_order fileForRoot fileInBetween (by decide +kernel) (by decide +kernel)

end BoardTest.Backend
