import BoardTest.Lib.Ledger
import BoardTest.Qmi.Requests

/-!
# Requests and the thread that reads (`QMIThread.c`, `QmiWwanCM.c`, `GobiNetCM.c`)

The main thread sends a request and waits on a condition variable; a second thread reads what the
modem says and looks whether it answers the request in `s_pRequest`. Both hold the mutex, so a run
is a list of what they do under it. The wait may also end in a time-out, or for no reason.

What a call returns depends on its own request and on what is read while it waits, and not on what
earlier calls have left behind (`call_outcome`). No block is touched again once it has been freed or
handed to the caller (`no_use_after_release`); a request is freed when it is answered or dropped
before the next call, and otherwise never (`request_freed_iff`).
-/

namespace BoardTest.Qmi

def QMUX_TYPE_WDS : Byte := 0x01
def QMUX_TYPE_NAS : Byte := 0x03
def QMUX_TYPE_WDS_IPV6 : Byte := 0x11
def QMUX_TYPE_WDS_ADMIN : Byte := 0x1A

/-- `QMICTLMsgHdr.TransactionId` of a control message and `QMUXHdr.TransactionId` of another. -/
def transactionId (qmi : List Byte) : Nat :=
  if hdrType qmi = QMUX_TYPE_CTL then (qmi.getD 7 0).toNat else le16 qmi 7

/-- `QMUXMsgHdrResp.Type` -/
def muxType (qmi : List Byte) : Nat := le16 qmi 9

/-- `is_response` -/
def isResponse (pRequest pResponse : List Byte) : Bool :=
  hdrType pRequest = hdrType pResponse ∧ hdrClientId pRequest = hdrClientId pResponse ∧
    transactionId pRequest =
      -- the field is chosen by the service of the request, which is that of the response
      if hdrType pRequest = QMUX_TYPE_CTL then (pResponse.getD 7 0).toNat else le16 pResponse 7

/-- `GetQCTLTransactionId`, on its static counter -/
def GetQCTLTransactionId (TransactionId : Nat) : Nat :=
  if TransactionId + 1 > 0xFF then 1 else TransactionId + 1

/-- What the device does with a request: of the `cdc-wdm` device, it is not open, it is not ready
and `poll` has returned `ret`, or `write` has returned `n`; of GobiNet, there is no descriptor for
the service, or `write` has returned `n`. -/
inductive Device
  | cdcClosed
  | cdcNotReady (ret : Int)
  | cdcWritten (n : Int)
  | gobiClosed
  | gobiWritten (n : Int)

/-- The service of an IPv6 request is put right in the request itself. -/
def asWds (qmi : List Byte) : List Byte :=
  if hdrType qmi = QMUX_TYPE_WDS_IPV6 then qmi.set 4 QMUX_TYPE_WDS else qmi

/-- `QmiWwanSendQMI` and `GobiNetSendQMI`: what is returned, and the request as it is then. -/
def qmidevSend (dev : Device) (qmi : List Byte) : Int × List Byte :=
  match dev with
  | .cdcClosed => (-19, qmi)
  | .cdcNotReady ret => (ret, asWds qmi)
  | .cdcWritten n => (if n = hdrLength (asWds qmi) + 1 then 0 else n, asWds qmi)
  | .gobiClosed => (-19, qmi)
  | .gobiWritten n => (if n = hdrLength qmi + 1 - 6 then 0 else n, qmi)

/-- A block of the heap. -/
structure Block where
  addr : Nat
  qmi : List Byte
deriving DecidableEq

/-- `s_pRequest` and `s_pResponse`, and the call that waits, if there is one: whether it has been
given a `ppResponse`. -/
structure Exchange where
  s_pRequest : Option Block
  s_pResponse : Option Block
  waiting : Option Bool

/-- What the threads do under the mutex. `mem` is what `malloc` returns where it is called. -/
inductive Turn
  | call (pRequest : Option Block) (dev : Device) (wants : Bool)
  | wake (ret : Int)
  | recv (pResponse : List Byte) (mem : Option Nat)
  | quit

/-- What comes of it: a block is looked at or freed, the main thread is sent an event, or the call
returns; a call without a request returns without writing `*ppResponse`. -/
inductive Effect
  | use (addr : Nat)
  | free (addr : Nat)
  | toMain (triger_event : Nat)
  | refused
  | returned (ret : Int) (ppResponse : Option Block)
deriving DecidableEq

def RIL_UNSOL_RESPONSE_VOICE_NETWORK_STATE_CHANGED : Nat := 0x1004
def RIL_UNSOL_DATA_CALL_LIST_CHANGED : Nat := 0x1005
def MODEM_REPORT_RESET_EVENT : Nat := 0x1006
def RIL_UNSOL_LOOPBACK_CONFIG_IND : Nat := 0x1007

/-- The messages that answer no request. -/
def indication (qmi : List Byte) : List Effect :=
  if hdrType qmi = QMUX_TYPE_CTL ∧ ctlType qmi = QMICTL_REVOKE_CLIENT_ID_IND then
    [.toMain MODEM_REPORT_RESET_EVENT]
  else if hdrType qmi = QMUX_TYPE_NAS ∧ muxType qmi = 0x0024 then
    [.toMain RIL_UNSOL_RESPONSE_VOICE_NETWORK_STATE_CHANGED]
  else if hdrType qmi = QMUX_TYPE_WDS ∧ muxType qmi = 0x0022 then
    [.toMain RIL_UNSOL_DATA_CALL_LIST_CHANGED]
  else if hdrType qmi = QMUX_TYPE_NAS ∧ muxType qmi = 0x004D then
    [.toMain RIL_UNSOL_RESPONSE_VOICE_NETWORK_STATE_CHANGED]
  else if hdrType qmi = QMUX_TYPE_WDS_ADMIN ∧ muxType qmi = 0x002F then
    [.toMain RIL_UNSOL_LOOPBACK_CONFIG_IND]
  else []

/-- `QmiThreadSendQMITimeout`, up to the wait -/
def sendQMI (p : Block) (dev : Device) (wants : Bool) : Exchange × List Effect :=
  let (ret, qmi) := qmidevSend dev p.qmi
  if ret = 0 then (⟨some ⟨p.addr, qmi⟩, none, some wants⟩, [.use p.addr])
  else (⟨some ⟨p.addr, qmi⟩, none, none⟩, [.use p.addr, .returned ret none])

/-- `QmiThreadSendQMITimeout`, when `pthread_cond_timeout_np` has returned -/
def wakeUp (s : Exchange) (wants : Bool) (ret : Int) : Exchange × List Effect :=
  let s' := { s with waiting := none }
  if ret = 0 then
    match s.s_pResponse with
    | some b =>
      if wants then (s', [.returned ret (some b)])
      else ({ s' with s_pResponse := none }, [.free b.addr, .returned ret none])
    | none => (s', [.returned ret none])
  else (s', [.returned ret none])

/-- `QmiThreadRecvQMI` of a message -/
def recvQMI (s : Exchange) (pResponse : List Byte) (mem : Option Nat) : Exchange × List Effect :=
  match s.s_pRequest with
  | none => (s, indication pResponse)
  | some p =>
    if isResponse p.qmi pResponse then
      ({ s with s_pRequest := none, s_pResponse := mem.map fun a => ⟨a, frame pResponse⟩ },
        [.use p.addr, .free p.addr])
    else (s, .use p.addr :: indication pResponse)

/-- `QmiThreadRecvQMI(NULL)` -/
def recvNull (s : Exchange) : Exchange × List Effect :=
  match s.s_pRequest with
  | none => (s, [])
  | some p => ({ s with s_pRequest := none, s_pResponse := none }, [.free p.addr])

/-- A turn of one of the threads. While a call waits there is no other one. -/
def Exchange.turn (s : Exchange) : Turn → Exchange × List Effect
  | .call pRequest dev wants =>
    match s.waiting, pRequest with
    | some _, _ => (s, [])
    | none, none => (s, [.refused])
    | none, some p => sendQMI p dev wants
  | .wake ret =>
    match s.waiting with
    | some wants => wakeUp s wants ret
    | none => (s, [])
  | .recv pResponse mem => recvQMI s pResponse mem
  | .quit => recvNull s

/-- The program as it begins. -/
def Exchange.start : Exchange := ⟨none, none, none⟩

theorem isResponse_iff {p m : List Byte} : isResponse p m = true ↔
    hdrType p = hdrType m ∧ hdrClientId p = hdrClientId m ∧ transactionId p = transactionId m := by
  rw [isResponse, decide_eq_true_eq]
  refine and_congr_right fun htype => and_congr_right fun _ => ?_
  rw [htype]
  exact Iff.rfl

/-- What settles a call: the first message that answers its request, of which the caller gets a copy
if there is memory for one, or the end of the thread that reads. -/
def settled (qmi : List Byte) : List Turn → Option (Option Block)
  | [] => none
  | .recv m mem :: es =>
    if isResponse qmi m then some (mem.map fun a => ⟨a, frame m⟩) else settled qmi es
  | .quit :: _ => some none
  | _ :: es => settled qmi es

/-- The turns that neither end the wait nor begin a call. -/
def Turn.reads : Turn → Bool
  | .recv .. => true
  | .quit => true
  | _ => false

def Effect.outcome : Effect → Option (Int × Option Block)
  | .returned ret b => some (ret, b)
  | _ => none

theorem filterMap_indication (m : List Byte) : (indication m).filterMap Effect.outcome = [] := by
  unfold indication
  repeat' split
  all_goals rfl

/-- Nothing is looked for any more once the call is settled. -/
theorem react_settled {s : Exchange} (hs : s.s_pRequest = none) {es : List Turn}
    (hes : ∀ e ∈ es, e.reads = true) :
    (react Exchange.turn s es).1 = s ∧
      (react Exchange.turn s es).2.filterMap Effect.outcome = [] := by
  induction es with
  | nil => exact ⟨rfl, rfl⟩
  | cons e es ih =>
    have ih := ih fun e he => hes e (List.mem_cons_of_mem _ he)
    have hstep : (s.turn e).1 = s ∧ (s.turn e).2.filterMap Effect.outcome = [] := by
      have he := hes e List.mem_cons_self
      cases e with
      | call => cases he
      | wake => cases he
      | recv m mem =>
        rw [Exchange.turn, recvQMI, hs]
        exact ⟨rfl, filterMap_indication m⟩
      | quit =>
        rw [Exchange.turn, recvNull, hs]
        exact ⟨rfl, rfl⟩
    rw [react_cons, hstep.1, List.filterMap_append, hstep.2, ih.2]
    exact ⟨ih.1, rfl⟩

/-- While a call waits, its request stands until it is settled. -/
theorem react_waiting {p : Block} {w : Option Bool} {es : List Turn}
    (hes : ∀ e ∈ es, e.reads = true) :
    (react Exchange.turn ⟨some p, none, w⟩ es).1 =
      (match settled p.qmi es with
        | none => ⟨some p, none, w⟩
        | some b => ⟨none, b, w⟩) ∧
      (react Exchange.turn ⟨some p, none, w⟩ es).2.filterMap Effect.outcome = [] := by
  induction es with
  | nil => exact ⟨rfl, rfl⟩
  | cons e es ih =>
    have hrest := fun e he => hes e (List.mem_cons_of_mem _ he)
    have he := hes e List.mem_cons_self
    rw [react_cons, List.filterMap_append]
    cases e with
    | call => cases he
    | wake => cases he
    | recv m mem =>
      rw [Exchange.turn, recvQMI, settled]
      dsimp only
      by_cases hm : isResponse p.qmi m = true
      · rw [if_pos hm, if_pos hm]
        obtain ⟨hstate, hout⟩ :=
          react_settled (s := ⟨none, mem.map fun a => ⟨a, frame m⟩, w⟩) rfl hrest
        exact ⟨hstate, by rw [hout]; rfl⟩
      · rw [if_neg hm, if_neg hm]
        refine ⟨(ih hrest).1, ?_⟩
        rw [(ih hrest).2, List.filterMap_cons_none rfl, filterMap_indication]
        rfl
    | quit =>
      rw [Exchange.turn, recvNull, settled]
      dsimp only
      obtain ⟨hstate, hout⟩ := react_settled (s := ⟨none, none, w⟩) rfl hrest
      exact ⟨hstate, by rw [hout]; rfl⟩

/-! ## Transaction numbers -/

/-- The counters of transactions count from 1 to `top` and begin again. -/
theorem counter_iterate {f : Nat → Nat} {top : Nat} (htop : 1 < top)
    (hf : ∀ n, f n = if n + 1 > top then 1 else n + 1) (j : Nat) :
    f^[j + 1] 0 = j % top + 1 := by
  induction j with
  | zero => rw [Function.iterate_one, hf, if_neg (by omega), Nat.zero_mod]
  | succ j ih =>
    have hlt := Nat.mod_lt j (by omega : 0 < top)
    rw [Function.iterate_succ_apply', ih, hf, Nat.add_mod_eq_ite, Nat.mod_eq_of_lt htop]
    split <;> split <;> omega

/-- Two numbers that were drawn from a counter, the second fewer than `top` draws after the
first. -/
def DrawnAfter (f : Nat → Nat) (top a b : Nat) : Prop :=
  ∃ i j, i < j ∧ j < i + top ∧ a = f^[i + 1] 0 ∧ b = f^[j + 1] 0

theorem DrawnAfter.ne {f : Nat → Nat} {top a b : Nat} (htop : 1 < top)
    (hf : ∀ n, f n = if n + 1 > top then 1 else n + 1) (h : DrawnAfter f top a b) : a ≠ b := by
  obtain ⟨i, j, hij, hji, rfl, rfl⟩ := h
  rw [counter_iterate htop hf, counter_iterate htop hf]
  intro heq
  have hmod : (j - i) % top = 0 := Nat.sub_mod_eq_zero_of_mod_eq (Nat.succ_injective heq).symm
  rw [Nat.mod_eq_of_lt (by omega)] at hmod
  omega

/-- Request `q` was put together before `p`, and since then there have been fewer requests than the
counter that they share has numbers. -/
def Precedes (q p : List Byte) : Prop :=
  if hdrType p = QMUX_TYPE_CTL then
    DrawnAfter GetQCTLTransactionId 0xFF (transactionId q) (transactionId p)
  else DrawnAfter GetQMUXTransactionId 0xFFFF (transactionId q) (transactionId p)

theorem Precedes.not_isResponse {q p m : List Byte} (h : Precedes q p)
    (hq : isResponse q m = true) : ¬ isResponse p m = true := by
  intro hp
  have heq : transactionId q = transactionId p :=
    (isResponse_iff.mp hq).2.2.trans (isResponse_iff.mp hp).2.2.symm
  unfold Precedes at h
  split at h
  · exact h.ne (by decide) (fun _ => rfl) heq
  · exact h.ne (by decide) (fun _ => rfl) heq

/-- A message that answers one of the requests. -/
def Turn.answers (qs : List (List Byte)) : Turn → Bool
  | .recv m _ => qs.any (isResponse · m)
  | _ => false

/-- Late answers to earlier requests settle nothing. -/
theorem settled_filter {qs : List (List Byte)} {p : List Byte} (hqs : ∀ q ∈ qs, Precedes q p)
    (es : List Turn) : settled p (es.filter (!Turn.answers qs ·)) = settled p es := by
  induction es with
  | nil => rfl
  | cons e es ih =>
    cases e with
    | recv m mem =>
      by_cases hlate : Turn.answers qs (.recv m mem) = true
      · obtain ⟨q, hq, hm⟩ := List.any_eq_true.mp hlate
        rw [List.filter_cons_of_neg (by simp [hlate]), ih, settled,
          if_neg ((hqs q hq).not_isResponse hm)]
      · rw [List.filter_cons_of_pos (by simpa using hlate), settled, settled, ih]
    | call => exact ih
    | wake => exact ih
    | quit => rfl

/-- What a call returns: the result of its wait and, when that is 0, a copy of the first message
that answered its own request while it waited, if there was one before the thread that reads came to
its end. Nothing that earlier calls have left behind has any part in it, and neither have late
answers to earlier requests, as long as the transaction numbers have not come round again. -/
theorem call_outcome (s : Exchange) (hidle : s.waiting = none) (p : Block) (dev : Device)
    (wants : Bool) (hsent : (qmidevSend dev p.qmi).1 = 0) (es : List Turn)
    (hes : ∀ e ∈ es, e.reads = true) (ret : Int) (qs : List (List Byte))
    (hqs : ∀ q ∈ qs, Precedes q (qmidevSend dev p.qmi).2) :
    (react Exchange.turn s (.call (some p) dev wants :: es ++ [.wake ret])).2.filterMap
        Effect.outcome =
      [(ret, if ret = 0 ∧ wants then
          (settled (qmidevSend dev p.qmi).2 (es.filter (!Turn.answers qs ·))).join
        else none)] := by
  obtain ⟨sent, hsent'⟩ : ∃ sent, sent = (qmidevSend dev p.qmi).2 := ⟨_, rfl⟩
  have hcall : s.turn (.call (some p) dev wants) =
      (⟨some ⟨p.addr, sent⟩, none, some wants⟩, [.use p.addr]) := by
    unfold Exchange.turn
    rw [hidle]
    dsimp only
    rw [sendQMI, hsent']
    exact if_pos hsent
  obtain ⟨hstate, hout⟩ := react_waiting (p := ⟨p.addr, sent⟩) (w := some wants) hes
  rw [← hsent'] at hqs ⊢
  rw [settled_filter hqs, List.cons_append, react_cons, hcall, react_append, List.filterMap_append,
    List.filterMap_append, hout, hstate]
  have hwake : ∀ b : Option Block, ∀ r : Option Block,
      ((⟨r, b, some wants⟩ : Exchange).turn (.wake ret)).2.filterMap Effect.outcome =
        [(ret, if ret = 0 ∧ wants then b else none)] := by
    intro b r
    show (wakeUp ⟨r, b, some wants⟩ wants ret).2.filterMap Effect.outcome = _
    rw [wakeUp]
    by_cases hret : ret = 0
    · rw [if_pos hret]
      cases b with
      | none => simp [Effect.outcome]
      | some b =>
        cases wants with
        | true => simp [Effect.outcome, hret]
        | false => simp [Effect.outcome, hret, List.filterMap_cons]
    · rw [if_neg hret, if_neg (by simp [hret])]
      rfl
  rw [react_cons, react_nil, List.append_nil]
  cases settled sent es with
  | none => exact hwake none _
  | some b => exact hwake b _

/-- The request for the serving system and an answer to it, with their transaction number. -/
def servingRequest (transaction : Byte) : List Byte :=
  [1, 12, 0, 0, 3, 5, 0, transaction, 0, 0x24, 0, 0, 0]

def servingAnswer (transaction : Byte) : List Byte :=
  [1, 12, 0, 0x80, 3, 5, 2, transaction, 0, 0x24, 0, 0, 0]

/-- A call has timed out; its answer comes in the middle of the next one. -/
theorem call_outcome_late :
    (react Exchange.turn
        (react Exchange.turn .start
          [.call (some ⟨1, servingRequest 1⟩) (.cdcWritten 13) true, .wake 110]).1
        [.call (some ⟨2, servingRequest 2⟩) (.cdcWritten 13) true, .recv (servingAnswer 1) (some 3),
          .recv (servingAnswer 2) (some 4), .wake 0]).2.filterMap Effect.outcome =
      [(0, some ⟨4, servingAnswer 2⟩)] := by
  have hsent : (qmidevSend (.cdcWritten 13) (servingRequest 2)).2 = servingRequest 2 := by decide
  have hearlier : ∀ q ∈ [servingRequest 1],
      Precedes q (qmidevSend (.cdcWritten 13) (servingRequest 2)).2 := by
    intro q hq
    rw [List.mem_singleton.mp hq, hsent, Precedes, if_neg (by decide)]
    exact ⟨0, 1, by decide, by decide, rfl, rfl⟩
  exact (call_outcome _ rfl ⟨2, servingRequest 2⟩ (.cdcWritten 13) true (by decide)
    [.recv (servingAnswer 1) (some 3), .recv (servingAnswer 2) (some 4)] (by decide) 0
    [servingRequest 1] hearlier).trans (by decide)

/-! ## Memory -/

/-- The blocks that an effect looks at. -/
def Effect.touched : Effect → List Nat
  | .use a => [a]
  | .free a => [a]
  | .returned _ (some b) => [b.addr]
  | _ => []

/-- The blocks that are not the threads' any more after an effect: one that is freed, and a response
that the caller has been given, who frees it. -/
def Effect.released : Effect → List Nat
  | .free a => [a]
  | .returned _ (some b) => [b.addr]
  | _ => []

/-- The blocks that a turn brings: the request of a call, and what `malloc` has returned. -/
def Turn.brings : Turn → List Nat
  | .call (some p) _ _ => [p.addr]
  | .recv _ (some a) => [a]
  | _ => []

/-- The blocks that a later turn may look at. A response that nobody waits for is forgotten. -/
def Exchange.held (s : Exchange) : List Nat :=
  (s.s_pRequest.map Block.addr).toList ++
    if s.waiting.isSome then (s.s_pResponse.map Block.addr).toList else []

theorem touched_indication {m : List Byte} : ∀ o ∈ indication m, o.touched = [] := by
  unfold indication
  repeat' split
  all_goals simp [Effect.touched]

theorem released_subset_touched (o : Effect) : o.released ⊆ o.touched := by
  unfold Effect.released Effect.touched
  split <;> simp

abbrev Ledger (before after : List Nat) (os : List Effect) : Prop :=
  KeepsLedger Effect.touched Effect.released before after os

/-- A step that holds what it held, and at most looks at that. -/
theorem ledger_same {held brought : List Nat} {os : List Effect} (h : held.Nodup)
    (hos : ∀ o ∈ os, o.touched ⊆ held ∧ o.released = []) : Ledger (held ++ brought) held os where
  nodup := h
  holds := List.subset_append_left held brought
  touched := fun o ho a ha => List.mem_append_left brought ((hos o ho).1 ha)
  released := fun o ho a ha => by simp [(hos o ho).2] at ha
  apart := List.pairwise_of_forall_mem_list fun o ho _ _ a ha => by simp [(hos o ho).2] at ha

theorem sendQMI_keepsLedger (p : Block) (dev : Device) (wants : Bool) (held : List Nat) :
    Ledger (held ++ [p.addr]) (sendQMI p dev wants).1.held (sendQMI p dev wants).2 := by
  rw [sendQMI]
  dsimp only
  split
  all_goals exact ⟨by simp [Exchange.held], by simp [Exchange.held], by simp [Effect.touched],
    by simp [Effect.released], by simp [Effect.released, Effect.touched]⟩

theorem wakeUp_keepsLedger {s : Exchange} {wants : Bool} (ret : Int) (hw : s.waiting = some wants)
    (h : s.held.Nodup) :
    Ledger s.held (wakeUp s wants ret).1.held (wakeUp s wants ret).2 := by
  obtain ⟨req, resp, _⟩ := s
  obtain rfl : _ = some wants := hw
  obtain ⟨hreq, -, hapart⟩ := List.nodup_append.mp h
  rw [wakeUp]
  dsimp only
  have hforget : Exchange.held ⟨req, resp, none⟩ ⊆ Exchange.held ⟨req, resp, some wants⟩ := by
    simp [Exchange.held]
  have hnodup : (Exchange.held ⟨req, resp, none⟩).Nodup := by simpa [Exchange.held] using hreq
  split
  · cases resp with
    | none =>
      exact ⟨hnodup, hforget, by simp [Effect.touched], by simp [Effect.released], by simp⟩
    | some b =>
      have hb : b.addr ∈ Exchange.held ⟨req, some b, some wants⟩ := by simp [Exchange.held]
      have hgone : b.addr ∉ (req.map Block.addr).toList := fun hin => hapart _ hin _ (by simp) rfl
      cases wants with
      | true =>
        exact ⟨hnodup, hforget, by simpa [Effect.touched] using hb,
          by simpa [Effect.released, Exchange.held] using hgone, by simp⟩
      | false =>
        exact ⟨by simpa [Exchange.held] using hreq, by simp [Exchange.held],
          by simpa [Effect.touched] using hb, by simpa [Effect.released, Exchange.held] using hgone,
          by simp [Effect.touched]⟩
  · exact ⟨hnodup, hforget, by simp [Effect.touched], by simp [Effect.released], by simp⟩

theorem recvQMI_keepsLedger {s : Exchange} (m : List Byte) (mem : Option Nat)
    (h : (s.held ++ mem.toList).Nodup) :
    Ledger (s.held ++ mem.toList) (recvQMI s m mem).1.held (recvQMI s m mem).2 := by
  obtain ⟨hheld, hmem, hapart⟩ := List.nodup_append.mp h
  have hind : ∀ o ∈ indication m, o.touched = [] ∧ o.released = [] := fun o ho =>
    ⟨touched_indication o ho,
      List.eq_nil_of_subset_nil (touched_indication o ho ▸ released_subset_touched o)⟩
  rw [recvQMI]
  split
  · refine ledger_same hheld fun o ho => ?_
    rw [(hind o ho).1, (hind o ho).2]
    exact ⟨List.nil_subset _, rfl⟩
  · rename_i p hp
    have hpheld : p.addr ∈ s.held := by simp [Exchange.held, hp]
    split
    · have hafter : ∀ a ∈ Exchange.held { s with
          s_pRequest := none, s_pResponse := mem.map fun a => ⟨a, frame m⟩ }, a ∈ mem.toList := by
        cases mem <;> simp [Exchange.held]
      refine ⟨?_, fun a ha => List.mem_append_right _ (hafter a ha), ?_, ?_,
        by simp [Effect.released]⟩
      · cases mem <;> simp [Exchange.held]
        split <;> simp
      · simpa [Effect.touched] using .inl hpheld
      · simp only [List.mem_cons, List.not_mem_nil, or_false, forall_eq_or_imp, forall_eq,
          Effect.released]
        exact ⟨fun a ha => by simp at ha, fun ha => hapart _ hpheld _ (hafter _ ha) rfl⟩
    · refine ledger_same hheld fun o ho => ?_
      rcases List.mem_cons.mp ho with rfl | ho
      · exact ⟨by simpa [Effect.touched] using hpheld, rfl⟩
      · rw [(hind o ho).1, (hind o ho).2]
        exact ⟨List.nil_subset _, rfl⟩

theorem recvNull_keepsLedger {s : Exchange} (h : s.held.Nodup) :
    Ledger s.held (recvNull s).1.held (recvNull s).2 := by
  rw [recvNull]
  split
  · simpa using @ledger_same _ [] [] h (by simp)
  · rename_i p hp
    exact ⟨by simp [Exchange.held], by simp [Exchange.held],
      by simp [Effect.touched, Exchange.held, hp], by simp [Exchange.held], by simp⟩

theorem turn_keepsLedger (s : Exchange) (e : Turn) (h : (s.held ++ e.brings).Nodup) :
    Ledger (s.held ++ e.brings) (s.turn e).1.held (s.turn e).2 := by
  have hnodup := (List.nodup_append.mp h).1
  have hsame : ∀ os, (∀ o ∈ os, Effect.touched o ⊆ s.held ∧ o.released = []) →
      Ledger (s.held ++ e.brings) s.held os := fun os => ledger_same hnodup
  cases e with
  | call pRequest dev wants =>
    unfold Exchange.turn
    dsimp only
    split
    · exact hsame [] (by simp)
    · exact hsame [.refused] (by simp [Effect.touched, Effect.released])
    · exact sendQMI_keepsLedger _ dev wants s.held
  | wake ret =>
    rw [show (Turn.wake ret).brings = [] from rfl, List.append_nil] at hsame ⊢
    unfold Exchange.turn
    dsimp only
    split
    · rename_i w hw
      exact wakeUp_keepsLedger ret hw hnodup
    · exact hsame [] (by simp)
  | recv m mem =>
    have hbrings : (Turn.recv m mem).brings = mem.toList := by cases mem <;> rfl
    rw [hbrings] at h ⊢
    exact recvQMI_keepsLedger m mem h
  | quit =>
    rw [show Turn.quit.brings = [] from rfl, List.append_nil]
    exact recvNull_keepsLedger hnodup

/-- No use after free, and nothing freed twice, in any run of the two threads whose blocks are
new ones: neither a block that has been freed nor a response that the caller has been given is
looked at, freed or handed out again. -/
theorem no_use_after_release (es : List Turn) (hes : (es.flatMap Turn.brings).Nodup) :
    (react Exchange.turn .start es).2.Pairwise fun x y => ∀ a ∈ x.released, a ∉ y.touched :=
  react_releases released_subset_touched turn_keepsLedger (by simpa [Exchange.held, Exchange.start])

theorem no_use_after_release_answered :
    (react Exchange.turn .start
        [.call (some ⟨1, servingRequest 1⟩) (.cdcWritten 13) true, .recv (servingAnswer 1) (some 2),
          .wake 0, .recv (servingAnswer 1) (some 3)]).2.Pairwise
      fun x y => ∀ a ∈ x.released, a ∉ y.touched :=
  no_use_after_release _ (by decide)

/-- A call that has a request. -/
def Turn.calls : Turn → Bool
  | .call (some _) _ _ => true
  | _ => false

theorem free_not_mem_indication (a : Nat) (m : List Byte) : .free a ∉ indication m := by
  intro h
  simpa [Effect.touched] using touched_indication _ h

/-- Up to the next call a request is freed when it is settled. -/
theorem react_request {p : Block} {w : Option Bool} {es : List Turn}
    (hes : ∀ e ∈ es, e.calls = false) :
    (.free p.addr ∈ (react Exchange.turn ⟨some p, none, w⟩ es).2 ↔
      (settled p.qmi es).isSome = true) := by
  induction es generalizing w with
  | nil => simp [settled]
  | cons e es ih =>
    have hrest := fun e he => hes e (List.mem_cons_of_mem _ he)
    have he := hes e List.mem_cons_self
    rw [react_cons, List.mem_append]
    cases e with
    | call q dev wants =>
      cases q with
      | some q => cases he
      | none =>
        have hstep : ((⟨some p, none, w⟩ : Exchange).turn (.call none dev wants)).1 =
            ⟨some p, none, w⟩ ∧
              .free p.addr ∉ ((⟨some p, none, w⟩ : Exchange).turn (.call none dev wants)).2 := by
          cases w <;> simp [Exchange.turn]
        rw [hstep.1, ih hrest,
          show settled p.qmi (.call none dev wants :: es) = settled p.qmi es from rfl]
        simp [hstep.2]
    | wake ret =>
      have hstep : ∃ w', ((⟨some p, none, w⟩ : Exchange).turn (.wake ret)).1 = ⟨some p, none, w'⟩ ∧
          .free p.addr ∉ ((⟨some p, none, w⟩ : Exchange).turn (.wake ret)).2 := by
        cases w with
        | none => exact ⟨none, rfl, by simp [Exchange.turn]⟩
        | some wants =>
          refine ⟨none, ?_, ?_⟩
          · simp only [Exchange.turn, wakeUp]
            split <;> rfl
          · simp only [Exchange.turn, wakeUp]
            split <;> simp
      obtain ⟨w', hstate, hout⟩ := hstep
      rw [hstate, ih hrest, show settled p.qmi (.wake ret :: es) = settled p.qmi es from rfl]
      simp [hout]
    | recv m mem =>
      rw [Exchange.turn, recvQMI, settled]
      dsimp only
      by_cases hm : isResponse p.qmi m = true
      · rw [if_pos hm, if_pos hm]
        simp
      · rw [if_neg hm, if_neg hm]
        dsimp only
        rw [ih hrest]
        simp [free_not_mem_indication]
    | quit =>
      rw [Exchange.turn, recvNull, settled]
      simp

/-- The next call puts its own request in the place of what was there. -/
theorem held_sendQMI (p : Block) (dev : Device) (wants : Bool) :
    (sendQMI p dev wants).1.held = [p.addr] := by
  rw [sendQMI]
  dsimp only
  split <;> simp [Exchange.held]

theorem turn_call {s : Exchange} (hidle : s.waiting = none) (p : Block) (dev : Device)
    (wants : Bool) : s.turn (.call (some p) dev wants) = sendQMI p dev wants := by
  unfold Exchange.turn
  rw [hidle]

theorem free_not_mem_sendQMI (a : Nat) (p : Block) (dev : Device) (wants : Bool) :
    .free a ∉ (sendQMI p dev wants).2 := by
  rw [sendQMI]
  dsimp only
  split <;> simp

theorem sendQMI_state (p : Block) (dev : Device) (wants : Bool) :
    ∃ w, (sendQMI p dev wants).1 = ⟨some ⟨p.addr, (qmidevSend dev p.qmi).2⟩, none, w⟩ := by
  rw [sendQMI]
  dsimp only
  split
  · exact ⟨_, rfl⟩
  · exact ⟨_, rfl⟩

/-- A block that a run neither holds nor is brought is not freed by it. -/
theorem free_not_mem_run {s : Exchange} {es : List Turn} {a : Nat}
    (hs : (s.held ++ es.flatMap Turn.brings).Nodup) (ha : a ∉ s.held ++ es.flatMap Turn.brings) :
    .free a ∉ (react Exchange.turn s es).2 := by
  intro hmem
  have htouched : a ∈ Effect.touched (.free a) := List.mem_singleton.mpr rfl
  exact ha (react_touches turn_keepsLedger hs _ hmem htouched)

/-- Which requests are freed: in a run whose blocks are new ones, that of a call is freed
exactly when a message that answers it is read, or the thread that reads comes to its end, before
the next call. Any other one is lost. -/
theorem request_freed_iff (before es rest : List Turn) (p : Block) (dev : Device) (wants : Bool)
    (hfresh : ((before ++ .call (some p) dev wants :: (es ++ rest)).flatMap Turn.brings).Nodup)
    (hidle : (react Exchange.turn .start before).1.waiting = none)
    (hes : ∀ e ∈ es, e.calls = false)
    (hrest : rest = [] ∨ ∃ q dev' wants' more, rest = .call (some q) dev' wants' :: more ∧
      (react Exchange.turn (sendQMI p dev wants).1 es).1.waiting = none) :
    .free p.addr ∈
        (react Exchange.turn .start (before ++ .call (some p) dev wants :: (es ++ rest))).2 ↔
      (settled (qmidevSend dev p.qmi).2 es).isSome = true := by
  rw [List.flatMap_append, List.flatMap_cons, List.flatMap_append] at hfresh
  obtain ⟨hpre, hpost, hapart⟩ := List.nodup_append.mp hfresh
  have hbefore : .free p.addr ∉ (react Exchange.turn .start before).2 :=
    free_not_mem_run (s := .start) hpre fun h => hapart _ h p.addr (by simp [Turn.brings]) rfl
  have hlater : .free p.addr ∉ (react Exchange.turn
      (react Exchange.turn (sendQMI p dev wants).1 es).1 rest).2 := by
    rcases hrest with rfl | ⟨q, dev', wants', more, rfl, hnext⟩
    · simp
    · have hpost' : (p.addr :: (es.flatMap Turn.brings ++
          (q.addr :: more.flatMap Turn.brings))).Nodup := hpost
      obtain ⟨hnew, htail⟩ := List.nodup_cons.mp hpost'
      have hmore := (List.nodup_append.mp htail).2.1
      have hrun := @free_not_mem_run (sendQMI q dev' wants').1 more p.addr
        (by rw [held_sendQMI]; exact hmore)
        (by rw [held_sendQMI]; exact fun h => hnew (List.mem_append_right _ h))
      rw [react_cons, turn_call hnext]
      exact fun h => (List.mem_append.mp h).elim (free_not_mem_sendQMI _ q dev' wants') hrun
  obtain ⟨w, hw⟩ := sendQMI_state p dev wants
  have hmid := react_request (p := ⟨p.addr, (qmidevSend dev p.qmi).2⟩) (w := w) hes
  rw [← hw] at hmid
  rw [react_append, react_cons, turn_call hidle, react_append, List.mem_append, List.mem_append,
    List.mem_append, hmid]
  simp only [hbefore, free_not_mem_sendQMI, hlater, false_or, or_false]

/-- The answer that comes after the time-out, and after a call that is refused, still frees the
request. -/
theorem request_freed_iff_late :
    .free 1 ∈ (react Exchange.turn .start
      [.call (some ⟨1, servingRequest 1⟩) (.cdcWritten 13) true, .wake 110,
        .call none .cdcClosed true, .recv (servingAnswer 1) (some 2),
        .call (some ⟨3, servingRequest 2⟩) .cdcClosed true]).2 ↔
      (settled (servingRequest 1) [.wake 110, .call none .cdcClosed true,
        .recv (servingAnswer 1) (some 2)]).isSome = true :=
  request_freed_iff [] [.wake 110, .call none .cdcClosed true, .recv (servingAnswer 1) (some 2)]
    [.call (some ⟨3, servingRequest 2⟩) .cdcClosed true] ⟨1, servingRequest 1⟩ (.cdcWritten 13) true
    (by decide) rfl (by decide) (.inr ⟨⟨3, servingRequest 2⟩, .cdcClosed, true, [], rfl, rfl⟩)

end BoardTest.Qmi
