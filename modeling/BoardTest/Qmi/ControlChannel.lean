import BoardTest.Lib.OneAtATime
import BoardTest.Qmi.Proxy
import Mathlib.Data.List.GetD

/-!
# The control channel of the proxy

The modem answers control requests without saying whose they are, so the proxy lets one of them out
at a time and takes each response for the answer to the one at the head of its queue. As long as no
client goes away with a request in the queue, and the modem sends no control message of another kind
while one is in work, the proxy is the machine of `Lib/OneAtATime.lean` on its control messages
(`handle_inStep`).
-/

namespace BoardTest.Qmi

open Proxy

/-- A read returns nothing, or the two headers of a control message at least. -/
def Headed (bs : List Byte) : Prop := bs ≠ [] → 12 ≤ bs.length

/-- What is read is one message. -/
def Complete (bs : List Byte) : Prop := bs.length = hdrLength bs + 1

instance (bs : List Byte) : Decidable (Complete bs) := by unfold Complete; infer_instance

section
variable {buf bs : List Byte} {i : Nat}

theorem getD_load (h : i < bs.length) : (load buf bs).getD i 0 = bs.getD i 0 := by
  rw [load, List.getD_append _ _ _ _ h]

theorem le16_load (h : i + 1 < bs.length) : le16 (load buf bs) i = le16 bs i := by
  rw [le16, getD_load (by omega), getD_load h, le16]

theorem complete_load (h : 12 ≤ bs.length) :
    bs.length = hdrLength (load buf bs) + 1 ↔ Complete bs := by
  rw [hdrLength, le16_load (by omega), Complete, hdrLength]

/-- The message that is passed on is the one that was read. -/
theorem frame_load (buf : List Byte) (h : 12 ≤ bs.length) (hbs : Complete bs) :
    frame (load buf bs) = bs := by
  rw [frame, ← (complete_load h).mpr hbs, load, List.take_left]

theorem take_load : (load buf bs).take bs.length = bs := by rw [load, List.take_left]

theorem Complete.frame_eq (hbs : Complete bs) : frame bs = bs := by
  rw [frame, ← hbs, List.take_length]

end

/-- What an event says on the control channel. -/
def controlAsks : Event → List (Ask Byte (List Byte) (List Byte))
  | .client fd bs => if Complete bs ∧ hdrType bs = QMUX_TYPE_CTL then [.submit fd bs] else []
  | .modem bs =>
    if Complete bs ∧ hdrType bs = QMUX_TYPE_CTL ∧ ctlFlags bs = QMICTL_CTL_FLAG_RSP then
      [.answer bs]
    else []
  | _ => []

/-- What an action does on the control channel. -/
def controlView : Action → Option (Served Byte (List Byte) (List Byte))
  | .toCdcWdm bs => if hdrType bs = QMUX_TYPE_CTL then some (.pass bs) else none
  | .toClient fd bs => if hdrType bs = QMUX_TYPE_CTL then some (.hand fd bs) else none
  | .close _ => none

/-- No connection is closed while it waits for an answer. -/
def Idle (s : Proxy) (fd : Byte) : Prop := ∀ m ∈ s.ctlMsg, m.clientFd ≠ fd

/-- A step that keeps the channel in order: a new descriptor is one that is not in use, what is read
is headed and comes from a connection, a client that goes has no request in the queue, and a control
message that is no response comes when no request is in work. -/
def Orderly (s : Proxy) (e : Event) : Prop :=
  s.looping = true ∧
    match e with
    | .accept fd => 0 ≤ fd ∧ fd < 256 ∧ ∀ con ∈ s.connections, (con.clientFd.toNat : Int) ≠ fd
    | .modem bs => Headed bs ∧ (Complete bs → hdrType bs = QMUX_TYPE_CTL →
        ctlFlags bs ≠ QMICTL_CTL_FLAG_RSP → s.ctlMsg = [])
    | .modemFailed => True
    | .client fd bs => Headed bs ∧ fd ∈ s.connections.map (·.clientFd) ∧ (bs = [] → Idle s fd)
    | .clientFailed fd => Idle s fd

instance (s : Proxy) (fd : Byte) : Decidable (Idle s fd) :=
  inferInstanceAs (Decidable (∀ m ∈ s.ctlMsg, m.clientFd ≠ fd))

instance (s : Proxy) : (e : Event) → Decidable (Orderly s e)
  | .accept fd => inferInstanceAs (Decidable (s.looping = true ∧ 0 ≤ fd ∧ fd < 256 ∧
      ∀ con ∈ s.connections, (con.clientFd.toNat : Int) ≠ fd))
  | .modem bs => inferInstanceAs (Decidable (s.looping = true ∧ (bs ≠ [] → 12 ≤ bs.length) ∧
      (Complete bs → hdrType bs = QMUX_TYPE_CTL → ctlFlags bs ≠ QMICTL_CTL_FLAG_RSP →
        s.ctlMsg = [])))
  | .modemFailed => inferInstanceAs (Decidable (s.looping = true ∧ True))
  | .client fd bs => inferInstanceAs (Decidable (s.looping = true ∧ (bs ≠ [] → 12 ≤ bs.length) ∧
      fd ∈ s.connections.map (·.clientFd) ∧ (bs = [] → Idle s fd)))
  | .clientFailed fd => inferInstanceAs (Decidable (s.looping = true ∧ Idle s fd))

/-- The queue of the proxy is `q`, each of its requests is a control message of an open connection,
and no two connections have one descriptor. -/
structure InStep (s : Proxy) (q : List (Byte × List Byte)) : Prop where
  queue : q = s.ctlMsg.map fun m => (m.clientFd, m.qmi)
  nodup : (s.connections.map (·.clientFd)).Nodup
  opened : ∀ m ∈ s.ctlMsg, m.clientFd ∈ s.connections.map (·.clientFd)
  control : ∀ m ∈ s.ctlMsg, Complete m.qmi ∧ hdrType m.qmi = QMUX_TYPE_CTL

/-- Of connections without a descriptor in common, one is picked by its own. -/
theorem filter_clientFd {cons : List Connection} (hnodup : (cons.map (·.clientFd)).Nodup)
    {fd : Byte} (h : fd ∈ cons.map (·.clientFd)) :
    ∃ con, con.clientFd = fd ∧ cons.filter (·.clientFd = fd) = [con] := by
  induction cons with
  | nil => simp at h
  | cons con cons ih =>
    rw [List.map_cons, List.nodup_cons] at hnodup
    by_cases hfd : con.clientFd = fd
    · refine ⟨con, hfd, ?_⟩
      rw [List.filter_cons_of_pos (by simpa using hfd), List.filter_eq_nil_iff.mpr]
      intro other hother heq
      refine hnodup.1 (List.mem_map.mpr ⟨other, hother, ?_⟩)
      rw [hfd]
      simpa using heq
    · obtain ⟨c, hc, hfilter⟩ := ih hnodup.2 (by
        rw [List.map_cons, List.mem_cons] at h
        exact h.resolve_left (Ne.symm hfd))
      exact ⟨c, hc, by rw [List.filter_cons_of_neg (by simpa using hfd), hfilter]⟩

@[simp] theorem noteResponse_clientFd (con : Connection) (qmi : List Byte) :
    (noteResponse con qmi).clientFd = con.clientFd := by
  unfold noteResponse getClientId releaseClientId
  repeat' split <;> try rfl

/-- A response leaves the descriptors of the connections as they are. -/
theorem map_clientFd_noteResponse (cons : List Connection) (fd : Byte) (qmi : List Byte) :
    (cons.map fun con => if con.clientFd = fd then noteResponse con qmi else con).map
      (·.clientFd) = cons.map (·.clientFd) := by
  rw [List.map_map]
  refine List.map_congr_left fun con _ => ?_
  simp only [Function.comp_apply]
  split
  · rw [noteResponse_clientFd]
  · rfl

theorem handle_modem {s : Proxy} (h : s.looping = true) (bs : List Byte) :
    s.handle (.modem bs) = readModem s bs := by
  unfold Proxy.handle
  rw [if_pos h]

theorem handle_clientFailed {s : Proxy} (h : s.looping = true) (fd : Byte) :
    s.handle (.clientFailed fd) = cleanupQmiConnection s fd := by
  unfold Proxy.handle
  rw [if_pos h]

/-- The actions that close connections are not seen on the control channel. -/
theorem controlView_close {as : List Action} (h : ∀ a ∈ as, ∃ fd, a = .close fd) :
    as.filterMap controlView = [] := by
  rw [List.filterMap_eq_nil_iff]
  intro a ha
  obtain ⟨fd, rfl⟩ := h a ha
  rfl

theorem cleanup_actions (s : Proxy) (fd : Byte) :
    ∀ a ∈ (cleanupQmiConnection s fd).2, ∃ fd, a = .close fd := by
  intro a ha
  unfold cleanupQmiConnection at ha
  split at ha
  · exact ⟨fd, List.mem_singleton.mp ha⟩
  · cases ha

theorem closeAll_actions (cons : List Connection) (s : Proxy) :
    ∀ a ∈ (closeAll cons s).2, ∃ fd, a = .close fd := by
  induction cons generalizing s with
  | nil => simp [closeAll]
  | cons con cons ih =>
    intro a ha
    rcases List.mem_append.mp ha with ha | ha
    · exact cleanup_actions s con.clientFd a ha
    · exact ih _ a ha

/-- The descriptors that are left when the first connection with one of them is closed. -/
theorem map_clientFd_eraseP (cons : List Connection) (fd : Byte) :
    (cons.eraseP (·.clientFd = fd)).map (·.clientFd) = (cons.map (·.clientFd)).erase fd := by
  induction cons with
  | nil => rfl
  | cons con cons ih =>
    by_cases h : con.clientFd = fd
    · rw [List.eraseP_cons_of_pos (by simpa using h), List.map_cons, h, List.erase_cons_head]
    · rw [List.eraseP_cons_of_neg (by simpa using h), List.map_cons, List.map_cons,
        List.erase_cons_tail (by simpa using h), ih]

/-- A client that waits for nothing leaves the queue as it is. -/
theorem InStep.cleanup {s : Proxy} {q : List (Byte × List Byte)} (h : InStep s q) {fd : Byte}
    (hidle : Idle s fd) : InStep (cleanupQmiConnection s fd).1 q := by
  unfold cleanupQmiConnection
  split
  case isFalse => exact h
  have hqueue : s.ctlMsg.eraseP (·.clientFd = fd) = s.ctlMsg :=
    List.eraseP_of_forall_not fun m hm => by simpa using hidle m hm
  constructor
  · show q = (s.ctlMsg.eraseP (·.clientFd = fd)).map _
    rw [hqueue, h.queue]
  · rw [map_clientFd_eraseP]
    exact h.nodup.erase fd
  · intro m hm
    rw [hqueue] at hm
    rw [map_clientFd_eraseP, h.nodup.mem_erase_iff]
    exact ⟨hidle m hm, h.opened m hm⟩
  · intro m hm
    rw [hqueue] at hm
    exact h.control m hm

/-- A loop that has been left stands to every queue as it should. -/
def Simulates (s : Proxy) (q : List (Byte × List Byte)) : Prop := s.looping = true → InStep s q

/-- A part of the simulation: the actions seen are those of the machine, and so is the queue. -/
def Matches (r : Proxy × List Action) (q : List (Byte × List Byte))
    (asks : List (Ask Byte (List Byte) (List Byte))) : Prop :=
  Simulates r.1 (react serve q asks).1 ∧ r.2.filterMap controlView = (react serve q asks).2

theorem matches_loopExit (s : Proxy) (q : List (Byte × List Byte)) :
    Matches (loopExit s) q [] := by
  refine ⟨fun h => ?_, controlView_close (closeAll_actions s.connections s)⟩
  exact absurd h Bool.false_ne_true

theorem InStep.buf {s : Proxy} {q : List (Byte × List Byte)} (h : InStep s q) (buf : List Byte) :
    InStep { s with qmiBuf := buf } q :=
  ⟨h.queue, h.nodup, h.opened, h.control⟩

/-- The head of the queue, sent to the modem. -/
theorem InStep.sendHead {s : Proxy} {q : List (Byte × List Byte)} (h : InStep s q) :
    (sendHead s).filterMap controlView = (q.head?.map fun r => .pass r.2).toList := by
  obtain ⟨hqueue, hnodup, hopened, hcontrol⟩ := h
  cases hctl : s.ctlMsg with
  | nil => simp [Qmi.sendHead, hctl, hqueue]
  | cons msg rest =>
    obtain ⟨hcomplete, htype⟩ := hcontrol msg (by simp [hctl])
    obtain ⟨con, -, hfilter⟩ := filter_clientFd hnodup (hopened msg (by simp [hctl]))
    simp [Qmi.sendHead, hctl, hfilter, hqueue, controlView, hcomplete.frame_eq, htype]

/-- A response, when a request is in work. -/
theorem InStep.recvResponse {s : Proxy} {q : List (Byte × List Byte)} (h : InStep s q)
    {bs qmi : List Byte} (hframe : frame qmi = bs) (htype : hdrType bs = QMUX_TYPE_CTL) :
    InStep (recvResponse s qmi).1 (serve q (.answer bs)).1 ∧
      ((recvResponse s qmi).2 ++ Qmi.sendHead (Qmi.recvResponse s qmi).1).filterMap controlView =
        (serve q (.answer bs)).2 := by
  cases hctl : s.ctlMsg with
  | nil =>
    have hq : q = [] := by rw [h.queue, hctl]; rfl
    subst hq
    refine ⟨by simpa [Qmi.recvResponse, hctl, serve] using h, ?_⟩
    simp [Qmi.recvResponse, hctl, Qmi.sendHead, serve]
  | cons msg rest =>
    have hq : q = (msg.clientFd, msg.qmi) :: rest.map fun m => (m.clientFd, m.qmi) := by
      rw [h.queue, hctl]
      rfl
    have hnext : InStep (Qmi.recvResponse s qmi).1 (rest.map fun m => (m.clientFd, m.qmi)) := by
      simp only [Qmi.recvResponse, hctl]
      constructor
      · rfl
      · simpa only [map_clientFd_noteResponse] using h.nodup
      · intro m hm
        simpa only [map_clientFd_noteResponse] using h.opened m (by simp [hctl, hm])
      · exact fun m hm => h.control m (by simp [hctl, hm])
    obtain ⟨con, -, hfilter⟩ := filter_clientFd h.nodup (h.opened msg (by simp [hctl]))
    have hhand : (Qmi.recvResponse s qmi).2 = [.toClient msg.clientFd bs] := by
      simp [Qmi.recvResponse, hctl, hfilter, hframe]
    rw [List.filterMap_append, hnext.sendHead, hhand, hq]
    exact ⟨hnext, by simp [serve, controlView, htype]⟩

/-- What the services send is not seen on the control channel. -/
theorem recvService_view (s : Proxy) {qmi bs : List Byte} (hframe : frame qmi = bs)
    (htype : hdrType bs ≠ QMUX_TYPE_CTL) : (recvService s qmi).filterMap controlView = [] := by
  rw [List.filterMap_eq_nil_iff]
  intro a ha
  obtain ⟨con, -, ha⟩ := List.mem_flatMap.mp ha
  obtain ⟨client, -, rfl⟩ := List.mem_map.mp ha
  rw [hframe, controlView, if_neg htype]

/-- A message of the modem. -/
theorem InStep.recvQmi {s : Proxy} {q : List (Byte × List Byte)} (h : InStep s q)
    {bs : List Byte} (buf : List Byte) (hlen : 12 ≤ bs.length) (hbs : Complete bs)
    (hother : hdrType bs = QMUX_TYPE_CTL → ctlFlags bs ≠ QMICTL_CTL_FLAG_RSP → s.ctlMsg = []) :
    Matches (recvQmi s (load buf bs)) q (controlAsks (.modem bs)) := by
  have hframe := frame_load buf hlen hbs
  have htype : hdrType (load buf bs) = hdrType bs := getD_load (by omega)
  have hflags : ctlFlags (load buf bs) = ctlFlags bs := getD_load (by omega)
  by_cases hctl : hdrType bs = QMUX_TYPE_CTL
  · by_cases hrsp : ctlFlags bs = QMICTL_CTL_FLAG_RSP
    · have hasks : controlAsks (.modem bs) = [.answer bs] := if_pos ⟨hbs, hctl, hrsp⟩
      obtain ⟨hnext, hview⟩ := h.recvResponse hframe hctl
      rw [hasks, Qmi.recvQmi, if_pos (htype.trans hctl), if_pos (hflags.trans hrsp)]
      exact ⟨fun _ => hnext, hview.trans (List.append_nil _).symm⟩
    · have hasks : controlAsks (.modem bs) = [] := if_neg fun h => hrsp h.2.2
      have hempty := hother hctl hrsp
      rw [hasks, Qmi.recvQmi, if_pos (htype.trans hctl), if_neg (hflags ▸ hrsp)]
      exact ⟨fun _ => h, by simp [Qmi.sendHead, hempty]⟩
  · have hasks : controlAsks (.modem bs) = [] := if_neg fun h => hctl h.2.1
    rw [hasks, Qmi.recvQmi, if_neg (htype ▸ hctl)]
    exact ⟨fun _ => h, recvService_view s hframe hctl⟩

theorem readModem_matches {s : Proxy} {q : List (Byte × List Byte)} (h : InStep s q)
    {bs : List Byte} (hhead : Headed bs) (hother : Complete bs → hdrType bs = QMUX_TYPE_CTL →
      ctlFlags bs ≠ QMICTL_CTL_FLAG_RSP → s.ctlMsg = []) :
    Matches (readModem s bs) q (controlAsks (.modem bs)) := by
  by_cases hnil : bs = []
  · subst hnil
    exact matches_loopExit s q
  · have hlen := hhead hnil
    rw [readModem, if_neg hnil]
    by_cases hbs : Complete bs
    · rw [if_pos ((complete_load hlen).mpr hbs)]
      have hrecv := (h.buf (load s.qmiBuf bs)).recvQmi s.qmiBuf hlen hbs (hother hbs)
      dsimp only
      split
      · refine ⟨fun hloop => absurd hloop Bool.false_ne_true, ?_⟩
        rw [List.filterMap_append, hrecv.2, loopExit, controlView_close (closeAll_actions _ _),
          List.append_nil]
      · exact hrecv
    · have hasks : controlAsks (.modem bs) = [] := if_neg fun h => hbs h.1
      rw [if_neg ((complete_load hlen).not.mpr hbs), hasks]
      exact ⟨fun _ => h.buf _, rfl⟩

/-- A message of a client. -/
theorem InStep.sendQmi {s : Proxy} {q : List (Byte × List Byte)} (h : InStep s q)
    {fd : Byte} {bs buf : List Byte} (hlen : 12 ≤ bs.length) (hbs : Complete bs)
    (hfd : fd ∈ s.connections.map (·.clientFd)) :
    Matches (sendQmi s (load buf bs) bs.length fd) q (controlAsks (.client fd bs)) := by
  have hframe := frame_load buf hlen hbs
  have htype : hdrType (load buf bs) = hdrType bs := getD_load (by omega)
  by_cases hctl : hdrType bs = QMUX_TYPE_CTL
  · have hasks : controlAsks (.client fd bs) = [.submit fd bs] := if_pos ⟨hbs, hctl⟩
    rw [hasks, Qmi.sendQmi, if_pos (htype.trans hctl), take_load, hframe]
    refine ⟨fun _ => ?_, ?_⟩
    · constructor
      · rw [h.queue, List.map_append]
        rfl
      · exact h.nodup
      · intro m hm
        rcases List.mem_append.mp hm with hm | hm
        · exact h.opened m hm
        · rwa [List.mem_singleton.mp hm]
      · intro m hm
        rcases List.mem_append.mp hm with hm | hm
        · exact h.control m hm
        · rw [List.mem_singleton.mp hm]
          exact ⟨hbs, hctl⟩
    · rw [react_cons, react_nil, List.append_nil, h.queue]
      cases s.ctlMsg <;> simp [serve, controlView, hctl]
  · have hasks : controlAsks (.client fd bs) = [] := if_neg fun h => hctl h.2
    rw [hasks, Qmi.sendQmi, if_neg (htype ▸ hctl), hframe]
    exact ⟨fun _ => h, by simp [controlView, hctl]⟩

theorem readClient_matches {s : Proxy} {q : List (Byte × List Byte)} (h : InStep s q)
    {fd : Byte} {bs : List Byte} (hhead : Headed bs) (hfd : fd ∈ s.connections.map (·.clientFd))
    (hidle : bs = [] → Idle s fd) :
    Matches (readClient s fd bs) q (controlAsks (.client fd bs)) := by
  by_cases hnil : bs = []
  · subst hnil
    exact ⟨fun _ => h.cleanup (hidle rfl), controlView_close (cleanup_actions s fd)⟩
  · have hlen := hhead hnil
    rw [readClient, if_neg hnil]
    by_cases hbs : Complete bs
    · rw [if_pos ((complete_load hlen).mpr hbs)]
      exact (h.buf (load s.qmiBuf bs)).sendQmi hlen hbs hfd
    · have hasks : controlAsks (.client fd bs) = [] := if_neg fun h => hbs h.1
      rw [if_neg ((complete_load hlen).not.mpr hbs), hasks]
      exact ⟨fun _ => h.buf _, rfl⟩

/-- A descriptor that is not in use is new as a `uint8_t` as well. -/
theorem not_mem_of_fresh {cons : List Connection} {fd : Int} (hfd : 0 ≤ fd) (hlt : fd < 256)
    (hfresh : ∀ con ∈ cons, (con.clientFd.toNat : Int) ≠ fd) :
    UInt8.ofNat (fd % 256).toNat ∉ cons.map (·.clientFd) := by
  intro hmem
  obtain ⟨con, hcon, heq⟩ := List.mem_map.mp hmem
  apply hfresh con hcon
  rw [heq, UInt8.toNat_ofNat']
  omega

theorem nodup_accept {s : Proxy} {fd : Int} (h : (s.connections.map (·.clientFd)).Nodup)
    (hnew : UInt8.ofNat (fd % 256).toNat ∉ s.connections.map (·.clientFd)) :
    ((acceptQmiConnection s fd).connections.map (·.clientFd)).Nodup := by
  simp only [acceptQmiConnection, List.map_append, List.map_cons, List.map_nil]
  rw [List.nodup_append]
  refine ⟨h, List.nodup_cons.mpr ⟨List.not_mem_nil, List.nodup_nil⟩, ?_⟩
  intro a ha b hb
  rw [List.mem_singleton.mp hb]
  exact ne_of_mem_of_not_mem ha hnew

theorem InStep.accept {s : Proxy} {q : List (Byte × List Byte)} (h : InStep s q) {fd : Int}
    (hfd : 0 ≤ fd) (hlt : fd < 256)
    (hfresh : ∀ con ∈ s.connections, (con.clientFd.toNat : Int) ≠ fd) :
    InStep (acceptQmiConnection s fd) q := by
  constructor
  · exact h.queue
  · exact nodup_accept h.nodup (not_mem_of_fresh hfd hlt hfresh)
  · intro m hm
    simp only [acceptQmiConnection, List.map_append, List.mem_append]
    exact .inl (h.opened m hm)
  · exact h.control

/-- One event: the proxy does on the control channel what the machine does. -/
theorem handle_matches {s : Proxy} {q : List (Byte × List Byte)} {e : Event}
    (h : Simulates s q) (he : Orderly s e) : Matches (s.handle e) q (controlAsks e) := by
  obtain ⟨hloop, he⟩ := he
  have hs := h hloop
  unfold Proxy.handle
  rw [if_pos hloop]
  cases e with
  | accept fd => exact ⟨fun _ => hs.accept he.1 he.2.1 he.2.2, rfl⟩
  | modem bs => exact readModem_matches hs he.1 he.2
  | modemFailed => exact matches_loopExit s q
  | client fd bs => exact readClient_matches hs he.1 he.2.1 he.2.2
  | clientFailed fd => exact ⟨fun _ => hs.cleanup he, controlView_close (cleanup_actions s fd)⟩

/-! ## Runs -/

/-- An orderly run from a queue in step. -/
theorem run_matches {s : Proxy} {q : List (Byte × List Byte)} {es : List Event} (hs : InStep s q)
    (h : Throughout Proxy.handle Orderly s es) :
    Matches (react Proxy.handle s es) q (es.flatMap controlAsks) :=
  react_simulates (fun _ _ _ hs he => handle_matches hs he) (fun _ => hs) h

theorem inStep_start (buf : List Byte) : InStep (.start buf) [] :=
  ⟨rfl, List.nodup_nil, by simp [Proxy.start], by simp [Proxy.start]⟩

/-- Requests and answers on the control channel: in an orderly run the modem is given the
control requests in the order in which they came, at most one of them unanswered, and the `k`-th
response goes to the client of the `k`-th request. -/
theorem requests_served_in_turn (buf : List Byte) (es : List Event)
    (h : Throughout Proxy.handle Orderly (.start buf) es) :
    let seen := (react Proxy.handle (.start buf) es).2.filterMap controlView
    let asked := submitted (es.flatMap controlAsks)
    let answers := taken 0 (es.flatMap controlAsks)
    passed seen = (asked.map Prod.snd).take (answers.length + 1) ∧
      handed seen = (asked.map Prod.fst).zip answers := by
  intro seen asked answers
  have hview : seen = (react serve [] (es.flatMap controlAsks)).2 :=
    (run_matches (inStep_start buf) h).2
  rw [hview]
  exact (serve_run _).2

/-- Two clients ask for the versions before the modem has answered either of them. -/
def askVersion (transaction : Byte) : List Byte :=
  [1, 15, 0, 0, 0, 0, 0, transaction, 0x21, 0, 4, 0, 1, 1, 0, 0xFF]

def versionReply (transaction : Byte) : List Byte :=
  [1, 18, 0, 0x80, 0, 0, 1, transaction, 0x21, 0, 7, 0, 2, 4, 0, 0, 0, 0, 0]

theorem requests_served_in_turn_two :
    let es : List Event := [.accept 5, .accept 6, .client 6 (askVersion 9),
      .client 5 (askVersion 9), .modem (versionReply 9), .modem (versionReply 9), .clientFailed 6]
    let seen := (react Proxy.handle (.start []) es).2.filterMap controlView
    passed seen = [askVersion 9, askVersion 9] ∧
      handed seen = [(6, versionReply 9), (5, versionReply 9)] := by
  intro es seen
  exact requests_served_in_turn [] es (by decide)

end BoardTest.Qmi
