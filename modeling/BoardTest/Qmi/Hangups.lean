import BoardTest.Qmi.ControlChannel

/-!
# Clients that go away with requests in the queue

`cleanup_qmi_connection` takes the first request of the client out of the queue, whether or not the
modem has it already, and nothing else is done about it. When the modem had it, its answer goes to
whoever is at the head of the queue by then (`hangup_shifts_answers`). When the client had a second
request in the queue, that one comes to the head without a connection, is never sent, and holds up
the channel (`second_request_blocks`).
-/

namespace BoardTest.Qmi

open Proxy

/-- The client of the first request goes away, with no other request in the queue. -/
theorem InStep.hangup {s : Proxy} {fd : Byte} {r : List Byte} {q : List (Byte × List Byte)}
    (h : InStep s ((fd, r) :: q)) (hq : ∀ p ∈ q, p.1 ≠ fd) :
    InStep (cleanupQmiConnection s fd).1 q := by
  obtain ⟨hqueue, hnodup, hopened, hcontrol⟩ := h
  cases hctl : s.ctlMsg with
  | nil => simp [hctl] at hqueue
  | cons msg rest =>
    rw [hctl, List.map_cons] at hqueue
    obtain ⟨hhead, rfl⟩ := List.cons.inj hqueue
    obtain ⟨rfl, rfl⟩ := Prod.mk.inj hhead
    have hany : s.connections.any (·.clientFd = msg.clientFd) = true := by
      obtain ⟨con, hcon, hfd⟩ := List.mem_map.mp (hopened msg (by simp [hctl]))
      exact List.any_eq_true.mpr ⟨con, hcon, by simpa using hfd⟩
    have hne : ∀ m ∈ rest, m.clientFd ≠ msg.clientFd := fun m hm =>
      hq (m.clientFd, m.qmi) (List.mem_map.mpr ⟨m, hm, rfl⟩)
    have herase : s.ctlMsg.eraseP (·.clientFd = msg.clientFd) = rest := by
      rw [hctl, List.eraseP_cons_of_pos (by simp)]
    rw [cleanupQmiConnection, if_pos hany]
    constructor
    · rw [herase]
    · rw [map_clientFd_eraseP]
      exact hnodup.erase _
    · intro m hm
      rw [herase] at hm
      rw [map_clientFd_eraseP, hnodup.mem_erase_iff]
      exact ⟨hne m hm, hopened m (by simp [hctl, hm])⟩
    · intro m hm
      rw [herase] at hm
      exact hcontrol m (by simp [hctl, hm])

/-- What is handed out and passed on after the client of the request in work has gone. -/
theorem hangup_run {s : Proxy} {fd : Byte} {r : List Byte} {q : List (Byte × List Byte)}
    (h : InStep s ((fd, r) :: q)) (hloop : s.looping = true) (hq : ∀ p ∈ q, p.1 ≠ fd)
    {es : List Event} (hes : Throughout Proxy.handle Orderly (s.handle (.clientFailed fd)).1 es) :
    let seen := (react Proxy.handle s (.clientFailed fd :: es)).2.filterMap controlView
    let asked := q ++ submitted (es.flatMap controlAsks)
    let answers := taken q.length (es.flatMap controlAsks)
    q.head?.toList.map Prod.snd ++ passed seen = (asked.map Prod.snd).take (answers.length + 1) ∧
      handed seen = (asked.map Prod.fst).zip answers := by
  intro seen asked answers
  have hclean := handle_clientFailed hloop fd
  rw [hclean] at hes
  have hrun := run_matches (h.hangup hq) hes
  have hseen : seen = (react serve q (es.flatMap controlAsks)).2 := by
    rw [← hrun.2]
    show List.filterMap _ (react Proxy.handle s (.clientFailed fd :: es)).2 = _
    rw [react_cons, hclean, List.filterMap_append,
      controlView_close (cleanup_actions s fd), List.nil_append]
  rw [hseen]
  exact (serve_run_from q _).2

/-- The queue of a state that an orderly run has reached is in step. -/
theorem inStep_of_run {buf : List Byte} {es : List Event}
    (h : Throughout Proxy.handle Orderly (.start buf) es)
    (hloop : (react Proxy.handle (.start buf) es).1.looping = true) :
    InStep (react Proxy.handle (.start buf) es).1
      ((react Proxy.handle (.start buf) es).1.ctlMsg.map fun m => (m.clientFd, m.qmi)) := by
  have hrun := (run_matches (inStep_start buf) h).1 hloop
  rw [← hrun.queue]
  exact hrun

/-- A client that goes away while the modem works on its request. The modem has been given that
request and then those that are passed on, and answers them in their order. When another request was
waiting, its client is handed the answer, its own request is never sent, and whatever comes later is
answered to the right client. When none was waiting, every request that comes while the channel is
busy is answered with the answer to the request before it. -/
theorem hangup_shifts_answers (buf : List Byte) (before : List Event)
    (hbefore : Throughout Proxy.handle Orderly (.start buf) before) (fd : Byte) (r : List Byte)
    (rest : List Msg)
    (hqueue : (react Proxy.handle (.start buf) before).1.ctlMsg = ⟨fd, r⟩ :: rest)
    (hloop : (react Proxy.handle (.start buf) before).1.looping = true)
    (hrest : ∀ m ∈ rest, m.clientFd ≠ fd) (es : List Event)
    (hes : Throughout Proxy.handle Orderly
      ((react Proxy.handle (.start buf) before).1.handle (.clientFailed fd)).1 es) :
    let s := (react Proxy.handle (.start buf) before).1
    let seen := (react Proxy.handle s (.clientFailed fd :: es)).2.filterMap controlView
    let later := submitted (es.flatMap controlAsks)
    let answers := taken rest.length (es.flatMap controlAsks)
    let received := r :: passed seen
    (∀ next behind, rest = next :: behind →
      received = r :: (behind.map (·.qmi) ++ later.map Prod.snd).take answers.length ∧
      handed seen =
        (next.clientFd :: (behind.map (·.clientFd) ++ later.map Prod.fst)).zip answers) ∧
    (rest = [] → received = r :: (later.map Prod.snd).take (answers.length + 1) ∧
      handed seen = (later.map Prod.fst).zip answers) := by
  intro s seen later answers received
  have hstep : InStep s ((fd, r) :: rest.map fun m => (m.clientFd, m.qmi)) := by
    have h := inStep_of_run hbefore hloop
    rwa [hqueue, List.map_cons] at h
  have hq : ∀ p ∈ rest.map fun m => (m.clientFd, m.qmi), p.1 ≠ fd := by
    intro p hp
    obtain ⟨m, hm, rfl⟩ := List.mem_map.mp hp
    exact hrest m hm
  obtain ⟨hpassed, hhanded⟩ := hangup_run hstep hloop hq hes
  rw [List.length_map] at hpassed hhanded
  constructor
  · rintro next behind rfl
    simp only [List.map_cons, List.head?_cons, Option.toList_some, List.cons_append,
      List.map_append, List.map_map, List.map_nil, List.nil_append, List.take_succ_cons,
      List.cons.injEq, true_and] at hpassed hhanded
    exact ⟨congrArg (r :: ·) hpassed, hhanded⟩
  · rintro rfl
    exact ⟨congrArg (r :: ·) hpassed, hhanded⟩

theorem hangup_shifts_answers_behind :
    let s := (react Proxy.handle (.start []) [.accept 5, .accept 6, .client 5 (askVersion 1),
      .client 6 (askVersion 2)]).1
    let seen := (react Proxy.handle s [.clientFailed 5, .modem (versionReply 1)]).2.filterMap
      controlView
    passed seen = [] ∧ handed seen = [(6, versionReply 1)] := by
  intro s seen
  have h := (hangup_shifts_answers [] [.accept 5, .accept 6, .client 5 (askVersion 1),
    .client 6 (askVersion 2)] (by decide) 5 (askVersion 1) [⟨6, askVersion 2⟩] (by decide)
    (by decide) (by decide) [.modem (versionReply 1)] (by decide)).1 ⟨6, askVersion 2⟩ [] rfl
  exact ⟨(List.cons.inj h.1).2, h.2⟩

/-! ## A second request in the queue -/

/-- The head of the queue is a request of a descriptor that has no connection. -/
def HeldUp (fd : Byte) (s : Proxy) : Prop :=
  (∃ m rest, s.ctlMsg = m :: rest ∧ m.clientFd = fd) ∧ fd ∉ s.connections.map (·.clientFd)

/-- The modem sends no control message, the descriptor does not come back, and reads are headed. -/
def NoRescue (fd : Byte) : Event → Prop
  | .accept clientfd => UInt8.ofNat (clientfd % 256).toNat ≠ fd
  | .modem bs => Headed bs ∧ (Complete bs → hdrType bs ≠ QMUX_TYPE_CTL)
  | .client _ bs => Headed bs
  | _ => True

instance (fd : Byte) : (e : Event) → Decidable (NoRescue fd e)
  | .accept clientfd => inferInstanceAs (Decidable (UInt8.ofNat (clientfd % 256).toNat ≠ fd))
  | .modem bs => inferInstanceAs (Decidable
      ((bs ≠ [] → 12 ≤ bs.length) ∧ (Complete bs → hdrType bs ≠ QMUX_TYPE_CTL)))
  | .modemFailed => inferInstanceAs (Decidable True)
  | .client _ bs => inferInstanceAs (Decidable (bs ≠ [] → 12 ≤ bs.length))
  | .clientFailed _ => inferInstanceAs (Decidable True)

theorem HeldUp.sendHead {fd : Byte} {s : Proxy} (h : HeldUp fd s) : sendHead s = [] := by
  obtain ⟨⟨m, rest, hctl, rfl⟩, hfd⟩ := h
  rw [Qmi.sendHead, hctl]
  refine List.map_eq_nil_iff.mpr (List.filter_eq_nil_iff.mpr ?_)
  intro con hcon heq
  exact hfd (List.mem_map.mpr ⟨con, hcon, by simpa using heq⟩)

theorem HeldUp.cleanup {fd : Byte} {s : Proxy} (h : HeldUp fd s) (fd' : Byte) :
    HeldUp fd (cleanupQmiConnection s fd').1 := by
  unfold cleanupQmiConnection
  split
  case isFalse => exact h
  case isTrue hany =>
    obtain ⟨⟨m, rest, hctl, rfl⟩, hfd⟩ := h
    have hne : m.clientFd ≠ fd' := by
      rintro rfl
      obtain ⟨con, hcon, heq⟩ := List.any_eq_true.mp hany
      exact hfd (List.mem_map.mpr ⟨con, hcon, by simpa using heq⟩)
    refine ⟨⟨m, rest.eraseP (·.clientFd = fd'), ?_, rfl⟩, ?_⟩
    · rw [hctl, List.eraseP_cons_of_neg (by simpa using hne)]
    · intro hmem
      exact hfd ((List.eraseP_sublist.map _).subset hmem)

/-- A step that does not rescue it leaves the channel held up, and does nothing on it. -/
theorem HeldUp.handle {fd : Byte} {s : Proxy} (h : HeldUp fd s) {e : Event}
    (he : NoRescue fd e) : ((s.handle e).1.looping = true → HeldUp fd (s.handle e).1) ∧
      (s.handle e).2.filterMap controlView = [] := by
  by_cases hloop : s.looping = true
  case neg =>
    unfold Proxy.handle
    rw [if_neg hloop]
    exact ⟨fun h => absurd h hloop, rfl⟩
  unfold Proxy.handle
  rw [if_pos hloop]
  cases e with
  | accept clientfd =>
    refine ⟨fun _ => ⟨h.1, ?_⟩, rfl⟩
    simp only [acceptQmiConnection, List.map_append, List.mem_append]
    rintro (hmem | hmem)
    · exact h.2 hmem
    · exact he (List.mem_singleton.mp hmem).symm
  | modem bs =>
    by_cases hnil : bs = []
    · subst hnil
      exact ⟨fun h => absurd h Bool.false_ne_true, (matches_loopExit s []).2⟩
    have hlen := he.1 hnil
    dsimp only
    rw [readModem, if_neg hnil]
    by_cases hbs : Complete bs
    · have htype : hdrType (load s.qmiBuf bs) ≠ QMUX_TYPE_CTL := by
        rw [show hdrType (load s.qmiBuf bs) = hdrType bs from getD_load (by omega)]
        exact he.2 hbs
      have hview := recvService_view { s with qmiBuf := load s.qmiBuf bs }
        (frame_load s.qmiBuf hlen hbs) (he.2 hbs)
      rw [if_pos ((complete_load hlen).mpr hbs), recvQmi, if_neg htype]
      dsimp only
      split
      · refine ⟨fun h => absurd h Bool.false_ne_true, ?_⟩
        rw [List.filterMap_append, hview, loopExit, controlView_close (closeAll_actions _ _)]
        rfl
      · exact ⟨fun _ => h, hview⟩
    · rw [if_neg ((complete_load hlen).not.mpr hbs)]
      exact ⟨fun _ => h, rfl⟩
  | modemFailed => exact ⟨fun h => absurd h Bool.false_ne_true, (matches_loopExit s []).2⟩
  | client fd' bs =>
    by_cases hnil : bs = []
    · subst hnil
      exact ⟨fun _ => h.cleanup fd', controlView_close (cleanup_actions s fd')⟩
    have hlen := he hnil
    dsimp only
    rw [readClient, if_neg hnil]
    by_cases hbs : Complete bs
    · rw [if_pos ((complete_load hlen).mpr hbs), sendQmi]
      have htype : hdrType (load s.qmiBuf bs) = hdrType bs := getD_load (by omega)
      obtain ⟨⟨m, rest, hctl, hm⟩, hfd⟩ := h
      by_cases hcontrol : hdrType bs = QMUX_TYPE_CTL
      · rw [if_pos (htype.trans hcontrol)]
        refine ⟨fun _ => ⟨⟨m, rest ++ [⟨fd', bs⟩], ?_, hm⟩, hfd⟩, ?_⟩
        · simp [hctl, take_load]
        · simp [hctl]
      · rw [if_neg (htype ▸ hcontrol), frame_load _ hlen hbs]
        exact ⟨fun _ => ⟨⟨m, rest, hctl, hm⟩, hfd⟩, by simp [controlView, hcontrol]⟩
    · rw [if_neg ((complete_load hlen).not.mpr hbs)]
      exact ⟨fun _ => h, rfl⟩
  | clientFailed fd' => exact ⟨fun _ => h.cleanup fd', controlView_close (cleanup_actions s fd')⟩

theorem HeldUp.run {fd : Byte} {s : Proxy} (h : s.looping = true → HeldUp fd s) {es : List Event}
    (hes : ∀ e ∈ es, NoRescue fd e) :
    (react Proxy.handle s es).2.filterMap controlView = [] := by
  induction es generalizing s with
  | nil => rfl
  | cons e es ih =>
    have hstep : ((s.handle e).1.looping = true → HeldUp fd (s.handle e).1) ∧
        (s.handle e).2.filterMap controlView = [] := by
      by_cases hloop : s.looping = true
      · exact (h hloop).handle (hes e List.mem_cons_self)
      · unfold Proxy.handle
        rw [if_neg hloop]
        exact ⟨fun h => absurd h hloop, rfl⟩
    rw [react_cons, List.filterMap_append, hstep.2]
    exact ih hstep.1 fun e he => hes e (List.mem_cons_of_mem _ he)

end BoardTest.Qmi
