import BoardTest.Rtsp.Encoder

/-!
# Clients that come and go

The RTSP thread keeps the connection in the plain variable `send_status`; the encoder looks at it
when a packet is ready. A stop and a connect between two packets go unseen: the encoder stays in its
streaming phase and feeds the new client from the middle of a group of pictures. Unless that happens
a client that connects after a stop first gets the stream header and an IDR packet
(`fedFromIdr_of_stepsMeet`, and `reconnect_iff` for one connect).
-/

namespace BoardTest.Rtsp

inductive Event
  | packet (p : Packet)
  /-- `createNewRTPSink` -/
  | connect
  /-- `doStopGettingFrames` -/
  | stop

structure System where
  encoder : State
  sendStatus : Nat

def System.init (head : Head) : System := ⟨.init head, 0⟩

/-- `get_rtsp_connect_status` -/
def System.getRtspConnectStatus (s : System) : Nat := s.sendStatus

/-- One event: the system after it and the writes to the socket. -/
def step (s : System) : Event → Option (System × List (List Byte))
  | .packet p =>
    (encoderDataReady s.encoder p s.getRtspConnectStatus s.getRtspConnectStatus).map fun r =>
      (⟨r.1, s.sendStatus⟩, r.2)
  | .connect => some (⟨s.encoder, 1⟩, [])
  | .stop => some (⟨s.encoder, 0⟩, [])

def run : System → List Event → Option (System × List (List Byte))
  | s, [] => some (s, [])
  | s, e :: events =>
    (step s e).bind fun r => (run r.1 events).map fun r' => (r'.1, r.2 ++ r'.2)

theorem run_cons_eq_some {s s' : System} {e : Event} {events : List Event}
    {ws : List (List Byte)} (h : run s (e :: events) = some (s', ws)) :
    ∃ r ws', step s e = some r ∧ run r.1 events = some (s', ws') ∧ ws = r.2 ++ ws' := by
  obtain ⟨r, hstep, hrest⟩ := Option.bind_eq_some_iff.mp h
  obtain ⟨r', hrun, heq⟩ := Option.map_eq_some_iff.mp hrest
  cases heq
  exact ⟨r, r'.2, hstep, hrun, rfl⟩

/-- The encoder has seen no packet, or is in a phase. -/
inductive System.Reached : System → Prop
  | start (head : Head) (sendStatus : Nat) : Reached ⟨.init head, sendStatus⟩
  | inPhase (head : Head) (phase : Phase) (sendStatus : Nat) :
    Reached ⟨Rtsp.inPhase head phase, sendStatus⟩

/-- What a packet does to a system that has been reached. -/
theorem step_packet_of_reached {s : System} (hs : s.Reached) {p : Packet}
    {r : System × List (List Byte)} (h : step s (.packet p) = some r) :
    ∃ head phase, (s.encoder.rtspIndex = 2 ↔ phase = Phase.streaming) ∧
      r = (⟨inPhase head (phase.next (0 < s.sendStatus) p.isIdr), s.sendStatus⟩,
        phase.writes head p (0 < s.sendStatus)) := by
  cases hs with
  | start head sendStatus =>
    by_cases hlen : p.data0.length ≤ 32
    · simp only [step, encoderDataReady_init head p _ _ hlen, encoderDataReady_inPhase,
        Option.map_some, Option.some.injEq] at h
      exact ⟨_, .idle, by simp [State.init], h.symm⟩
    · simp [step, encoderDataReady_overflow head p _ _ hlen] at h
  | inPhase head phase sendStatus =>
    simp only [step, encoderDataReady_inPhase, Option.map_some, Option.some.injEq] at h
    exact ⟨head, phase, by cases phase <;> simp [inPhase], h.symm⟩

theorem step_reached {s : System} (hs : s.Reached) {e : Event} {r : System × List (List Byte)}
    (h : step s e = some r) : r.1.Reached := by
  cases e with
  | packet p =>
    obtain ⟨head, phase, -, rfl⟩ := step_packet_of_reached hs h
    exact .inPhase head _ _
  | connect | stop =>
    obtain rfl := Option.some.inj h
    cases hs with
    | start head => exact .start head _
    | inPhase head phase => exact .inPhase head phase _

theorem run_reached {s s' : System} (hs : s.Reached) {events : List Event}
    {ws : List (List Byte)} (h : run s events = some (s', ws)) : s'.Reached := by
  induction events generalizing s ws with
  | nil =>
    cases h
    exact hs
  | cons e events ih =>
    obtain ⟨r, ws', hstep, hrun, -⟩ := run_cons_eq_some h
    exact ih (step_reached hs hstep) hrun

/-- A saved header stays. -/
theorem run_keeps_head {head : Head} {phase : Phase} {sendStatus : Nat} {events : List Event}
    {s' : System} {ws : List (List Byte)}
    (h : run ⟨inPhase head phase, sendStatus⟩ events = some (s', ws)) :
    s'.encoder.h264head = head := by
  induction events generalizing phase sendStatus ws with
  | nil =>
    cases h
    cases phase <;> rfl
  | cons e events ih =>
    obtain ⟨r, ws', hstep, hrun, -⟩ := run_cons_eq_some h
    cases e with
    | packet p =>
      simp only [step, encoderDataReady_inPhase, Option.map_some, Option.some.injEq] at hstep
      subst hstep
      exact ih hrun
    | connect | stop =>
      obtain rfl := Option.some.inj hstep
      exact ih hrun

/-- Nothing has been written yet, or first the header and then an IDR packet. -/
def StartsWithIdr (head : Head) (events : List Event) (ws : List (List Byte)) : Prop :=
  ws.flatten = [] ∨
    ∃ p, Event.packet p ∈ events ∧ p.isIdr = true ∧ head.bytes ++ p.bytes <+: ws.flatten

/-- Outside the streaming phase the next bytes written are a header and an IDR packet. -/
theorem startsWithIdr_of_run {s s' : System} (hs : s.Reached) (hidle : s.encoder.rtspIndex ≠ 2)
    {events : List Event} {ws : List (List Byte)} (h : run s events = some (s', ws)) :
    StartsWithIdr s'.encoder.h264head events ws := by
  induction events generalizing s ws with
  | nil =>
    cases h
    exact .inl rfl
  | cons e events ih =>
    obtain ⟨r, ws', hstep, hrun, rfl⟩ := run_cons_eq_some h
    have hreached := step_reached hs hstep
    -- an event that writes nothing and does not lead into the streaming phase
    have hquiet : r.2 = [] → r.1.encoder.rtspIndex ≠ 2 →
        StartsWithIdr s'.encoder.h264head (e :: events) (r.2 ++ ws') := by
      intro hnil hindex
      rw [hnil, List.nil_append]
      rcases ih hreached hindex hrun with hws | ⟨p, hp, hidr, hprefix⟩
      · exact .inl hws
      · exact .inr ⟨p, by simp [hp], hidr, hprefix⟩
    cases e with
    | connect | stop =>
      obtain rfl := Option.some.inj hstep
      exact hquiet rfl hidle
    | packet p =>
      obtain ⟨head, phase, hphase, rfl⟩ := step_packet_of_reached hs hstep
      have hne : phase ≠ .streaming := fun heq => hidle (hphase.mpr heq)
      by_cases hwrites : 0 < s.sendStatus ∧ p.isIdr = true
      · right
        refine ⟨p, by simp, hwrites.2, ?_⟩
        have hhead : s'.encoder.h264head = head := run_keeps_head hrun
        cases phase with
        | streaming => exact absurd rfl hne
        | idle | waiting =>
          simp [Phase.writes, hwrites, flatten_writePacket, hhead]
      · have hout : phase.writes head p (0 < s.sendStatus) = [] ∧
            phase.next (0 < s.sendStatus) p.isIdr ≠ .streaming := by
          by_cases hstatus : 0 < s.sendStatus
          · have hidr : p.isIdr = false := by simpa [hstatus] using hwrites
            cases phase <;> simp [Phase.writes, Phase.next, hstatus, hidr] at hne ⊢
          · simp [Phase.writes, Phase.next, hstatus]
        apply hquiet hout.1
        intro hindex
        apply hout.2
        generalize phase.next (0 < s.sendStatus) p.isIdr = next at hindex
        cases next <;> simp [inPhase] at hindex ⊢

/-- The step is sound: a first packet fits the header array, and a client connects to an idle server
only when the encoder has seen that the last one is gone. -/
def System.Meets (s : System) : Event → Prop
  | .packet p => s.encoder.h264headerflags = false → p.data0.length ≤ 32
  | .connect => s.sendStatus = 0 → s.encoder.rtspIndex ≠ 2
  | .stop => True

/-- Every step of the run is. -/
def StepsMeet : System → List Event → Prop
  | _, [] => True
  | s, e :: events => s.Meets e ∧ ∀ r, step s e = some r → StepsMeet r.1 events

theorem StepsMeet.cons {s : System} {e : Event} {events : List Event}
    {r : System × List (List Byte)} (hmeets : s.Meets e) (hstep : step s e = some r)
    (h : StepsMeet r.1 events) : StepsMeet s (e :: events) := by
  refine ⟨hmeets, ?_⟩
  intro r' hr'
  obtain rfl := Option.some.inj (hstep.symm.trans hr')
  exact h

theorem step_defined {s : System} (hs : s.Reached) {e : Event} (h : s.Meets e) :
    ∃ r, step s e = some r := by
  cases e with
  | connect | stop => exact ⟨_, rfl⟩
  | packet p =>
    cases hs with
    | start head sendStatus =>
      have hlen : p.data0.length ≤ 32 := h rfl
      simp [step, encoderDataReady_init head p _ _ hlen, encoderDataReady_inPhase]
    | inPhase head phase sendStatus =>
      simp [step, encoderDataReady_inPhase]

theorem run_defined {s : System} (hs : s.Reached) {events : List Event}
    (h : StepsMeet s events) : ∃ s' ws, run s events = some (s', ws) := by
  induction events generalizing s with
  | nil => exact ⟨s, [], rfl⟩
  | cons e events ih =>
    obtain ⟨r, hstep⟩ := step_defined hs h.1
    obtain ⟨s', ws, hrun⟩ := ih (step_reached hs hstep) (h.2 r hstep)
    exact ⟨s', r.2 ++ ws, by simp [run, hstep, hrun]⟩

theorem StepsMeet.append {s s' : System} {pre post : List Event} {ws : List (List Byte)}
    (h : StepsMeet s (pre ++ post)) (hrun : run s pre = some (s', ws)) : StepsMeet s' post := by
  induction pre generalizing s ws with
  | nil =>
    cases hrun
    exact h
  | cons e pre ih =>
    obtain ⟨r, ws', hstep, hrest, -⟩ := run_cons_eq_some hrun
    exact ih (h.2 r hstep) hrest

theorem StepsMeet.left {s : System} {pre post : List Event} (h : StepsMeet s (pre ++ post)) :
    StepsMeet s pre := by
  induction pre generalizing s with
  | nil => trivial
  | cons e pre ih => exact ⟨h.1, fun r hstep => ih (h.2 r hstep)⟩

/-- The last client event is a stop: a connect now is one that follows a stop. -/
def EndsStopped (events : List Event) : Prop :=
  ∃ pre packets : List _, events = pre ++ Event.stop :: packets.map Event.packet

theorem run_packets_sendStatus {s s' : System} {packets : List Packet} {ws : List (List Byte)}
    (h : run s (packets.map .packet) = some (s', ws)) : s'.sendStatus = s.sendStatus := by
  induction packets generalizing s ws with
  | nil =>
    cases h
    rfl
  | cons p packets ih =>
    obtain ⟨r, ws', hstep, hrun, -⟩ := run_cons_eq_some h
    obtain ⟨x, -, rfl⟩ := Option.map_eq_some_iff.mp hstep
    rw [ih hrun]

theorem EndsStopped.sendStatus_eq {s s' : System} {events : List Event} {ws : List (List Byte)}
    (h : EndsStopped events) (hrun : run s events = some (s', ws)) : s'.sendStatus = 0 := by
  obtain ⟨pre, packets, rfl⟩ := h
  induction pre generalizing s ws with
  | nil =>
    obtain ⟨r, ws', hstep, hrest, -⟩ := run_cons_eq_some hrun
    obtain rfl := Option.some.inj hstep
    exact run_packets_sendStatus hrest
  | cons e pre ih =>
    obtain ⟨r, ws', hstep, hrest, -⟩ := run_cons_eq_some hrun
    exact ih hrest

/-- Every client that connects after a stop is fed from a header and an IDR packet on. -/
def FedFromIdr (head : Head) (events : List Event) : Prop :=
  ∀ pre post, events = pre ++ .connect :: post → EndsStopped pre →
    ∃ s out s' ws, run (.init head) pre = some (s, out) ∧
      run s (.connect :: post) = some (s', ws) ∧ StartsWithIdr s'.encoder.h264head post ws

/-- The connect itself writes nothing. -/
theorem startsWithIdr_after_connect {s s' : System} (hs : s.Reached)
    (hidle : s.encoder.rtspIndex ≠ 2) {post : List Event} {ws : List (List Byte)}
    (h : run s (.connect :: post) = some (s', ws)) :
    StartsWithIdr s'.encoder.h264head post ws := by
  obtain ⟨r, ws', hstep, hrun, rfl⟩ := run_cons_eq_some h
  have hreached := step_reached hs hstep
  obtain rfl := Option.some.inj hstep
  exact startsWithIdr_of_run hreached hidle hrun

/-- In a run of sound steps every client that connects after a stop is fed from an IDR packet
on. -/
theorem fedFromIdr_of_stepsMeet (head : Head) (events : List Event)
    (h : StepsMeet (.init head) events) : FedFromIdr head events := by
  rintro pre post rfl hstopped
  have hstart : (System.init head).Reached := .start head 0
  obtain ⟨s, out, hpre⟩ := run_defined hstart h.left
  have hrest := h.append hpre
  obtain ⟨s', ws, hpost⟩ := run_defined (run_reached hstart hpre) hrest
  have hidle : s.encoder.rtspIndex ≠ 2 := hrest.1 (hstopped.sendStatus_eq hpre)
  exact ⟨s, out, s', ws, hpre, hpost,
    startsWithIdr_after_connect (run_reached hstart hpre) hidle hpost⟩

/-! ## One connect -/

def idrPacket : Packet := ⟨[0, 0, 0, 1, 0x65], none, 0x65, fifth_eq_of_some rfl⟩

def interPacket : Packet := ⟨[0, 0, 0, 1, 0x41], none, 0x41, fifth_eq_of_some rfl⟩

/-- Whatever comes behind a connect, the client is fed from an IDR packet on exactly when the
encoder is not streaming at the connect. -/
theorem reconnect_iff {s : System} (hs : s.Reached) :
    (∀ post s' ws, run s (.connect :: post) = some (s', ws) →
      StartsWithIdr s'.encoder.h264head post ws) ↔ s.encoder.rtspIndex ≠ 2 := by
  constructor
  · intro h hstreaming
    -- the packet that comes next is written as it is
    cases hs with
    | start head sendStatus => simp [State.init] at hstreaming
    | inPhase head phase sendStatus =>
      obtain rfl : phase = .streaming := by
        cases phase <;> simp [inPhase] at hstreaming ⊢
      have hrun : run ⟨inPhase head .streaming, sendStatus⟩ [.connect, .packet interPacket] =
          some (⟨inPhase head .streaming, 1⟩, [interPacket.data0]) := rfl
      rcases h _ _ _ hrun with hnil | ⟨p, hp, hidr, -⟩
      · simp [interPacket] at hnil
      · simp only [List.mem_singleton, Event.packet.injEq] at hp
        subst hp
        exact absurd hidr (by decide)
  · intro hidle post s' ws hrun
    exact startsWithIdr_after_connect hs hidle hrun

def emptyHead : Head := ⟨List.replicate 32 0, by decide⟩

/-- A client leaves, the encoder has a packet ready, and another client comes and is fed. -/
theorem fedFromIdr_seen : FedFromIdr emptyHead
    [.packet idrPacket, .connect, .packet idrPacket, .stop, .packet interPacket, .connect,
      .packet interPacket, .packet idrPacket, .packet interPacket] :=
  fedFromIdr_of_stepsMeet emptyHead _ <|
    .cons (fun _ => by decide) rfl <| .cons (fun _ => by decide) rfl <|
    .cons (fun _ => by decide) rfl <| .cons trivial rfl <|
    .cons (fun _ => by decide) rfl <| .cons (fun _ => by decide) rfl <|
    .cons (fun _ => by decide) rfl <| .cons (fun _ => by decide) rfl <|
    .cons (fun _ => by decide) rfl trivial

/-- Without a packet between the stop and the connect the new client gets the next packet as it
is. -/
theorem unseen_reconnect_not_fedFromIdr : ¬ ∀ head events, FedFromIdr head events := by
  intro h
  have hstopped : EndsStopped [.packet idrPacket, .connect, .packet idrPacket, .stop] :=
    ⟨[.packet idrPacket, .connect, .packet idrPacket], [], rfl⟩
  obtain ⟨s, out, s', ws, hpre, hpost, hfed⟩ := h emptyHead
    [.packet idrPacket, .connect, .packet idrPacket, .stop, .connect, .packet interPacket]
    [.packet idrPacket, .connect, .packet idrPacket, .stop] [.packet interPacket] rfl hstopped
  have hlen : idrPacket.data0.length ≤ 32 := by decide
  have hstreaming : s = ⟨inPhase (emptyHead.save idrPacket.data0 hlen) .streaming, 0⟩ :=
    (Prod.mk.inj (Option.some.inj hpre)).1.symm
  subst hstreaming
  have hws : ws = [interPacket.data0] := (Prod.mk.inj (Option.some.inj hpost)).2.symm
  subst hws
  rcases hfed with hnil | ⟨p, hp, hidr, -⟩
  · simp [interPacket] at hnil
  · simp only [List.mem_singleton, Event.packet.injEq] at hp
    subst hp
    exact absurd hidr (by decide)

end BoardTest.Rtsp
