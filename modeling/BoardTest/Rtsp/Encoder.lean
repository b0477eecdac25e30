import BoardTest.Lib.CString
import Mathlib.Tactic.Common

/-!
# Encoder packets to the RTSP socket

`MyEncoderCallback::encoderDataReady` of `fltest_v4l2_npu.cpp`, on its H.264 path: it keeps the
first packet as the stream header and, while a client is connected, writes the packets to the socket
from the first IDR packet on. Its four flags come to three phases (`encoderDataReady_inPhase`), and
its output is a header and a run of packets for every block of connected packets that has an IDR
packet (`encoderRun_expected_iff`).
-/

namespace BoardTest.Rtsp

/-- `AVPacket`: the two segments, the second with a null pointer or not. `fifth` is what is read
as `Ptr[4]`; a first segment of less than five bytes ends before it. -/
structure Packet where
  data0 : List Byte
  data1 : Option (List Byte)
  fifth : Byte
  fifth_eq : ∀ b ∈ data0[4]?, b = fifth

/-- The fifth byte of a segment that has one. -/
theorem fifth_eq_of_some {data : List Byte} {b : Byte} (h : data[4]? = some b) :
    ∀ c ∈ data[4]?, c = b := by
  intro c hc
  exact Option.some.inj (hc.symm.trans h)

/-- `Ptr[4] & 0x1f` -/
def Packet.nalType (p : Packet) : Byte := p.fifth &&& 0x1f

def Packet.isIdr (p : Packet) : Bool := p.nalType = 5

/-- `uint8_t h264head[32]` -/
structure Head where
  bytes : List Byte
  length_eq : bytes.length = 32

/-- `memcpy(h264head, data, dataLen)` within the bounds of the array. -/
def Head.save (head : Head) (data : List Byte) (h : data.length ≤ 32) : Head where
  bytes := data ++ head.bytes.drop data.length
  length_eq := by
    rw [List.length_append, List.length_drop, head.length_eq]
    omega

/-- The members of `MyEncoderCallback`. -/
structure State where
  h264headerflags : Bool
  h264head : Head
  rtspFirstFlag : Bool
  rtspIndex : Nat
  rtspStart : Bool

/-- A new object; `h264head` has no initialiser. -/
def State.init (head : Head) : State := ⟨false, head, false, 0, false⟩

/-- `if (!h264headerflags) { ... }`; a copy beyond the array is undefined. -/
def State.saveHead (s : State) (p : Packet) : Option State :=
  if s.h264headerflags then some s
  else if h : p.data0.length ≤ 32 then
    some { s with h264head := s.h264head.save p.data0 h, h264headerflags := true }
  else none

/-- The connection test (`fltest_v4l2_npu.cpp:94-102`). `first` and `second` are what the calls of
`get_rtsp_connect_status` return; with `rtsp_index` set only the one of the `else` branch is
made. -/
def State.pollStatus (s : State) (first second : Nat) : State :=
  if s.rtspIndex = 0 ∧ 0 < first then { s with rtspStart := true, rtspIndex := s.rtspIndex + 1 }
  else if (if s.rtspIndex = 0 then second else first) = 0 then
    { s with rtspStart := false, rtspIndex := 0 }
  else s

/-- The writes of a packet. -/
def writePacket (p : Packet) : List (List Byte) :=
  p.data0 :: match p.data1 with
    | some data => if 0 < data.length then [data] else []
    | none => []

/-- The `if (rtsp_start)` part (`fltest_v4l2_npu.cpp:104-131`): the state after it and the
writes. -/
def State.sendPacket (s : State) (p : Packet) : State × List (List Byte) :=
  if s.rtspStart then
    if s.rtspIndex = 1 then
      let s := if p.isIdr then { s with rtspFirstFlag := true } else s
      if s.rtspFirstFlag then
        ({ s with rtspIndex := 2, rtspFirstFlag := false }, s.h264head.bytes :: writePacket p)
      else (s, [])
    else (s, writePacket p)
  else (s, [])

def encoderDataReady (s : State) (p : Packet) (first second : Nat) :
    Option (State × List (List Byte)) :=
  (s.saveHead p).map fun s => (s.pollStatus first second).sendPacket p

/-- What the flags say: nobody connected, waiting for an IDR packet, streaming. -/
inductive Phase
  | idle | waiting | streaming
  deriving DecidableEq, Repr

def Phase.next (phase : Phase) (connected idr : Bool) : Phase :=
  match connected, phase, idr with
  | false, _, _ => .idle
  | true, .streaming, _ => .streaming
  | true, _, true => .streaming
  | true, _, false => .waiting

def Phase.writes (phase : Phase) (head : Head) (p : Packet) (connected : Bool) :
    List (List Byte) :=
  match connected, phase, p.isIdr with
  | false, _, _ => []
  | true, .streaming, _ => writePacket p
  | true, _, true => head.bytes :: writePacket p
  | true, _, false => []

/-- A state with its header saved, in a phase. -/
def inPhase (head : Head) : Phase → State
  | .idle => ⟨true, head, false, 0, false⟩
  | .waiting => ⟨true, head, false, 1, true⟩
  | .streaming => ⟨true, head, false, 2, true⟩

/-- A call moves between the phases. What the second status read returns makes no difference. -/
theorem encoderDataReady_inPhase (head : Head) (phase : Phase) (p : Packet) (first second : Nat) :
    encoderDataReady (inPhase head phase) p first second =
      some (inPhase head (phase.next (0 < first) p.isIdr),
        phase.writes head p (0 < first)) := by
  rcases Nat.eq_zero_or_pos first with rfl | hfirst
  · cases phase <;>
      simp [encoderDataReady, inPhase, State.saveHead, State.pollStatus, State.sendPacket,
        Phase.next, Phase.writes]
  · have hne : first ≠ 0 := by omega
    cases hidr : p.isIdr <;> cases phase <;>
      simp [encoderDataReady, inPhase, State.saveHead, State.pollStatus, State.sendPacket,
        Phase.next, Phase.writes, hfirst, hne, hidr]

/-- The first call saves the header and goes on from the idle phase. -/
theorem encoderDataReady_init (head : Head) (p : Packet) (first second : Nat)
    (h : p.data0.length ≤ 32) :
    encoderDataReady (.init head) p first second =
      encoderDataReady (inPhase (head.save p.data0 h) .idle) p first second := by
  simp [encoderDataReady, State.saveHead, State.init, inPhase, h]

theorem encoderDataReady_overflow (head : Head) (p : Packet) (first second : Nat)
    (h : ¬ p.data0.length ≤ 32) : encoderDataReady (.init head) p first second = none := by
  simp [encoderDataReady, State.saveHead, State.init, h]

/-- A packet with the connection statuses that are sampled during its call. The second one is read
after a first of 0 only. -/
structure Call where
  packet : Packet
  status : Nat
  second : Nat

/-- The calls in order: the last state and all that was written. -/
def encoderRun : State → List Call → Option (State × List (List Byte))
  | s, [] => some (s, [])
  | s, c :: calls =>
    (encoderDataReady s c.packet c.status c.second).bind fun r =>
      (encoderRun r.1 calls).map fun r' => (r'.1, r.2 ++ r'.2)

/-! ## What the socket is meant to get -/

/-- The bytes of a packet: its first segment, and the second if there is one. -/
def Packet.bytes (p : Packet) : List Byte := p.data0 ++ p.data1.getD []

/-- Of a block of connected packets: nothing before its first IDR packet, then the header, that
packet and all the others. -/
def streamed (head : List Byte) (block : List Call) : List Byte :=
  match block.dropWhile fun c => !c.packet.isIdr with
  | [] => []
  | calls => head ++ calls.flatMap fun c => c.packet.bytes

/-- The maximal blocks of consecutive connected packets, with empty ones between adjacent
disconnected packets. -/
def blocks (calls : List Call) : List (List Call) := calls.splitOnP fun c => c.status = 0

def expected (head : List Byte) (calls : List Call) : List Byte :=
  (blocks calls).flatMap (streamed head)

/-- The same when the block has been streaming before. -/
def expectedStreaming (head : List Byte) (calls : List Call) : List Byte :=
  match blocks calls with
  | [] => []
  | block :: more => (block.flatMap fun c => c.packet.bytes) ++ more.flatMap (streamed head)

theorem blocks_cons_idle {c : Call} (h : c.status = 0) (calls : List Call) :
    blocks (c :: calls) = [] :: blocks calls := by
  rw [blocks, List.splitOnP_cons_eq_if_modifyHead, if_pos (by simpa using h), blocks]

theorem blocks_cons_connected {c : Call} (h : c.status ≠ 0) (calls : List Call) :
    ∃ block more, blocks calls = block :: more ∧ blocks (c :: calls) = (c :: block) :: more := by
  cases hblocks : blocks calls with
  | nil => exact absurd hblocks (List.splitOnP_ne_nil _ _)
  | cons block more =>
    refine ⟨block, more, rfl, ?_⟩
    rw [blocks, List.splitOnP_cons_eq_if_modifyHead, if_neg (by simpa using h), ← blocks, hblocks]
    rfl

theorem expected_cons_idle (head : List Byte) {c : Call} (h : c.status = 0) (calls : List Call) :
    expected head (c :: calls) = expected head calls ∧
      expectedStreaming head (c :: calls) = expected head calls := by
  rw [expectedStreaming, expected, blocks_cons_idle h]
  simp [expected, streamed]

theorem expected_cons_connected (head : List Byte) {c : Call} (h : c.status ≠ 0)
    (calls : List Call) :
    expected head (c :: calls) =
        (if c.packet.isIdr then head ++ c.packet.bytes ++ expectedStreaming head calls
        else expected head calls) ∧
      expectedStreaming head (c :: calls) = c.packet.bytes ++ expectedStreaming head calls := by
  obtain ⟨block, more, hblocks, hcons⟩ := blocks_cons_connected h calls
  simp only [expected, expectedStreaming, hcons, hblocks]
  cases hidr : c.packet.isIdr <;> simp [streamed, hidr]

theorem flatten_writePacket (p : Packet) : (writePacket p).flatten = p.bytes := by
  unfold writePacket Packet.bytes
  cases hdata : p.data1 with
  | none => simp
  | some data =>
    by_cases hlen : 0 < data.length
    · simp [hlen]
    · have hnil : data = [] := by simpa using hlen
      simp [hnil]

/-- What is expected from a phase on. -/
def Phase.expected (phase : Phase) (head : List Byte) (calls : List Call) : List Byte :=
  match phase with
  | .streaming => expectedStreaming head calls
  | _ => Rtsp.expected head calls

/-- One call writes the first part of what is expected. -/
theorem Phase.expected_cons (phase : Phase) (head : Head) (c : Call) (calls : List Call) :
    phase.expected head.bytes (c :: calls) =
      (phase.writes head c.packet (0 < c.status)).flatten ++
        (phase.next (0 < c.status) c.packet.isIdr).expected head.bytes calls := by
  by_cases hstatus : c.status = 0
  · obtain ⟨hidle, hstreaming⟩ := expected_cons_idle head.bytes hstatus calls
    cases phase <;> simp [Phase.expected, Phase.writes, Phase.next, hstatus, hidle, hstreaming]
  · have hpos : 0 < c.status := Nat.pos_of_ne_zero hstatus
    obtain ⟨hidle, hstreaming⟩ := expected_cons_connected head.bytes hstatus calls
    cases hidr : c.packet.isIdr <;> cases phase <;>
      simp [Phase.expected, Phase.writes, Phase.next, hpos, hidle, hstreaming, hidr,
        flatten_writePacket]

/-- From a phase on the run is defined, keeps the header and writes what is expected. -/
theorem encoderRun_inPhase (head : Head) (phase : Phase) (calls : List Call) :
    ∃ phase' ws, encoderRun (inPhase head phase) calls = some (inPhase head phase', ws) ∧
      ws.flatten = phase.expected head.bytes calls := by
  induction calls generalizing phase with
  | nil =>
    refine ⟨phase, [], rfl, ?_⟩
    cases phase <;> simp [Phase.expected, expected, expectedStreaming, blocks, streamed]
  | cons c calls ih =>
    obtain ⟨phase', ws, hrun, hws⟩ := ih (phase.next (0 < c.status) c.packet.isIdr)
    refine ⟨phase', phase.writes head c.packet (0 < c.status) ++ ws, ?_, ?_⟩
    · simp [encoderRun, encoderDataReady_inPhase, hrun]
    · rw [List.flatten_append, hws, phase.expected_cons]

/-- The run is defined and writes the expected bytes. -/
def WritesExpected (head : Head) (calls : List Call) : Prop :=
  ∃ s ws, encoderRun (.init head) calls = some (s, ws) ∧
    ws.flatten = expected s.h264head.bytes calls

/-- The socket gets what it is meant to exactly when the first packet fits the header array. -/
theorem encoderRun_expected_iff (head : Head) (calls : List Call) :
    WritesExpected head calls ↔ ∀ c ∈ calls.head?, c.packet.data0.length ≤ 32 := by
  cases calls with
  | nil => simp [WritesExpected, encoderRun, expected, blocks, streamed]
  | cons c calls =>
    simp only [List.head?_cons, Option.mem_some_iff, forall_eq']
    by_cases h : c.packet.data0.length ≤ 32
    · refine iff_of_true ?_ h
      have hfirst : encoderRun (.init head) (c :: calls) =
          encoderRun (inPhase (head.save c.packet.data0 h) .idle) (c :: calls) := by
        simp only [encoderRun, encoderDataReady_init head c.packet c.status c.second h]
      obtain ⟨phase, ws, hrun, hws⟩ :=
        encoderRun_inPhase (head.save c.packet.data0 h) .idle (c :: calls)
      refine ⟨_, ws, hfirst.trans hrun, ?_⟩
      rw [hws]
      cases phase <;> rfl
    · refine iff_of_false ?_ h
      rintro ⟨s, ws, hrun, -⟩
      simp [encoderRun, encoderDataReady_overflow head c.packet c.status c.second h] at hrun

/-- A first packet of 33 bytes overruns the header array, connected or not. -/
theorem long_first_packet_overruns : ¬ ∀ head calls, WritesExpected head calls := by
  intro h
  have hfifth : ∀ b ∈ (List.replicate 33 (0 : Byte))[4]?, b = 0 := fifth_eq_of_some rfl
  obtain ⟨s, ws, hrun, -⟩ := h ⟨List.replicate 32 0, by decide⟩ [⟨⟨_, none, 0, hfifth⟩, 0, 0⟩]
  simp [encoderRun, encoderDataReady_overflow] at hrun

end BoardTest.Rtsp
