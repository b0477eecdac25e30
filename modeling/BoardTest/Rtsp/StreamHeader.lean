import BoardTest.Rtsp.Encoder

/-!
# The stream header

`encoderDataReady` saves the first segment of the first packet with its own length and writes it
with the length of the array whenever a client begins to be served. Every client gets the header
as it was saved exactly when that length is 32 bytes, unless no client is ever served
(`keepsHeader_iff`).
-/

namespace BoardTest.Rtsp

/-- The call that takes `s` to `s'` begins a streaming period: `rtsp_index` comes to 2. -/
def Begins (s s' : State) : Prop := s.rtspIndex ≠ 2 ∧ s'.rtspIndex = 2

instance (s s' : State) : Decidable (Begins s s') := instDecidableAnd

/-- What is written first in every call that begins a streaming period. -/
def headerWrites : State → List Call → Option (List (List Byte))
  | _, [] => some []
  | s, c :: calls =>
    (encoderDataReady s c.packet c.status c.second).bind fun r =>
      (headerWrites r.1 calls).map fun hs => (if Begins s r.1 then r.2.take 1 else []) ++ hs

/-- The first packet is saved within the array, and its first segment is the header of every
streaming period. -/
def KeepsHeader (head : Head) (calls : List Call) : Prop :=
  ∃ hs, headerWrites (.init head) calls = some hs ∧
    ∀ c ∈ calls.head?, ∀ h ∈ hs, h = c.packet.data0

/-- The call hands an IDR packet to a client. -/
def Call.Serves (c : Call) : Prop := c.status ≠ 0 ∧ c.packet.isIdr

/-- The first packet has as many bytes as the array, or less and nobody is ever served. -/
def HeaderFits (calls : List Call) : Prop :=
  ∀ c ∈ calls.head?, c.packet.data0.length = 32 ∨
    c.packet.data0.length < 32 ∧ ∀ c' ∈ calls, ¬ c'.Serves

/-- The headers of a call that is made in a phase. -/
def Phase.headers (phase : Phase) (head : Head) (c : Call) : List (List Byte) :=
  if phase ≠ .streaming ∧ c.status ≠ 0 ∧ c.packet.isIdr then [head.bytes] else []

theorem headerWrites_inPhase_cons (head : Head) (phase : Phase) (c : Call) (calls : List Call) :
    headerWrites (inPhase head phase) (c :: calls) =
      (headerWrites (inPhase head (phase.next (0 < c.status) c.packet.isIdr)) calls).map
        (phase.headers head c ++ ·) := by
  rw [headerWrites, encoderDataReady_inPhase, Option.bind_some]
  congr 1
  funext hs
  congr 1
  rcases Nat.eq_zero_or_pos c.status with hstatus | hstatus
  · cases phase <;> simp [Begins, Phase.headers, Phase.next, inPhase, hstatus]
  · have hne : c.status ≠ 0 := by omega
    cases hidr : c.packet.isIdr <;> cases phase <;>
      simp [Begins, Phase.headers, Phase.next, Phase.writes, inPhase, hstatus, hne, hidr]

theorem Phase.next_ne_streaming {phase : Phase} (hphase : phase ≠ .streaming) {c : Call}
    (h : ¬ c.Serves) : phase.next (0 < c.status) c.packet.isIdr ≠ .streaming := by
  rcases Nat.eq_zero_or_pos c.status with hstatus | hstatus
  · simp [Phase.next, hstatus]
  · have hidr : c.packet.isIdr = false := by
      rw [← Bool.not_eq_true]
      exact fun hidr => h ⟨by omega, hidr⟩
    cases phase <;> simp_all [Phase.next]

/-- From a phase on every header is what is in the array. -/
theorem exists_headerWrites_inPhase (head : Head) (phase : Phase) (calls : List Call) :
    ∃ hs, headerWrites (inPhase head phase) calls = some hs ∧ ∀ h ∈ hs, h = head.bytes := by
  induction calls generalizing phase with
  | nil => exact ⟨[], rfl, by simp⟩
  | cons c calls ih =>
    obtain ⟨hs, hrun, hall⟩ := ih (phase.next (0 < c.status) c.packet.isIdr)
    refine ⟨phase.headers head c ++ hs, ?_, ?_⟩
    · rw [headerWrites_inPhase_cons, hrun, Option.map_some]
    · intro h hmem
      rcases List.mem_append.mp hmem with hmem | hmem
      · rw [Phase.headers] at hmem
        split at hmem <;> simp_all
      · exact hall h hmem

/-- While nobody is served no header is written, and then one is. -/
theorem headerWrites_eq_nil_iff {head : Head} {phase : Phase} (hphase : phase ≠ .streaming)
    {calls : List Call} {hs : List (List Byte)}
    (h : headerWrites (inPhase head phase) calls = some hs) :
    hs = [] ↔ ∀ c ∈ calls, ¬ c.Serves := by
  induction calls generalizing phase hs with
  | nil =>
    obtain rfl := Option.some.inj h
    simp
  | cons c calls ih =>
    rw [headerWrites_inPhase_cons] at h
    obtain ⟨hs', hrun, rfl⟩ := Option.map_eq_some_iff.mp h
    by_cases hserves : c.Serves
    · have hheaders : phase.headers head c = [head.bytes] := if_pos ⟨hphase, hserves⟩
      simp [hheaders, hserves]
    · have hheaders : phase.headers head c = [] := if_neg fun hc => hserves hc.2
      have hnext : phase.next (0 < c.status) c.packet.isIdr ≠ .streaming :=
        Phase.next_ne_streaming hphase hserves
      rw [hheaders, List.nil_append, ih hnext hrun]
      simp [hserves]

/-- A first packet that fits the array is saved, and the run goes on with what is in the array. -/
theorem headerWrites_init (head : Head) {c : Call} (h : c.packet.data0.length ≤ 32)
    (calls : List Call) : headerWrites (.init head) (c :: calls) =
      headerWrites (inPhase (head.save c.packet.data0 h) .idle) (c :: calls) := by
  rw [headerWrites, headerWrites, encoderDataReady_init head c.packet c.status c.second h]
  rfl

theorem headerWrites_overflow (head : Head) {c : Call} (h : ¬ c.packet.data0.length ≤ 32)
    (calls : List Call) : headerWrites (.init head) (c :: calls) = none := by
  rw [headerWrites, encoderDataReady_overflow head c.packet c.status c.second h, Option.bind_none]

/-- The array holds the segment and nothing else only when the segment fills it. -/
theorem save_bytes_eq_iff (head : Head) {data : List Byte} (h : data.length ≤ 32) :
    (head.save data h).bytes = data ↔ data.length = 32 := by
  constructor
  · intro heq
    rw [← heq]
    exact (head.save data h).length_eq
  · intro hlen
    have hrest : head.bytes.drop data.length = [] :=
      List.drop_eq_nil_of_le (by rw [head.length_eq, hlen])
    show data ++ head.bytes.drop data.length = data
    rw [hrest, List.append_nil]

/-- Every streaming period begins with the first packet's first segment exactly when that has 32
bytes, or fewer and no period ever begins. -/
theorem keepsHeader_iff (head : Head) (calls : List Call) :
    KeepsHeader head calls ↔ HeaderFits calls := by
  cases calls with
  | nil => simp [KeepsHeader, HeaderFits, headerWrites]
  | cons c calls =>
    simp only [KeepsHeader, HeaderFits, List.head?_cons, Option.mem_some_iff, forall_eq']
    by_cases hroom : c.packet.data0.length ≤ 32
    · obtain ⟨hs, hrun, hall⟩ :=
        exists_headerWrites_inPhase (head.save c.packet.data0 hroom) .idle (c :: calls)
      have hnil := headerWrites_eq_nil_iff (by simp) hrun
      have hsame := save_bytes_eq_iff head hroom
      have hkeeps : (∃ hs', some hs = some hs' ∧ ∀ h ∈ hs', h = c.packet.data0) ↔
          ∀ h ∈ hs, h = c.packet.data0 := by simp
      rw [headerWrites_init head hroom, hrun, hkeeps, ← hnil, ← hsame]
      constructor
      · intro h
        cases hs with
        | nil => exact (eq_or_lt_of_le hroom).imp hsame.mpr fun hlt => ⟨hlt, rfl⟩
        | cons x hs =>
          rw [← hall x List.mem_cons_self]
          exact .inl (h x List.mem_cons_self)
      · rintro (heq | ⟨-, rfl⟩)
        · intro h hmem
          rw [hall h hmem, heq]
        · simp
    · rw [headerWrites_overflow head hroom]
      exact iff_of_false (by simp) (by omega)

theorem fifth_keyFrame : ∀ b ∈ ([0, 0, 0, 1, 0x65] : List Byte)[4]?, b = 0x65 :=
  fifth_eq_of_some rfl

/-- A key frame of five bytes, for a client that is there. -/
def servedShort : Call := ⟨⟨[0, 0, 0, 1, 0x65], none, 0x65, fifth_keyFrame⟩, 1, 1⟩

/-- It is sent behind a header of 32 bytes. -/
theorem servedShort_not_keepsHeader : ¬ ∀ head calls, KeepsHeader head calls := by
  intro h
  obtain ⟨hs, hrun, hkeeps⟩ := h ⟨List.replicate 32 0, by decide⟩ [servedShort]
  have hlong : headerWrites (.init ⟨List.replicate 32 0, by decide⟩) [servedShort] =
      some [[0, 0, 0, 1, 0x65] ++ List.replicate 27 0] := by
    decide +kernel
  rw [hlong] at hrun
  cases hrun
  exact absurd (hkeeps servedShort rfl _ List.mem_cons_self) (by decide)

end BoardTest.Rtsp
