import BoardTest.Video.SingleDecoder

/-!
# The loop of `decodeThread`

A decoder that does nothing when the output buffer is too small for its result, and a loop that
enlarges the buffer and asks again. Every unit of the file is decoded once and in order, and it is
asked for a second time only when the buffer had to grow (`decodeThread_decodes`).
-/

namespace BoardTest.Video.DecoderTest

open StateTransition

/-- A decoder, by the state it has reached through the units decoded so far: the result for the next
unit is the length of its output or an error. -/
structure Decoder (σ : Type*) where
  result : σ → List Byte → Int
  output : σ → List Byte → List Byte
  after : σ → List Byte → σ
  length_output : ∀ st unit, 0 < result st unit → ((output st unit).length : Int) = result st unit

variable {σ : Type*}

namespace Decoder

variable (d : Decoder σ)

/-- `decode(inputFile, nalLen, outputBuf, outputLen)`: the result, what stands in `outputBuf`, and
the next state. A unit whose output does not fit is left alone. -/
def decode (st : σ) (unit : List Byte) (outputLen : Int) : Int × List Byte × σ :=
  if d.result st unit > outputLen then (d.result st unit, [], st)
  else (d.result st unit, d.output st unit, d.after st unit)

/-- The output of a unit with a positive result. -/
def emitted (st : σ) (unit : List Byte) : List Byte :=
  if 0 < d.result st unit then d.output st unit else []

/-- The outputs of the units in their order. -/
def outputs : σ → List (List Byte) → List Byte
  | _, [] => []
  | st, unit :: units => d.emitted st unit ++ outputs (d.after st unit) units

/-- The state after the units. -/
def afterAll (st : σ) (units : List (List Byte)) : σ := units.foldl d.after st

theorem afterAll_append_singleton (st : σ) (units : List (List Byte)) (unit : List Byte) :
    d.afterAll st (units ++ [unit]) = d.after (d.afterAll st units) unit := by
  rw [afterAll, List.foldl_append]
  rfl

theorem outputs_append_singleton (st : σ) (units : List (List Byte)) (unit : List Byte) :
    d.outputs st (units ++ [unit]) =
      d.outputs st units ++ d.emitted (d.afterAll st units) unit := by
  induction units generalizing st with
  | nil => simp [outputs, afterAll]
  | cons v units ih =>
    rw [List.cons_append, outputs, outputs, ih, List.append_assoc]
    rfl

end Decoder

/-- A call of `decode`. -/
structure Call where
  decodePos : Nat
  unit : List Byte
  outputLen : Int
  ret : Int

/-- The variables of the loop, the decoder, the output file (`none` is `NULL`) and the calls so
far. -/
structure ThreadRun (σ : Type*) where
  decodePos : Nat
  filePos : Nat
  outputLen : Int
  decoder : σ
  outputFile : Option (List Byte)
  calls : List Call

/-- Before the loop: `outputBuf` has the size of a frame. -/
def ThreadRun.start (decoder : σ) (bitSize : Int) : ThreadRun σ :=
  ⟨0, 0, bitSize, decoder, none, []⟩

/-- One round (`decoder_test.cpp:655-697`); `none` is the end of the loop. The output file is opened
by the first output. -/
def threadStep (d : Decoder σ) (file : InputFile) (s : ThreadRun σ) : Option (ThreadRun σ) :=
  if (s.decodePos : Int) < fileSize file.data then
    let readTmpLen := file.readLen s.decodePos
    let inputFile := fread file.data s.filePos readTmpLen
    let nalLen := nalLen (find264NALFragment inputFile readTmpLen)
    if nalLen < 4 then none
    else
      let unit := inputFile.take nalLen
      let (ret, outputBuf, decoder) := d.decode s.decoder unit s.outputLen
      let calls := s.calls ++ [⟨s.decodePos, unit, s.outputLen, ret⟩]
      if 0 < ret ∧ ret ≤ s.outputLen then
        let outputFile := some (s.outputFile.getD [] ++ outputBuf.take ret.toNat)
        some ⟨s.decodePos + nalLen, s.decodePos + nalLen, s.outputLen, decoder, outputFile, calls⟩
      else if ret > s.outputLen then
        some ⟨s.decodePos, s.decodePos, ret, decoder, s.outputFile, calls⟩
      else
        some ⟨s.decodePos + nalLen, s.decodePos + nalLen, s.outputLen, decoder, s.outputFile, calls⟩
  else none

namespace ThreadRun

/-- The unit at `decodePos`. -/
def unit (file : InputFile) (s : ThreadRun σ) : List Byte := slice (file.rest s.decodePos)

/-- The units that the decoder has decoded: those whose output had room. -/
def decoded (s : ThreadRun σ) : List (List Byte) :=
  (s.calls.filter fun c => c.ret ≤ c.outputLen).map Call.unit

/-- What is in the output file. -/
def written (s : ThreadRun σ) : List Byte := s.outputFile.getD []

/-- The calls for the unit at a position. -/
def callsAt (s : ThreadRun σ) (pos : Nat) : List Call := s.calls.filter fun c => c.decodePos = pos

end ThreadRun

/-- A unit is asked for once when its output has room, and else a second time with a buffer of the
size that the decoder wanted. -/
def AskedAgainOnce : List Call → Prop
  | [] => True
  | [c] => c.ret ≤ c.outputLen
  | [c, c'] => c.outputLen < c.ret ∧ c'.outputLen = c.ret ∧ c'.ret = c.ret ∧ c'.unit = c.unit
  | _ => False

section
variable {d : Decoder σ} {file : InputFile} {s t : ThreadRun σ} {st₀ : σ}

/-- The next call. -/
def ThreadRun.nextCall (d : Decoder σ) (file : InputFile) (s : ThreadRun σ) : Call :=
  ⟨s.decodePos, s.unit file, s.outputLen, d.result s.decoder (s.unit file)⟩

/-- What a round can do: the unit is decoded, or the buffer is enlarged for it. -/
inductive Round (d : Decoder σ) (file : InputFile) (s t : ThreadRun σ) : Prop
  | decoded (hret : d.result s.decoder (s.unit file) ≤ s.outputLen)
      (hpos : t.decodePos = s.decodePos + (s.unit file).length)
      (hdecoder : t.decoder = d.after s.decoder (s.unit file))
      (hwritten : t.written = s.written ++ d.emitted s.decoder (s.unit file))
  | enlarged (hret : s.outputLen < d.result s.decoder (s.unit file))
      (hpos : t.decodePos = s.decodePos)
      (hlen : t.outputLen = d.result s.decoder (s.unit file))
      (hdecoder : t.decoder = s.decoder) (hwritten : t.written = s.written)

theorem length_unit (file : InputFile) (s : ThreadRun σ) :
    (s.unit file).length = sliceLen find264NALFragment (file.rest s.decodePos) := length_slice _

/-- A round asks for the unit at `decodePos` when there is one. -/
theorem threadStep_eq (h : s.filePos = s.decodePos) :
    threadStep d file s =
      if s.decodePos < file.data.length ∧ 4 ≤ (s.unit file).length then
        let next := s.decodePos + (s.unit file).length
        let (ret, outputBuf, decoder) := d.decode s.decoder (s.unit file) s.outputLen
        let calls := s.calls ++ [⟨s.decodePos, s.unit file, s.outputLen, ret⟩]
        if 0 < ret ∧ ret ≤ s.outputLen then
          let outputFile := some (s.outputFile.getD [] ++ outputBuf.take ret.toNat)
          some ⟨next, next, s.outputLen, decoder, outputFile, calls⟩
        else if ret > s.outputLen then
          some ⟨s.decodePos, s.decodePos, ret, decoder, s.outputFile, calls⟩
        else some ⟨next, next, s.outputLen, decoder, s.outputFile, calls⟩
      else none := by
  rw [threadStep, file.fileSize_eq, h]
  by_cases hpos : s.decodePos < file.data.length
  · have hlen : nalLen (find264NALFragment (window (file.rest s.decodePos))
        (window (file.rest s.decodePos)).length) = (s.unit file).length :=
      (length_unit file s).symm
    have hunit : (window (file.rest s.decodePos)).take (s.unit file).length = s.unit file := by
      rw [length_unit]
      rfl
    simp only [Nat.cast_lt, hpos, if_true, true_and, InputFile.fread_eq hpos,
      InputFile.readLen_eq hpos, hlen, hunit, ← Nat.not_lt, ite_not]
  · simp only [Nat.cast_lt, hpos, if_false, false_and]

theorem round_of_step (h : s.filePos = s.decodePos) (hstep : threadStep d file s = some t) :
    s.decodePos < file.data.length ∧ 4 ≤ (s.unit file).length ∧ t.filePos = t.decodePos ∧
      t.calls = s.calls ++ [s.nextCall d file] ∧ Round d file s t := by
  rw [threadStep_eq h] at hstep
  split at hstep
  · rename_i hround
    refine ⟨hround.1, hround.2, ?_⟩
    by_cases hfits : d.result s.decoder (s.unit file) > s.outputLen
    · have hpos : ¬ (0 < d.result s.decoder (s.unit file) ∧
          d.result s.decoder (s.unit file) ≤ s.outputLen) := by omega
      simp only [Decoder.decode, if_pos hfits, if_neg hpos] at hstep
      obtain rfl := Option.some.inj hstep
      exact ⟨rfl, rfl, .enlarged hfits rfl rfl rfl rfl⟩
    · simp only [Decoder.decode, if_neg hfits] at hstep
      split at hstep
      · rename_i hpos
        obtain rfl := Option.some.inj hstep
        have hlen := d.length_output s.decoder (s.unit file) hpos.1
        refine ⟨rfl, rfl, .decoded hpos.2 rfl rfl ?_⟩
        rw [Decoder.emitted, if_pos hpos.1, ThreadRun.written, List.take_of_length_le (by omega)]
        rfl
      · rename_i hpos
        obtain rfl := Option.some.inj hstep
        refine ⟨rfl, rfl, .decoded (by omega) rfl rfl ?_⟩
        rw [Decoder.emitted, if_neg (by omega), List.append_nil]
        rfl
  · cases hstep

theorem stop_of_step (h : s.filePos = s.decodePos) (hstop : threadStep d file s = none)
    (hpos : s.decodePos < file.data.length) : (s.unit file).length < 4 := by
  rw [threadStep_eq h] at hstop
  split at hstop
  · dsimp only at hstop
    split at hstop
    · cases hstop
    · split at hstop <;> cases hstop
  · rename_i hround
    omega

theorem decoded_next {c : Call} (ht : t.calls = s.calls ++ [c]) (h : c.ret ≤ c.outputLen) :
    t.decoded = s.decoded ++ [c.unit] := by
  simp [ThreadRun.decoded, ht, h]

theorem decoded_kept {c : Call} (ht : t.calls = s.calls ++ [c]) (h : c.outputLen < c.ret) :
    t.decoded = s.decoded := by
  simp [ThreadRun.decoded, ht, h]

theorem callsAt_next {c : Call} (ht : t.calls = s.calls ++ [c]) :
    t.callsAt c.decodePos = s.callsAt c.decodePos ++ [c] := by
  simp [ThreadRun.callsAt, ht]

theorem callsAt_kept {c : Call} {pos : Nat} (ht : t.calls = s.calls ++ [c])
    (h : c.decodePos ≠ pos) : t.callsAt pos = s.callsAt pos := by
  simp [ThreadRun.callsAt, ht, h]

/-! ## The invariant -/

/-- What holds at the beginning of every round. -/
structure ThreadRun.Inv (d : Decoder σ) (file : InputFile) (st₀ : σ) (s : ThreadRun σ) : Prop where
  filePos : s.filePos = s.decodePos
  decoder : s.decoder = d.afterAll st₀ s.decoded
  written : s.written = d.outputs st₀ s.decoded
  rest : s.decoded ++ nalLoop find264NALFragment file.data file.data.length s.decodePos =
    singleDecoderTest file.data
  calls_le : ∀ c ∈ s.calls, c.decodePos ≤ s.decodePos
  before : ∀ pos, pos < s.decodePos → AskedAgainOnce (s.callsAt pos)
  -- the unit at `decodePos` has not been asked for, or the buffer was enlarged for it
  current : s.callsAt s.decodePos = [] ∨
    (s.decodePos < file.data.length ∧ 4 ≤ (s.unit file).length) ∧
      ∃ c, s.callsAt s.decodePos = [c] ∧ c.outputLen < c.ret ∧ c.ret = s.outputLen ∧
        c.ret = d.result s.decoder (s.unit file) ∧ c.unit = s.unit file

theorem ThreadRun.inv_start (d : Decoder σ) (file : InputFile) (st₀ : σ) (bitSize : Int) :
    (ThreadRun.start st₀ bitSize).Inv d file st₀ := by
  constructor
  · rfl
  · rfl
  · rfl
  · rw [singleDecoderTest, file.fileSize_eq]
    rfl
  · intro c hc
    cases hc
  · intro pos hpos
    cases hpos
  · exact .inl rfl

/-- The slices from `decodePos` on begin with the unit there. -/
theorem nalLoop_unit (hpos : s.decodePos < file.data.length) (hfour : 4 ≤ (s.unit file).length) :
    nalLoop find264NALFragment file.data file.data.length s.decodePos =
      s.unit file :: nalLoop find264NALFragment file.data file.data.length
        (s.decodePos + (s.unit file).length) := by
  rw [length_unit] at hfour ⊢
  rw [InputFile.nalLoop_eq hpos, if_neg (Nat.not_lt.mpr hfour)]
  rfl

theorem callsAt_eq_nil {pos n : Nat} (h : ∀ c ∈ s.calls, c.decodePos ≤ n) (hpos : n < pos) :
    s.callsAt pos = [] := by
  apply List.filter_eq_nil_iff.mpr
  intro c hc
  have hle := h c hc
  rw [decide_eq_true_iff]
  omega

/-- The call that a round makes is the last one at its position. -/
theorem ThreadRun.Inv.askedAgainOnce (hs : s.Inv d file st₀)
    (hret : d.result s.decoder (s.unit file) ≤ s.outputLen) :
    AskedAgainOnce (s.callsAt s.decodePos ++ [s.nextCall d file]) := by
  rcases hs.current with hnone | ⟨-, c, hone, hlt, hlen, hresult, hunit⟩
  · rw [hnone]
    exact hret
  · rw [hone]
    exact ⟨hlt, hlen.symm, hresult.symm, hunit.symm⟩

theorem ThreadRun.inv_step (hs : s.Inv d file st₀) (hstep : threadStep d file s = some t) :
    t.Inv d file st₀ := by
  obtain ⟨hpos, hfour, hfile, hcalls, hround⟩ := round_of_step hs.filePos hstep
  have hle : ∀ c ∈ t.calls, c.decodePos ≤ s.decodePos := by
    intro c hc
    rw [hcalls] at hc
    rcases List.mem_append.mp hc with hc | hc
    · exact hs.calls_le c hc
    · rw [List.mem_singleton.mp hc]
      exact le_rfl
  have hcall : t.callsAt s.decodePos = s.callsAt s.decodePos ++ [s.nextCall d file] :=
    callsAt_next (c := s.nextCall d file) hcalls
  have hbefore : ∀ pos, pos < s.decodePos → AskedAgainOnce (t.callsAt pos) := by
    intro pos hlt
    rw [callsAt_kept hcalls hlt.ne']
    exact hs.before pos hlt
  cases hround with
  | decoded hret hnext hdecoder hwritten =>
    have hdecoded : t.decoded = s.decoded ++ [s.unit file] := decoded_next hcalls hret
    refine ⟨hfile, ?_, ?_, ?_, ?_, ?_, .inl ?_⟩
    · rw [hdecoded, d.afterAll_append_singleton, ← hs.decoder, hdecoder]
    · rw [hdecoded, d.outputs_append_singleton, ← hs.decoder, ← hs.written, hwritten]
    · rw [hdecoded, ← hs.rest, nalLoop_unit hpos hfour, List.append_assoc, hnext]
      rfl
    · intro c hc
      have := hle c hc
      omega
    · intro pos hlt
      rcases Nat.lt_trichotomy pos s.decodePos with hbelow | rfl | habove
      · exact hbefore pos hbelow
      · rw [hcall]
        exact hs.askedAgainOnce hret
      · -- no call is made inside the unit
        rw [callsAt_eq_nil hle habove]
        trivial
    · exact callsAt_eq_nil hle (by omega)
  | enlarged hret hnext hlen hdecoder hwritten =>
    have hdecoded : t.decoded = s.decoded := decoded_kept hcalls hret
    have hunit : t.unit file = s.unit file := by rw [ThreadRun.unit, hnext, ThreadRun.unit]
    -- the buffer was not enlarged for this unit before
    have hnone : s.callsAt s.decodePos = [] := by
      rcases hs.current with hnone | ⟨-, c, -, -, hsize, hresult, -⟩
      · exact hnone
      · omega
    refine ⟨hfile, ?_, ?_, ?_, ?_, ?_,
      .inr ⟨?_, s.nextCall d file, ?_, hret, hlen.symm, ?_, hunit.symm⟩⟩
    · rw [hdecoded, hdecoder, hs.decoder]
    · rw [hdecoded, hwritten, hs.written]
    · rw [hdecoded, hnext, hs.rest]
    · rw [hnext]
      exact hle
    · rw [hnext]
      exact hbefore
    · rw [hunit, hnext]
      exact ⟨hpos, hfour⟩
    · rw [hnext, hcall, hnone]
      rfl
    · rw [hdecoder, hunit]
      rfl

/-- What is left to do: two calls for each byte of the file, and one more when the buffer is too
small for the next unit. -/
def ThreadRun.remaining (d : Decoder σ) (file : InputFile) (s : ThreadRun σ) : Nat :=
  2 * (file.data.length - s.decodePos) +
    if s.outputLen < d.result s.decoder (s.unit file) then 1 else 0

theorem ThreadRun.remaining_lt (hs : s.Inv d file st₀) (hstep : threadStep d file s = some t) :
    t.remaining d file < s.remaining d file := by
  obtain ⟨hpos, hfour, -, -, hround⟩ := round_of_step hs.filePos hstep
  unfold remaining
  cases hround with
  | decoded hret hnext =>
    rw [hnext]
    split <;> split <;> omega
  | enlarged hret hnext hlen hdecoder =>
    have hunit : t.unit file = s.unit file := by rw [ThreadRun.unit, hnext, ThreadRun.unit]
    rw [hnext, hlen, hdecoder, hunit, if_neg (lt_irrefl _), if_pos hret]
    omega

/-- The loop ends, and a buffer that is too small loses nothing: the units of the file are
decoded once each and in order, their outputs are what the file gets, and for no unit is `decode`
called again but once with the enlarged buffer. -/
theorem decodeThread_decodes (d : Decoder σ) (file : InputFile) (st₀ : σ) (bitSize : Int) :
    ∃ s ∈ eval (threadStep d file) (ThreadRun.start st₀ bitSize),
      s.decoded = singleDecoderTest file.data ∧
      s.written = d.outputs st₀ (singleDecoderTest file.data) ∧
      ∀ pos, AskedAgainOnce (s.callsAt pos) := by
  obtain ⟨s, hs, hinv, hstop⟩ :=
    exists_mem_eval (ThreadRun.remaining d file)
      (fun _ _ hs hstep => ⟨ThreadRun.inv_step hs hstep, ThreadRun.remaining_lt hs hstep⟩)
      (ThreadRun.inv_start d file st₀ bitSize)
  have hend : s.decodePos < file.data.length → (s.unit file).length < 4 :=
    stop_of_step hinv.filePos hstop
  have hdecoded : s.decoded = singleDecoderTest file.data := by
    rw [← hinv.rest, InputFile.nalLoop_eq_nil fun hpos => length_unit file s ▸ hend hpos,
      List.append_nil]
  refine ⟨s, hs, hdecoded, hdecoded ▸ hinv.written, ?_⟩
  intro pos
  rcases Nat.lt_or_ge pos s.decodePos with hbelow | habove
  · exact hinv.before pos hbelow
  · -- nothing is asked for where the loop ends
    have hnone : s.callsAt pos = [] := by
      rcases habove.eq_or_lt with rfl | habove
      · rcases hinv.current with hnone | ⟨⟨hpos, hfour⟩, -⟩
        · exact hnone
        · exact absurd (hend hpos) (Nat.not_lt.mpr hfour)
      · exact callsAt_eq_nil hinv.calls_le habove
    rw [hnone]
    trivial

end

end BoardTest.Video.DecoderTest
