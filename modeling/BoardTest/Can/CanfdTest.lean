import BoardTest.Lib.CString
import BoardTest.Lib.Totals
import Mathlib.Data.List.GetD

/-!
# The counters of the CAN FD test

`fltest_canfdtest/canfdtest.c`: the sender writes frames to one socket, the receiver reads them from
another one, and `sigterm` prints four counters. The receiver reads every frame into one static
buffer and checks all 64 bytes of it, whatever the length of the frame; the sender counts every
write, and every failed one as a full queue. A signed counter that overflows is undefined behaviour
and gives `none`.
-/

namespace BoardTest.Can

def intMax : Nat := 2147483647

/-- `ENOBUFS` of Linux. -/
def enobufs : Nat := 105

/-- `CANFD_MTU` -/
def canfdMtu : Int := 72

/-- How the sender's `write` ends: the whole frame, less than that, or -1 with an `errno`. -/
inductive WriteResult
  | full
  | short (n : Fin 72)
  | failed (errno : Nat)
  deriving DecidableEq

def WriteResult.nbytes : WriteResult → Int
  | .full => canfdMtu
  | .short n => n.val
  | .failed _ => -1

/-- A frame as the receiver's `read` brings it: the data field of `struct can_frame` or of
`struct canfd_frame`, of which `len` bytes are the frame's own. -/
structure CanFrame where
  data : List Byte
  len : Nat
  size : data.length = 8 ∨ data.length = 64
  len_le : len ≤ data.length

/-- The counters, and `frame.data` of the receiver. -/
structure State where
  writeCount : Nat
  enobufsCount : Nat
  readCount : Nat
  errCount : Nat
  data : List Byte
  deriving DecidableEq

/-- All static, so zero at the start. -/
def State.init : State := ⟨0, 0, 0, 0, List.replicate 64 0⟩

/-- `read(s, &frame, sizeof(frame))` -/
def receive (data : List Byte) (f : CanFrame) : List Byte := f.data ++ data.drop f.data.length

/-- `++` on an `int`. -/
def incr (c : Nat) : Option Nat := if c < intMax then some (c + 1) else none

/-- What a byte at a position is compared with. -/
def pattern (i : Nat) : Nat := i + 0x10

/-- The loop over `frame.data` (`canfdtest.c:135-140`). -/
def countErrors (data : List Byte) (errCount : Nat) : Option Nat :=
  (List.range 64).foldlM
    (fun e i => if (data.getD i 0).toNat = pattern i then some e else incr e) errCount

/-- What happens to one of the two threads. -/
inductive Event
  | write (r : WriteResult)
  | read (f : CanFrame)
  /-- a `read` that brings nothing -/
  | noFrame

/-- One round of a thread: `canfdtest.c:243-255` and `canfdtest.c:131-143`. -/
def State.step (s : State) : Event → Option State
  | .write r => do
    let enobufsCount :=
      if r.nbytes < 0 then (s.enobufsCount + 1) % 2 ^ 64 else s.enobufsCount
    let writeCount ← incr s.writeCount
    pure { s with enobufsCount, writeCount }
  | .read f => do
    let data := receive s.data f
    let errCount ← countErrors data s.errCount
    let readCount ← incr s.readCount
    pure { s with data, errCount, readCount }
  | .noFrame => pure s

def State.run (s : State) (es : List Event) : Option State := es.foldlM State.step s

/-- The receiver's buffer behind an event. -/
def nextData (data : List Byte) : Event → List Byte
  | .read f => receive data f
  | _ => data

/-- The positions below `n` at which a buffer does not hold the pattern. -/
def mismatches (data : List Byte) (n : Nat) : Nat :=
  (List.range n).countP fun i => (data.getD i 0).toNat ≠ pattern i

/-- The writes, and those of the whole frame. -/
def writes (_ : List Byte) : Event → Nat
  | .write _ => 1
  | _ => 0

def fullWrites (_ : List Byte) : Event → Nat
  | .write .full => 1
  | _ => 0

def failedWrites (_ : List Byte) : Event → Nat
  | .write (.failed _) => 1
  | _ => 0

/-- The writes that failed because of a full queue. -/
def queueFull (_ : List Byte) : Event → Nat
  | .write (.failed errno) => if errno = enobufs then 1 else 0
  | _ => 0

def frames (_ : List Byte) : Event → Nat
  | .read _ => 1
  | _ => 0

/-- The mismatches in the buffer, and those in the frame's own bytes. -/
def bufferErrors (data : List Byte) : Event → Nat
  | .read f => mismatches (receive data f) 64
  | _ => 0

def frameErrors (_ : List Byte) : Event → Nat
  | .read f => mismatches f.data f.len
  | _ => 0

/-- The sum of a measure over a run of the program. -/
def count (m : List Byte → Event → Nat) (es : List Event) : Nat :=
  total nextData m State.init.data es

/-- The report says how many frames were written, how many writes found the queue full, how many
frames came in, and how many of their bytes were wrong. -/
def Truthful (es : List Event) : Prop :=
  ∃ s, State.init.run es = some s ∧ s.writeCount = count fullWrites es ∧
    s.enobufsCount = count queueFull es ∧ s.readCount = count frames es ∧
    s.errCount = count frameErrors es

/-- No counter has overflowed. -/
structure State.Valid (s : State) : Prop where
  writeCount : s.writeCount ≤ intMax
  readCount : s.readCount ≤ intMax
  errCount : s.errCount ≤ intMax

theorem incr_eq_some {c c' : Nat} : incr c = some c' ↔ c' = c + 1 ∧ c' ≤ intMax := by
  rw [incr]
  split
  · rw [Option.some_inj]
    omega
  · simp only [reduceCtorEq, false_iff]
    omega

/-- The loop adds the mismatches, as far as they fit. -/
theorem foldlM_incr {p : Nat → Prop} [DecidablePred p] (l : List Nat) {e e' : Nat}
    (he : e ≤ intMax) : l.foldlM (fun e i => if p i then some e else incr e) e = some e' ↔
      e' = e + l.countP (fun i => ¬ p i) ∧ e' ≤ intMax := by
  induction l generalizing e with
  | nil =>
    simp only [List.foldlM_nil, List.countP_nil, Nat.add_zero]
    constructor
    · rintro ⟨⟩
      exact ⟨rfl, he⟩
    · rintro ⟨rfl, -⟩
      rfl
  | cons i l ih =>
    rw [List.foldlM_cons]
    by_cases hp : p i
    · rw [if_pos hp, List.countP_cons_of_neg (by simpa using hp)]
      exact ih he
    · rw [if_neg hp, List.countP_cons_of_pos (by simpa using hp)]
      cases hi : incr e with
      | none =>
        have hfull : ¬ e < intMax := by
          intro hlt
          rw [incr, if_pos hlt] at hi
          cases hi
        simp only [Option.bind_eq_bind, Option.bind_none, reduceCtorEq, false_iff]
        omega
      | some e₁ =>
        obtain ⟨rfl, hle⟩ := incr_eq_some.mp hi
        rw [Option.bind_eq_bind, Option.bind_some, ih hle]
        constructor <;> rintro ⟨h, h'⟩ <;> exact ⟨by omega, h'⟩

theorem countErrors_eq_some {data : List Byte} {e e' : Nat} (he : e ≤ intMax) :
    countErrors data e = some e' ↔ e' = e + mismatches data 64 ∧ e' ≤ intMax :=
  foldlM_incr _ he

/-- What a step adds to the counters. -/
theorem State.step_some {s s' : State} {e : Event} (hs : s.Valid) (h : s.step e = some s') :
    (s'.writeCount = s.writeCount + writes s.data e ∧
      s'.readCount = s.readCount + frames s.data e ∧
      s'.errCount = s.errCount + bufferErrors s.data e) ∧
    s'.data = nextData s.data e ∧ s'.Valid ∧
    (failedWrites s.data e = 0 → s'.enobufsCount = s.enobufsCount) := by
  cases e with
  | write r =>
    simp only [step, Option.bind_eq_bind, Option.bind_eq_some_iff, incr_eq_some] at h
    obtain ⟨w, ⟨rfl, hw⟩, h⟩ := h
    cases h
    refine ⟨⟨rfl, rfl, rfl⟩, rfl, ⟨hw, hs.readCount, hs.errCount⟩, ?_⟩
    intro hr
    cases r with
    | full => rfl
    | short n =>
      have hn : ¬ (WriteResult.short n).nbytes < 0 := by
        simp only [WriteResult.nbytes]
        omega
      simp [hn]
    | failed errno => simp [failedWrites] at hr
  | read f =>
    simp only [step, Option.bind_eq_bind, Option.bind_eq_some_iff, incr_eq_some,
      countErrors_eq_some hs.errCount] at h
    obtain ⟨err, ⟨rfl, herr⟩, r, ⟨rfl, hr⟩, h⟩ := h
    cases h
    exact ⟨⟨rfl, rfl, rfl⟩, rfl, ⟨hs.writeCount, hr, herr⟩, fun _ => rfl⟩
  | noFrame =>
    cases h
    exact ⟨⟨rfl, rfl, rfl⟩, rfl, hs, fun _ => rfl⟩

/-- A step goes through when the counters have room. -/
theorem State.exists_step {s : State} {e : Event} (hs : s.Valid)
    (hw : s.writeCount + writes s.data e ≤ intMax) (hr : s.readCount + frames s.data e ≤ intMax)
    (herr : s.errCount + bufferErrors s.data e ≤ intMax) : ∃ s', s.step e = some s' := by
  cases e with
  | write r =>
    have hincr : incr s.writeCount = some (s.writeCount + 1) := incr_eq_some.mpr ⟨rfl, hw⟩
    exact ⟨_, by rw [step, hincr]; rfl⟩
  | read f =>
    have hcount : countErrors (receive s.data f) s.errCount = some _ :=
      (countErrors_eq_some hs.errCount).mpr ⟨rfl, herr⟩
    have hincr : incr s.readCount = some (s.readCount + 1) := incr_eq_some.mpr ⟨rfl, hr⟩
    exact ⟨_, by simp only [step, hcount, hincr]; rfl⟩
  | noFrame => exact ⟨s, rfl⟩

/-- What a run adds to the counters. -/
theorem State.run_some {s s' : State} {es : List Event} (hs : s.Valid) (h : s.run es = some s') :
    (s'.writeCount = s.writeCount + total nextData writes s.data es ∧
      s'.readCount = s.readCount + total nextData frames s.data es ∧
      s'.errCount = s.errCount + total nextData bufferErrors s.data es) ∧
    s'.Valid ∧
    (Along nextData (fun data e => failedWrites data e = 0) s.data es →
      s'.enobufsCount = s.enobufsCount) := by
  induction es generalizing s with
  | nil =>
    cases h
    exact ⟨⟨rfl, rfl, rfl⟩, hs, fun _ => rfl⟩
  | cons e es ih =>
    rw [run, List.foldlM_cons, Option.bind_eq_bind, Option.bind_eq_some_iff] at h
    obtain ⟨s₁, hstep, hrun⟩ := h
    obtain ⟨⟨hw, hr, herr⟩, hdata, hs₁, hq⟩ := step_some hs hstep
    obtain ⟨⟨hw', hr', herr'⟩, hs', hq'⟩ := ih hs₁ hrun
    rw [hdata] at hw' hr' herr' hq'
    refine ⟨⟨?_, ?_, ?_⟩, hs', ?_⟩
    · rw [hw', hw, total, Nat.add_assoc]
    · rw [hr', hr, total, Nat.add_assoc]
    · rw [herr', herr, total, Nat.add_assoc]
    · rintro ⟨hfirst, hrest⟩
      rw [hq' hrest, hq hfirst]

theorem State.exists_run {s : State} {es : List Event} (hs : s.Valid)
    (hw : s.writeCount + total nextData writes s.data es ≤ intMax)
    (hr : s.readCount + total nextData frames s.data es ≤ intMax)
    (herr : s.errCount + total nextData bufferErrors s.data es ≤ intMax) :
    ∃ s', s.run es = some s' := by
  induction es generalizing s with
  | nil => exact ⟨s, rfl⟩
  | cons e es ih =>
    rw [total] at hw hr herr
    obtain ⟨s₁, hstep⟩ := exists_step hs (e := e) (by omega) (by omega) (by omega)
    obtain ⟨⟨hw₁, hr₁, herr₁⟩, hdata, hs₁, -⟩ := step_some hs hstep
    obtain ⟨s', hrun⟩ := ih hs₁ (by rw [hw₁, hdata]; omega) (by rw [hr₁, hdata]; omega)
      (by rw [herr₁, hdata]; omega)
    refine ⟨s', ?_⟩
    rw [run, List.foldlM_cons, hstep]
    exact hrun

/-! ## When the report is truthful -/

/-- A step that is counted as it should be: the whole frame is written; behind the bytes of the
frame that is read the buffer holds the pattern. -/
def Meets (data : List Byte) : Event → Prop
  | .write r => r = .full
  | .read f => ∀ i, f.len ≤ i → i < 64 → ((receive data f).getD i 0).toNat = pattern i
  | .noFrame => True

theorem fullWrites_le (data : List Byte) (e : Event) : fullWrites data e ≤ writes data e := by
  cases e with
  | write r => cases r <;> simp [fullWrites, writes]
  | read f => exact le_rfl
  | noFrame => exact le_rfl

/-- The first bytes of the buffer are those of the frame. -/
theorem receive_getD {data : List Byte} {f : CanFrame} {i : Nat} (hi : i < f.len) :
    (receive data f).getD i 0 = f.data.getD i 0 := by
  have hlen := f.len_le
  rw [receive, List.getD_append _ _ _ _ (by omega)]

/-- The mismatches in the buffer are those in the frame and those behind it. -/
theorem mismatches_receive (data : List Byte) (f : CanFrame) :
    mismatches (receive data f) 64 = mismatches f.data f.len +
      (List.range' f.len (64 - f.len)).countP
        fun i => ((receive data f).getD i 0).toNat ≠ pattern i := by
  have hlen : f.len ≤ 64 := by
    have := f.len_le
    have := f.size
    omega
  have hsplit : List.range 64 = List.range f.len ++ List.range' f.len (64 - f.len) := by
    have happend := List.range'_append_1 (s := 0) (m := f.len) (n := 64 - f.len)
    rw [Nat.zero_add, Nat.add_sub_cancel' hlen] at happend
    rw [List.range_eq_range', List.range_eq_range', happend]
  rw [mismatches, hsplit, List.countP_append, mismatches]
  congr 1
  apply List.countP_congr
  intro i hi
  rw [receive_getD (List.mem_range.mp hi)]

theorem frameErrors_le (data : List Byte) (e : Event) :
    frameErrors data e ≤ bufferErrors data e := by
  cases e with
  | write r => exact le_rfl
  | read f =>
    rw [frameErrors, bufferErrors, mismatches_receive]
    exact Nat.le_add_right _ _
  | noFrame => exact le_rfl

/-- A step meets the condition when what it counts is what there was to count. -/
theorem meets_iff (data : List Byte) (e : Event) : Meets data e ↔
    fullWrites data e = writes data e ∧ frameErrors data e = bufferErrors data e := by
  cases e with
  | write r => cases r <;> simp [Meets, fullWrites, writes, frameErrors, bufferErrors]
  | read f =>
    rw [frameErrors, bufferErrors, mismatches_receive, Meets]
    simp only [fullWrites, writes, true_and, Nat.left_eq_add, List.countP_eq_zero,
      List.mem_range'_1, decide_eq_true_eq, not_not, ne_eq]
    constructor
    · intro h i hi
      exact h i hi.1 (by omega)
    · intro h i hi hi'
      exact h i ⟨hi, by omega⟩
  | noFrame => simp [Meets, fullWrites, writes, frameErrors, bufferErrors]

/-- A step that meets the condition fails no write. -/
theorem Meets.no_failure {data : List Byte} {e : Event} (h : Meets data e) :
    failedWrites data e = 0 ∧ queueFull data e = 0 := by
  cases e with
  | write r =>
    obtain rfl : r = .full := h
    exact ⟨rfl, rfl⟩
  | read f => exact ⟨rfl, rfl⟩
  | noFrame => exact ⟨rfl, rfl⟩

theorem State.init_valid : State.init.Valid := ⟨by decide, by decide, by decide⟩

/-- The report of a run is truthful exactly when all its steps meet the condition, and the run
is not so long that a counter overflows. -/
theorem report_truthful_iff (es : List Event) : Truthful es ↔
    Along nextData Meets State.init.data es ∧ count fullWrites es ≤ intMax ∧
      count frames es ≤ intMax ∧ count frameErrors es ≤ intMax := by
  have hmeets : Along nextData Meets State.init.data es ↔
      count fullWrites es = count writes es ∧ count frameErrors es = count bufferErrors es := by
    rw [count, count, count, count, total_eq_iff fullWrites_le, total_eq_iff frameErrors_le,
      ← along_and]
    constructor
    · exact Along.mono fun data e h => (meets_iff data e).mp h
    · exact Along.mono fun data e h => (meets_iff data e).mpr h
  have hzero : State.init.writeCount = 0 ∧ State.init.readCount = 0 ∧ State.init.errCount = 0 ∧
      State.init.enobufsCount = 0 := ⟨rfl, rfl, rfl, rfl⟩
  constructor
  · rintro ⟨s, hrun, hw, -, hr, herr⟩
    obtain ⟨⟨hw', hr', herr'⟩, hs, -⟩ := State.run_some State.init_valid hrun
    have := hs.writeCount
    have := hs.readCount
    have := hs.errCount
    rw [hmeets]
    simp only [count] at *
    omega
  · rintro ⟨hall, hw, hr, herr⟩
    obtain ⟨hwrites, herrors⟩ := hmeets.mp hall
    have hroom : count writes es ≤ intMax ∧ count bufferErrors es ≤ intMax := by omega
    simp only [count] at hw hr herr hwrites herrors hroom
    obtain ⟨s, hrun⟩ : ∃ s, State.init.run es = some s :=
      State.exists_run State.init_valid (by omega) (by omega) (by omega)
    obtain ⟨⟨hw', hr', herr'⟩, -, hq⟩ := State.run_some State.init_valid hrun
    have hfailed : s.enobufsCount = 0 := hq (hall.mono fun data e h => h.no_failure.1)
    have hqueue : count queueFull es = 0 :=
      total_eq_zero (hall.mono fun data e h => h.no_failure.2)
    refine ⟨s, hrun, ?_, ?_, ?_, ?_⟩
    · rw [count]
      omega
    · rw [hfailed, hqueue]
    · rw [count]
      omega
    · rw [count]
      omega

/-- A write that finds the queue full is reported as a frame written. -/
theorem failed_write_not_truthful : ¬ ∀ es : List Event, Truthful es := by
  intro h
  obtain ⟨s, hrun, hw, -⟩ := h [.write (.failed enobufs)]
  have hone : State.init.run [.write (.failed enobufs)] =
      some ⟨1, 1, 0, 0, List.replicate 64 0⟩ := rfl
  rw [hone] at hrun
  cases hrun
  exact absurd hw (by decide)

end BoardTest.Can
