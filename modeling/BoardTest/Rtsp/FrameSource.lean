import BoardTest.Lib.CString
import BoardTest.Lib.Cursor

/-!
# The live source

`H264VideoStreamSource::doGetNextFrame` of `Live555RTSPServer.cpp` serves the requests of the RTP
sink. A request brings a buffer of `fMaxSize` bytes; the source reads as much as the class constant
allows, and returns without a call when nothing has been read. A request is served exactly when the
read brings a byte and no more than there is room for (`served_iff`).
-/

namespace BoardTest.Rtsp

/-- `H264VideoStreamSource::maxFrameSize` -/
def maxFrameSize : Nat := 1572864

/-- What `read` of at most `n` bytes comes to: -1, or the bytes, none at the end. -/
inductive ReadResult (n : Nat)
  | failed
  | read (data : List Byte) (length_le : data.length ≤ n)

/-- The bytes that `read` stores. -/
def ReadResult.data {n : Nat} : ReadResult n → List Byte
  | failed => []
  | read data _ => data

/-- The value of `read`. -/
def ReadResult.value {n : Nat} : ReadResult n → Int
  | failed => -1
  | read data _ => data.length

/-- What completes a request of a `FramedSource`. -/
inductive Completion
  | afterGetting
  | handleClosure
  deriving DecidableEq, Repr

/-- The members of a `FramedSource` that a request sets and an answer changes. -/
structure FramedSource where
  isCurrentlyAwaitingData : Bool
  fTo : List Byte
  fFrameSize : Nat

/-- The size of the buffer `fTo`. -/
def FramedSource.fMaxSize (s : FramedSource) : Nat := s.fTo.length

/-- `doGetNextFrame` (`Live555RTSPServer.cpp:136-159`): the source behind it and the calls it makes.
A read beyond the buffer is undefined. -/
def doGetNextFrame (s : FramedSource) (r : ReadResult (maxFrameSize - 4)) :
    Option (FramedSource × List Completion) :=
  if !s.isCurrentlyAwaitingData then some (s, [])
  else do
    let fTo ← memcpy s.fTo 0 r.data 0 r.data.length
    if r.value ≤ 0 then some ({ s with fTo := fTo, fFrameSize := 0 }, [])
    else some ({ s with fTo := fTo, fFrameSize := r.value.toNat }, [.afterGetting])

/-- A request whose answer keeps to its buffer and is completed once, with `afterGetting` for a
frame and with either call when nothing was read. -/
def Served (s : FramedSource) (r : ReadResult (maxFrameSize - 4)) : Prop :=
  ∃ s' calls, doGetNextFrame s r = some (s', calls) ∧ s'.fFrameSize ≤ s.fMaxSize ∧
    if 0 < r.value then calls = [.afterGetting]
    else calls = [.afterGetting] ∨ calls = [.handleClosure]

/-- The source for which `getNextFrame` calls `doGetNextFrame`, with the buffer of the request. -/
def FramedSource.request (fTo : List Byte) (fFrameSize : Nat) : FramedSource :=
  ⟨true, fTo, fFrameSize⟩

theorem ReadResult.value_nonpos_iff {n : Nat} (r : ReadResult n) :
    r.value ≤ 0 ↔ r.data = [] := by
  cases r with
  | failed => exact iff_of_true (show (-1 : Int) ≤ 0 by decide) rfl
  | read data _ =>
    show (data.length : Int) ≤ 0 ↔ data = []
    rw [← List.length_eq_zero_iff]
    omega

theorem ReadResult.value_eq {n : Nat} {r : ReadResult n} (h : r.data ≠ []) :
    r.value = r.data.length := by
  cases r with
  | failed => exact absurd rfl h
  | read data _ => rfl

/-- The answer to a request. -/
theorem doGetNextFrame_request (fTo : List Byte) (fFrameSize : Nat)
    (r : ReadResult (maxFrameSize - 4)) : doGetNextFrame (.request fTo fFrameSize) r =
      if r.data.length ≤ fTo.length then
        some (⟨true, r.data ++ fTo.drop r.data.length, r.data.length⟩,
          if r.data = [] then [] else [.afterGetting])
      else none := by
  by_cases hroom : r.data.length ≤ fTo.length
  · have hcopy : memcpy fTo 0 r.data 0 r.data.length =
        some (r.data ++ fTo.drop r.data.length) := by
      rw [memcpy_of_le (by omega) (by omega)]
      simp
    rw [if_pos hroom]
    by_cases hnil : r.data = []
    · have hvalue := r.value_nonpos_iff.mpr hnil
      simp [doGetNextFrame, FramedSource.request, hvalue, hnil, memcpy_zero]
    · have hvalue := ReadResult.value_eq hnil
      simp [doGetNextFrame, FramedSource.request, hvalue, hnil, hcopy]
  · have hcopy : memcpy fTo 0 r.data 0 r.data.length = none := by
      rw [memcpy, if_neg (by omega), if_neg (by omega)]
    rw [if_neg hroom]
    simp [doGetNextFrame, FramedSource.request, hcopy]

/-- A request that is served has brought something that fits. -/
theorem fits_of_served {fTo : List Byte} {fFrameSize : Nat} {r : ReadResult (maxFrameSize - 4)}
    (h : Served (.request fTo fFrameSize) r) : 0 < r.value ∧ r.value ≤ fTo.length := by
  obtain ⟨s', calls, hcall, -, hcalls⟩ := h
  rw [doGetNextFrame_request] at hcall
  split at hcall
  · next hroom =>
    cases hcall
    have hne : r.data ≠ [] := by
      intro hnil
      have hvalue := r.value_nonpos_iff.mpr hnil
      rw [if_neg (by omega), if_pos hnil] at hcalls
      simp at hcalls
    have hvalue := ReadResult.value_eq hne
    have hpos := List.length_pos_iff.mpr hne
    omega
  · cases hcall

/-- A request is served exactly when the read brings at least one byte and at most
`fMaxSize`. -/
theorem served_iff (fTo : List Byte) (fFrameSize : Nat) (r : ReadResult (maxFrameSize - 4)) :
    Served (.request fTo fFrameSize) r ↔ 0 < r.value ∧ r.value ≤ fTo.length := by
  refine ⟨fits_of_served, ?_⟩
  rintro ⟨hpos, hle⟩
  have hne : r.data ≠ [] := mt r.value_nonpos_iff.mpr (by omega)
  have hvalue := ReadResult.value_eq hne
  have hroom : r.data.length ≤ fTo.length := by omega
  refine ⟨_, _, (doGetNextFrame_request fTo fFrameSize r).trans (if_pos hroom), hroom, ?_⟩
  rw [if_pos hpos, if_neg hne]

/-- At the end of the stream the request is left pending. -/
theorem eof_not_served : ¬ ∀ fTo fFrameSize r, Served (.request fTo fFrameSize) r := by
  intro h
  have hpos := (fits_of_served (h [0] 0 (.read [] (by decide)))).1
  exact absurd hpos (by decide)

end BoardTest.Rtsp
