import BoardTest.Lib.While
import BoardTest.Video.Fragments

/-!
# The loop of `singleDecoderTest`

The loop as it runs on a file of any content, with the position of the file and a decoder whose
results may be any: it ends, and what the decoder gets is cut from the file without a gap up to the
place where it ends (`singleDecoderTest_slices`).
-/

namespace BoardTest.Video.DecoderTest

open StateTransition

/-- A file whose size `ftell` gives as an `int`. -/
structure InputFile where
  data : List Byte
  size_le : data.length ≤ 2 ^ 31 - 1

/-- `fread(inputBuf, 1, n, inFile)` at a position of the file. -/
def fread (data : List Byte) (filePos n : Nat) : List Byte := (data.drop filePos).take n

theorem InputFile.fileSize_eq (file : InputFile) : fileSize file.data = file.data.length :=
  Video.fileSize_eq (by have := file.size_le; omega)

/-- What is left of the file. -/
def InputFile.rest (file : InputFile) (decodePos : Nat) : List Byte := file.data.drop decodePos

theorem InputFile.length_rest (file : InputFile) (decodePos : Nat) :
    (file.rest decodePos).length = file.data.length - decodePos := List.length_drop

/-- `readTmpLen` of a round. -/
def InputFile.readLen (file : InputFile) (decodePos : Nat) : Nat :=
  readTmpLen (fileSize file.data) decodePos

section
variable {file : InputFile} {decodePos : Nat}

theorem InputFile.rest_ne_nil (h : decodePos < file.data.length) : file.rest decodePos ≠ [] := by
  have hlen := file.length_rest decodePos
  exact List.ne_nil_of_length_pos (by omega)

theorem InputFile.readLen_eq (h : decodePos < file.data.length) :
    file.readLen decodePos = (window (file.rest decodePos)).length := by
  rw [readLen, file.fileSize_eq, readTmpLen_eq rfl (rest_ne_nil h), rest]

/-- The bytes that are read when the file stands at `decodePos`. -/
theorem InputFile.fread_eq (h : decodePos < file.data.length) :
    fread file.data decodePos (window (file.rest decodePos)).length =
      window (file.rest decodePos) := by
  have hbuf := inputBuf_eq rfl (rest_ne_nil h)
  rw [inputBuf, readTmpLen_eq rfl (rest_ne_nil h)] at hbuf
  exact hbuf

/-- The slices from a position on, one round further. -/
theorem InputFile.nalLoop_eq (h : decodePos < file.data.length) :
    nalLoop find264NALFragment file.data file.data.length decodePos =
      if sliceLen find264NALFragment (file.rest decodePos) < 4 then []
      else slice (file.rest decodePos) ::
        nalLoop find264NALFragment file.data file.data.length
          (decodePos + sliceLen find264NALFragment (file.rest decodePos)) :=
  nalLoop_round rfl (rest_ne_nil h)

/-- Nothing follows at the end of the file or where nothing is cut off. -/
theorem InputFile.nalLoop_eq_nil
    (h : decodePos < file.data.length → sliceLen find264NALFragment (file.rest decodePos) < 4) :
    nalLoop find264NALFragment file.data file.data.length decodePos = [] := by
  by_cases hpos : decodePos < file.data.length
  · rw [nalLoop_eq hpos, if_pos (h hpos)]
  · exact nalLoop_of_le (by omega)

end

/-- `decodePos`, where `inFile` stands, and the packets that `decode` was called with. -/
structure Run where
  decodePos : Nat
  filePos : Nat
  packets : List (List Byte)

def Run.start : Run := ⟨0, 0, []⟩

/-- One round (`decoder_test.cpp:398-429`); `none` is the end of the loop. The result of `decode`
may depend on all that it was called with. `count` is a number for the packet and never read. -/
def singleStep (file : InputFile) (decode : List (List Byte) → Int) (s : Run) : Option Run :=
  if (s.decodePos : Int) < fileSize file.data then
    let readTmpLen := file.readLen s.decodePos
    let inputBuf := fread file.data s.filePos readTmpLen
    let nalLen := nalLen (find264NALFragment inputBuf readTmpLen)
    if nalLen < 4 then none
    else
      let packets := s.packets ++ [inputBuf.take nalLen]
      let ret := decode packets
      if 0 < ret then
        some ⟨s.decodePos + nalLen, s.decodePos + nalLen, packets⟩
      else
        some ⟨s.decodePos + nalLen, s.decodePos + nalLen, packets⟩
  else none

variable {file : InputFile} {decode : List (List Byte) → Int} {s t : Run}

/-- A round cuts the slice off that begins at `decodePos`. -/
theorem singleStep_eq (h : s.filePos = s.decodePos) :
    singleStep file decode s =
      if s.decodePos < file.data.length ∧
          4 ≤ sliceLen find264NALFragment (file.rest s.decodePos) then
        some ⟨s.decodePos + sliceLen find264NALFragment (file.rest s.decodePos),
          s.decodePos + sliceLen find264NALFragment (file.rest s.decodePos),
          s.packets ++ [slice (file.rest s.decodePos)]⟩
      else none := by
  rw [singleStep, file.fileSize_eq, h]
  by_cases hpos : s.decodePos < file.data.length
  · have hlen : nalLen (find264NALFragment (window (file.rest s.decodePos))
        (window (file.rest s.decodePos)).length) =
        sliceLen find264NALFragment (file.rest s.decodePos) := rfl
    simp only [Nat.cast_lt, hpos, if_true, true_and, InputFile.fread_eq hpos,
      InputFile.readLen_eq hpos, hlen, ite_self, ← Nat.not_lt, ite_not]
    rfl
  · simp only [Nat.cast_lt, hpos, if_false, false_and]

/-- What holds at the beginning of every round. -/
structure Run.Inv (file : InputFile) (s : Run) : Prop where
  filePos : s.filePos = s.decodePos
  decodePos_le : s.decodePos ≤ file.data.length
  flatten : s.packets.flatten = file.data.take s.decodePos
  fragments : ∀ p ∈ s.packets, IsFragment p
  rest : s.packets ++ nalLoop find264NALFragment file.data file.data.length s.decodePos =
    singleDecoderTest file.data

theorem Run.inv_start (file : InputFile) : Run.start.Inv file := by
  constructor
  · rfl
  · exact Nat.zero_le _
  · rfl
  · intro p hp
    cases hp
  · rw [singleDecoderTest, file.fileSize_eq]
    rfl

/-- The slice follows on what is already cut off. -/
theorem take_append_slice (file : InputFile) (decodePos : Nat) :
    file.data.take decodePos ++ slice (file.rest decodePos) =
      file.data.take (decodePos + sliceLen find264NALFragment (file.rest decodePos)) := by
  rw [slice_eq_take, InputFile.rest, List.take_add]

theorem Run.inv_step (hs : s.Inv file) (hstep : singleStep file decode s = some t) :
    t.Inv file ∧ file.data.length - t.decodePos < file.data.length - s.decodePos := by
  rw [singleStep_eq hs.filePos] at hstep
  split at hstep
  · rename_i hround
    obtain ⟨hpos, hfour⟩ := hround
    obtain rfl := Option.some.inj hstep
    have hlen := file.length_rest s.decodePos
    have hle := sliceLen_le (file.rest s.decodePos)
    refine ⟨⟨rfl, ?_, ?_, ?_, ?_⟩, ?_⟩
    · change s.decodePos + _ ≤ _
      omega
    · rw [List.flatten_append, hs.flatten, List.flatten_singleton]
      exact take_append_slice file s.decodePos
    · intro p hp
      rcases List.mem_append.mp hp with hp | hp
      · exact hs.fragments p hp
      · rw [List.mem_singleton.mp hp]
        exact isFragment_slice hfour
    · rw [← hs.rest, InputFile.nalLoop_eq hpos, if_neg (Nat.not_lt.mpr hfour), List.append_assoc]
      rfl
    · change _ - (s.decodePos + _) < _
      omega
  · cases hstep

/-- Where the loop is left: at the end of the file, or where nothing is cut off. -/
theorem Run.Inv.stop (hs : s.Inv file) (hstop : singleStep file decode s = none)
    (hpos : s.decodePos < file.data.length) :
    sliceLen find264NALFragment (file.rest s.decodePos) < 4 := by
  rw [singleStep_eq hs.filePos] at hstop
  split at hstop
  · cases hstop
  · rename_i hround
    omega

theorem exists_end (file : InputFile) (decode : List (List Byte) → Int) :
    ∃ s ∈ eval (singleStep file decode) Run.start, s.Inv file ∧ singleStep file decode s = none :=
  exists_mem_eval (fun s : Run => file.data.length - s.decodePos) (fun _ _ => Run.inv_step)
    (Run.inv_start file)

/-- The packets of the run are the slices of the file. -/
theorem packets_eq (hs : s ∈ eval (singleStep file decode) Run.start) :
    s.packets = singleDecoderTest file.data := by
  obtain ⟨t, ht, hinv, hstop⟩ := exists_end file decode
  obtain rfl := Part.mem_unique hs ht
  rw [← hinv.rest, InputFile.nalLoop_eq_nil (hinv.stop hstop), List.append_nil]

/-- The loop ends on every file, whatever it holds and whatever `decode` says: the packets are
the file up to `decodePos`, each of them a fragment, and what follows, if anything does, is too
short for a start code or is none. -/
theorem singleDecoderTest_slices (file : InputFile) (decode : List (List Byte) → Int) :
    ∃ s ∈ eval (singleStep file decode) Run.start,
      s.packets.flatten = file.data.take s.decodePos ∧
      (∀ p ∈ s.packets, IsFragment p) ∧
      s.decodePos ≤ file.data.length ∧
      (s.decodePos < file.data.length →
        file.data.length - s.decodePos < 4 ∨ ¬ kStartCode <+: file.data.drop s.decodePos) := by
  obtain ⟨s, hs, hinv, hstop⟩ := exists_end file decode
  refine ⟨s, hs, hinv.flatten, hinv.fragments, hinv.decodePos_le, ?_⟩
  intro hpos
  right
  have hno := no_start_of_sliceLen_lt (hinv.stop hstop hpos)
  rwa [matchesAt_eq_false_iff, List.drop_zero] at hno

end BoardTest.Video.DecoderTest
