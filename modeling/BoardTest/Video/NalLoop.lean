import BoardTest.Lib.Scan

/-!
# Cutting a stream file into NAL units

`decoder_test` and `stream_player_test` read a stream through a window of `DEFAULT_BUF_LEN` bytes:
they look for the next start code in the window, pass on the bytes before it and move the file
position behind them. `nalLoop` is that loop, for either program's `find264NALFragment`.
-/

namespace BoardTest.Video

def kStartCode : List Byte := [0, 0, 0, 1]

def kStartCodeLegecy : List Byte := [0, 0, 1]

/-- `#define DEFAULT_BUF_LEN (500*1024)` -/
def defaultBufLen : Nat := 500 * 1024

/-- `find264NALFragment(data, size, &fragSize)`: an error code, or the size of the fragment and the
type of its unit. -/
abbrev FindFragment := List Byte → Nat → Except Int (Nat × Int)

/-- `nalLen`, which stays 0 when no fragment is found. -/
def nalLen (result : Except Int (Nat × Int)) : Nat :=
  match result with
  | .ok (fragSize, _) => fragSize
  | .error _ => 0

/-- `int fileSize = ftell(inFile)` -/
def fileSize (file : List Byte) : Int := Int.bmod file.length (2 ^ 32)

/-- `(fileSize - decodePos) < intputLen ? (fileSize - decodePos) : intputLen` -/
def readTmpLen (fileSize : Int) (decodePos : Nat) : Nat :=
  if fileSize - decodePos < defaultBufLen then (fileSize - decodePos).toNat else defaultBufLen

/-- `inputBuf` after `fread(inputBuf, 1, readTmpLen, inFile)`. -/
def inputBuf (file : List Byte) (fileSize : Int) (decodePos : Nat) : List Byte :=
  (file.drop decodePos).take (readTmpLen fileSize decodePos)

/-- The length of the fragment at the start of the window. -/
def fragmentLen (find : FindFragment) (file : List Byte) (fileSize : Int) (decodePos : Nat) : Nat :=
  nalLen (find (inputBuf file fileSize decodePos) (readTmpLen fileSize decodePos))

/-- The loop from a file position on: the slices it passes to the decoder
(`decoder_test.cpp:398-429`, `stream_player_test.cpp:397-414`). `decodePos` never passes `fileSize`,
so it does not overflow. -/
def nalLoop (find : FindFragment) (file : List Byte) (fileSize : Int) (decodePos : Nat) :
    List (List Byte) :=
  if (decodePos : Int) < fileSize then
    if fragmentLen find file fileSize decodePos < 4 then []
    else
      (inputBuf file fileSize decodePos).take (fragmentLen find file fileSize decodePos) ::
        nalLoop find file fileSize (decodePos + fragmentLen find file fileSize decodePos)
  else []
termination_by (fileSize - decodePos).toNat

/-- Behind the end of the file nothing is passed on. -/
theorem nalLoop_of_le {find : FindFragment} {file : List Byte} {fileSize : Int} {decodePos : Nat}
    (h : fileSize ≤ decodePos) : nalLoop find file fileSize decodePos = [] := by
  rw [nalLoop, if_neg (by omega)]

/-- The loop never passes on more bytes than the size it takes the file to have. -/
theorem length_flatten_nalLoop_le (find : FindFragment) (file : List Byte) (fileSize : Int)
    (decodePos : Nat) :
    (nalLoop find file fileSize decodePos).flatten.length ≤ (fileSize - decodePos).toNat := by
  fun_induction nalLoop find file fileSize decodePos with
  | case1 => simp
  | case2 pos hpos hlen ih =>
    have hbuf : (inputBuf file fileSize pos).length ≤ (fileSize - pos).toNat := by
      have htake : (inputBuf file fileSize pos).length ≤ readTmpLen fileSize pos :=
        List.length_take_le _ _
      have hread : readTmpLen fileSize pos ≤ (fileSize - pos).toNat := by
        unfold readTmpLen
        split <;> omega
      omega
    simp only [List.flatten_cons, List.length_append, List.length_take]
    omega
  | case3 => simp

/-- What the window shows of the rest `s` of the file. -/
def window (s : List Byte) : List Byte := s.take defaultBufLen

/-- The length of the fragment that is found at the start of `s`. -/
def sliceLen (find : FindFragment) (s : List Byte) : Nat :=
  nalLen (find (window s) (window s).length)

/-- `readTmpLen` is the length of the window when the size of the file is right: `s` is what is left
of the file. -/
theorem readTmpLen_eq {file s : List Byte} {decodePos : Nat} (hs : file.drop decodePos = s)
    (hne : s ≠ []) : readTmpLen file.length decodePos = (window s).length := by
  have hlen : s.length = file.length - decodePos := by rw [← hs, List.length_drop]
  have hpos := List.length_pos_iff.mpr hne
  rw [readTmpLen, window, List.length_take]
  split <;> omega

theorem inputBuf_eq {file s : List Byte} {decodePos : Nat} (hs : file.drop decodePos = s)
    (hne : s ≠ []) : inputBuf file file.length decodePos = window s := by
  rw [inputBuf, readTmpLen_eq hs hne, hs, window, List.length_take, List.take_eq_take_iff]
  omega

theorem fragmentLen_eq {find : FindFragment} {file s : List Byte} {decodePos : Nat}
    (hs : file.drop decodePos = s) (hne : s ≠ []) :
    fragmentLen find file file.length decodePos = sliceLen find s := by
  rw [fragmentLen, inputBuf_eq hs hne, readTmpLen_eq hs hne, sliceLen]

/-- One round of the loop when the size of the file is right. -/
theorem nalLoop_round {find : FindFragment} {file s : List Byte} {decodePos : Nat}
    (hs : file.drop decodePos = s) (hne : s ≠ []) :
    nalLoop find file file.length decodePos =
      if sliceLen find s < 4 then []
      else (window s).take (sliceLen find s) ::
        nalLoop find file file.length (decodePos + sliceLen find s) := by
  have hlen : s.length = file.length - decodePos := by rw [← hs, List.length_drop]
  have hpos := List.length_pos_iff.mpr hne
  rw [nalLoop, if_pos (by omega), inputBuf_eq hs hne, fragmentLen_eq hs hne]

theorem fileSize_eq {file : List Byte} (h : file.length < 2 ^ 31) :
    fileSize file = file.length := by
  have hlow : -(((2 ^ 32 : Nat) : Int) / 2) ≤ file.length := by omega
  have hhigh : (file.length : Int) < (((2 ^ 32 : Nat) : Int) + 1) / 2 := by omega
  exact Int.bmod_eq_of_le hlow hhigh

/-- From 2³¹ bytes on the size of the file is taken for a smaller number. -/
theorem fileSize_lt {file : List Byte} (h : 2 ^ 31 ≤ file.length) :
    fileSize file < file.length := by
  have hlt : fileSize file < (((2 ^ 32 : Nat) : Int) + 1) / 2 := Int.bmod_lt (by omega)
  omega

/-- A stream that large is not passed on whole. -/
theorem nalLoop_ne_of_large {find : FindFragment} {units : List (List Byte)}
    (h : 2 ^ 31 ≤ units.flatten.length) :
    nalLoop find units.flatten (fileSize units.flatten) 0 ≠ units := by
  intro heq
  have hlt := fileSize_lt h
  have hle := length_flatten_nalLoop_le find units.flatten (fileSize units.flatten) 0
  rw [heq] at hle
  omega

end BoardTest.Video
