import BoardTest.Lib.CString
import BoardTest.Lib.Lines

/-!
# `serial_read`

The loop of `serial_read.c` reads a chunk of the port and goes over its bytes: a LF prints
`line_buffer`, another byte is stored while there is room for it and its NUL. Between two rounds
`line_buffer` and `line_index` are those of an open line (`State.ofOpen`), whatever chunks it came
in, and a round is its bytes one by one (`run_eq_takeBytes`).
-/

namespace BoardTest.Uart.SerialRead

/-- A chunk as `read(fd, buffer, sizeof(buffer) - 1)` stores it in `buffer`. -/
structure Chunk where
  buffer : List Byte
  one_le : 1 ≤ buffer.length
  le_request : buffer.length ≤ 255
  zero_notMem : 0 ∉ buffer

/-- What `read` returns. -/
inductive ReadResult
  | failed
  | zero
  | chunk (c : Chunk)

/-- The variables that live on from round to round, and the lines printed. -/
structure State where
  line_buffer : List Byte
  length_line_buffer : line_buffer.length = 256
  line_index : Nat
  printed : List (List Byte)

theorem length_zeros : (List.replicate 256 (0 : Byte)).length = 256 := List.length_replicate

/-- Lines 65 and 66. -/
def start : State := ⟨List.replicate 256 0, length_zeros, 0, []⟩

/-- `line_buffer[i] = c`, which has no meaning where `i` leaves the array. -/
def State.store (s : State) (i : Nat) (c : Byte) : Option State :=
  if i < 256 then
    some { s with
      line_buffer := s.line_buffer.set i c
      length_line_buffer := by rw [List.length_set, s.length_line_buffer] }
  else none

/-- `printf("接收到: %s\n", line)`. -/
def received (line : List Byte) : List Byte := sprintf "接收到: %s\n" [line]

/-- `printf` of `line_buffer`, which has to find its NUL in the array. -/
def State.print (s : State) : Option State :=
  if 0 ∈ s.line_buffer then
    some { s with printed := s.printed ++ [received (cstr s.line_buffer)] }
  else none

/-- `line_index = 0` and the `memset`. -/
def State.clear (s : State) : State :=
  { s with
    line_buffer := List.replicate 256 0
    length_line_buffer := length_zeros
    line_index := 0 }

/-- The body of the `for` loop (lines 72 to 84), for the byte `buffer[i]`. -/
def takeByte (s : State) (b : Byte) : Option State :=
  if b = 10 then
    ((s.store s.line_index 0).bind State.print).map State.clear
  else if s.line_index < 256 - 1 then
    (s.store s.line_index b).map fun t => { t with line_index := t.line_index + 1 }
  else some s

/-- The `for` loop. -/
def takeBytes (s : State) (buffer : List Byte) : Option State := buffer.foldlM takeByte s

/-- A round of `while (1)` (lines 69 to 86). -/
def round (s : State) : ReadResult → Option State
  | .failed | .zero => some s
  | .chunk c => takeBytes s c.buffer

/-- The rounds in which `read` returns `rs`. -/
def run (s : State) (rs : List ReadResult) : Option State := rs.foldlM round s

/-- The bytes that a result brings. -/
def ReadResult.bytes : ReadResult → List Byte
  | .failed | .zero => []
  | .chunk c => c.buffer

/-- The concatenation of the chunks. -/
def stream (rs : List ReadResult) : List Byte := rs.flatMap ReadResult.bytes

theorem zero_notMem_stream (rs : List ReadResult) : 0 ∉ stream rs := by
  intro h
  obtain ⟨r, -, hr⟩ := List.mem_flatMap.mp h
  cases r with
  | failed | zero => exact List.not_mem_nil hr
  | chunk c => exact c.zero_notMem hr

theorem round_eq_takeBytes (s : State) (r : ReadResult) : round s r = takeBytes s r.bytes := by
  cases r with
  | failed | zero => rfl
  | chunk c => rfl

theorem takeBytes_append (s : State) (q t : List Byte) :
    takeBytes s (q ++ t) = (takeBytes s q).bind fun u => takeBytes u t :=
  List.foldlM_append

/-- The rounds do what the stream does byte by byte: no round knows where a chunk ends. -/
theorem run_eq_takeBytes (s : State) (rs : List ReadResult) :
    run s rs = takeBytes s (stream rs) := by
  induction rs generalizing s with
  | nil => rfl
  | cons r rs ih =>
    have hrest : run s (r :: rs) = (round s r).bind fun t => run t rs := List.foldlM_cons
    rw [hrest, round_eq_takeBytes, stream, List.flatMap_cons, takeBytes_append]
    exact congrArg _ (funext ih)

/-! ## The open line -/

/-- The first 255 bytes, for which `line_buffer` has room. -/
def clip (line : List Byte) : List Byte := line.take 255

theorem length_clip_lt (line : List Byte) : (clip line).length < 256 := by
  rw [clip, List.length_take]
  omega

/-- The state when `p` has come of a line. -/
def State.ofOpen (p : List Byte) (printed : List (List Byte)) : State :=
  ⟨cbuf 256 (clip p), length_cbuf (length_clip_lt p).le, (clip p).length, printed⟩

theorem start_eq_ofOpen : start = State.ofOpen [] [] := rfl

variable {p : List Byte} {out : List (List Byte)}

theorem takeByte_lf (hp : 0 ∉ p) :
    takeByte (State.ofOpen p out) 10 = some (State.ofOpen [] (out ++ [received (clip p)])) := by
  have hstore : (State.ofOpen p out).store (clip p).length 0 = some (State.ofOpen p out) := by
    rw [State.store, if_pos (length_clip_lt p)]
    simp only [State.ofOpen, cbuf_set_zero (length_clip_lt p)]
  have hclip : 0 ∉ clip p := fun h => hp (List.mem_of_mem_take h)
  have hprint : (State.ofOpen p out).print =
      some (State.ofOpen p (out ++ [received (clip p)])) := by
    have hzero : 0 ∈ cbuf 256 (clip p) := by
      refine List.mem_append_right _ (List.mem_replicate.mpr ⟨?_, rfl⟩)
      have := length_clip_lt p
      omega
    rw [State.print, State.ofOpen, if_pos hzero, cstr_cbuf hclip]
    rfl
  rw [takeByte, if_pos rfl]
  change (((State.ofOpen p out).store (clip p).length 0).bind _).map _ = _
  rw [hstore, Option.bind_some, hprint]
  rfl

theorem clip_append_singleton_of_lt {b : Byte} (h : p.length < 255) :
    clip (p ++ [b]) = clip p ++ [b] := by
  rw [clip, clip, List.take_of_length_le h.le, List.take_of_length_le]
  rwa [List.length_append, List.length_singleton]

theorem clip_append_singleton_of_le {b : Byte} (h : 255 ≤ p.length) : clip (p ++ [b]) = clip p :=
  List.take_append_of_le_length h

theorem takeByte_of_ne {b : Byte} (hb : b ≠ 10) :
    takeByte (State.ofOpen p out) b = some (State.ofOpen (p ++ [b]) out) := by
  rw [takeByte, if_neg hb]
  change (if (clip p).length < 256 - 1 then _ else _) = _
  rcases Nat.lt_or_ge p.length 255 with hroom | hfull
  · have hlen : (clip p).length < 256 - 1 := by
      rw [clip, List.length_take]
      omega
    rw [if_pos hlen]
    change ((State.ofOpen p out).store (clip p).length b).map _ = _
    rw [State.store, if_pos (length_clip_lt p), Option.map_some]
    simp only [State.ofOpen, cbuf_set (length_clip_lt p), clip_append_singleton_of_lt hroom,
      List.length_append, List.length_singleton]
  · have hlen : ¬ (clip p).length < 256 - 1 := by
      rw [clip, List.length_take]
      omega
    rw [if_neg hlen]
    simp only [State.ofOpen, clip_append_singleton_of_le hfull]

/-- The bytes of a stream print the lines that end among them. -/
theorem takeBytes_ofOpen {q : List Byte} (hp : 0 ∉ p) (hq : 0 ∉ q) :
    takeBytes (State.ofOpen p out) q = some (State.ofOpen (openAfter 10 p q)
      (out ++ (linesAfter 10 p q).map fun l => received (clip l))) := by
  induction q generalizing p out with
  | nil => simp [takeBytes, openAfter, linesAfter]
  | cons b q ih =>
    obtain ⟨hb, hrest⟩ := not_or.mp (List.mem_cons.not.mp hq)
    have hcons : takeBytes (State.ofOpen p out) (b :: q) =
        (takeByte (State.ofOpen p out) b).bind fun t => takeBytes t q := List.foldlM_cons
    rw [hcons, openAfter, linesAfter]
    by_cases hlf : b = 10
    · rw [if_pos hlf, if_pos hlf, hlf, takeByte_lf hp, Option.bind_some,
        ih List.not_mem_nil hrest, List.append_assoc, List.map_cons, List.singleton_append]
    · have hopen : 0 ∉ p ++ [b] := by
        rw [List.mem_append, List.mem_singleton]
        exact not_or.mpr ⟨hp, hb⟩
      rw [if_neg hlf, if_neg hlf, takeByte_of_ne hlf, Option.bind_some, ih hopen hrest]

/-- The lines printed in the rounds. -/
def printed (rs : List ReadResult) : Option (List (List Byte)) := (run start rs).map State.printed

/-- Every run stays in `line_buffer` and prints the lines of the stream, cut to 255 bytes; two
runs on one stream print the same. -/
theorem printed_eq_terminatedLines (rs : List ReadResult) :
    printed rs = some ((terminatedLines 10 (stream rs)).map fun l => received (l.take 255)) ∧
      ∀ rs', stream rs' = stream rs → printed rs' = printed rs := by
  have hlines : ∀ rs, printed rs =
      some ((terminatedLines 10 (stream rs)).map fun l => received (l.take 255)) := by
    intro rs
    rw [printed, run_eq_takeBytes, start_eq_ofOpen,
      takeBytes_ofOpen List.not_mem_nil (zero_notMem_stream rs)]
    rfl
  refine ⟨hlines rs, ?_⟩
  intro rs' hstream
  rw [hlines, hlines, hstream]

end BoardTest.Uart.SerialRead
