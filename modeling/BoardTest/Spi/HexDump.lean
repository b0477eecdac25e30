import BoardTest.Lib.HexRows
import Mathlib.Data.List.Range

/-!
# `hex_dump` of `fltest_spidev_slave_test`

The loop of lines 68 to 85 with its counter, its decremented length and its two pointers. A pointer
is an index into the buffer. A byte outside of the buffer, a counter that goes beyond `INT_MAX` and
a remainder by 0 are undefined behaviour and give `none`. The indices that are read are kept for
each pointer, and what `printf` writes is kept as bytes.
-/

namespace BoardTest.Spi

/-- `INT_MAX` -/
def intMax : Nat := 2147483647

/-- `i + 1` of an `int`, which counts from 0 on -/
def incr (i : Nat) : Option Nat := if i < intMax then some (i + 1) else none

/-- `i % line_size` -/
def rem (i lineSize : Nat) : Option Nat := if lineSize = 0 then none else some (i % lineSize)

/-- What the loops of `hex_dump` work on, without `length`. -/
structure HexDump where
  i : Nat
  address : Nat
  line : Nat
  addressReads : List Nat
  lineReads : List Nat
  printed : List Byte
  deriving DecidableEq, Repr

/-- `printf`, with what it writes -/
def HexDump.printf (d : HexDump) (s : List Byte) : HexDump := { d with printed := d.printed ++ s }

/-- `"__ "`, without the blank -/
def filler : List Byte := bytes "__"

/-- `(c < 32 || c > 126) ? '.' : c` (line 78) -/
def shown (c : Byte) : Byte := if c < 32 ∨ c > 126 then 46 else c

/-- `printf("%02X ", *address++)` (line 69) -/
def HexDump.putByte (src : List Byte) (d : HexDump) : Option HexDump :=
  src[d.address]?.map fun b =>
    { d with
      address := d.address + 1
      addressReads := d.addressReads ++ [d.address]
      printed := d.printed ++ (hexPair b ++ [32]) }

/-- `while (i++ % line_size)` (line 72). It ends, because `i` cannot go beyond `INT_MAX`. -/
def HexDump.fillUp (lineSize : Nat) (d : HexDump) : Option HexDump :=
  if d.i < intMax then
    (rem d.i lineSize).bind fun r =>
      if r ≠ 0 then
        fillUp lineSize { d with i := d.i + 1, printed := d.printed ++ (filler ++ [32]) }
      else some { d with i := d.i + 1 }
  else none
termination_by intMax - d.i

/-- `while (line < address)` (line 76) -/
def HexDump.showLine (src : List Byte) (d : HexDump) : Option HexDump :=
  if d.line < d.address then
    src[d.line]?.bind fun c =>
      showLine src
        { d with
          line := d.line + 1
          lineReads := d.lineReads ++ [d.line]
          printed := d.printed ++ [shown c] }
  else some d
termination_by d.address - d.line

/-- The end of a row (lines 71 to 82). -/
def HexDump.endRow (src : List Byte) (lineSize : Nat) (prefixStr : List Byte) (length : Nat)
    (d : HexDump) : Option HexDump := do
  let d ← if length = 0 then d.fillUp lineSize else some d
  let d ← (d.printf (bytes " |")).showLine src
  let d := d.printf (bytes "|\n")
  some (if length > 0 then d.printf (prefixStr ++ bytes " | ") else d)

/-- The loop of line 68, by what `length` is when its test reads it. -/
def hexDumpLoop (src : List Byte) (lineSize : Nat) (prefixStr : List Byte) :
    Nat → HexDump → Option HexDump
  | 0, d => some d
  | length + 1, d => do
    let d ← d.putByte src
    let i ← incr d.i
    let d := { d with i := i }
    let r ← rem i lineSize
    if r = 0 ∨ (length = 0 ∧ r ≠ 0) then
      let d ← d.endRow src lineSize prefixStr length
      hexDumpLoop src lineSize prefixStr length d
    else hexDumpLoop src lineSize prefixStr length d

/-- `hex_dump` (line 60); `prefixStr` is the string at `prefix`. -/
def hexDump (src : List Byte) (length lineSize : Nat) (prefixStr : List Byte) : Option HexDump :=
  hexDumpLoop src lineSize prefixStr length ⟨0, 0, 0, [], [], prefixStr ++ bytes " | "⟩

/-- A row of the dump: its cells and its text column. -/
structure DumpRow where
  cells : List (List Byte)
  text : List Byte
  deriving DecidableEq, Repr

/-- A row as it is printed. -/
def DumpRow.print (prefixStr : List Byte) (row : DumpRow) : List Byte :=
  prefixStr ++ bytes " | " ++ row.cells.flatMap (· ++ [32]) ++ bytes " |" ++ row.text ++ bytes "|\n"

/-- The cells that hold a byte. -/
def byteCells (cells : List (List Byte)) : List (List Byte) := cells.filter (· ≠ filler)

/-- What the rows of a dump are to be. -/
structure IsDump (src : List Byte) (lineSize : Nat) (rows : List DumpRow) : Prop where
  length_rows : rows.length = src.length ⌈/⌉ lineSize
  length_cells : ∀ row ∈ rows, row.cells.length = lineSize
  length_cell : ∀ row ∈ rows, ∀ cell ∈ row.cells, cell.length = 2
  filled : ∀ row ∈ rows.dropLast, filler ∉ row.cells
  filled_up : ∀ row ∈ rows, ∃ k < lineSize,
    row.cells = byteCells row.cells ++ List.replicate k filler
  decoded : (byteCells (rows.flatMap DumpRow.cells)).mapM readPair = some src
  text : ∀ row ∈ rows, ∃ bs,
    (byteCells row.cells).mapM readPair = some bs ∧ row.text = bs.map shown

/-- The row of some bytes. -/
def rowFor (lineSize : Nat) (bs : List Byte) : DumpRow where
  cells := bs.map hexPair ++ List.replicate (lineSize - bs.length) filler
  text := bs.map shown

theorem readPair_filler : readPair filler = none := by decide

theorem filler_not_mem (bs : List Byte) : filler ∉ bs.map hexPair := by
  intro h
  obtain ⟨b, -, hb⟩ := List.mem_map.mp h
  exact hexPair_ne readPair_filler b hb

theorem byteCells_append (cells cells' : List (List Byte)) :
    byteCells (cells ++ cells') = byteCells cells ++ byteCells cells' := List.filter_append ..

theorem byteCells_rowFor (lineSize : Nat) (bs : List Byte) :
    byteCells (rowFor lineSize bs).cells = bs.map hexPair := by
  have hbytes : byteCells (bs.map hexPair) = bs.map hexPair := by
    rw [byteCells, List.filter_eq_self]
    intro cell hcell
    simpa using ne_of_mem_of_not_mem hcell (filler_not_mem bs)
  have hfill : byteCells (List.replicate (lineSize - bs.length) filler) = [] := by
    rw [byteCells, List.filter_eq_nil_iff]
    intro cell hcell
    simp [List.eq_of_mem_replicate hcell]
  rw [rowFor, byteCells_append, hbytes, hfill, List.append_nil]

theorem byteCells_rows (lineSize : Nat) (groups : List (List Byte)) :
    byteCells ((groups.map (rowFor lineSize)).flatMap DumpRow.cells) =
      groups.flatten.map hexPair := by
  induction groups with
  | nil => rfl
  | cons bs groups ih =>
    rw [List.map_cons, List.flatMap_cons, byteCells_append, byteCells_rowFor, ih,
      List.flatten_cons, List.map_append]

/-- The rows of the buffer are a dump of it. -/
theorem isDump_rowsOf {src : List Byte} {lineSize : Nat} (hsize : 1 ≤ lineSize) :
    IsDump src lineSize ((rowsOf lineSize [] src).map (rowFor lineSize)) where
  length_rows := by
    rw [List.length_map, length_rowsOf hsize fun _ => rfl, List.length_nil, Nat.zero_add]
  length_cells := by
    intro row hrow
    obtain ⟨bs, hbs, rfl⟩ := List.mem_map.mp hrow
    obtain ⟨-, hle⟩ := bounds_of_mem_rowsOf hsize hbs
    simp only [rowFor, List.length_append, List.length_map, List.length_replicate]
    omega
  length_cell := by
    intro row hrow cell hcell
    obtain ⟨bs, -, rfl⟩ := List.mem_map.mp hrow
    rcases List.mem_append.mp hcell with hcell | hcell
    · obtain ⟨b, -, rfl⟩ := List.mem_map.mp hcell
      exact length_hexPair b
    · rw [List.eq_of_mem_replicate hcell]
      rfl
  filled := by
    intro row hrow
    rw [← List.map_dropLast] at hrow
    obtain ⟨bs, hbs, rfl⟩ := List.mem_map.mp hrow
    rw [rowFor, length_eq_of_mem_dropLast hbs, Nat.sub_self, List.replicate_zero, List.append_nil]
    exact filler_not_mem bs
  filled_up := by
    intro row hrow
    obtain ⟨bs, hbs, rfl⟩ := List.mem_map.mp hrow
    obtain ⟨hpos, -⟩ := bounds_of_mem_rowsOf hsize hbs
    exact ⟨lineSize - bs.length, by omega, by rw [byteCells_rowFor, rowFor]⟩
  decoded := by
    rw [byteCells_rows, flatten_rowsOf fun _ => rfl, mapM_readPair]
    rfl
  text := by
    intro row hrow
    obtain ⟨bs, -, rfl⟩ := List.mem_map.mp hrow
    exact ⟨bs, by rw [byteCells_rowFor, mapM_readPair], rfl⟩

/-! ## The loops -/

section Loops

variable {src prefixStr : List Byte} {lineSize : Nat} {d : HexDump}

/-- The fillers bring the counter to the end of its row, and one beyond it. -/
theorem fillUp_eq {k : Nat} (hsize : 0 < lineSize) (hend : (d.i + k) % lineSize = 0)
    (hopen : ∀ j < k, (d.i + j) % lineSize ≠ 0) (hint : d.i + k < intMax) :
    d.fillUp lineSize =
      some { d with
        i := d.i + k + 1
        printed := d.printed ++ (List.replicate k filler).flatMap (· ++ [32]) } := by
  induction k generalizing d with
  | zero =>
    rw [Nat.add_zero] at hend hint
    rw [HexDump.fillUp, if_pos hint, rem, if_neg hsize.ne', Option.bind_some, hend,
      if_neg (not_not.mpr rfl)]
    simp
  | succ k ih =>
    have hnext : ∀ j, d.i + (j + 1) = d.i + 1 + j := by omega
    have hne : d.i % lineSize ≠ 0 := hopen 0 (Nat.succ_pos k)
    rw [hnext] at hend hint
    rw [HexDump.fillUp, if_pos (by omega), rem, if_neg hsize.ne', Option.bind_some, if_pos hne,
      ih hend (fun j hj => hnext j ▸ hopen (j + 1) (by omega)) hint]
    simp only [List.replicate_succ, List.flatMap_cons, List.append_assoc, hnext k]

theorem showLine_eq (hle : d.line ≤ d.address) (hsrc : d.address ≤ src.length) :
    d.showLine src =
      some { d with
        line := d.address
        lineReads := d.lineReads ++ List.range' d.line (d.address - d.line)
        printed := d.printed ++ ((src.drop d.line).take (d.address - d.line)).map shown } := by
  induction hk : d.address - d.line generalizing d with
  | zero =>
    rw [HexDump.showLine, if_neg (by omega)]
    have heq : d.address = d.line := by omega
    cases d
    simp_all
  | succ k ih =>
    have hlt : d.line < src.length := by omega
    rw [HexDump.showLine, if_pos (by omega), List.getElem?_eq_getElem hlt, Option.bind_some, ih]
    · simp only [List.range'_succ, List.drop_eq_getElem_cons hlt, List.take_succ_cons,
        List.map_cons]
      simp
    · simp only; omega
    · exact hsrc
    · simp only; omega

/-- What the loop works on when the rows of `done` are printed behind `out`, and of the open row the
cells of `cur`. -/
def standing (prefixStr done cur out : List Byte) : HexDump where
  i := done.length + cur.length
  address := done.length + cur.length
  line := done.length
  addressReads := List.range (done.length + cur.length)
  lineReads := List.range done.length
  printed := out ++ (prefixStr ++ bytes " | ") ++ (cur.map hexPair).flatMap (· ++ [32])

variable {done cur out rest : List Byte} {b : Byte}

theorem putByte_standing (hsrc : src = done ++ cur ++ b :: rest) :
    (standing prefixStr done cur out).putByte src =
      some { standing prefixStr done (cur ++ [b]) out with i := done.length + cur.length } := by
  have hget : src[done.length + cur.length]? = some b := by
    rw [hsrc, ← List.length_append, List.getElem?_append_right le_rfl, Nat.sub_self]
    rfl
  simp [HexDump.putByte, standing, hget, ← Nat.add_assoc, List.range_succ]

/-- A round of the loop. -/
theorem hexDumpLoop_standing (hsize : 0 < lineSize) (hsrc : src = done ++ cur ++ b :: rest)
    (hdone : lineSize ∣ done.length) (hint : src.length ≤ intMax) :
    hexDumpLoop src lineSize prefixStr (rest.length + 1) (standing prefixStr done cur out) =
      if rest = [] ∨ (cur.length + 1) % lineSize = 0 then
        ((standing prefixStr done (cur ++ [b]) out).endRow src lineSize prefixStr
          rest.length).bind (hexDumpLoop src lineSize prefixStr rest.length)
      else hexDumpLoop src lineSize prefixStr rest.length
        (standing prefixStr done (cur ++ [b]) out) := by
  have hi : done.length + cur.length < intMax := by
    rw [hsrc] at hint
    simp only [List.length_append, List.length_cons] at hint
    omega
  have hrem : (done.length + cur.length + 1) % lineSize = (cur.length + 1) % lineSize := by
    obtain ⟨q, hq⟩ := hdone
    rw [hq, Nat.add_assoc, Nat.mul_add_mod]
  have hnext : ({ standing prefixStr done (cur ++ [b]) out with
      i := done.length + cur.length + 1 } : HexDump) =
        standing prefixStr done (cur ++ [b]) out := by
    simp [standing, Nat.add_assoc]
  rw [hexDumpLoop, putByte_standing hsrc]
  simp only [Option.bind_eq_bind, Option.bind_some, incr, if_pos hi, rem, if_neg hsize.ne', hrem,
    hnext]
  apply if_congr _ rfl rfl
  rw [List.length_eq_zero_iff]
  tauto

/-- The row of `cur` with its cells printed, the counter at `i`. -/
def cellsDone (prefixStr : List Byte) (lineSize : Nat) (done cur out : List Byte) (i : Nat) :
    HexDump :=
  { standing prefixStr done cur out with
    i := i
    printed := out ++ (prefixStr ++ bytes " | ") ++
      (rowFor lineSize cur).cells.flatMap (· ++ [32]) }

/-- The row of `cur` printed to its end. -/
def rowDone (prefixStr : List Byte) (lineSize : Nat) (done cur out : List Byte) (i : Nat) :
    HexDump :=
  { standing prefixStr (done ++ cur) [] out with
    i := i
    printed := out ++ (rowFor lineSize cur).print prefixStr }

theorem showLine_cellsDone (prefixStr : List Byte) (lineSize : Nat) (out : List Byte) (i : Nat)
    (hsrc : src = done ++ cur ++ rest) :
    ∃ d, ((cellsDone prefixStr lineSize done cur out i).printf (bytes " |")).showLine src = some d ∧
      d.printf (bytes "|\n") = rowDone prefixStr lineSize done cur out i := by
  have hline : (src.drop done.length).take cur.length = cur := by
    rw [hsrc, List.append_assoc, List.drop_left, List.take_left]
  have hreads : List.range done.length ++ List.range' done.length cur.length =
      List.range (done.length + cur.length) := by
    rw [List.range_eq_range', List.range_eq_range', ← List.range'_append_1, Nat.zero_add]
  refine ⟨_, showLine_eq ?_ ?_, ?_⟩
  · simp [HexDump.printf, cellsDone, standing]
  · simp [HexDump.printf, cellsDone, standing, hsrc]
  · simp [HexDump.printf, cellsDone, rowDone, standing, hline, hreads, DumpRow.print, rowFor]

/-- The end of a row that another one follows. -/
theorem endRow_full (hsrc : src = done ++ cur ++ rest) (hcur : cur.length = lineSize)
    (hrest : rest ≠ []) :
    (standing prefixStr done cur out).endRow src lineSize prefixStr rest.length =
      some (standing prefixStr (done ++ cur) []
        (out ++ (rowFor lineSize cur).print prefixStr)) := by
  have hcells : standing prefixStr done cur out =
      cellsDone prefixStr lineSize done cur out (done.length + cur.length) := by
    simp [cellsDone, standing, rowFor, hcur]
  have hpos : rest.length > 0 := List.length_pos_iff.mpr hrest
  obtain ⟨d, hshow, hd⟩ :=
    showLine_cellsDone prefixStr lineSize out (done.length + cur.length) hsrc
  rw [HexDump.endRow, if_neg hpos.ne', hcells]
  simp only [Option.bind_eq_bind, Option.bind_some, hshow, hd, if_pos hpos]
  simp [HexDump.printf, rowDone, standing]

/-- The end of the last row. -/
theorem endRow_last (prefixStr out : List Byte) (hsrc : src = done ++ cur)
    (hdone : lineSize ∣ done.length) (hpos : 0 < cur.length) (hcur : cur.length ≤ lineSize)
    (hint : src.length + lineSize ≤ intMax) :
    ∃ i, (standing prefixStr done cur out).endRow src lineSize prefixStr 0 =
      some (rowDone prefixStr lineSize done cur out i) := by
  obtain ⟨q, hq⟩ := hdone
  have hlen : src.length = done.length + cur.length := by rw [hsrc, List.length_append]
  have hfill : (standing prefixStr done cur out).fillUp lineSize =
      some (cellsDone prefixStr lineSize done cur out
        (done.length + cur.length + (lineSize - cur.length) + 1)) := by
    rw [fillUp_eq (k := lineSize - cur.length) (by omega)]
    · simp [cellsDone, standing, rowFor]
    · have hend : done.length + cur.length + (lineSize - cur.length) = lineSize * (q + 1) := by
        rw [Nat.mul_succ, ← hq]
        omega
      exact hend ▸ Nat.mul_mod_right lineSize (q + 1)
    · intro j hj
      have hopen : done.length + cur.length + j = lineSize * q + (cur.length + j) := by omega
      change (done.length + cur.length + j) % lineSize ≠ 0
      rw [hopen, Nat.mul_add_mod, Nat.mod_eq_of_lt (by omega)]
      omega
    · change done.length + cur.length + (lineSize - cur.length) < intMax
      omega
  obtain ⟨d, hshow, hd⟩ := showLine_cellsDone prefixStr lineSize out
    (done.length + cur.length + (lineSize - cur.length) + 1)
    (hsrc.trans (List.append_nil _).symm)
  refine ⟨done.length + cur.length + (lineSize - cur.length) + 1, ?_⟩
  rw [HexDump.endRow, if_pos rfl, hfill]
  simp only [Option.bind_eq_bind, Option.bind_some, hshow, hd]
  rfl

/-- The loop prints the rows that are left, and each pointer goes over the buffer once. -/
theorem hexDumpLoop_rows (hsrc : src = done ++ cur ++ rest) (hrest : rest ≠ [])
    (hdone : lineSize ∣ done.length) (hcur : cur.length < lineSize)
    (hint : src.length + lineSize ≤ intMax) :
    ∃ d, hexDumpLoop src lineSize prefixStr rest.length (standing prefixStr done cur out) = some d ∧
      d.addressReads = List.range src.length ∧ d.lineReads = List.range src.length ∧
      d.printed = out ++
        ((rowsOf lineSize cur rest).map (rowFor lineSize)).flatMap (DumpRow.print prefixStr) := by
  induction rest generalizing done cur out with
  | nil => exact absurd rfl hrest
  | cons b rest ih =>
    have hsize : 0 < lineSize := by omega
    have hlen : (cur ++ [b]).length = cur.length + 1 := by
      rw [List.length_append, List.length_singleton]
    have hsrc' : src = done ++ (cur ++ [b]) ++ rest := by simp [hsrc]
    rw [List.length_cons, hexDumpLoop_standing hsize hsrc hdone (by omega)]
    by_cases hnil : rest = []
    · -- the last row
      subst hnil
      rw [List.append_nil] at hsrc'
      obtain ⟨i, hrow⟩ := endRow_last prefixStr out hsrc' hdone (by omega) (by omega) hint
      refine ⟨rowDone prefixStr lineSize done (cur ++ [b]) out i, ?_, ?_, ?_, ?_⟩
      · rw [if_pos (.inl rfl), List.length_nil, hrow]
        rfl
      · simp [rowDone, standing, hsrc']
      · simp [rowDone, standing, hsrc']
      · simp [rowDone, rowsOf]
    · rcases Nat.lt_or_eq_of_le (Nat.succ_le_of_lt hcur) with hlt | heq
      · have hopen : ¬ (rest = [] ∨ cur.length + 1 = lineSize) := by
          rintro (h | h)
          · exact hnil h
          · omega
        have hmod : ¬ (rest = [] ∨ (cur.length + 1) % lineSize = 0) := by
          rw [Nat.mod_eq_of_lt hlt]
          rintro (h | h)
          · exact hnil h
          · omega
        rw [if_neg hmod, rowsOf_open hopen]
        exact ih hsrc' hnil hdone (by omega)
      · have hfull : (cur.length + 1) % lineSize = 0 := by rw [← heq]; exact Nat.mod_self _
        rw [if_pos (.inr hfull), endRow_full hsrc' (hlen.trans heq) hnil, Option.bind_some,
          rowsOf_end (.inr heq)]
        have hdone' : lineSize ∣ (done ++ (cur ++ [b])).length := by
          rw [List.length_append, hlen]
          exact Nat.dvd_add hdone (heq ▸ Nat.dvd_refl _)
        rw [List.map_cons, List.flatMap_cons, ← List.append_assoc out]
        exact ih (by rw [List.append_nil]; exact hsrc') hnil hdone' hsize

end Loops

/-- The dump of a buffer: every byte is read, nothing else, and the rows printed are a dump of
the buffer. -/
theorem hexDump_isDump {src prefixStr : List Byte} {lineSize : Nat} (hsize : 1 ≤ lineSize)
    (hlength : 1 ≤ src.length) (hint : src.length < 2 ^ 31 - lineSize) :
    ∃ d, hexDump src src.length lineSize prefixStr = some d ∧
      d.addressReads = List.range src.length ∧ d.lineReads = List.range src.length ∧
      ∃ rows, IsDump src lineSize rows ∧ d.printed = rows.flatMap (DumpRow.print prefixStr) := by
  have hrest : src ≠ [] := List.length_pos_iff.mp hlength
  have hmax : src.length + lineSize ≤ intMax := by
    rw [intMax]
    omega
  have hstart : standing prefixStr [] [] [] = ⟨0, 0, 0, [], [], prefixStr ++ bytes " | "⟩ := by
    simp [standing]
  obtain ⟨d, hrun, haddress, hline, hprinted⟩ := @hexDumpLoop_rows src prefixStr lineSize [] [] []
    src rfl hrest (Nat.dvd_zero lineSize) hsize hmax
  rw [hstart] at hrun
  exact ⟨d, hrun, haddress, hline, _, isDump_rowsOf hsize, hprinted⟩

/-- Ten bytes in rows of four. -/
theorem hexDump_isDump_ten :
    (1 ≤ 4 ∧ 1 ≤ ([1, 2, 65, 66, 67, 200, 31, 32, 126, 127] : List Byte).length ∧
      ([1, 2, 65, 66, 67, 200, 31, 32, 126, 127] : List Byte).length < 2 ^ 31 - 4) ∧
    ∃ d, hexDump [1, 2, 65, 66, 67, 200, 31, 32, 126, 127] 10 4 (bytes "RX") = some d ∧
      d.addressReads = List.range 10 ∧ d.lineReads = List.range 10 ∧
      ∃ rows, IsDump [1, 2, 65, 66, 67, 200, 31, 32, 126, 127] 4 rows ∧
        d.printed = rows.flatMap (DumpRow.print (bytes "RX")) :=
  ⟨by decide, hexDump_isDump (by decide) (by decide) (by decide)⟩

end BoardTest.Spi
