import BoardTest.Lib.Cells

/-!
# The picture buffers

Each case of `main` in `g2d_test.cpp` reads its pictures into buffers, allocates others, writes what
the blitter made of them and frees all of them. The helpers that read and write free the buffer
themselves when they cannot open the file, and no case looks at what they return. A run is followed
for every outcome of the calls, buffer by buffer (`Lib/Cells`).
-/

namespace BoardTest.G2d

/-- The buffers that `main` uses. -/
inductive Buffer
  | dispMemOps
  | dispMemOps0
  | dispMemOps1
  | dispMemOps2
  | dispMemOps3
  deriving DecidableEq, Repr

/-- Which calls succeed: those about a buffer, and the first and the second `fopen` of the file it
is read from or written to. No case opens a file or a buffer in two places. -/
structure Outcomes where
  allocOpen : Buffer → Bool
  allocAlloc : Buffer → Bool
  fopenRead : Buffer → Bool × Bool
  fopenWrite : Buffer → Bool × Bool

/-- The calls that are counted; an `allocAlloc` is one that succeeded. -/
inductive Call
  | allocAlloc
  | allocFree
  deriving DecidableEq, Repr

/-- What `main` does with a buffer. -/
inductive Op
  /-- `ReadPicFileContent` -/
  | read
  /-- `allocPicMem` -/
  | alloc
  /-- `memset((void*)pops->vir, 0xff, size)` -/
  | fill
  /-- `WritePicFileContent` -/
  | write
  /-- `freePicMem` -/
  | free
  deriving DecidableEq, Repr

/-- `allocPicMem` (`g2d_test.cpp:168-185`): whether the buffer is allocated then, and the calls. -/
def allocPicMem (o : Outcomes) (pops : Buffer) (allocated : Bool) : Option (Bool × List Call) :=
  if o.allocOpen pops = false then some (allocated, [])
  else if o.allocAlloc pops = false then some (allocated, [])
  else some (true, [.allocAlloc])

/-- `ReadPicFileContent` (`g2d_test.cpp:103-139`). -/
def readPicFileContent (o : Outcomes) (pops : Buffer) (allocated : Bool) :
    Option (Bool × List Call) :=
  if o.allocOpen pops = false then some (allocated, [])
  else if o.allocAlloc pops = false then some (allocated, [])
  else if (o.fopenRead pops).1 = false then
    if (o.fopenRead pops).2 = false then some (false, [.allocAlloc, .allocFree])
    else some (true, [.allocAlloc])
  else some (true, [.allocAlloc])

/-- `WritePicFileContent` (`g2d_test.cpp:141-166`); `none` where `fwrite` is given memory that is
not allocated. -/
def writePicFileContent (o : Outcomes) (pops : Buffer) (allocated : Bool) :
    Option (Bool × List Call) :=
  if (o.fopenWrite pops).1 = false then
    if (o.fopenWrite pops).2 = false then some (false, [.allocFree])
    else if allocated then some (allocated, []) else none
  else if allocated then some (allocated, []) else none

/-- `freePicMem` (`g2d_test.cpp:187-192`). -/
def freePicMem : Option (Bool × List Call) := some (false, [.allocFree])

/-- `memset` on the memory of a buffer; `none` where it is not allocated. -/
def fillPicMem (allocated : Bool) : Option (Bool × List Call) :=
  if allocated then some (allocated, []) else none

def Op.exec (o : Outcomes) (pops : Buffer) : Op → Bool → Option (Bool × List Call)
  | read => readPicFileContent o pops
  | alloc => allocPicMem o pops
  | fill => fillPicMem
  | write => writePicFileContent o pops
  | free => fun _ => freePicMem

/-- `G2dmode` -/
inductive G2dMode
  | scale
  | decompose
  | compose
  | rotate
  | hflip
  | vflip
  | rgba2yuvByFd
  | yuv2rgbaByFd
  | yuv2rgbaByPhy
  | null
  deriving DecidableEq, Repr

def G2dMode.id : G2dMode → Int
  | scale => 0
  | decompose => 1
  | compose => 2
  | rotate => 3
  | hflip => 4
  | vflip => 5
  | rgba2yuvByFd => 6
  | yuv2rgbaByFd => 7
  | yuv2rgbaByPhy => 8
  | null => 9

/-- What the program is compiled for. -/
inductive Platform
  | t527
  | t113
  | other
  deriving DecidableEq, Repr

/-- `g_avail_mode` (`g2d_test.cpp:28-37`). -/
def Platform.availMode : Platform → List G2dMode
  | t527 => [.decompose, .compose, .rotate, .hflip, .vflip]
  | t113 => [.scale, .decompose, .compose, .rotate, .hflip, .vflip, .rgba2yuvByFd, .yuv2rgbaByFd,
      .yuv2rgbaByPhy]
  | other => [.null]

/-- `checkid` (`g2d_test.cpp:194-210`). -/
def checkid (p : Platform) (id : Int) : G2dMode :=
  (p.availMode.find? fun m => id = m.id).getD .null

/-- One picture is read and another one written. -/
def convertOps : List (Buffer × Op) :=
  [(.dispMemOps0, .read), (.dispMemOps, .alloc), (.dispMemOps, .write), (.dispMemOps, .free),
    (.dispMemOps0, .free)]

/-- The same with the output cleared first. -/
def filledConvertOps : List (Buffer × Op) :=
  [(.dispMemOps0, .read), (.dispMemOps, .alloc), (.dispMemOps, .fill), (.dispMemOps, .write),
    (.dispMemOps, .free), (.dispMemOps0, .free)]

/-- The cases of the switch (`g2d_test.cpp:227-701`), as far as they touch the buffers. -/
def G2dMode.ops : G2dMode → List (Buffer × Op)
  | scale => convertOps
  | decompose =>
    [(.dispMemOps, .read), (.dispMemOps0, .alloc), (.dispMemOps1, .alloc), (.dispMemOps2, .alloc),
      (.dispMemOps3, .alloc), (.dispMemOps0, .write), (.dispMemOps1, .write),
      (.dispMemOps2, .write), (.dispMemOps3, .write), (.dispMemOps, .free), (.dispMemOps0, .free),
      (.dispMemOps1, .free), (.dispMemOps2, .free), (.dispMemOps3, .free)]
  | compose =>
    [(.dispMemOps0, .read), (.dispMemOps1, .read), (.dispMemOps2, .read), (.dispMemOps3, .read),
      (.dispMemOps, .alloc), (.dispMemOps, .write), (.dispMemOps, .free), (.dispMemOps0, .free),
      (.dispMemOps1, .free), (.dispMemOps2, .free), (.dispMemOps3, .free)]
  | rotate => convertOps
  | hflip => convertOps
  | vflip => convertOps
  | rgba2yuvByFd => filledConvertOps
  | yuv2rgbaByFd => filledConvertOps
  | yuv2rgbaByPhy => filledConvertOps
  | null => []

/-- `main` with the number in `argv[1]`, if there is one. -/
def mainOps (p : Platform) : Option Int → List (Buffer × Op)
  | none => []
  | some id => (checkid p id).ops

/-- A run from the start, where no buffer is allocated: the calls in their order. -/
def trace (o : Outcomes) (ops : List (Buffer × Op)) : Option (List (Buffer × Call)) :=
  (runAll (Op.exec o) ops fun _ => false).map (·.2)

/-- Every allocation of a buffer is followed by one release, before the next and before the end, and
nothing is released that is not allocated. -/
def releasedOnce : Bool → List Call → Bool
  | allocated, [] => !allocated
  | allocated, .allocAlloc :: calls => !allocated && releasedOnce true calls
  | allocated, .allocFree :: calls => allocated && releasedOnce false calls

/-- The run comes to its end and releases every buffer once. -/
def Tidy (o : Outcomes) (ops : List (Buffer × Op)) : Prop :=
  ∃ tr, trace o ops = some tr ∧ ∀ b, releasedOnce false (onCell b tr) = true

/-- The calls of an operation succeed, of two `fopen` at least one. -/
def Op.succeeds (o : Outcomes) (pops : Buffer) : Op → Bool
  | read => o.allocOpen pops && o.allocAlloc pops &&
      ((o.fopenRead pops).1 || (o.fopenRead pops).2)
  | alloc => o.allocOpen pops && o.allocAlloc pops
  | write => (o.fopenWrite pops).1 || (o.fopenWrite pops).2
  | fill => true
  | free => true

/-- What the operations on one buffer amount to. -/
def cellTidy (o : Outcomes) (pops : Buffer) (ops : List Op) : Bool :=
  match runCell (Op.exec o) pops ops false with
  | some (_, calls) => releasedOnce false calls
  | none => false

/-- A buffer is not used, is read, is written, or is cleared and written, and freed at the end. -/
def shapes : List (List Op) :=
  [[], [.read, .free], [.alloc, .write, .free], [.alloc, .fill, .write, .free]]

theorem onCell_ops_mem_shapes (m : G2dMode) (pops : Buffer) : onCell pops m.ops ∈ shapes := by
  cases m <;> cases pops <;> decide

/-- On one buffer it takes the success of all calls: a failed allocation is not made up for, and
after a failed `fopen` the buffer is freed twice. -/
theorem cellTidy_eq (o : Outcomes) (pops : Buffer) {ops : List Op} (h : ops ∈ shapes) :
    cellTidy o pops ops = ops.all (Op.succeeds o pops) := by
  simp only [shapes, List.mem_cons, List.not_mem_nil, or_false] at h
  rcases h with rfl | rfl | rfl | rfl
  · rfl
  · simp only [cellTidy, runCell, Op.exec, readPicFileContent, freePicMem, Op.succeeds,
      List.all_cons, List.all_nil]
    cases o.allocOpen pops <;> cases o.allocAlloc pops <;> cases (o.fopenRead pops).1 <;>
      cases (o.fopenRead pops).2 <;> rfl
  · simp only [cellTidy, runCell, Op.exec, allocPicMem, writePicFileContent, freePicMem,
      Op.succeeds, List.all_cons, List.all_nil]
    cases o.allocOpen pops <;> cases o.allocAlloc pops <;> cases (o.fopenWrite pops).1 <;>
      cases (o.fopenWrite pops).2 <;> rfl
  · simp only [cellTidy, runCell, Op.exec, allocPicMem, fillPicMem, writePicFileContent, freePicMem,
      Op.succeeds, List.all_cons, List.all_nil]
    cases o.allocOpen pops <;> cases o.allocAlloc pops <;> cases (o.fopenWrite pops).1 <;>
      cases (o.fopenWrite pops).2 <;> rfl

/-! ## All buffers -/

theorem tidy_iff_cells (o : Outcomes) (ops : List (Buffer × Op)) :
    Tidy o ops ↔ ∀ b, cellTidy o b (onCell b ops) = true := by
  constructor
  · rintro ⟨tr, htr, hreleased⟩ b
    obtain ⟨⟨live, tr⟩, hrun, rfl⟩ := Option.map_eq_some_iff.mp htr
    rw [cellTidy, runCell_of_runAll hrun b]
    exact hreleased b
  · intro h
    have hcells : ∀ b, ∃ live calls,
        runCell (Op.exec o) b (onCell b ops) false = some (live, calls) := by
      intro b
      have hb := h b
      unfold cellTidy at hb
      split at hb
      · next live calls hrun => exact ⟨live, calls, hrun⟩
      · cases hb
    obtain ⟨live, tr, hrun⟩ := exists_runAll hcells
    refine ⟨tr, by rw [trace, hrun, Option.map_some], fun b => ?_⟩
    have hb := h b
    rwa [cellTidy, runCell_of_runAll hrun b] at hb

/-- Every buffer is released once exactly when the mode is not available or every call succeeds,
where one of the two `fopen` calls for a file is enough. -/
theorem tidy_iff (p : Platform) (argv1 : Option Int) (o : Outcomes) :
    Tidy o (mainOps p argv1) ↔ ∀ b, ∀ op, (b, op) ∈ mainOps p argv1 → op.succeeds o b = true := by
  have hshape : ∀ b, onCell b (mainOps p argv1) ∈ shapes := by
    intro b
    cases argv1 with
    | none => exact List.mem_cons_self
    | some id => exact onCell_ops_mem_shapes (checkid p id) b
  rw [tidy_iff_cells]
  apply forall_congr'
  intro b
  rw [cellTidy_eq o b (hshape b), List.all_eq_true]
  simp only [mem_onCell]

/-- Everything succeeds but the `fopen` calls for the input. -/
def inputMissing : Outcomes :=
  ⟨fun _ => true, fun _ => true, fun _ => (false, false), fun _ => (true, true)⟩

/-- Without its input file the decompose case frees a buffer twice. -/
theorem inputMissing_not_tidy : ¬ ∀ p argv1 o, Tidy o (mainOps p argv1) := by
  intro h
  obtain ⟨tr, htr, hreleased⟩ := h .t527 (some 1) inputMissing
  have hrun : trace inputMissing (mainOps .t527 (some 1)) = some
      [(.dispMemOps, .allocAlloc), (.dispMemOps, .allocFree), (.dispMemOps0, .allocAlloc),
        (.dispMemOps1, .allocAlloc), (.dispMemOps2, .allocAlloc), (.dispMemOps3, .allocAlloc),
        (.dispMemOps, .allocFree), (.dispMemOps0, .allocFree), (.dispMemOps1, .allocFree),
        (.dispMemOps2, .allocFree), (.dispMemOps3, .allocFree)] := by
    decide
  obtain rfl := Option.some.inj (hrun.symm.trans htr)
  exact absurd (hreleased .dispMemOps) (by decide)

end BoardTest.G2d
