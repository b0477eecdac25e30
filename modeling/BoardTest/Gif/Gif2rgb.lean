import BoardTest.Lib.CString
import BoardTest.Lib.Feed
import BoardTest.Lib.Strided

/-!
# `gif2rgb_test`

`GIF2RGB` paints the images of a file on one screen of colour indices and dumps the whole screen
behind each of them. What the decoder yields, `DGifGetLine` line by line, is a parameter of the
model; an access to a row or to a colour that is not there has no meaning and is kept apart from
`exit`.
-/

namespace BoardTest.Gif

/-- `GifColorType` -/
structure Color where
  red : Byte
  green : Byte
  blue : Byte
  deriving DecidableEq

/-- `ColorMapObject`; `ColorCount` is the length of `Colors`. -/
abbrev ColorMap := List Color

/-- The screen that the file describes. -/
structure GifFile where
  sWidth : Nat
  sHeight : Nat
  sBackGroundColor : Byte
  sColorMap : Option ColorMap

/-- An image as `DGifGetImageDesc` describes it, and what the calls of `DGifGetLine` for it yield,
one after the other; `none` is `GIF_ERROR`. -/
structure Image where
  top : Nat
  left : Nat
  width : Nat
  height : Nat
  interlace : Bool
  colorMap : Option ColorMap
  line : Nat → Option (List Byte)
  length_line : ∀ k l, line k = some l → l.length = width

/-- `ScreenBuffer` -/
abbrev Screen := List (List Byte)

/-- How the program leaves its course. -/
inductive Stop
  /-- `exit(EXIT_FAILURE)` -/
  | exit
  /-- an access outside an array -/
  | outside
  deriving DecidableEq

/-- The screen, and the rows that were read to it. -/
structure Reading where
  screen : Screen
  rows : List Nat

/-- What `DGifGetLine` stores at `&row[col]`. -/
def overlay (col : Nat) (line row : List Byte) : List Byte :=
  row.take col ++ line ++ row.drop (col + line.length)

/-- `DGifGetLine(GifFile, &ScreenBuffer[j][Col], Width)` -/
def readLine (img : Image) (s : Reading) (j : Nat) : Except Stop Reading :=
  match img.line s.rows.length with
  | none => .error .exit
  | some line =>
    match s.screen[j]? with
    | none => .error .outside
    | some row =>
      if img.left + line.length ≤ row.length then
        .ok ⟨s.screen.set j (overlay img.left line row), s.rows ++ [j]⟩
      else .error .outside

/-- One pass: `for (j = ...; j < Row + Height; j += jump)`. -/
def readPass (img : Image) (jump : ℕ+) (s : Reading) (j : Nat) : Except Stop Reading :=
  if j < img.top + img.height then
    (readLine img s j).bind fun t => readPass img jump t (j + jump)
  else .ok s
termination_by img.top + img.height - j
decreasing_by
  have := jump.pos
  omega

/-- `InterlacedOffset` -/
def interlacedOffset : List Nat := [0, 4, 2, 1]

/-- `InterlacedJumps` -/
def interlacedJumps : List ℕ+ := [8, 8, 4, 2]

/-- The four passes (lines 129 to 138). -/
def readInterlaced (img : Image) (s : Reading) : Except Stop Reading :=
  (interlacedOffset.zip interlacedJumps).foldlM
    (fun s pass => readPass img pass.2 s (img.top + pass.1)) s

/-- The loop of line 141, when `n` lines are left and `Row` is `row`. -/
def readStraight (img : Image) : Nat → Nat → Reading → Except Stop Reading
  | 0, _, s => .ok s
  | n + 1, row, s => (readLine img s row).bind (readStraight img n (row + 1))

def readImage (img : Image) (screen : Screen) : Except Stop Reading :=
  if img.interlace then readInterlaced img ⟨screen, []⟩
  else readStraight img img.height img.top ⟨screen, []⟩

/-- The passes of an interlaced image: a modulus and a remainder. -/
def passes : List (Nat × Nat) := [(8, 0), (8, 4), (4, 2), (2, 1)]

/-- The rows of an image in the order in which the file has them. -/
def Image.order (img : Image) : List Nat :=
  if img.interlace then
    passes.flatMap fun pass =>
      ((List.range img.height).filter (· % pass.1 = pass.2)).map (img.top + ·)
  else List.range' img.top img.height

variable {img : Image} {s t : Reading} {j n : Nat}

/-- A pass reads the rows of its loop. -/
theorem readPass_eq_feed (jump : ℕ+) (s : Reading) (j : Nat) :
    readPass img jump s j = feed (readLine img) s (strided jump (img.top + img.height) j) := by
  fun_induction readPass img jump s j with
  | case1 s j hlt ih =>
    rw [strided, if_pos hlt]
    exact congrArg _ (funext ih)
  | case2 s j hle =>
    rw [strided, if_neg hle]
    rfl

theorem feed_append (s : Reading) (js js' : List Nat) :
    feed (readLine img) s (js ++ js') =
      (feed (readLine img) s js).bind fun t => feed (readLine img) t js' :=
  List.foldlM_append

theorem readStraight_eq_feed (n row : Nat) (s : Reading) :
    readStraight img n row s = feed (readLine img) s (List.range' row n) := by
  induction n generalizing row s with
  | zero => rfl
  | succ n ih =>
    rw [List.range'_succ]
    exact congrArg _ (funext (ih (row + 1)))

/-- An image is read row by row in its order. -/
theorem readImage_eq_feed (img : Image) (screen : Screen) :
    readImage img screen = feed (readLine img) ⟨screen, []⟩ img.order := by
  unfold readImage Image.order
  split
  · have hpass (jump : ℕ+) (offset : Nat) (h : offset < jump) (s : Reading) :
        readPass img jump s (img.top + offset) = feed (readLine img) s
          (((List.range img.height).filter (· % jump = offset)).map (img.top + ·)) := by
      rw [readPass_eq_feed, strided_eq_filter h]
    have hzip : interlacedOffset.zip interlacedJumps = [(0, 8), (4, 8), (2, 4), (1, 2)] := rfl
    have hfirst := hpass 8 0 (by decide)
    have hsecond := hpass 8 4 (by decide)
    have hthird := hpass 4 2 (by decide)
    have hfourth := hpass 2 1 (by decide)
    simp only [readInterlaced, hzip, List.foldlM_cons, List.foldlM_nil, passes, List.flatMap_cons,
      List.flatMap_nil, List.append_nil, feed_append, hfirst, hsecond, hthird, hfourth, bind_pure]
    rfl
  · exact readStraight_eq_feed _ _ _

theorem passes_cover (x : Nat) : ∃ pass ∈ passes, x % pass.1 = pass.2 := by
  simp only [passes, List.mem_cons, List.not_mem_nil, or_false, exists_eq_or_imp, exists_eq_left]
  omega

theorem passes_disjoint : passes.Pairwise fun p q => ∀ x, x % p.1 = p.2 → x % q.1 ≠ q.2 := by
  simp only [passes, List.pairwise_cons, List.mem_cons, List.not_mem_nil, or_false,
    List.Pairwise.nil, forall_eq_or_imp, forall_eq, false_imp_iff, implies_true, and_true]
  refine ⟨⟨?_, ?_, ?_⟩, ⟨?_, ?_⟩, ?_⟩ <;> intro x hx <;> omega

/-- Every row of the image comes exactly once. -/
theorem order_perm (img : Image) : img.order.Perm (List.range' img.top img.height) := by
  unfold Image.order
  split
  · have hdisjoint : (passes.map fun pass x => decide (x % pass.1 = pass.2)).Pairwise
        fun p q => ∀ x, p x = true → q x = false := by
      refine List.Pairwise.map _ (fun p q hpq => ?_) passes_disjoint
      intro x hx
      exact decide_eq_false (hpq x (of_decide_eq_true hx))
    have hcover : ∀ x, ∃ p ∈ passes.map fun pass x => decide (x % pass.1 = pass.2),
        p x = true := by
      intro x
      obtain ⟨pass, hpass, hx⟩ := passes_cover x
      exact ⟨_, List.mem_map_of_mem hpass, decide_eq_true hx⟩
    have hclasses := perm_range_of_classes hdisjoint hcover img.height
    rw [List.range'_eq_map_range]
    refine List.Perm.trans ?_ (hclasses.map (img.top + ·))
    rw [List.flatMap_map, List.map_flatMap]
  · exact List.Perm.refl _

theorem nodup_order (img : Image) : img.order.Nodup :=
  (order_perm img).nodup_iff.mpr List.nodup_range'

theorem length_order (img : Image) : img.order.length = img.height := by
  rw [(order_perm img).length_eq, List.length_range']

theorem mem_order_iff {r : Nat} : r ∈ img.order ↔ img.top ≤ r ∧ r < img.top + img.height := by
  rw [(order_perm img).mem_iff, List.mem_range'_1]

/-- The index at a place of the screen. -/
def pixel (screen : Screen) (r c : Nat) : Option Byte := screen[r]?.bind (·[c]?)

/-- `w` pixels in each of `h` rows. -/
structure Sized (w h : Nat) (screen : Screen) : Prop where
  length : screen.length = h
  length_row : ∀ row ∈ screen, row.length = w

variable {w h r c col : Nat} {cells row : List Byte} {screen : Screen}

theorem length_overlay (hfit : col + cells.length ≤ row.length) :
    (overlay col cells row).length = row.length := by
  simp only [overlay, List.length_append, List.length_take, List.length_drop]
  omega

theorem getElem?_overlay (hfit : col + cells.length ≤ row.length) :
    (overlay col cells row)[c]? =
      if col ≤ c ∧ c < col + cells.length then cells[c - col]? else row[c]? := by
  have htake : (row.take col).length = col := by
    rw [List.length_take]
    omega
  rw [overlay, List.append_assoc]
  rcases Nat.lt_or_ge c col with hlt | hge
  · rw [List.getElem?_append_left (by omega), List.getElem?_take_of_lt hlt, if_neg (by omega)]
  · rw [List.getElem?_append_right (by omega), htake]
    rcases Nat.lt_or_ge (c - col) cells.length with hin | hbehind
    · rw [List.getElem?_append_left hin, if_pos ⟨hge, by omega⟩]
    · rw [List.getElem?_append_right hbehind, List.getElem?_drop, if_neg (by omega)]
      congr 1
      omega

theorem pixel_set (hrow : screen[j]? = some row) (hfit : col + cells.length ≤ row.length) :
    pixel (screen.set j (overlay col cells row)) r c =
      if r = j ∧ col ≤ c ∧ c < col + cells.length then cells[c - col]? else pixel screen r c := by
  have hj : j < screen.length := (List.getElem?_eq_some_iff.mp hrow).1
  rw [pixel, List.getElem?_set]
  by_cases hr : j = r
  · subst hr
    rw [if_pos rfl, if_pos hj, Option.bind_some, getElem?_overlay hfit, pixel, hrow,
      Option.bind_some]
    simp only [true_and]
  · rw [if_neg hr, if_neg fun hand => hr hand.1.symm]
    rfl

theorem Sized.set (hs : Sized w h screen) (hrow : row.length = w) :
    Sized w h (screen.set j row) := by
  refine ⟨by rw [List.length_set, hs.length], ?_⟩
  intro q hq
  rcases List.mem_or_eq_of_mem_set hq with hq | rfl
  · exact hs.length_row q hq
  · exact hrow

/-! ## Rows that were read -/

/-- The image lies on the screen. -/
def Image.Confined (img : Image) (w h : Nat) : Prop :=
  img.left + img.width ≤ w ∧ img.top + img.height ≤ h

/-- The rows `js` hold the lines of the image, one after the other; nothing else has changed. -/
structure Holds (img : Image) (w h : Nat) (screen : Screen) (js : List Nat) (s : Reading) :
    Prop where
  rows : s.rows = js
  sized : Sized w h s.screen
  pixel : ∀ r c, pixel s.screen r c =
    if r ∈ js ∧ img.left ≤ c ∧ c < img.left + img.width then
      (img.line (js.idxOf r)).bind (·[c - img.left]?)
    else pixel screen r c

theorem holds_nil (hs : Sized w h screen) : Holds img w h screen [] ⟨screen, []⟩ where
  rows := rfl
  sized := hs
  pixel r c := by rw [if_neg fun hand => List.not_mem_nil hand.1]

/-- One line more, at a row that was not read yet. -/
theorem readLine_holds {js : List Nat} {line : List Byte} (hs : Holds img w h screen js s)
    (hleft : img.left + img.width ≤ w) (hj : j < h) (hnew : j ∉ js)
    (hline : img.line js.length = some line) :
    ∃ t, readLine img s j = .ok t ∧ Holds img w h screen (js ++ [j]) t := by
  have hlt : j < s.screen.length := by rwa [hs.sized.length]
  have hrow : s.screen[j]? = some s.screen[j] := List.getElem?_eq_getElem hlt
  have hwidth : s.screen[j].length = w := hs.sized.length_row _ (List.getElem_mem hlt)
  have hlen := img.length_line _ _ hline
  have hfit : img.left + line.length ≤ s.screen[j].length := by omega
  refine ⟨⟨s.screen.set j (overlay img.left line s.screen[j]), s.rows ++ [j]⟩, ?_, ?_⟩
  · simp only [readLine, hs.rows, hline, hrow, if_pos hfit]
  · refine ⟨by rw [hs.rows], hs.sized.set (by rw [length_overlay hfit, hwidth]), ?_⟩
    intro r c
    rw [pixel_set hrow hfit, hs.pixel r c, hlen]
    by_cases hr : r = j
    · subst hr
      have hindex : (js ++ [r]).idxOf r = js.length := by
        rw [List.idxOf_append_of_notMem hnew, List.idxOf_cons_self, Nat.add_zero]
      simp only [true_and, hnew, false_and, if_false, List.mem_append, List.mem_singleton, or_true,
        hindex, hline, Option.bind_some]
    · rw [if_neg fun hand => hr hand.1]
      have hmem : r ∈ js ++ [j] ↔ r ∈ js := by simp [hr]
      by_cases hin : r ∈ js
      · simp only [hmem, List.idxOf_append_of_mem hin]
      · rw [if_neg fun hand => hin hand.1, if_neg fun hand => hin (hmem.mp hand.1)]

/-- Rows of an image are read until a line fails, and never outside the screen. -/
theorem feed_rows {js : List Nat} (hs : Sized w h screen) (hleft : img.left + img.width ≤ w)
    (hrows : ∀ j ∈ js, j < h) (hnodup : js.Nodup) :
    (feed (readLine img) ⟨screen, []⟩ js = .error .exit ∧ ∃ k < js.length, img.line k = none) ∨
      ∃ t, feed (readLine img) ⟨screen, []⟩ js = .ok t ∧ Holds img w h screen js t ∧
        ∀ k < js.length, (img.line k).isSome := by
  induction js using List.reverseRecOn with
  | nil => exact .inr ⟨_, rfl, holds_nil hs, fun k hk => absurd hk (Nat.not_lt_zero k)⟩
  | append_singleton js j ih =>
    rw [feed_append_singleton, List.length_append, List.length_singleton]
    obtain ⟨hjs, hj⟩ := List.forall_mem_append.mp hrows
    have hnew : j ∉ js := by
      intro hmem
      exact List.disjoint_of_nodup_append hnodup hmem (List.mem_singleton_self j)
    rcases ih hjs (List.Nodup.of_append_left hnodup) with ⟨herror, k, hk, hnone⟩ |
      ⟨t, hok, hholds, hsome⟩
    · rw [herror]
      exact .inl ⟨rfl, k, by omega, hnone⟩
    · rw [hok]
      change (readLine img t j = _ ∧ _) ∨ ∃ u, readLine img t j = _ ∧ _
      cases hline : img.line js.length with
      | none =>
        refine .inl ⟨?_, js.length, Nat.lt_succ_self _, hline⟩
        simp only [readLine, hholds.rows, hline]
      | some line =>
        obtain ⟨u, hread, hholds'⟩ := readLine_holds hholds hleft (hj j (List.mem_singleton_self j))
          hnew hline
        refine .inr ⟨u, hread, hholds', ?_⟩
        intro k hk
        rcases Nat.lt_succ_iff_lt_or_eq.mp hk with hlt | rfl
        · exact hsome k hlt
        · rw [hline]
          rfl

/-- What `readImage` does to a screen on which the image lies. -/
theorem readImage_cases (hs : Sized w h screen) (himg : img.Confined w h) :
    (readImage img screen = .error .exit ∧ ∃ k < img.height, img.line k = none) ∨
      ∃ t, readImage img screen = .ok t ∧ Holds img w h screen img.order t ∧
        ∀ k < img.height, (img.line k).isSome := by
  have hrows : ∀ j ∈ img.order, j < h := by
    intro j hj
    have hlt := (mem_order_iff.mp hj).2
    have htop := himg.2
    omega
  rw [readImage_eq_feed, ← length_order img]
  exact feed_rows hs himg.1 hrows (nodup_order img)

/-- What reading an image does: it gets as many lines as the image is high, one for each of its rows
in the order of the file, and touches nothing else. -/
structure FillsRows (img : Image) (h : Nat) (screen : Screen) : Prop where
  inside : readImage img screen ≠ .error .outside
  reads : (∀ k < img.height, (img.line k).isSome) → ∃ t, readImage img screen = .ok t
  order : ∀ t, readImage img screen = .ok t → t.rows = img.order
  length : ∀ t, readImage img screen = .ok t → t.rows.length = img.height
  once : ∀ t, readImage img screen = .ok t → t.rows.Perm (List.range' img.top img.height)
  lt : ∀ t, readImage img screen = .ok t → ∀ r ∈ t.rows, r < h
  pixel : ∀ t, readImage img screen = .ok t → ∀ r c, pixel t.screen r c =
    if r ∈ t.rows ∧ img.left ≤ c ∧ c < img.left + img.width then
      (img.line (t.rows.idxOf r)).bind (·[c - img.left]?)
    else pixel screen r c

/-- Every image that lies on the screen is read line by line into its own rows, each exactly
once, interlaced or not. -/
theorem readImage_fillsRows (hs : Sized w h screen) (himg : img.Confined w h) :
    FillsRows img h screen := by
  rcases readImage_cases hs himg with ⟨herror, k, hk, hnone⟩ | ⟨t, hok, hholds, -⟩
  · have hno (u : Reading) : readImage img screen ≠ .ok u := by
      rw [herror]
      exact nofun
    refine ⟨by rw [herror]; exact nofun, fun hsome => ?_, fun u hu => absurd hu (hno u),
      fun u hu => absurd hu (hno u), fun u hu => absurd hu (hno u), fun u hu => absurd hu (hno u),
      fun u hu => absurd hu (hno u)⟩
    have hk := hsome k hk
    rw [hnone] at hk
    cases hk
  · have hrows (u : Reading) (hu : readImage img screen = .ok u) : u.rows = img.order := by
      rw [hok] at hu
      obtain rfl := Except.ok.inj hu
      exact hholds.rows
    refine ⟨by rw [hok]; exact nofun, fun _ => ⟨t, hok⟩, hrows, ?_, ?_, ?_, ?_⟩
    · intro u hu
      rw [hrows u hu, length_order]
    · intro u hu
      rw [hrows u hu]
      exact order_perm img
    · intro u hu r hr
      rw [hrows u hu] at hr
      have hlt := (mem_order_iff.mp hr).2
      have htop := himg.2
      omega
    · intro u hu
      rw [hrows u hu]
      rw [hok] at hu
      obtain rfl := Except.ok.inj hu
      exact hholds.pixel

/-- An interlaced image of one column and three rows. -/
def threeRows : Image where
  top := 0
  left := 0
  width := 1
  height := 3
  interlace := true
  colorMap := none
  line k := if k < 3 then some [UInt8.ofNat k] else none
  length_line k l h := by
    split at h
    · rw [← Option.some.inj h]
      rfl
    · cases h

theorem threeRows_fillsRows : FillsRows threeRows 3 [[9], [9], [9]] :=
  readImage_fillsRows (w := 1) ⟨rfl, by decide⟩ ⟨by decide, by decide⟩

example : threeRows.order = [0, 2, 1] := by decide

end BoardTest.Gif
