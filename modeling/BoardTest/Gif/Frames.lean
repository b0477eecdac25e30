import BoardTest.Gif.Gif2rgb

/-!
# The frames of `gif2rgb_test`

The screen keeps indices, and every image brings its own colour map or uses the one of the file: a
frame shows all indices by the map of the image read last. What a pixel is to show, the colour in
the map of the image that painted it, is stated by `lastPainter`; `Agrees` says when the two are the
same.
-/

namespace BoardTest.Gif

/-- What is written to a file for one image. -/
abbrev Frame := List (List Color)

/-- The loop over a row; `none` where `ColorMap->Colors` has no such entry. -/
def dumpRow (map : ColorMap) (row : List Byte) : Option (List Color) :=
  row.mapM fun p => map[p.toNat]?

/-- `DumpScreen2RGB` -/
def dumpScreen2RGB (map : ColorMap) (screen : Screen) : Option Frame := screen.mapM (dumpRow map)

/-- The map of the image, or that of the file. -/
def GifFile.mapOf (gif : GifFile) (img : Image) : Option ColorMap := img.colorMap <|> gif.sColorMap

/-- The case `IMAGE_DESC_RECORD_TYPE` (lines 113 to 180), behind `DGifGetImageDesc`. -/
def showImage (gif : GifFile) (img : Image) (screen : Screen) : Except Stop (Screen × Frame) :=
  if gif.sWidth < img.left + img.width ∨ gif.sHeight < img.top + img.height then .error .exit
  else
    (readImage img screen).bind fun s =>
      match gif.mapOf img with
      | none => .error .exit
      | some map =>
        if map.length ≤ gif.sBackGroundColor.toNat then .error .exit
        else
          match dumpScreen2RGB map s.screen with
          | none => .error .outside
          | some frame => .ok (s.screen, frame)

/-- What the calls of the decoder yield in a round of the loop. -/
inductive Record
  | image (img : Image)
  /-- an extension, which is skipped -/
  | extension
  /-- `GIF_ERROR`, of the call for the record or of those for what is in it -/
  | failed

/-- The screen before the first image. -/
def GifFile.blank (gif : GifFile) : Screen :=
  List.replicate gif.sHeight (List.replicate gif.sWidth gif.sBackGroundColor)

/-- The records up to `TERMINATE_RECORD_TYPE`: the frames that are dumped, and how the program
leaves its course if it does. -/
def scanRecords (gif : GifFile) : List Record → Screen → List Frame × Option Stop
  | [], _ => ([], none)
  | .failed :: _, _ => ([], some .exit)
  | .extension :: records, screen => scanRecords gif records screen
  | .image img :: records, screen =>
    match showImage gif img screen with
    | .error stop => ([], some stop)
    | .ok (screen', frame) =>
      let rest := scanRecords gif records screen'
      (frame :: rest.1, rest.2)

/-- `GIF2RGB` -/
def gif2rgb (gif : GifFile) (records : List Record) : List Frame × Option Stop :=
  if gif.sHeight = 0 ∨ gif.sWidth = 0 then ([], some .exit) else scanRecords gif records gif.blank

def Record.image? : Record → Option Image
  | image img => some img
  | _ => none

/-- The images of a file. -/
def images (records : List Record) : List Image := records.filterMap Record.image?

def Image.covers (img : Image) (r c : Nat) : Bool :=
  (img.top ≤ r ∧ r < img.top + img.height) ∧ img.left ≤ c ∧ c < img.left + img.width

/-- The image that painted a pixel last. -/
def lastPainter (imgs : List Image) (r c : Nat) : Option Image :=
  (imgs.filter (·.covers r c)).getLast?

/-- The index that an image paints at a place of the screen. -/
def Image.index (img : Image) (r c : Nat) : Option Byte :=
  (img.line (img.order.idxOf r)).bind (·[c - img.left]?)

/-- The colour which the index that `painter` paints has in the map of `img`. -/
def colorIn (gif : GifFile) (img painter : Image) (r c : Nat) : Option Color :=
  (gif.mapOf img).bind fun map => (painter.index r c).bind fun p => map[p.toNat]?

def colorAt (frame : Frame) (r c : Nat) : Option Color := frame[r]?.bind (·[c]?)

/-- Every pixel painted so far has the colour its index has in the map of the image that painted it
last. -/
def Shows (gif : GifFile) (imgs : List Image) (frame : Frame) : Prop :=
  ∀ r < gif.sHeight, ∀ c < gif.sWidth, ∀ painter, lastPainter imgs r c = some painter →
    ∃ color, colorAt frame r c = some color ∧ colorIn gif painter painter r c = some color

/-- Every frame shows what it is to show, and no colour is looked up behind the end of a map. -/
def DumpsTrue (gif : GifFile) (records : List Record) : Prop :=
  (gif2rgb gif records).2 ≠ some .outside ∧
    ∀ k frame, (gif2rgb gif records).1[k]? = some frame →
      Shows gif ((images records).take (k + 1)) frame

/-- The map of the last image has every index that is to be seen, and shows it like the map of the
image that painted it. -/
def Agrees (gif : GifFile) (imgs : List Image) (img : Image) : Prop :=
  ∀ r < gif.sHeight, ∀ c < gif.sWidth, ∀ painter, lastPainter (imgs ++ [img]) r c = some painter →
    ∃ color, colorIn gif img painter r c = some color ∧
      colorIn gif painter painter r c = some color

/-- The image lies on the screen, its lines can be read, and it has a map that is large enough for
the background. -/
def Image.shown (gif : GifFile) (img : Image) : Bool :=
  (img.left + img.width ≤ gif.sWidth ∧ img.top + img.height ≤ gif.sHeight) ∧
    (∀ k < img.height, (img.line k).isSome) ∧
    (gif.mapOf img).any (gif.sBackGroundColor.toNat < ·.length)

/-- The program goes on behind a record. -/
def Record.goes (gif : GifFile) : Record → Bool
  | image img => img.shown gif
  | extension => true
  | failed => false

/-- The images that the program dumps. -/
def shownImages (gif : GifFile) (records : List Record) : List Image :=
  images (records.takeWhile (Record.goes gif))

/-- With the map of every image that is dumped, the screen looks as it is to look. -/
def MapsAgree (gif : GifFile) (records : List Record) : Prop :=
  ∀ imgs img, imgs ++ [img] <+: shownImages gif records → Agrees gif imgs img

theorem mapM_eq_some_iff {α β : Type} {f : α → Option β} {l : List α} {l' : List β} :
    l.mapM f = some l' ↔ l.map f = l'.map some := by
  induction l generalizing l' with
  | nil => cases l' <;> simp
  | cons a l ih =>
    simp only [List.mapM_cons, Option.bind_eq_bind, Option.bind_eq_some_iff, List.map_cons, ih]
    constructor
    · rintro ⟨b, hb, bs, hbs, h⟩
      obtain rfl := Option.some.inj h
      rw [hb, hbs, List.map_cons]
    · intro h
      cases l' with
      | nil => cases h
      | cons b bs =>
        obtain ⟨hb, hbs⟩ := List.cons.inj h
        exact ⟨b, hb, bs, hbs, rfl⟩

/-- A table of lookups is complete when each of them is. -/
theorem exists_mapM_iff {α β : Type} {f : α → Option β} {l : List α} :
    (∃ l', l.mapM f = some l') ↔ ∀ a ∈ l, ∃ b, f a = some b := by
  induction l with
  | nil => exact iff_of_true ⟨[], rfl⟩ fun _ h => absurd h List.not_mem_nil
  | cons a l ih =>
    simp only [List.mapM_cons, Option.bind_eq_bind, Option.bind_eq_some_iff, List.forall_mem_cons,
      ← ih]
    constructor
    · rintro ⟨_, b, hb, bs, hbs, -⟩
      exact ⟨⟨b, hb⟩, bs, hbs⟩
    · rintro ⟨⟨b, hb⟩, bs, hbs⟩
      exact ⟨_, b, hb, bs, hbs, rfl⟩

theorem getElem?_of_mapM {α β : Type} {f : α → Option β} {l : List α} {l' : List β}
    (h : l.mapM f = some l') (i : Nat) : l'[i]? = l[i]?.bind f := by
  have hmap := congrArg (·[i]?) (mapM_eq_some_iff.mp h)
  simp only [List.getElem?_map] at hmap
  cases hi : l[i]? with
  | none =>
    rw [hi] at hmap
    simpa using hmap.symm
  | some a =>
    rw [hi, Option.map_some] at hmap
    rw [Option.bind_some]
    cases hi' : l'[i]? with
    | none =>
      rw [hi'] at hmap
      cases hmap
    | some b =>
      rw [hi'] at hmap
      exact (Option.some.inj hmap).symm

variable {gif : GifFile} {img : Image} {imgs : List Image} {screen : Screen} {map : ColorMap}
  {frame : Frame} {w h r c : Nat}

/-- The dump succeeds when the map has every index of the screen. -/
theorem exists_dump_iff (hs : Sized w h screen) :
    (∃ frame, dumpScreen2RGB map screen = some frame) ↔
      ∀ r < h, ∀ c < w, ∃ color, ((pixel screen r c).bind fun p => map[p.toNat]?) = some color := by
  unfold dumpScreen2RGB
  rw [exists_mapM_iff]
  unfold dumpRow
  simp only [exists_mapM_iff]
  constructor
  · intro hall r hr c hc
    have hlt : r < screen.length := by rwa [hs.length]
    have hrow : screen[r].length = w := hs.length_row _ (List.getElem_mem hlt)
    have hlt' : c < screen[r].length := by rwa [hrow]
    obtain ⟨color, hcolor⟩ := hall _ (List.getElem_mem hlt) _ (List.getElem_mem hlt')
    refine ⟨color, ?_⟩
    rw [pixel, List.getElem?_eq_getElem hlt, Option.bind_some, List.getElem?_eq_getElem hlt',
      Option.bind_some, hcolor]
  · intro hall row hrow p hp
    obtain ⟨r, hr, rfl⟩ := List.getElem_of_mem hrow
    obtain ⟨c, hc, rfl⟩ := List.getElem_of_mem hp
    have hcw : c < w := by rwa [← hs.length_row _ (List.getElem_mem hr)]
    obtain ⟨color, hcolor⟩ := hall r (by rwa [← hs.length]) c hcw
    rw [pixel, List.getElem?_eq_getElem hr, Option.bind_some, List.getElem?_eq_getElem hc,
      Option.bind_some] at hcolor
    exact ⟨color, hcolor⟩

theorem colorAt_dump (hdump : dumpScreen2RGB map screen = some frame) (r c : Nat) :
    colorAt frame r c = (pixel screen r c).bind fun p => map[p.toNat]? := by
  rw [colorAt, getElem?_of_mapM hdump, pixel]
  cases hrow : screen[r]? with
  | none => rfl
  | some row =>
    rw [Option.bind_some, Option.bind_some]
    cases hline : dumpRow map row with
    | none =>
      obtain ⟨line, hsome⟩ := exists_mapM_iff.mp ⟨frame, hdump⟩ row (List.mem_of_getElem? hrow)
      rw [hline] at hsome
      cases hsome
    | some line => exact getElem?_of_mapM hline c

theorem lastPainter_append_singleton (imgs : List Image) (img : Image) (r c : Nat) :
    lastPainter (imgs ++ [img]) r c =
      if img.covers r c then some img else lastPainter imgs r c := by
  rw [lastPainter, List.filter_append]
  by_cases hcovers : img.covers r c = true
  · rw [if_pos hcovers, List.filter_singleton, hcovers]
    exact List.getLast?_concat
  · rw [if_neg hcovers, List.filter_singleton, Bool.eq_false_iff.mpr hcovers]
    exact congrArg _ (List.append_nil _)

/-- Every pixel has the index of the image that painted it last, or the one of the background. -/
structure Holding (gif : GifFile) (imgs : List Image) (screen : Screen) : Prop where
  sized : Sized gif.sWidth gif.sHeight screen
  pixel : ∀ r < gif.sHeight, ∀ c < gif.sWidth, pixel screen r c =
    match lastPainter imgs r c with
    | some painter => painter.index r c
    | none => some gif.sBackGroundColor

theorem holding_blank (gif : GifFile) : Holding gif [] gif.blank where
  sized := by
    refine ⟨List.length_replicate, ?_⟩
    intro row hrow
    rw [List.eq_of_mem_replicate hrow, List.length_replicate]
  pixel r hr c hc := by
    change gif.blank[r]?.bind (·[c]?) = _
    rw [GifFile.blank, List.getElem?_replicate_of_lt hr, Option.bind_some,
      List.getElem?_replicate_of_lt hc]
    rfl

theorem covers_iff : img.covers r c = true ↔
    r ∈ img.order ∧ img.left ≤ c ∧ c < img.left + img.width := by
  rw [mem_order_iff, Image.covers, decide_eq_true_eq]

/-- Reading an image paints it over the others. -/
theorem Holding.read {t : Reading} (hs : Holding gif imgs screen)
    (ht : Holds img gif.sWidth gif.sHeight screen img.order t) :
    Holding gif (imgs ++ [img]) t.screen where
  sized := ht.sized
  pixel r hr c hc := by
    rw [ht.pixel r c, lastPainter_append_singleton, hs.pixel r hr c hc]
    by_cases hcovers : img.covers r c = true
    · rw [if_pos (covers_iff.mp hcovers), if_pos hcovers]
      rfl
    · rw [if_neg (mt covers_iff.mpr hcovers), if_neg hcovers]

theorem shown_iff : img.shown gif = true ↔
    img.Confined gif.sWidth gif.sHeight ∧ (∀ k < img.height, (img.line k).isSome) ∧
      ∃ map, gif.mapOf img = some map ∧ gif.sBackGroundColor.toNat < map.length := by
  rw [Image.shown, decide_eq_true_eq]
  refine and_congr_right' (and_congr_right' ?_)
  cases gif.mapOf img with
  | none => exact iff_of_false Bool.false_ne_true fun ⟨_, h, _⟩ => nomatch h
  | some map =>
    rw [Option.any_some, decide_eq_true_eq]
    constructor
    · exact fun h => ⟨map, rfl, h⟩
    · rintro ⟨_, ⟨⟩, h⟩
      exact h

/-- An image that is not dumped ends the program. -/
theorem showImage_of_not_shown (hs : Holding gif imgs screen) (himg : ¬ img.shown gif = true) :
    showImage gif img screen = .error .exit := by
  unfold showImage
  by_cases hconfined : img.Confined gif.sWidth gif.sHeight
  · rw [if_neg fun h => h.elim hconfined.1.not_gt hconfined.2.not_gt]
    rcases readImage_cases hs.sized hconfined with ⟨herror, -⟩ | ⟨t, hok, -, hsome⟩
    · rw [herror]
      rfl
    · rw [hok]
      change (match gif.mapOf img with | none => _ | some map => _) = _
      cases hmap : gif.mapOf img with
      | none => rfl
      | some map =>
        refine if_pos (Nat.le_of_not_lt fun hlt => himg ?_)
        exact shown_iff.mpr ⟨hconfined, hsome, map, hmap, hlt⟩
  · refine if_pos ?_
    by_contra hno
    obtain ⟨hleft, htop⟩ := not_or.mp hno
    exact hconfined ⟨Nat.le_of_not_lt hleft, Nat.le_of_not_lt htop⟩

/-- An image that is dumped: the frame, if the map has every index of the screen. -/
theorem showImage_of_shown (hs : Holding gif imgs screen) (himg : img.shown gif = true) :
    ∃ map t, gif.mapOf img = some map ∧ gif.sBackGroundColor.toNat < map.length ∧
      Holding gif (imgs ++ [img]) t ∧
      showImage gif img screen =
        match dumpScreen2RGB map t with
        | none => .error .outside
        | some frame => .ok (t, frame) := by
  obtain ⟨hconfined, hsome, map, hmap, hback⟩ := shown_iff.mp himg
  rcases readImage_cases hs.sized hconfined with ⟨-, k, hk, hnone⟩ | ⟨t, hok, hholds, -⟩
  · have hline := hsome k hk
    rw [hnone] at hline
    cases hline
  · refine ⟨map, t.screen, hmap, hback, hs.read hholds, ?_⟩
    rw [showImage, if_neg fun h => h.elim hconfined.1.not_gt hconfined.2.not_gt, hok]
    simp only [Except.bind, hmap, if_neg (Nat.not_le.mpr hback)]

/-- The frame can be dumped and shows what it is to show, if and only if the map agrees with those
of the painters. -/
theorem exists_frame_iff (hs : Holding gif (imgs ++ [img]) screen)
    (hmap : gif.mapOf img = some map) (hback : gif.sBackGroundColor.toNat < map.length) :
    (∃ frame, dumpScreen2RGB map screen = some frame ∧ Shows gif (imgs ++ [img]) frame) ↔
      Agrees gif imgs img := by
  have hcolor {r c : Nat} (hr : r < gif.sHeight) (hc : c < gif.sWidth) {painter : Image}
      (hpainter : lastPainter (imgs ++ [img]) r c = some painter) :
      ((pixel screen r c).bind fun p => map[p.toNat]?) = colorIn gif img painter r c := by
    rw [hs.pixel r hr c hc, hpainter, colorIn, hmap, Option.bind_some]
  constructor
  · rintro ⟨frame, hdump, hshows⟩ r hr c hc painter hpainter
    obtain ⟨color, hat, hown⟩ := hshows r hr c hc painter hpainter
    rw [colorAt_dump hdump, hcolor hr hc hpainter] at hat
    exact ⟨color, hat, hown⟩
  · intro hagrees
    have hdumps : ∃ frame, dumpScreen2RGB map screen = some frame := by
      rw [exists_dump_iff hs.sized]
      intro r hr c hc
      cases hpainter : lastPainter (imgs ++ [img]) r c with
      | none =>
        rw [hs.pixel r hr c hc, hpainter]
        exact ⟨_, List.getElem?_eq_getElem hback⟩
      | some painter =>
        obtain ⟨color, hmine, -⟩ := hagrees r hr c hc painter hpainter
        exact ⟨color, (hcolor hr hc hpainter).trans hmine⟩
    obtain ⟨frame, hdump⟩ := hdumps
    refine ⟨frame, hdump, ?_⟩
    intro r hr c hc painter hpainter
    obtain ⟨color, hmine, hown⟩ := hagrees r hr c hc painter hpainter
    refine ⟨color, ?_, hown⟩
    rw [colorAt_dump hdump, hcolor hr hc hpainter, hmine]

/-! ## The run -/

/-- What is asked of a run from a screen on which `imgs` were painted. -/
def RunsTrue (gif : GifFile) (imgs : List Image) (records : List Record)
    (run : List Frame × Option Stop) : Prop :=
  run.2 ≠ some .outside ∧
    ∀ k frame, run.1[k]? = some frame → Shows gif (imgs ++ (images records).take (k + 1)) frame

theorem prefix_cons_iff {α : Type} {p : List α → α → Prop} {a : α} {l : List α} :
    (∀ js j, js ++ [j] <+: a :: l → p js j) ↔
      p [] a ∧ ∀ js j, js ++ [j] <+: l → p (a :: js) j := by
  constructor
  · intro h
    refine ⟨h [] a ⟨l, rfl⟩, ?_⟩
    intro js j hjs
    exact h (a :: js) j (List.cons_prefix_cons.mpr ⟨rfl, hjs⟩)
  · rintro ⟨ha, hl⟩ js j hjs
    cases js with
    | nil =>
      obtain ⟨rfl, -⟩ := List.cons_prefix_cons.mp hjs
      exact ha
    | cons b js =>
      obtain ⟨rfl, hrest⟩ := List.cons_prefix_cons.mp hjs
      exact hl js j hrest

/-- The first frame, and the run behind it. -/
theorem runsTrue_cons_iff {records : List Record} {run : List Frame × Option Stop} :
    RunsTrue gif imgs (.image img :: records) (frame :: run.1, run.2) ↔
      Shows gif (imgs ++ [img]) frame ∧ RunsTrue gif (imgs ++ [img]) records run := by
  have himages (k : Nat) : imgs ++ (images (.image img :: records)).take (k + 1) =
      imgs ++ [img] ++ (images records).take k := by
    rw [List.append_assoc]
    rfl
  unfold RunsTrue
  constructor
  · rintro ⟨hstop, hframes⟩
    have hfirst := hframes 0 frame rfl
    rw [himages, List.take_zero, List.append_nil] at hfirst
    refine ⟨hfirst, hstop, ?_⟩
    intro k f hf
    rw [← himages]
    exact hframes (k + 1) f hf
  · rintro ⟨hfirst, hstop, hframes⟩
    refine ⟨hstop, ?_⟩
    intro k f hf
    rw [himages]
    cases k with
    | zero =>
      obtain rfl := Option.some.inj hf
      rwa [List.take_zero, List.append_nil]
    | succ k => exact hframes k f hf

/-- A run without a frame that ends regularly. -/
theorem runsTrue_nil {records : List Record} {stop : Option Stop} (hstop : stop ≠ some .outside) :
    RunsTrue gif imgs records ([], stop) :=
  ⟨hstop, fun _ _ h => nomatch h⟩

theorem not_prefix_nil {α : Type} {js : List α} {j : α} : ¬ js ++ [j] <+: [] := by
  intro h
  have := h.length_le
  simp at this

theorem runsTrue_iff (hs : Holding gif imgs screen) (records : List Record) :
    RunsTrue gif imgs records (scanRecords gif records screen) ↔
      ∀ js img, js ++ [img] <+: shownImages gif records → Agrees gif (imgs ++ js) img := by
  induction records generalizing imgs screen with
  | nil => exact iff_of_true (runsTrue_nil nofun) fun _ _ h => absurd h not_prefix_nil
  | cons record records ih =>
    cases record with
    | failed => exact iff_of_true (runsTrue_nil nofun) fun _ _ h => absurd h not_prefix_nil
    | extension => exact ih hs
    | image img =>
      by_cases himg : img.shown gif = true
      · have hgoes : Record.goes gif (.image img) = true := himg
        have himages :
            shownImages gif (.image img :: records) = img :: shownImages gif records := by
          rw [shownImages, List.takeWhile_cons_of_pos hgoes]
          rfl
        obtain ⟨map, t, hmap, hback, ht, hshow⟩ := showImage_of_shown hs himg
        have hframe := exists_frame_iff ht hmap hback
        rw [himages, prefix_cons_iff (p := fun js img => Agrees gif (imgs ++ js) img),
          List.append_nil, ← hframe]
        have hrest (js : List Image) (j : Image) :
            Agrees gif (imgs ++ img :: js) j ↔ Agrees gif (imgs ++ [img] ++ js) j := by
          rw [List.append_assoc, List.singleton_append]
        simp only [hrest, ← ih ht, scanRecords, hshow]
        cases hdump : dumpScreen2RGB map t with
        | none => exact iff_of_false (fun h => h.1 rfl) fun ⟨⟨_, h, _⟩, _⟩ => nomatch h
        | some frame =>
          rw [runsTrue_cons_iff]
          refine and_congr_left' ?_
          constructor
          · exact fun h => ⟨frame, rfl, h⟩
          · rintro ⟨_, ⟨⟩, h⟩
            exact h
      · have hstops : ¬ Record.goes gif (.image img) = true := himg
        have himages : shownImages gif (.image img :: records) = [] := by
          rw [shownImages, List.takeWhile_cons_of_neg hstops]
          rfl
        rw [himages, scanRecords, showImage_of_not_shown hs himg]
        exact iff_of_true (runsTrue_nil nofun) fun _ _ h => absurd h not_prefix_nil

/-- Every frame shows every pixel in the colour of the image that painted it last, and no colour
is looked up behind a map, if and only if the maps of the images that are dumped agree. -/
theorem dumpsTrue_iff (gif : GifFile) (records : List Record) :
    DumpsTrue gif records ↔ MapsAgree gif records := by
  have hscan := runsTrue_iff (holding_blank gif) records
  unfold DumpsTrue gif2rgb
  by_cases hempty : gif.sHeight = 0 ∨ gif.sWidth = 0
  · rw [if_pos hempty]
    refine iff_of_true ⟨nofun, fun _ _ h => nomatch h⟩ ?_
    intro imgs img _ r hr c hc
    rcases hempty with hzero | hzero <;> omega
  · rw [if_neg hempty]
    exact hscan

def black : Color := ⟨0, 0, 0⟩

def white : Color := ⟨255, 255, 255⟩

/-- An image of one pixel, with the index 0. -/
def onePixel (left : Nat) (map : ColorMap) : Image :=
  ⟨0, left, 1, 1, false, some map, fun _ => some [0],
    fun _ _ h => by rw [← Option.some.inj h]; rfl⟩

/-- Two pixels beside each other, with the same index in opposite maps. -/
def opposite : List Record :=
  [.image (onePixel 0 [black, white]), .image (onePixel 1 [white, black])]

/-- The second frame shows the black pixel white. -/
theorem opposite_shows_white : ¬ ∀ gif records, DumpsTrue gif records := by
  intro h
  have hshows := (h ⟨2, 1, 0, none⟩ opposite).2 1 [[white, white]] rfl
  obtain ⟨color, hat, hown⟩ := hshows 0 (by decide) 0 (by decide) (onePixel 0 [black, white]) rfl
  exact absurd (hat.trans hown.symm) (by decide)

end BoardTest.Gif
