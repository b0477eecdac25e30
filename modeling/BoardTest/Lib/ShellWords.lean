import BoardTest.Lib.Shell

/-!
# Words that are read back as written

What a program may paste into a command line. A byte of a parsed word that stands unquoted has no
special meaning, and a single-quoted stretch has no quote in it (`parse_wellMarked`). A line written
from a template is parsed back to the command the template means exactly when every word of it is
clean (`parse_render_iff`).
-/

namespace BoardTest.Shell

/-- Every byte is plain. -/
def Plain (v : List Byte) : Prop := ∀ b ∈ v, isPlain b = true

/-- Plain, and no comment and no home directory at the start of a word. -/
def StartPlain (v : List Byte) : Prop := Plain v ∧ v.head? ≠ some 35 ∧ v.head? ≠ some 126

instance (v : List Byte) : Decidable (Plain v) := List.decidableBAll _ v
instance (v : List Byte) : Decidable (StartPlain v) := inferInstanceAs (Decidable (_ ∧ _))

/-- Unquoted bytes as a word. -/
def bareWord (v : List Byte) : Word := v.map Part.bare

def PartMarked : Part → Prop
  | .bare b => isPlain b = true
  | .single v => 39 ∉ v
  | _ => True

/-- What the scanner promises of every word: it is not empty, its unquoted bytes are plain, its
single-quoted stretches have no quote, and it does not start with an unquoted `#` or `~`. -/
structure WellMarked (w : Word) : Prop where
  ne_nil : w ≠ []
  parts : ∀ p ∈ w, PartMarked p
  head_hash : w.head? ≠ some (.bare 35)
  head_tilde : w.head? ≠ some (.bare 126)

theorem WellMarked.push {w : Word} (h : WellMarked w) {p : Part} (hp : PartMarked p) :
    WellMarked (w ++ [p]) := by
  obtain ⟨q, w, rfl⟩ := List.exists_cons_of_ne_nil h.ne_nil
  refine ⟨by simp, ?_, h.head_hash, h.head_tilde⟩
  intro x hx
  rcases List.mem_append.mp hx with hx | hx
  · exact h.parts x hx
  · rw [List.mem_singleton.mp hx]
    exact hp

theorem wellMarked_singleton {p : Part} (hp : PartMarked p) (hhash : p ≠ .bare 35)
    (htilde : p ≠ .bare 126) : WellMarked [p] :=
  ⟨by simp, by simpa using hp, by simpa using hhash, by simpa using htilde⟩

def TokenMarked : Token → Prop
  | .word w => WellMarked w
  | _ => True

/-- The scanner's invariant. -/
structure State.Marked (s : State) : Prop where
  tokens : ∀ t ∈ s.tokens, TokenMarked t
  word : ∀ w, s.word = some w → WellMarked w
  mode : ∀ v, s.mode = .single v → 39 ∉ v

theorem State.Marked.endWord {s : State} (h : s.Marked) : s.endWord.Marked := by
  refine ⟨?_, by simp [State.endWord], by simp [State.endWord]⟩
  intro t ht
  rcases List.mem_append.mp ht with ht | ht
  · exact h.tokens t ht
  · cases hw : s.word with
    | none => simp [hw] at ht
    | some w =>
      simp only [hw, Option.map_some, Option.toList_some, List.mem_singleton] at ht
      subst ht
      exact h.word w hw

theorem State.Marked.push {s : State} (h : s.Marked) {p : Part} (hp : PartMarked p)
    (hstart : s.word = none → p ≠ .bare 35 ∧ p ≠ .bare 126) : (s.push p).Marked := by
  refine ⟨h.tokens, ?_, by simp [State.push]⟩
  intro w hw
  cases hs : s.word with
  | none =>
    obtain ⟨hhash, htilde⟩ := hstart hs
    simp only [State.push, hs, Option.getD_none, List.nil_append, Option.some.injEq] at hw
    subst hw
    exact wellMarked_singleton hp hhash htilde
  | some w₀ =>
    simp only [State.push, hs, Option.getD_some, Option.some.injEq] at hw
    subst hw
    exact (h.word w₀ hs).push hp

/-- A change of mode keeps the invariant when the new mode carries no quote. -/
theorem State.Marked.withMode {s : State} (h : s.Marked) {m : Mode}
    (hm : ∀ v, m = .single v → 39 ∉ v) : ({ s with mode := m } : State).Marked :=
  ⟨h.tokens, h.word, hm⟩

theorem State.Marked.addToken {s : State} (h : s.Marked) {t : Token} (ht : TokenMarked t)
    (word : Option Word) (hword : ∀ w, word = some w → WellMarked w) {m : Mode}
    (hm : ∀ v, m = .single v → 39 ∉ v) : (⟨s.tokens ++ [t], word, m⟩ : State).Marked := by
  refine ⟨?_, hword, hm⟩
  intro x hx
  rcases List.mem_append.mp hx with hx | hx
  · exact h.tokens x hx
  · rw [List.mem_singleton.mp hx]
    exact ht

theorem State.Marked.startOperator {s : State} (h : s.Marked) (b : Byte) :
    (s.startOperator b).Marked := by
  unfold State.startOperator
  split
  · rename_i w _
    split
    · exact h.addToken (show TokenMarked (.ioNumber w) from trivial) none (by simp) (by simp)
    · exact h.endWord.withMode (by simp)
  · exact h.endWord.withMode (by simp)

theorem State.Marked.stepPlain {s : State} (h : s.Marked) (b : Byte) : (s.stepPlain b).Marked := by
  unfold State.stepPlain
  split
  · exact h.endWord
  split
  · exact h.startOperator b
  split
  · exact h.withMode (by simp)
  split
  · exact h.withMode (by simp)
  split
  · exact h.withMode (by simp)
  split
  · exact h.withMode (by simp)
  split
  · exact h.push (show PartMarked (.special b) from trivial) (by simp)
  · -- an ordinary byte: every test above has failed
    rename_i hblank hop hquote hdouble hback hhash hexp
    simp only [not_or, not_and] at hexp
    apply h.push
    · simp [PartMarked, isPlain, hblank, hop, hquote, hdouble, hback, hexp.1]
    · intro hnone
      exact ⟨fun e => hhash ⟨by simpa using e, hnone⟩, fun e => hexp.2 (by simpa using e) hnone⟩

theorem State.Marked.step {s : State} (h : s.Marked) (b : Byte) : (s.step b).Marked := by
  unfold State.step
  split
  · exact h.stepPlain b
  · split
    · exact h.withMode (by simp)
    · exact h.push (show PartMarked (.escaped b) from trivial) (by simp)
  · rename_i o _
    split
    · exact h.withMode (by simp)
    · exact (h.addToken (show TokenMarked (.op o) from trivial) s.word h.word (by simp)).stepPlain b
  · rename_i v hmode
    split
    · exact h.push (h.mode v hmode) (by simp)
    · rename_i hb
      apply h.withMode
      rintro _ ⟨⟩
      simpa using ⟨h.mode v hmode, fun e => hb e.symm⟩
  · rename_i v _
    split
    · exact h.push (show PartMarked (.double v) from trivial) (by simp)
    split <;> exact h.withMode (by simp)
  · split
    · exact h.withMode (by simp)
    split <;> exact h.withMode (by simp)
  · split
    · exact h.endWord.withMode (by simp)
    · exact h

theorem State.Marked.run {s : State} (h : s.Marked) (line : List Byte) : (s.run line).Marked := by
  induction line generalizing s with
  | nil => exact h
  | cons b line ih => exact ih (h.step b)

theorem State.Marked.finish {s : State} (h : s.Marked) {ts : List Token}
    (hts : s.finish = some ts) : ∀ t ∈ ts, TokenMarked t := by
  unfold State.finish at hts
  split at hts
  · obtain rfl := Option.some.inj hts
    exact h.endWord.tokens
  · obtain rfl := Option.some.inj hts
    exact (h.push (show PartMarked (.escaped 92) from trivial) (by simp)).endWord.tokens
  · rename_i o _
    obtain rfl := Option.some.inj hts
    have hop : TokenMarked (.op o) := trivial
    have hmode : ∀ v, Mode.plain = .single v → 39 ∉ v := by simp
    exact (h.addToken hop none (by simp) hmode).tokens
  · obtain rfl := Option.some.inj hts
    exact h.endWord.tokens
  all_goals simp at hts

theorem simpleCommand_wellMarked {ts : List Token} {c : SimpleCommand}
    (h : simpleCommand ts = some c) (hts : ∀ t ∈ ts, TokenMarked t) :
    (∀ w ∈ c.words, WellMarked w) ∧ ∀ r ∈ c.redirects, WellMarked r.target := by
  fun_induction simpleCommand ts generalizing c with
  | case1 =>
    obtain rfl := Option.some.inj h
    simp
  | case2 w rest ih =>
    obtain ⟨c', hc', rfl⟩ := Option.map_eq_some_iff.mp h
    obtain ⟨hw, hr⟩ := ih hc' fun t ht => hts t (by simp [ht])
    exact ⟨List.forall_mem_cons.mpr ⟨hts (.word w) (by simp), hw⟩, hr⟩
  | case3 o w rest ho ih =>
    obtain ⟨c', hc', rfl⟩ := Option.map_eq_some_iff.mp h
    obtain ⟨hw, hr⟩ := ih hc' fun t ht => hts t (by simp [ht])
    exact ⟨hw, List.forall_mem_cons.mpr ⟨hts (.word w) (by simp), hr⟩⟩
  | case5 n o w rest ho ih =>
    obtain ⟨c', hc', rfl⟩ := Option.map_eq_some_iff.mp h
    obtain ⟨hw, hr⟩ := ih hc' fun t ht => hts t (by simp [ht])
    exact ⟨hw, List.forall_mem_cons.mpr ⟨hts (.word w) (by simp), hr⟩⟩
  | case7 =>
    obtain rfl := Option.some.inj h
    simp
  | _ => simp at h

/-- Every word of a parsed command is well marked. -/
theorem parse_wellMarked {line : List Byte} {c : SimpleCommand} (h : parse line = some c) :
    (∀ w ∈ c.words, WellMarked w) ∧ ∀ r ∈ c.redirects, WellMarked r.target := by
  obtain ⟨ts, hts, hc⟩ := Option.bind_eq_some_iff.mp h
  have hinit : State.init.Marked := by
    refine ⟨?_, ?_, ?_⟩ <;> simp [State.init]
  exact simpleCommand_wellMarked hc ((hinit.run line).finish hts)

theorem wellMarked_bareWord_iff {v : List Byte} :
    WellMarked (bareWord v) ↔ v ≠ [] ∧ StartPlain v := by
  constructor
  · intro h
    refine ⟨by simpa [bareWord] using h.ne_nil, ?_, ?_, ?_⟩
    · intro b hb
      exact h.parts (.bare b) (List.mem_map_of_mem hb)
    · intro e
      exact h.head_hash (by simp [bareWord, e])
    · intro e
      exact h.head_tilde (by simp [bareWord, e])
  · rintro ⟨hne, hplain, hhash, htilde⟩
    obtain ⟨b, v, rfl⟩ := List.exists_cons_of_ne_nil hne
    refine ⟨by simp [bareWord], ?_, by simpa [bareWord] using hhash,
      by simpa [bareWord] using htilde⟩
    intro p hp
    obtain ⟨x, hx, rfl⟩ := List.mem_map.mp hp
    exact hplain x hx

inductive Piece
  | text (v : List Byte)
  | quoted (v : List Byte)
  deriving DecidableEq, Repr

def Piece.render : Piece → List Byte
  | .text v => v
  | .quoted v => 39 :: v ++ [39]

/-- What a piece is meant to add to its word. -/
def Piece.parts : Piece → Word
  | .text v => bareWord v
  | .quoted v => [.single v]

def word (ps : List Piece) : Word := ps.flatMap Piece.parts

inductive Item
  | arg (ps : List Piece)
  | out (ps : List Piece)
  deriving DecidableEq, Repr

def Item.render : Item → List Byte
  | .arg ps => ps.flatMap Piece.render
  | .out ps => 62 :: 32 :: ps.flatMap Piece.render

def render (items : List Item) : List Byte := List.intercalate [32] (items.map Item.render)

/-- The command a template means: an argument written empty is no argument. -/
def intended (items : List Item) : SimpleCommand :=
  ⟨(items.filterMap fun
      | .arg ps => if word ps = [] then none else some (word ps)
      | .out _ => none),
    items.filterMap fun
      | .arg _ => none
      | .out ps => some ⟨none, [62], word ps⟩⟩

/-- Nothing, or a word that reads back as it was written. -/
def CleanWord (w : Word) : Prop := w = [] ∨ WellMarked w

/-- An argument may vanish, the file of a redirection may not. -/
def Item.Clean : Item → Prop
  | .arg ps => CleanWord (word ps)
  | .out ps => WellMarked (word ps)

@[simp] theorem Item.clean_arg (ps : List Piece) : (Item.arg ps).Clean ↔ CleanWord (word ps) :=
  Iff.rfl

@[simp] theorem Item.clean_out (ps : List Piece) : (Item.out ps).Clean ↔ WellMarked (word ps) :=
  Iff.rfl

theorem CleanWord.partMarked {w : Word} (h : CleanWord w) : ∀ p ∈ w, PartMarked p := by
  rcases h with rfl | h
  · simp
  · exact h.parts

theorem CleanWord.text {w u : Word} {v : List Byte} (h : CleanWord (w ++ (bareWord v ++ u))) :
    Plain v ∧ (w = [] → StartPlain v) := by
  have hplain : Plain v := fun b hb => h.partMarked (.bare b) (by simp [bareWord, hb])
  refine ⟨hplain, ?_⟩
  rintro rfl
  rcases h with h | h
  · have hv : v = [] := by simp_all [bareWord]
    exact ⟨hplain, by simp [hv], by simp [hv]⟩
  · cases v with
    | nil => exact ⟨hplain, by simp, by simp⟩
    | cons b v =>
      exact ⟨hplain, by simpa [bareWord] using h.head_hash, by simpa [bareWord] using h.head_tilde⟩

theorem CleanWord.quoted {w u : Word} {v : List Byte} (h : CleanWord (w ++ ([.single v] ++ u))) :
    39 ∉ v :=
  h.partMarked (.single v) (by simp)

/-- The word under construction, as the scanner keeps it. -/
def asWord (w : Word) : Option Word := if w = [] then none else some w

theorem asWord_getD (w : Word) : (asWord w).getD [] = w := by
  unfold asWord
  split <;> simp_all

theorem asWord_eq_none_iff {w : Word} : asWord w = none ↔ w = [] := by
  simp [asWord]

theorem asWord_append_singleton (w : Word) (p : Part) : asWord (w ++ [p]) = some (w ++ [p]) := by
  simp [asWord]

/-- A plain byte outside quotes goes into the word, unless it starts it with `#` or `~`. -/
theorem step_bare (ts : List Token) (w : Word) {b : Byte} (hb : isPlain b = true)
    (hstart : w = [] → b ≠ 35 ∧ b ≠ 126) :
    State.step ⟨ts, asWord w, .plain⟩ b = ⟨ts, asWord (w ++ [.bare b]), .plain⟩ := by
  simp only [isPlain, Bool.and_eq_true, Bool.not_eq_true', decide_eq_true_eq] at hb
  obtain ⟨⟨⟨⟨⟨hblank, hop⟩, hexp⟩, hquote⟩, hdouble⟩, hback⟩ := hb
  have hhash : ¬ (b = 35 ∧ asWord w = none) := by
    rintro ⟨rfl, hw⟩
    exact (hstart (asWord_eq_none_iff.mp hw)).1 rfl
  have htilde : ¬ (b = 126 ∧ asWord w = none) := by
    rintro ⟨rfl, hw⟩
    exact (hstart (asWord_eq_none_iff.mp hw)).2 rfl
  simp only [State.step, State.stepPlain, hblank, hop, hexp, hquote, hdouble, hback, hhash, htilde,
    State.push, asWord_getD, asWord_append_singleton]
  simp

theorem run_append (s : State) (l₁ l₂ : List Byte) : s.run (l₁ ++ l₂) = (s.run l₁).run l₂ :=
  List.foldl_append

theorem run_cons (s : State) (b : Byte) (l : List Byte) : s.run (b :: l) = (s.step b).run l := rfl

theorem run_nil (s : State) : s.run [] = s := rfl

/-- A text whose bytes keep the word well marked is read into it. -/
theorem run_text (ts : List Token) (w : Word) (v : List Byte) (hplain : Plain v)
    (hstart : w = [] → StartPlain v) :
    State.run ⟨ts, asWord w, .plain⟩ v = ⟨ts, asWord (w ++ bareWord v), .plain⟩ := by
  induction v generalizing w with
  | nil => simp [run_nil, bareWord]
  | cons b v ih =>
    have hb : w = [] → b ≠ 35 ∧ b ≠ 126 := by
      intro hw
      obtain ⟨-, hhash, htilde⟩ := hstart hw
      exact ⟨by simpa using hhash, by simpa using htilde⟩
    have htail : w ++ [Part.bare b] = [] → StartPlain v := by simp
    rw [run_cons, step_bare ts w (hplain b (by simp)) hb,
      ih (w ++ [Part.bare b]) (fun x hx => hplain x (by simp [hx])) htail]
    simp [bareWord]

/-- Between single quotes everything but the quote is kept. -/
theorem run_quoted_tail (ts : List Token) (word : Option Word) (u v : List Byte) (hv : 39 ∉ v) :
    State.run ⟨ts, word, .single u⟩ v = ⟨ts, word, .single (u ++ v)⟩ := by
  induction v generalizing u with
  | nil => simp [run_nil]
  | cons b v ih =>
    obtain ⟨hb, hv⟩ := List.ne_and_not_mem_of_not_mem_cons hv
    have hstep : State.step ⟨ts, word, .single u⟩ b = ⟨ts, word, .single (u ++ [b])⟩ := by
      simp [State.step, Ne.symm hb]
    rw [run_cons, hstep, ih (u ++ [b]) hv]
    simp

theorem run_quoted (ts : List Token) (w : Word) {v : List Byte} (hv : 39 ∉ v) :
    State.run ⟨ts, asWord w, .plain⟩ (39 :: v ++ [39]) =
      ⟨ts, asWord (w ++ [.single v]), .plain⟩ := by
  have hopen : State.step ⟨ts, asWord w, .plain⟩ 39 = ⟨ts, asWord w, .single []⟩ := by
    simp [State.step, State.stepPlain, isBlank, isOperatorStart]
  have hclose : State.step ⟨ts, asWord w, .single v⟩ 39 =
      ⟨ts, asWord (w ++ [.single v]), .plain⟩ := by
    simp [State.step, State.push, asWord_getD, asWord_append_singleton]
  rw [List.cons_append, run_cons, hopen, run_append, run_quoted_tail _ _ _ _ hv, List.nil_append,
    run_cons, hclose, run_nil]

theorem run_pieces (ts : List Token) (w : Word) (ps : List Piece) (h : CleanWord (w ++ word ps)) :
    State.run ⟨ts, asWord w, .plain⟩ (ps.flatMap Piece.render) =
      ⟨ts, asWord (w ++ word ps), .plain⟩ := by
  induction ps generalizing w with
  | nil => simp [run_nil, word]
  | cons p ps ih =>
    have hassoc : w ++ word (p :: ps) = w ++ p.parts ++ word ps := by simp [word]
    rw [List.flatMap_cons, run_append]
    have hp : State.run ⟨ts, asWord w, .plain⟩ p.render = ⟨ts, asWord (w ++ p.parts), .plain⟩ := by
      rw [hassoc, List.append_assoc] at h
      cases p with
      | text v => exact run_text ts w v h.text.1 h.text.2
      | quoted v => exact run_quoted ts w h.quoted
    rw [hp, hassoc, ih (w ++ p.parts) (hassoc ▸ h)]

/-- The tokens of an item. -/
def Item.tokens : Item → List Token
  | .arg ps => ((asWord (word ps)).map Token.word).toList
  | .out ps => .op [62] :: ((asWord (word ps)).map Token.word).toList

theorem Item.Clean.run {i : Item} (h : i.Clean) (ts : List Token) :
    ∃ s : State, State.run ⟨ts, none, .plain⟩ i.render = s ∧ s.mode = .plain ∧
      s.endWord = ⟨ts ++ i.tokens, none, .plain⟩ := by
  refine ⟨_, rfl, ?_⟩
  cases i with
  | arg ps =>
    have hrun := run_pieces ts [] ps h
    rw [List.nil_append, asWord, if_pos rfl] at hrun
    rw [Item.render, hrun]
    exact ⟨rfl, rfl⟩
  | out ps =>
    have hgt : ([62, 32] : List Byte) ∉ operators := by decide
    have hop : State.run ⟨ts, none, .plain⟩ [62, 32] = ⟨ts ++ [.op [62]], none, .plain⟩ := by
      simp [run_cons, run_nil, State.step, State.stepPlain, State.startOperator, State.endWord,
        isBlank, isOperatorStart, hgt]
    have hrun := run_pieces (ts ++ [.op [62]]) [] ps (.inr h)
    rw [List.nil_append, asWord, if_pos rfl] at hrun
    have hrender : (Item.out ps).render = [62, 32] ++ ps.flatMap Piece.render := rfl
    rw [hrender, run_append, hop, hrun]
    exact ⟨rfl, by simp [State.endWord, Item.tokens]⟩

theorem render_cons_cons (i j : Item) (items : List Item) :
    render (i :: j :: items) = i.render ++ 32 :: render (j :: items) := by
  simp [render, List.intercalate]

theorem finish_run_render (items : List Item) (ts : List Token) (h : ∀ i ∈ items, i.Clean) :
    (State.run ⟨ts, none, .plain⟩ (render items)).finish =
      some (ts ++ items.flatMap Item.tokens) := by
  induction items generalizing ts with
  | nil => simp [render, run_nil, State.finish, State.endWord]
  | cons i items ih =>
    obtain ⟨s, hs, hmode, hend⟩ := (h i (by simp)).run ts
    cases items with
    | nil => simp [render, hs, State.finish, hmode, hend]
    | cons j items =>
      have hblank : s.step 32 = s.endWord := by
        simp [State.step, hmode, State.stepPlain, isBlank]
      rw [render_cons_cons, run_append, hs, run_cons, hblank, hend,
        ih (ts ++ i.tokens) (fun k hk => h k (by simp [hk]))]
      simp

theorem simpleCommand_tokens (items : List Item) (h : ∀ i ∈ items, i.Clean) :
    simpleCommand (items.flatMap Item.tokens) = some (intended items) := by
  induction items with
  | nil => rfl
  | cons i items ih =>
    have htail := ih fun k hk => h k (by simp [hk])
    rw [List.flatMap_cons]
    cases i with
    | arg ps =>
      by_cases hw : word ps = []
      · simp [Item.tokens, asWord, hw, htail, intended]
      · simp [Item.tokens, asWord, hw, htail, intended, simpleCommand]
    | out ps =>
      have hw : word ps ≠ [] := (h (.out ps) (by simp)).ne_nil
      have hmem : ([62] : List Byte) ∈ redirections := by decide
      simp [Item.tokens, asWord, hw, htail, intended, simpleCommand, hmem]

/-- A line written from a template means what the template means exactly when its items are
clean. -/
theorem parse_render_iff (items : List Item) :
    parse (render items) = some (intended items) ↔ ∀ i ∈ items, i.Clean := by
  constructor
  · intro h i hi
    obtain ⟨hwords, hredirects⟩ := parse_wellMarked h
    cases i with
    | arg ps =>
      by_cases hw : word ps = []
      · exact .inl hw
      · exact .inr (hwords _ (List.mem_filterMap.mpr ⟨.arg ps, hi, by simp [hw]⟩))
    | out ps => exact hredirects _ (List.mem_filterMap.mpr ⟨.out ps, hi, rfl⟩)
  · intro h
    rw [parse, State.init, finish_run_render items [] h, Option.bind_some, List.nil_append]
    exact simpleCommand_tokens items h

/-! ## When a written word is clean -/

theorem partMarked_bareWord_iff {v : List Byte} : (∀ p ∈ bareWord v, PartMarked p) ↔ Plain v := by
  simp [bareWord, PartMarked, Plain]

theorem cleanWord_text_iff {v : List Byte} : CleanWord (word [.text v]) ↔ StartPlain v := by
  have hword : word [.text v] = bareWord v := by simp [word, Piece.parts]
  rw [CleanWord, hword, wellMarked_bareWord_iff]
  constructor
  · rintro (h | h)
    · have hv : v = [] := by simpa [bareWord] using h
      rw [hv]
      decide
    · exact h.2
  · intro h
    by_cases hv : v = []
    · exact .inl (by simp [hv, bareWord])
    · exact .inr ⟨hv, h⟩

/-- Behind a clean start only the parts count. -/
theorem wellMarked_text_cons_iff {v : List Byte} {ps : List Piece} (hne : v ≠ [])
    (hv : StartPlain v) : WellMarked (word (.text v :: ps)) ↔ ∀ p ∈ word ps, PartMarked p := by
  have hword : word (.text v :: ps) = bareWord v ++ word ps := by simp [word, Piece.parts]
  rw [hword]
  constructor
  · intro h p hp
    exact h.parts p (List.mem_append_right _ hp)
  · intro h
    have hmarked := wellMarked_bareWord_iff.mpr ⟨hne, hv⟩
    have hhead : (bareWord v ++ word ps).head? = (bareWord v).head? := by
      rw [List.head?_append_of_ne_nil _ hmarked.ne_nil]
    refine ⟨by simp [hmarked.ne_nil], ?_, by rw [hhead]; exact hmarked.head_hash,
      by rw [hhead]; exact hmarked.head_tilde⟩
    intro p hp
    rcases List.mem_append.mp hp with hp | hp
    · exact hmarked.parts p hp
    · exact h p hp

theorem wellMarked_text_iff {v : List Byte} :
    WellMarked (word [.text v]) ↔ v ≠ [] ∧ StartPlain v := by
  have hword : word [.text v] = bareWord v := by simp [word, Piece.parts]
  rw [hword, wellMarked_bareWord_iff]

theorem cleanWord_text_cons_iff {v : List Byte} {ps : List Piece} (hne : v ≠ [])
    (hv : StartPlain v) : CleanWord (word (.text v :: ps)) ↔ ∀ p ∈ word ps, PartMarked p := by
  have hword : word (.text v :: ps) ≠ [] := by simp [word, Piece.parts, bareWord, hne]
  rw [CleanWord, or_iff_right hword, wellMarked_text_cons_iff hne hv]

theorem partMarked_text_cons_iff {v : List Byte} {ps : List Piece} :
    (∀ p ∈ word (.text v :: ps), PartMarked p) ↔ Plain v ∧ ∀ p ∈ word ps, PartMarked p := by
  have hword : word (.text v :: ps) = bareWord v ++ word ps := by simp [word, Piece.parts]
  rw [hword, List.forall_mem_append, partMarked_bareWord_iff]

theorem cleanWord_quoted_iff {v : List Byte} : CleanWord (word [.quoted v]) ↔ 39 ∉ v := by
  have hword : word [.quoted v] = [.single v] := by simp [word, Piece.parts]
  rw [hword]
  constructor
  · intro h
    exact h.partMarked (.single v) (by simp)
  · intro h
    exact .inr (wellMarked_singleton h (by simp) (by simp))

end BoardTest.Shell
