import BoardTest.Backend.HttpParse

/-!
# Heads that are read back

The text of a head: a first line, headers with blanks around their values, each line ended by CR LF
or by LF alone, and a blank line. Such a text is read back by `mg_http_parse` as it was put
together, whatever follows it (`parse_text`).
-/

namespace BoardTest.Backend

theorem continued_append {n : Nat} {u : List Byte} (h : continued n u = true) (t : List Byte) :
    continued n (u ++ t) = true := by
  simp only [continued, decide_eq_true_eq] at h ⊢
  rw [List.take_append_of_le_length h.1, List.length_append]
  exact ⟨by omega, h.2⟩

theorem continued_le {m n : Nat} {u : List Byte} (h : continued n u = true) (hm : m ≤ n) :
    continued m u = true := by
  simp only [continued, decide_eq_true_eq, List.all_eq_true] at h ⊢
  refine ⟨by omega, fun b hb => h.2 b ?_⟩
  exact (List.take_prefix_take_left hm).subset hb

theorem clen_le (s : List Byte) : clen s ≤ s.length := by
  cases s with
  | nil => exact Nat.le_refl 0
  | cons c u =>
    simp only [clen, continued, decide_eq_true_eq, List.length_cons]
    repeat' split
    all_goals omega

theorem clen_append {s : List Byte} (h : 0 < clen s) (t : List Byte) : clen (s ++ t) = clen s := by
  cases s with
  | nil => cases h
  | cons c u =>
    simp only [clen, List.cons_append] at h ⊢
    by_cases h₁ : 32 < c ∧ c ≤ 126
    · rw [if_pos h₁, if_pos h₁]
    rw [if_neg h₁] at h ⊢
    rw [if_neg h₁]
    by_cases h₂ : c &&& 0xe0 = 0xc0 ∧ continued 1 u = true
    · rw [if_pos h₂, if_pos ⟨h₂.1, continued_append h₂.2 t⟩]
    rw [if_neg h₂] at h ⊢
    by_cases h₃ : c &&& 0xf0 = 0xe0 ∧ continued 2 u = true
    · have hnot : c &&& 0xe0 ≠ 0xc0 := fun hc => h₂ ⟨hc, continued_le h₃.2 (by decide)⟩
      rw [if_neg (fun h => hnot h.1), if_pos h₃, if_pos ⟨h₃.1, continued_append h₃.2 t⟩]
    rw [if_neg h₃] at h ⊢
    by_cases h₄ : c &&& 0xf8 = 0xf0 ∧ continued 3 u = true
    · have hnot₂ : c &&& 0xe0 ≠ 0xc0 := fun hc => h₂ ⟨hc, continued_le h₄.2 (by decide)⟩
      have hnot₃ : c &&& 0xf0 ≠ 0xe0 := fun hc => h₃ ⟨hc, continued_le h₄.2 (by decide)⟩
      rw [if_neg (fun h => hnot₂ h.1), if_neg (fun h => hnot₃ h.1), if_pos h₄,
        if_pos ⟨h₄.1, continued_append h₄.2 t⟩]
    rw [if_neg h₄] at h
    cases h

theorem charsLoop_fuel (stop : Byte → Bool) {fuel : Nat} {s : List Byte} (h : s.length ≤ fuel) :
    charsLoop stop fuel s = chars stop s := by
  have same : ∀ (k l : Nat) (s : List Byte), s.length ≤ k → s.length ≤ l →
      charsLoop stop k s = charsLoop stop l s := by
    intro k
    induction k with
    | zero =>
      intro l s hk _
      obtain rfl := List.eq_nil_of_length_eq_zero (Nat.le_zero.mp hk)
      cases l <;> simp [charsLoop, clen]
    | succ k ih =>
      intro l s hk hl
      cases l with
      | zero =>
        obtain rfl := List.eq_nil_of_length_eq_zero (Nat.le_zero.mp hl)
        simp [charsLoop, clen]
      | succ l =>
        rw [charsLoop, charsLoop]
        split
        · rename_i hgo
          have hdrop := s.length_drop (i := clen s)
          have hle := clen_le s
          have := hgo.2
          rw [ih l _ (by omega) (by omega)]
        · rfl
  exact same _ _ _ h (Nat.le_refl _)

/-- A character is in front, and it does not end the name. -/
abbrev Goes (stop : Byte → Bool) (s : List Byte) : Prop := s.head?.all (!stop ·) ∧ 0 < clen s

variable {stop : Byte → Bool} {s t : List Byte}

theorem chars_of_goes (h : Goes stop s) : chars stop s =
    (s.take (clen s) ++ (chars stop (s.drop (clen s))).1, (chars stop (s.drop (clen s))).2) := by
  have hdrop := s.length_drop (i := clen s)
  rw [← charsLoop_fuel stop (Nat.le_succ s.length), charsLoop, if_pos h]
  dsimp only
  rw [charsLoop_fuel stop (by omega)]

theorem chars_of_not_goes (h : ¬ Goes stop s) : chars stop s = ([], s) := by
  rw [← charsLoop_fuel stop (Nat.le_succ s.length), charsLoop, if_neg h]

/-- Characters that do not end a name, and nothing else. -/
def Token (stop : Byte → Bool) (t : List Byte) : Prop := chars stop t = (t, [])

instance (stop : Byte → Bool) (t : List Byte) : Decidable (Token stop t) :=
  inferInstanceAs (Decidable (_ = _))

theorem Token.goes (h : Token stop t) (hne : t ≠ []) : Goes stop t := by
  by_contra hnot
  rw [Token, chars_of_not_goes hnot] at h
  exact hne (Prod.mk.inj h).1.symm

theorem Goes.append (h : Goes stop t) (s : List Byte) : Goes stop (t ++ s) := by
  refine ⟨?_, by rw [clen_append h.2]; exact h.2⟩
  cases t with
  | nil => cases h.2
  | cons c t => exact h.1

theorem Token.tail (ht : Token stop t) (hne : t ≠ []) : Token stop (t.drop (clen t)) := by
  have hgo := ht.goes hne
  rw [Token, chars_of_goes hgo] at ht
  obtain ⟨hfirst, hrest⟩ := Prod.mk.inj ht
  refine Prod.ext ?_ hrest
  exact List.append_cancel_left (hfirst.trans (List.take_append_drop _ t).symm)

/-- A name is nothing, or a character and a name. -/
theorem Token.induct {P : List Byte → Prop} (hnil : P [])
    (hchar : ∀ t, Goes stop t → P (t.drop (clen t)) → P t) (ht : Token stop t) : P t := by
  induction hlen : t.length using Nat.strongRecOn generalizing t with
  | ind k ih =>
    by_cases hne : t = []
    · rw [hne]
      exact hnil
    · have hgo := ht.goes hne
      have hle := clen_le t
      have hdrop := t.length_drop (i := clen t)
      have hpos := hgo.2
      exact hchar t hgo (ih _ (by omega) (ht.tail hne) rfl)

/-- A name, and what follows it. -/
theorem chars_append (ht : Token stop t) (s : List Byte) :
    chars stop (t ++ s) = (t ++ (chars stop s).1, (chars stop s).2) := by
  apply Token.induct (P := fun t => chars stop (t ++ s) = (t ++ (chars stop s).1, (chars stop s).2))
    rfl _ ht
  intro t hgo ih
  rw [chars_of_goes (hgo.append s), clen_append hgo.2, List.take_append_of_le_length (clen_le t),
    List.drop_append_of_le_length (clen_le t), ih, ← List.append_assoc, List.take_append_drop]

theorem chars_token (ht : Token stop t) (hs : ¬ Goes stop s) : chars stop (t ++ s) = (t, s) := by
  rw [chars_append ht, chars_of_not_goes hs, List.append_nil]

theorem Token.append (ht : Token stop t) (hs : Token stop s) : Token stop (t ++ s) := by
  rw [Token, chars_append ht, hs]

theorem not_goes_of_low {c : Byte} (h : c ≤ 32) : ¬ Goes stop (c :: s) := by
  rintro ⟨-, hpos⟩
  have hmask : ¬ (32 < c ∧ c ≤ 126) ∧ c &&& 0xe0 ≠ 0xc0 ∧ c &&& 0xf0 ≠ 0xe0 ∧
      c &&& 0xf8 ≠ 0xf0 := by
    revert h
    exact forall_byte (p := fun c => c ≤ 32 → ¬ (32 < c ∧ c ≤ 126) ∧ c &&& 0xe0 ≠ 0xc0 ∧
      c &&& 0xf0 ≠ 0xe0 ∧ c &&& 0xf8 ≠ 0xf0) (by decide +kernel) c
  rw [clen, if_neg hmask.1, if_neg fun h => hmask.2.1 h.1, if_neg fun h => hmask.2.2.1 h.1,
    if_neg fun h => hmask.2.2.2 h.1] at hpos
  cases hpos

theorem not_goes_of_stop {c : Byte} (h : stop c = true) : ¬ Goes stop (c :: s) := by
  rintro ⟨hgo, -⟩
  simp [h] at hgo

theorem low_of_vcb {b : Byte} (h : vcb b = true) : 32 < b := by
  revert h
  exact forall_byte (p := fun b => vcb b = true → 32 < b) (by decide +kernel) b

theorem visible_of_clen (ht : 0 < clen t) : ∀ b ∈ t.take (clen t), 32 < b := by
  cases t with
  | nil => cases ht
  | cons c u =>
    have hc : 32 < c := by
      by_contra hlow
      have hgo : Goes (fun _ => false) (c :: u) := ⟨rfl, ht⟩
      exact not_goes_of_low (UInt8.not_lt.mp hlow) hgo
    have hrest : ∀ n, continued n u = true → ∀ b ∈ (c :: u).take (n + 1), 32 < b := by
      intro n hn b hb
      simp only [continued, decide_eq_true_eq, List.all_eq_true] at hn
      rw [List.take_succ_cons] at hb
      rcases List.mem_cons.mp hb with rfl | hb
      · exact hc
      · exact low_of_vcb (hn.2 b hb)
    have hzero : ∀ b ∈ (c :: u).take 1, 32 < b := fun b hb => by
      rw [List.mem_singleton.mp hb]
      exact hc
    rw [clen] at ht ⊢
    split
    · exact hzero
    · split
      · rename_i h
        exact hrest 1 h.2
      · split
        · rename_i h
          exact hrest 2 h.2
        · split
          · rename_i h
            exact hrest 3 h.2
          · simp

/-- No blank, no control character. -/
theorem Token.visible (ht : Token stop t) : ∀ b ∈ t, 32 < b := by
  apply Token.induct (P := fun t => ∀ b ∈ t, 32 < b) (List.forall_mem_nil _) _ ht
  intro t hgo ih b hb
  rw [← List.take_append_drop (clen t) t] at hb
  rcases List.mem_append.mp hb with hb | hb
  · exact visible_of_clen hgo.2 b hb
  · exact ih b hb

theorem dropWhile_of_head {p : Byte → Bool} (h : ∀ c ∈ t.head?, p c = false) :
    t.dropWhile p = t := by
  cases t with
  | nil => rfl
  | cons c u => exact List.dropWhile_cons_of_neg (by rw [h c rfl]; decide)

def eol (crlf : Bool) : List Byte := if crlf then [13, 10] else [10]

/-- The bytes that may stand in a line. -/
def Inline (v : List Byte) : Prop := ∀ b ∈ v, isok b = true ∧ b ≠ 10 ∧ b ≠ 13

instance (v : List Byte) : Decidable (Inline v) := List.decidableBAll _ v

theorem Inline.append {v w : List Byte} (hv : Inline v) (hw : Inline w) : Inline (v ++ w) :=
  fun b hb => (List.mem_append.mp hb).elim (hv b) (hw b)

theorem inline_of_isBlank {v : List Byte} (h : ∀ b ∈ v, isBlank b = true) : Inline v := by
  intro b hb
  have hblank := h b hb
  simp only [isBlank, decide_eq_true_eq] at hblank
  rcases hblank with rfl | rfl <;> decide

theorem inline_of_visible {v : List Byte} (h : ∀ b ∈ v, 32 < b) : Inline v := by
  intro b hb
  have hlow := h b hb
  revert hlow
  exact forall_byte (p := fun b => 32 < b → isok b = true ∧ b ≠ 10 ∧ b ≠ 13) (by decide +kernel) b

theorem skiptorn_eol {v : List Byte} (hv : Inline v) (crlf : Bool) (s : List Byte) :
    skiptorn (v ++ (eol crlf ++ s)) = some (v, s) := by
  have htake : (v ++ (eol crlf ++ s)).takeWhile (fun c => c ≠ 10 ∧ c ≠ 13) = v := by
    rw [List.takeWhile_append_of_pos fun b hb => decide_eq_true (hv b hb).2]
    cases crlf <;> simp [eol]
  rw [skiptorn, htake, List.drop_left]
  cases crlf <;> rfl

/-- The loop that looks for the blank line goes on to the end of a line that is not blank. -/
theorem requestLenLoop_line {v : List Byte} (hv : Inline v) (hne : v ≠ []) (crlf : Bool) (i : Nat)
    (b₂ b₁ : Byte) : ∃ c₂, ∀ s, requestLenLoop i b₂ b₁ (v ++ (eol crlf ++ s)) =
      requestLenLoop (i + (v ++ eol crlf).length) c₂ 10 s := by
  have hpast : ∀ (v : List Byte), Inline v → ∀ (i : Nat) (b₂ b₁ : Byte), ∃ c₂ c₁,
      (v = [] ∧ c₁ = b₁ ∨ c₁ ∈ v) ∧
        ∀ s, requestLenLoop i b₂ b₁ (v ++ s) = requestLenLoop (i + v.length) c₂ c₁ s := by
    intro v
    induction v with
    | nil => exact fun _ i b₂ b₁ => ⟨b₂, b₁, .inl ⟨rfl, rfl⟩, fun _ => rfl⟩
    | cons c v ih =>
      intro hv i b₂ b₁
      obtain ⟨hok, hlf, -⟩ := hv c List.mem_cons_self
      obtain ⟨c₂, c₁, hc, heq⟩ := ih (fun b hb => hv b (List.mem_cons_of_mem c hb)) (i + 1) b₁ c
      refine ⟨c₂, c₁, .inr ?_, fun s => ?_⟩
      · rcases hc with ⟨-, rfl⟩ | hc
        · exact List.mem_cons_self
        · exact List.mem_cons_of_mem c hc
      · rw [List.cons_append, requestLenLoop, if_neg (by simp [hok]), if_neg (by simp [hlf]), heq,
          List.length_cons, Nat.add_assoc, Nat.add_comm 1]
  obtain ⟨c₂, c₁, hc, heq⟩ := hpast v hv i b₂ b₁
  have hc₁ : c₁ ≠ 10 ∧ c₁ ≠ 13 := by
    rcases hc with ⟨hnil, -⟩ | hc
    · exact absurd hnil hne
    · exact (hv c₁ hc).2
  have hok : isok 10 = true ∧ isok 13 = true := by decide
  cases crlf with
  | false =>
    refine ⟨c₁, fun s => ?_⟩
    rw [heq, eol, List.length_append]
    simp [requestLenLoop, hok, hc₁, Nat.add_assoc]
  | true =>
    refine ⟨13, fun s => ?_⟩
    rw [heq, eol, List.length_append]
    simp [requestLenLoop, hok, hc₁, Nat.add_assoc]

/-- It stops behind the blank line. -/
theorem requestLenLoop_blank (crlf : Bool) {i : Nat} (hi : 2 < i)
    (hshort : i + (eol crlf).length < 2 ^ 31) (c₂ : Byte) (s : List Byte) :
    requestLenLoop i c₂ 10 (eol crlf ++ s) = (i + (eol crlf).length : Nat) := by
  have hok : isok 10 = true ∧ isok 13 = true := by decide
  cases crlf with
  | false =>
    have hlen : (eol false).length = 1 := rfl
    rw [hlen] at hshort ⊢
    have hsigned : toSigned i = i := toSigned_of_lt (by omega) (by omega)
    rw [eol, requestLenLoop.eq_def]
    simp [hok, hsigned]
    omega
  | true =>
    have hlen : (eol true).length = 2 := rfl
    rw [hlen] at hshort ⊢
    have hend : 3 < i + 1 := by omega
    have hsigned : toSigned (i + 1 : Nat) = (i + 1 : Nat) := toSigned_of_lt (by omega) (by omega)
    push_cast at hsigned
    simp [eol, requestLenLoop, hok, hend, hsigned]
    omega

/-- A header as it stands in a head. -/
structure HeaderLine where
  name : List Byte
  before : List Byte
  value : List Byte
  after : List Byte
  crlf : Bool

structure HeaderLine.Ok (l : HeaderLine) : Prop where
  name_ne : l.name ≠ []
  name : Token (· = 58) l.name
  before : ∀ b ∈ l.before, isBlank b = true
  value : Inline l.value
  first : ∀ b ∈ l.value.head?, isBlank b = false
  last : ∀ b ∈ l.value.getLast?, isBlank b = false
  after : ∀ b ∈ l.after, isBlank b = true

def HeaderLine.line (l : HeaderLine) : List Byte := l.name ++ 58 :: (l.before ++ l.value ++ l.after)

def HeaderLine.text (l : HeaderLine) : List Byte := l.line ++ eol l.crlf

theorem HeaderLine.Ok.name_inline {l : HeaderLine} (h : l.Ok) : Inline l.name :=
  inline_of_visible h.name.visible

theorem HeaderLine.Ok.line_inline {l : HeaderLine} (h : l.Ok) : Inline l.line := by
  have hcolon : Inline [58] := fun b hb => by rw [List.mem_singleton.mp hb]; decide
  have hbefore := inline_of_isBlank h.before
  have hafter := inline_of_isBlank h.after
  exact h.name_inline.append (hcolon.append ((hbefore.append h.value).append hafter))

theorem HeaderLine.line_ne (l : HeaderLine) : l.line ≠ [] := by simp [HeaderLine.line]

/-- The value of a header with the blanks around it. -/
theorem HeaderLine.Ok.read_value {l : HeaderLine} (h : l.Ok) (s : List Byte) :
    ∃ v, skiptorn ((l.before ++ (l.value ++ (l.after ++ (eol l.crlf ++ s)))).dropWhile isBlank) =
      some (v, s) ∧ v.rdropWhile isBlank = l.value := by
  rw [List.dropWhile_append_of_pos h.before]
  by_cases hvalue : l.value = []
  · refine ⟨[], ?_, by rw [hvalue]; rfl⟩
    rw [hvalue, List.nil_append, List.dropWhile_append_of_pos h.after]
    have hfirst : (eol l.crlf ++ s).dropWhile isBlank = eol l.crlf ++ s := by
      cases l.crlf <;> rfl
    rw [hfirst]
    exact skiptorn_eol (v := []) (fun b hb => by cases hb) l.crlf s
  · refine ⟨l.value ++ l.after, ?_, ?_⟩
    · have hstay : (l.value ++ (l.after ++ (eol l.crlf ++ s))).dropWhile isBlank =
          l.value ++ (l.after ++ (eol l.crlf ++ s)) := by
        apply dropWhile_of_head
        rw [List.head?_append_of_ne_nil _ hvalue]
        exact h.first
      rw [hstay, ← List.append_assoc]
      exact skiptorn_eol (h.value.append (inline_of_isBlank h.after)) l.crlf s
    · obtain ⟨w, c, hw⟩ : ∃ w c, l.value = w ++ [c] :=
        ⟨_, _, (List.dropLast_concat_getLast hvalue).symm⟩
      have hc : isBlank c = false := h.last c (by rw [hw]; simp)
      rw [List.rdropWhile, List.reverse_append,
        List.dropWhile_append_of_pos fun b hb => h.after b (List.mem_reverse.mp hb), hw,
        List.reverse_append, List.reverse_singleton, List.singleton_append,
        List.dropWhile_cons_of_neg (by simp [hc]), List.reverse_cons, List.reverse_reverse]

theorem parseHeaders_text {ls : List HeaderLine} (h : ∀ l ∈ ls, l.Ok) (crlf : Bool) (k : Nat) :
    parseHeaders k (ls.flatMap HeaderLine.text ++ eol crlf) =
      some ((ls.take k).map fun l => (l.name, l.value)) := by
  induction ls generalizing k with
  | nil =>
    cases k with
    | zero => rfl
    | succ k => cases crlf <;> rfl
  | cons l ls ih =>
    rw [List.forall_mem_cons] at h
    cases k with
    | zero => rfl
    | succ k =>
      obtain ⟨c, w, hw⟩ := List.exists_cons_of_ne_nil h.1.name_ne
      obtain ⟨-, hlf, hcr⟩ := h.1.name_inline c (by rw [hw]; exact List.mem_cons_self)
      obtain ⟨v, hskip, hvalue⟩ := h.1.read_value (ls.flatMap HeaderLine.text ++ eol crlf)
      have htext : (l :: ls).flatMap HeaderLine.text ++ eol crlf = l.name ++ 58 :: (l.before ++
          (l.value ++ (l.after ++ (eol l.crlf ++ (ls.flatMap HeaderLine.text ++ eol crlf))))) := by
        simp [HeaderLine.text, HeaderLine.line]
      have hname : chars (· = 58) (l.name ++ 58 :: (l.before ++ (l.value ++ (l.after ++
          (eol l.crlf ++ (ls.flatMap HeaderLine.text ++ eol crlf)))))) = (l.name, 58 :: (l.before ++
          (l.value ++ (l.after ++ (eol l.crlf ++ (ls.flatMap HeaderLine.text ++ eol crlf)))))) :=
        chars_token h.1.name (not_goes_of_stop rfl)
      rw [htext, parseHeaders.eq_def]
      dsimp only
      split
      · rename_i heq
        simp at heq
      · rename_i c' rest heq
        obtain rfl : c = c' := by
          rw [hw] at heq
          exact (List.cons.inj heq).1
        have hcolon : ∀ u : List Byte, clen (58 :: u) ≠ 0 := by simp [clen]
        rw [if_neg (by simp [hlf, hcr]), hname]
        dsimp only
        rw [if_neg (by simp [h.1.name_ne, hcolon]), if_neg (by simp), List.drop_one, List.tail_cons,
          hskip, Option.bind_eq_bind, Option.bind_some, ih h.2, Option.bind_eq_bind,
          Option.bind_some, hvalue, List.take_succ_cons, List.map_cons]

/-! ## Heads -/

/-- A head: `gap` spaces stand behind the target. -/
structure Head where
  method : List Byte
  path : List Byte
  query : Option (List Byte)
  gap : Nat
  proto : List Byte
  firstCrlf : Bool
  lines : List HeaderLine
  lastCrlf : Bool

namespace Head

def target (h : Head) : List Byte := h.path ++ (h.query.map (63 :: ·)).getD []

def firstLine (h : Head) : List Byte :=
  h.method ++ 32 :: (h.target ++ (List.replicate h.gap 32 ++ h.proto))

def text (h : Head) : List Byte :=
  h.firstLine ++ (eol h.firstCrlf ++ (h.lines.flatMap HeaderLine.text ++ eol h.lastCrlf))

/-- What is to be read. -/
def message (h : Head) : HttpMessage :=
  ⟨h.method, h.path, h.query.getD [], h.proto, (h.lines.take 30).map fun l => (l.name, l.value),
    2 ^ 64 - 1⟩

/-- Names of characters, lines of bytes that may stand in a line, and of a request the version of
the protocol or nothing. The length of the text has room in an `int`. -/
structure Ok (h : Head) : Prop where
  method_ne : h.method ≠ []
  method : Token (fun _ => false) h.method
  path_ne : h.path ≠ []
  path : 63 ∉ h.path
  target : Token (fun _ => false) h.target
  gap : h.proto ≠ [] → 0 < h.gap
  proto : Inline h.proto
  proto_head : h.proto.head? ≠ some 32
  version : isResponseMethod h.method = true ∨ versionOk h.proto = true
  lines : ∀ l ∈ h.lines, l.Ok
  short : h.text.length < 2 ^ 31

variable {h : Head}

theorem Ok.firstLine_inline (hok : h.Ok) : Inline h.firstLine := by
  have hspace : ∀ n, Inline (List.replicate n 32) := fun n =>
    inline_of_isBlank fun b hb => by rw [List.eq_of_mem_replicate hb]; rfl
  exact (inline_of_visible hok.method.visible).append ((hspace 1).append
    ((inline_of_visible hok.target.visible).append ((hspace h.gap).append hok.proto)))

theorem Ok.length_firstLine (hok : h.Ok) : 2 < h.firstLine.length := by
  have hmethod := List.length_pos_of_ne_nil hok.method_ne
  have hpath := List.length_pos_of_ne_nil hok.path_ne
  simp only [firstLine, Head.target, List.length_append, List.length_cons]
  omega

theorem Ok.target_ne (hok : h.Ok) : h.target ≠ [] := by
  rw [Head.target]
  exact List.append_ne_nil_of_left_ne_nil hok.path_ne _

/-- The blank line is found. -/
theorem Ok.requestLen (hok : h.Ok) (t : List Byte) :
    mgHttpGetRequestLen (h.text ++ t) = h.text.length := by
  have hlines : ∀ ls : List HeaderLine, (∀ l ∈ ls, l.Ok) → ∀ i c₂, ∃ c, ∀ s,
      requestLenLoop i c₂ 10 (ls.flatMap HeaderLine.text ++ s) =
        requestLenLoop (i + (ls.flatMap HeaderLine.text).length) c 10 s := by
    intro ls hls
    induction ls with
    | nil => exact fun i c₂ => ⟨c₂, fun s => rfl⟩
    | cons l ls ih =>
      rw [List.forall_mem_cons] at hls
      intro i c₂
      obtain ⟨c, hc⟩ := requestLenLoop_line hls.1.line_inline l.line_ne l.crlf i c₂ 10
      obtain ⟨d, hd⟩ := ih hls.2 (i + l.text.length) c
      refine ⟨d, fun s => ?_⟩
      rw [List.flatMap_cons, List.append_assoc, HeaderLine.text, List.append_assoc, hc,
        ← HeaderLine.text, hd, List.length_append, Nat.add_assoc]
  have hlong := hok.length_firstLine
  obtain ⟨c, hc⟩ := requestLenLoop_line hok.firstLine_inline (List.ne_nil_of_length_pos (by omega))
    h.firstCrlf 0 0 0
  obtain ⟨d, hd⟩ := hlines h.lines hok.lines (0 + (h.firstLine ++ eol h.firstCrlf).length) c
  have htext : h.text ++ t = h.firstLine ++ (eol h.firstCrlf ++
      (h.lines.flatMap HeaderLine.text ++ (eol h.lastCrlf ++ t))) := by
    simp [text]
  have hshort := hok.short
  simp only [text, List.length_append] at hshort
  rw [mgHttpGetRequestLen, htext, hc, hd, requestLenLoop_blank]
  · simp only [text, List.length_append]
    push_cast
    omega
  · rw [List.length_append]
    omega
  · simp only [List.length_append]
    omega

theorem Ok.parseHead (hok : h.Ok) : Backend.parseHead h.text =
    match bodyLength h.text.length h.message with
    | none => .bad
    | some len => .message h.text.length { h.message with bodyLen := len } := by
  obtain ⟨rest, hrest⟩ : ∃ rest, rest = h.lines.flatMap HeaderLine.text ++ eol h.lastCrlf :=
    ⟨_, rfl⟩
  have htext : h.text = h.method ++ 32 :: (h.target ++ (List.replicate h.gap 32 ++
      (h.proto ++ (eol h.firstCrlf ++ rest)))) := by
    simp [text, firstLine, hrest]
  have hmethod : chars (fun _ => false) h.text = (h.method, 32 :: (h.target ++
      (List.replicate h.gap 32 ++ (h.proto ++ (eol h.firstCrlf ++ rest))))) := by
    rw [htext]
    exact chars_token hok.method (not_goes_of_low (by decide))
  have hspace : (32 :: (h.target ++ (List.replicate h.gap 32 ++ (h.proto ++
      (eol h.firstCrlf ++ rest))))).dropWhile (· = 32) = h.target ++ (List.replicate h.gap 32 ++
        (h.proto ++ (eol h.firstCrlf ++ rest))) := by
    rw [List.dropWhile_cons_of_pos (by simp)]
    apply dropWhile_of_head
    rw [List.head?_append_of_ne_nil _ hok.target_ne]
    intro c hc
    have hvisible := hok.target.visible c (List.mem_of_head? hc)
    exact decide_eq_false (UInt8.ne_of_lt hvisible).symm
  have htarget : chars (fun _ => false) (h.target ++ (List.replicate h.gap 32 ++ (h.proto ++
      (eol h.firstCrlf ++ rest)))) = (h.target, List.replicate h.gap 32 ++ (h.proto ++
        (eol h.firstCrlf ++ rest))) := by
    refine chars_token hok.target ?_
    by_cases hgap : 0 < h.gap
    · obtain ⟨k, hk⟩ := Nat.exists_eq_succ_of_ne_zero hgap.ne'
      rw [hk, List.replicate_succ, List.cons_append]
      exact not_goes_of_low (by decide)
    · obtain hproto : h.proto = [] := by
        by_contra hproto
        exact hgap (hok.gap hproto)
      rw [Nat.eq_zero_of_not_pos hgap, hproto]
      cases h.firstCrlf <;> exact not_goes_of_low (by decide)
  have hgap : (List.replicate h.gap 32 ++ (h.proto ++ (eol h.firstCrlf ++ rest))).dropWhile
      (· = 32) = h.proto ++ (eol h.firstCrlf ++ rest) := by
    rw [List.dropWhile_append_of_pos fun b hb => by simp [List.eq_of_mem_replicate hb]]
    cases hproto : h.proto with
    | nil => cases h.firstCrlf <;> simp [eol]
    | cons c w =>
      have hc : c ≠ 32 := fun hc => hok.proto_head (by rw [hproto, hc]; rfl)
      rw [List.cons_append, List.dropWhile_cons_of_neg (by simp [hc])]
  have hpath : h.target.takeWhile (· ≠ 63) = h.path ∧
      (h.target.drop h.path.length).drop 1 = h.query.getD [] := by
    rw [Head.target, List.drop_left]
    have hplain : ∀ b ∈ h.path, decide (b ≠ 63) = true := fun b hb =>
      decide_eq_true fun hb' => hok.path (hb' ▸ hb)
    rw [List.takeWhile_append_of_pos hplain]
    cases h.query <;> simp
  have hbad : ¬ (isResponseMethod h.method = false ∧ versionOk h.proto = false) := by
    rcases hok.version with hv | hv <;> simp [hv]
  rw [Backend.parseHead, hmethod]
  dsimp only
  rw [hspace, htarget]
  dsimp only
  rw [hgap, skiptorn_eol hok.proto]
  dsimp only
  rw [if_neg hbad, hpath.1, if_neg (by simp [hok.method_ne, hok.path_ne]), hrest,
    parseHeaders_text hok.lines, hpath.2]
  rfl

/-- A head is read back. -/
theorem Ok.parse_text (hok : h.Ok) (t : List Byte) : mgHttpParse (h.text ++ t) =
    match bodyLength h.text.length h.message with
    | none => .bad
    | some len => .message h.text.length { h.message with bodyLen := len } := by
  have hne : h.text.length ≠ 0 := by
    have := hok.length_firstLine
    simp only [text, List.length_append]
    omega
  rw [mgHttpParse_of_requestLen (hok.requestLen t) hne, List.take_left, hok.parseHead]

end Head

end BoardTest.Backend
