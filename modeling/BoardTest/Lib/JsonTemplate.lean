import BoardTest.Lib.Json

/-!
# Objects written from a template

A program that prints an object pastes texts into it, between quotes or bare (`Slot`). A quoted text
comes back as itself exactly when it is safe: no quote, no backslash, no control byte, well-formed
UTF-8. One direction needs an argument, since an unsafe text can run on into what the template has
behind it: it would have to be its own decoding, and decoding only shortens (`closes_exactly`).
-/

namespace BoardTest.Json

/-- A byte that stands for itself inside a string. -/
def PlainByte (b : Byte) : Prop := 32 ≤ b ∧ b ≠ 34 ∧ b ≠ 92

instance (b : Byte) : Decidable (PlainByte b) := inferInstanceAs (Decidable (_ ∧ _))

/-- A text that may stand between quotes as it is. -/
def Safe (t : List Byte) : Prop := (∀ b ∈ t, PlainByte b) ∧ Utf8 t

instance (t : List Byte) : Decidable (Safe t) :=
  @instDecidableAnd _ _ (List.decidableBAll _ t) inferInstance

def strRun (s : List Byte × StrMode) (c : List Byte) : Option (List Byte × StrMode) :=
  c.foldlM strStep s

theorem strRun_cons (s : List Byte × StrMode) (b : Byte) (c : List Byte) :
    strRun s (b :: c) = (strStep s b).bind fun s' => strRun s' c := rfl

theorem strRun_append (s : List Byte × StrMode) (c₁ c₂ : List Byte) :
    strRun s (c₁ ++ c₂) = (strRun s c₁).bind fun s' => strRun s' c₂ := by
  simp [strRun, List.foldlM_append]

theorem strStep_plain {b : Byte} (hb : PlainByte b) {owed owed' : Owed}
    (h : utf8Step owed b = some owed') (acc : List Byte) :
    strStep (acc, .text owed) b = some (acc ++ [b], .text owed') := by
  obtain ⟨hcontrol, hquote, hback⟩ := hb
  have hlt : ¬ b < 32 := by simpa using hcontrol
  simp [strStep, hlt, hquote, hback, h]

/-- Plain bytes are copied. -/
theorem strRun_plain {t : List Byte} (ht : ∀ b ∈ t, PlainByte b) {owed owed' : Owed}
    (h : t.foldlM utf8Step owed = some owed') (acc : List Byte) :
    strRun (acc, .text owed) t = some (acc ++ t, .text owed') := by
  induction t generalizing owed acc with
  | nil =>
    obtain rfl := Option.some.inj h
    simp [strRun]
  | cons b t ih =>
    obtain ⟨owed₁, hstep, hrest⟩ := Option.bind_eq_some_iff.mp h
    rw [strRun_cons, strStep_plain (ht b (by simp)) hstep, Option.bind_some,
      ih (fun x hx => ht x (by simp [hx])) hrest]
    simp

theorem Safe.strRun {t : List Byte} (h : Safe t) :
    strRun ([], .text []) t = some (t, .text []) := by
  simpa using strRun_plain h.1 h.2 []

/-- A quote is read inside a string behind a backslash only. -/
theorem strStep_quote {s s' : List Byte × StrMode} (h : strStep s 34 = some s') :
    s.2 = .escape ∧ s' = (s.1 ++ [34], .text []) := by
  obtain ⟨acc, mode⟩ := s
  cases mode with
  | escape =>
    have hlookup : escapes.lookup 34 = some 34 := by decide
    simpa [strStep, hlookup, eq_comm] using h
  | text owed => simp [strStep] at h
  | hex high digits value =>
    have hdigit : hexValue 34 = none := by decide
    simp [strStep, hdigit] at h
  | lowBackslash high => simp [strStep] at h
  | lowU high => simp [strStep] at h

theorem endHex_mode {acc : List Byte} {high : Option Nat} {value : Nat}
    {s : List Byte × StrMode} (h : endHex acc high value = some s) :
    (∃ n, s = (acc ++ encodeChar n, .text [])) ∨
      (high = none ∧ ∃ n, s = (acc, .lowBackslash n)) := by
  unfold endHex at h
  split at h
  · split at h
    · exact .inr ⟨rfl, _, (Option.some.inj h).symm⟩
    split at h
    · simp at h
    · exact .inl ⟨_, (Option.some.inj h).symm⟩
  · split at h
    · exact .inl ⟨_, (Option.some.inj h).symm⟩
    · simp at h

/-- An escape begins with a backslash in the text. -/
theorem strStep_escape {s : List Byte × StrMode} {b : Byte} {acc : List Byte}
    (h : strStep s b = some (acc, .escape)) : b = 92 ∧ s = (acc, .text []) := by
  obtain ⟨acc₀, mode⟩ := s
  cases mode with
  | text owed =>
    simp only [strStep] at h
    split at h
    · simp at h
    split at h
    · rename_i hback
      split at h
      · rename_i howed
        simp_all
      · simp at h
    · simp at h
  | escape =>
    simp only [strStep] at h
    split at h <;> simp at h
  | hex high digits value =>
    obtain ⟨d, -, hd⟩ := Option.bind_eq_some_iff.mp h
    split at hd
    · rcases endHex_mode hd with ⟨n, hn⟩ | ⟨-, n, hn⟩ <;> simp at hn
    · simp at hd
  | lowBackslash high => simp [strStep] at h
  | lowU high => simp [strStep] at h

/-- The bytes of an escape that have been read. -/
def StrMode.pending : StrMode → Nat
  | .text _ => 0
  | .escape => 1
  | .hex none digits _ => 2 + digits
  | .hex (some _) _ _ => 6
  | .lowBackslash _ => 6
  | .lowU _ => 6

/-- `c` has been read: it was plain and copied, or the decoding is shorter. -/
def Tracks (c : List Byte) (s : List Byte × StrMode) : Prop :=
  match s.2 with
  | .text owed =>
    s.1.length < c.length ∨
      (s.1 = c ∧ (∀ b ∈ c, PlainByte b) ∧ c.foldlM utf8Step [] = some owed)
  | mode => s.1.length + mode.pending ≤ c.length

theorem length_encodeChar_le (n : Nat) : (encodeChar n).length ≤ 4 := by
  rw [encodeChar, String.length_utf8EncodeChar]
  exact Char.utf8Size_le_four _

theorem Tracks.step {c : List Byte} {s s' : List Byte × StrMode} {b : Byte} (h : Tracks c s)
    (hstep : strStep s b = some s') : Tracks (c ++ [b]) s' := by
  obtain ⟨acc, mode⟩ := s
  cases mode with
  | text owed =>
    simp only [strStep] at hstep
    split at hstep
    · simp at hstep
    rename_i hplain
    split at hstep
    · split at hstep
      · obtain rfl := Option.some.inj hstep
        rcases h with h | ⟨h, -⟩ <;> simp_all [Tracks, StrMode.pending]
        omega
      · simp at hstep
    · rename_i hback
      obtain ⟨owed', howed, rfl⟩ := Option.map_eq_some_iff.mp hstep
      rcases h with h | ⟨h, hall, hutf⟩
      · left
        simpa using h
      · right
        simp only at h hutf
        subst h
        rw [not_or] at hplain
        have hb : PlainByte b := ⟨by simpa using hplain.1, hplain.2, hback⟩
        refine ⟨rfl, ?_, ?_⟩
        · simpa [or_imp, forall_and, hb] using hall
        · simp [List.foldlM_append, hutf, howed]
  | escape =>
    simp only [strStep] at hstep
    simp only [Tracks, StrMode.pending] at h
    split at hstep
    · obtain rfl := Option.some.inj hstep
      simp [Tracks, StrMode.pending]
      omega
    · obtain ⟨x, -, rfl⟩ := Option.map_eq_some_iff.mp hstep
      left
      simp
      omega
  | hex high digits value =>
    obtain ⟨d, -, hd⟩ := Option.bind_eq_some_iff.mp hstep
    split at hd
    · rename_i hdigits
      rcases endHex_mode hd with ⟨n, rfl⟩ | ⟨rfl, n, rfl⟩
      · left
        have hlen := length_encodeChar_le n
        cases high <;> simp [Tracks, StrMode.pending] at h ⊢ <;> omega
      · simp [Tracks, StrMode.pending] at h ⊢
        omega
    · obtain rfl := Option.some.inj hd
      cases high <;> simp [Tracks, StrMode.pending] at h ⊢ <;> omega
  | lowBackslash high =>
    simp only [strStep] at hstep
    split at hstep
    · obtain rfl := Option.some.inj hstep
      simp [Tracks, StrMode.pending] at h ⊢
      omega
    · simp at hstep
  | lowU high =>
    simp only [strStep] at hstep
    split at hstep
    · obtain rfl := Option.some.inj hstep
      simp [Tracks, StrMode.pending] at h ⊢
      omega
    · simp at hstep

theorem Tracks.run {c c' : List Byte} {s s' : List Byte × StrMode} (h : Tracks c s)
    (hrun : strRun s c' = some s') : Tracks (c ++ c') s' := by
  induction c' generalizing c s with
  | nil =>
    obtain rfl := Option.some.inj hrun
    simpa using h
  | cons b c' ih =>
    rw [strRun_cons] at hrun
    obtain ⟨s₁, hstep, hrest⟩ := Option.bind_eq_some_iff.mp hrun
    simpa using ih (h.step hstep) hrest

theorem tracks_of_strRun {c : List Byte} {s : List Byte × StrMode}
    (h : strRun ([], .text []) c = some s) : Tracks c s := by
  have hstart : Tracks [] ([], .text []) := .inr ⟨rfl, by simp, rfl⟩
  simpa using hstart.run h

/-- What has been decoded is kept. -/
theorem strStep_isPrefix {s s' : List Byte × StrMode} {b : Byte} (h : strStep s b = some s') :
    s.1 <+: s'.1 := by
  obtain ⟨acc, mode⟩ := s
  cases mode with
  | text owed =>
    simp only [strStep] at h
    split at h
    · simp at h
    split at h
    · split at h
      · obtain rfl := Option.some.inj h
        exact List.prefix_refl _
      · simp at h
    · obtain ⟨owed', -, rfl⟩ := Option.map_eq_some_iff.mp h
      exact List.prefix_append _ _
  | escape =>
    simp only [strStep] at h
    split at h
    · obtain rfl := Option.some.inj h
      exact List.prefix_refl _
    · obtain ⟨x, -, rfl⟩ := Option.map_eq_some_iff.mp h
      exact List.prefix_append _ _
  | hex high digits value =>
    obtain ⟨d, -, hd⟩ := Option.bind_eq_some_iff.mp h
    split at hd
    · rcases endHex_mode hd with ⟨n, rfl⟩ | ⟨rfl, n, rfl⟩
      · exact List.prefix_append _ _
      · exact List.prefix_refl _
    · obtain rfl := Option.some.inj hd
      exact List.prefix_refl _
  | lowBackslash high | lowU high =>
    simp only [strStep] at h
    split at h
    · obtain rfl := Option.some.inj h
      exact List.prefix_refl _
    · simp at h

theorem strRun_isPrefix {s s' : List Byte × StrMode} {c : List Byte} (h : strRun s c = some s') :
    s.1 <+: s'.1 := by
  induction c generalizing s with
  | nil =>
    obtain rfl := Option.some.inj h
    exact List.prefix_refl _
  | cons b c ih =>
    rw [strRun_cons] at h
    obtain ⟨s₁, hstep, hrest⟩ := Option.bind_eq_some_iff.mp h
    exact (strStep_isPrefix hstep).trans (ih hrest)

/-- A beginning of `t` that ends in an escape does not decode, the escaped quote included, to a
beginning of `t`. The quote would stand earlier in `t`, in an escape there as well. -/
theorem not_isPrefix_of_escape {t p a : List Byte} (hp : p <+: t)
    (hrun : strRun ([], .text []) p = some (a, .escape)) : ¬ a ++ [34] <+: t := by
  induction hn : p.length using Nat.strong_induction_on generalizing p a with
  | _ n ih =>
    intro ha
    -- the last byte of `p` is the backslash
    obtain ⟨q, b, rfl⟩ : ∃ q b, p = q ++ [b] := by
      rcases List.eq_nil_or_concat p with rfl | ⟨q, b, rfl⟩
      · simp [strRun] at hrun
      · exact ⟨q, b, List.concat_eq_append⟩
    rw [strRun_append] at hrun
    obtain ⟨s₁, hq, hlast⟩ := Option.bind_eq_some_iff.mp hrun
    rw [strRun_cons] at hlast
    obtain ⟨s₂, hstep, hnil⟩ := Option.bind_eq_some_iff.mp hlast
    obtain rfl := Option.some.inj hnil
    obtain ⟨rfl, rfl⟩ := strStep_escape hstep
    have hle : a.length ≤ q.length := by
      rcases tracks_of_strRun hq with h | ⟨h, -⟩
      · exact h.le
      · exact (congrArg List.length h).le
    have hlt : a.length < q.length := by
      apply lt_of_le_of_ne hle
      intro heq
      have hsame : a ++ [34] = q ++ [92] :=
        (List.prefix_of_prefix_length_le ha hp (by simp [heq])).eq_of_length (by simp [heq])
      have := (List.append_inj hsame heq).2
      simp at this
    -- the quote behind `a` is read inside `q`
    have hquote : a ++ [34] <+: q :=
      List.prefix_of_prefix_length_le ha ((List.prefix_append q [92]).trans hp) (by simp; omega)
    obtain ⟨y, hy⟩ := hquote
    rw [← hy, List.append_assoc, strRun_append] at hq
    obtain ⟨s₃, hs₃, hrest⟩ := Option.bind_eq_some_iff.mp hq
    rw [List.singleton_append, strRun_cons] at hrest
    obtain ⟨s₄, hs₄, hrest⟩ := Option.bind_eq_some_iff.mp hrest
    obtain ⟨hmode, rfl⟩ := strStep_quote hs₄
    obtain ⟨a', mode⟩ := s₃
    obtain rfl : mode = .escape := hmode
    have haa : a <+: t := (List.prefix_append a [34]).trans ha
    have hshort : a.length < n := by
      rw [← hn, List.length_append]
      omega
    exact ih a.length hshort haa hs₃ rfl ((strRun_isPrefix hrest).trans haa)

/-- A string that decodes to the text pasted into it ends where the text does, and the text is
safe. -/
theorem closes_exactly {t c r rest : List Byte}
    (hrun : strRun ([], .text []) c = some (t, .text [])) (heq : c ++ 34 :: r = t ++ 34 :: rest) :
    Safe t ∧ r = rest := by
  have hlen : t.length ≤ c.length := by
    rcases tracks_of_strRun hrun with h | ⟨h, -⟩
    · exact h.le
    · exact (congrArg List.length h).le
  have hc : c = t := by
    by_contra hne
    have hlt : t.length < c.length := by
      apply lt_of_le_of_ne hlen
      intro h
      exact hne (List.append_inj heq h.symm).1
    have hpasted : t ++ [34] <+: t ++ 34 :: rest := ⟨rest, by simp⟩
    have hread : c <+: t ++ 34 :: rest := heq ▸ List.prefix_append c (34 :: r)
    have hprefix : t ++ [34] <+: c :=
      List.prefix_of_prefix_length_le hpasted hread (by simp; omega)
    obtain ⟨x, rfl⟩ := hprefix
    rw [List.append_assoc, strRun_append] at hrun
    obtain ⟨s, hs, hrest⟩ := Option.bind_eq_some_iff.mp hrun
    rw [List.singleton_append, strRun_cons] at hrest
    obtain ⟨s', hs', hrest⟩ := Option.bind_eq_some_iff.mp hrest
    obtain ⟨hmode, rfl⟩ := strStep_quote hs'
    obtain ⟨a, mode⟩ := s
    obtain rfl : mode = .escape := hmode
    exact not_isPrefix_of_escape (List.prefix_refl t) hs (strRun_isPrefix hrest)
  subst hc
  refine ⟨?_, by simpa using heq⟩
  rcases tracks_of_strRun hrun with h | ⟨-, hplain, hutf⟩
  · exact absurd h (lt_irrefl _)
  · exact ⟨hplain, hutf⟩

/-! ## Strings in the machine -/

theorem strStep_not_close {s s' : List Byte × StrMode} {b : Byte} (h : strStep s b = some s') :
    ¬ (b = 34 ∧ s.2 = .text []) := by
  rintro ⟨rfl, hmode⟩
  rw [(strStep_quote h).1] at hmode
  simp at hmode

theorem run_string {stack : List Frame} {keyOf : Option (List (List Byte × Value))}
    {s s' : List Byte × StrMode} {c : List Byte} (h : strRun s c = some s') (w : List Byte) :
    run ⟨stack, .string keyOf s⟩ (c ++ w) = run ⟨stack, .string keyOf s'⟩ w := by
  induction c generalizing s with
  | nil =>
    obtain rfl := Option.some.inj h
    rfl
  | cons b c ih =>
    rw [strRun_cons] at h
    obtain ⟨s₁, hstep, hrest⟩ := Option.bind_eq_some_iff.mp h
    have hnot := strStep_not_close hstep
    rw [List.cons_append, run_cons]
    simp only [step, if_neg hnot, hstep, Option.map_some, Option.bind_some]
    exact ih hrest

/-- A string that is read to the end of the text was closed somewhere. -/
theorem run_string_closes {stack : List Frame} {s : List Byte × StrMode} {w : List Byte}
    {s' : State} {v : Value} (hrun : run ⟨stack, .string none s⟩ w = some s')
    (hv : s'.finish = some v) :
    ∃ c r acc, w = c ++ 34 :: r ∧ strRun s c = some (acc, .text []) ∧
      run ⟨stack, .after (.str acc)⟩ r = some s' := by
  induction w generalizing s with
  | nil =>
    obtain rfl := Option.some.inj hrun
    simp [State.finish] at hv
  | cons b w ih =>
    rw [run_cons] at hrun
    obtain ⟨s₁, hstep, hrest⟩ := Option.bind_eq_some_iff.mp hrun
    simp only [step] at hstep
    split at hstep
    · rename_i hclose
      obtain ⟨rfl, hmode⟩ := hclose
      obtain rfl := Option.some.inj hstep
      obtain ⟨acc, mode⟩ := s
      obtain rfl : mode = .text [] := hmode
      exact ⟨[], w, acc, rfl, rfl, hrest⟩
    · obtain ⟨str', hstr, rfl⟩ := Option.map_eq_some_iff.mp hstep
      obtain ⟨c, r, acc, rfl, hc, hr⟩ := ih hrest
      refine ⟨b :: c, r, acc, rfl, ?_, hr⟩
      rw [strRun_cons, hstr, Option.bind_some, hc]

/-! ## Slots and members -/

/-- A place of a template with the text pasted into it: between quotes, or bare. -/
inductive Slot
  | quoted (t : List Byte)
  | raw (t : List Byte)
  deriving DecidableEq

def Slot.render : Slot → List Byte
  | .quoted t => 34 :: (t ++ [34])
  | .raw t => t

/-- The value a slot stands for: the text itself, or what the text denotes. -/
def Slot.Denotes : Slot → Value → Prop
  | .quoted t, v => v = .str t
  | .raw t, v => parse t = some v

/-- The texts that may be pasted. -/
def Slot.Clean : Slot → Prop
  | .quoted t => Safe t
  | .raw t => (parse t).isSome = true

instance : DecidablePred Slot.Clean
  | .quoted t => inferInstanceAs (Decidable (Safe t))
  | .raw t => inferInstanceAs (Decidable ((parse t).isSome = true))

structure Member where
  key : List Byte
  slot : Slot
  deriving DecidableEq

def Member.render (m : Member) : List Byte := 34 :: (m.key ++ (34 :: 58 :: 32 :: m.slot.render))

/-- Members with `", "` between them. -/
def renderMembers : List Member → List Byte
  | [] => []
  | [m] => m.render
  | m :: ms => m.render ++ (44 :: 32 :: renderMembers ms)

theorem renderMembers_cons_cons (m m' : Member) (ms : List Member) :
    renderMembers (m :: m' :: ms) = m.render ++ (44 :: 32 :: renderMembers (m' :: ms)) := rfl

def renderObject (ms : List Member) : List Byte := 123 :: (renderMembers ms ++ [125])

/-- The members of the object a template stands for. -/
def Denotes (ms : List Member) (d : List (List Byte × Value)) : Prop :=
  List.Forall₂ (fun m kv => kv.1 = m.key ∧ m.slot.Denotes kv.2) ms d

theorem run_key {stack : List Frame} {done : List (List Byte × Value)} {first : Bool}
    {key : List Byte} (h : Safe key) (w : List Byte) :
    run ⟨stack, .member done first⟩ (34 :: (key ++ (34 :: 58 :: 32 :: w))) =
      run ⟨.obj done key :: stack, .value⟩ w := by
  have hopen : step ⟨stack, .member done first⟩ 34 =
      some ⟨stack, .string (some done) ([], .text [])⟩ := by
    simp [step, isSpace]
  have hclose : step ⟨stack, .string (some done) (key, .text [])⟩ 34 =
      some ⟨stack, .colon done key⟩ := by
    simp [step, endString]
  have hcolon : step ⟨stack, .colon done key⟩ 58 = some ⟨.obj done key :: stack, .value⟩ := by
    simp [step, isSpace]
  have hblank : step ⟨.obj done key :: stack, .value⟩ 32 =
      some ⟨.obj done key :: stack, .value⟩ := by
    simp [step, stepValue, valueStart, isSpace]
  rw [run_cons, hopen, Option.bind_some, run_string h.strRun, run_cons, hclose,
    Option.bind_some, run_cons, hcolon, Option.bind_some, run_cons, hblank, Option.bind_some]

/-- A quoted text opens its string. -/
theorem run_open {stack : List Frame} (w : List Byte) :
    run ⟨stack, .value⟩ (34 :: w) = run ⟨stack, .string none ([], .text [])⟩ w := by
  have hopen : step ⟨stack, .value⟩ 34 = some ⟨stack, .string none ([], .text [])⟩ := by
    simp [step, stepValue, valueStart, isSpace]
  rw [run_cons, hopen, Option.bind_some]

theorem run_quoted {stack : List Frame} {t : List Byte} (h : Safe t) (w : List Byte) :
    run ⟨stack, .value⟩ (34 :: (t ++ 34 :: w)) = run ⟨stack, .after (.str t)⟩ w := by
  have hclose : step ⟨stack, .string none (t, .text [])⟩ 34 = some ⟨stack, .after (.str t)⟩ := by
    simp [step, endString]
  rw [run_open, run_string h.strRun, run_cons, hclose, Option.bind_some]

/-- A bare text is read as it is on its own when a comma or a brace ends it. -/
theorem run_raw {stack : List Frame} {t : List Byte} {v : Value} (h : parse t = some v)
    {b : Byte} (hb : b = 44 ∨ b = 125) (w : List Byte) :
    run ⟨stack, .value⟩ (t ++ b :: w) = run ⟨stack, .after v⟩ (b :: w) := by
  obtain ⟨⟨stack', mode⟩, hs, hfinish⟩ := Option.bind_eq_some_iff.mp h
  have hlift := run_lift hs stack
  simp only [State.finish] at hfinish
  split at hfinish
  · obtain rfl := Option.some.inj hfinish
    rw [run_append]
    exact congrArg (fun s => s.bind fun s' => run s' (b :: w)) hlift
  · rename_i text m
    split at hfinish
    · rename_i haccepts
      obtain rfl := Option.some.inj hfinish
      have hnum : numStep m b = none := by
        rcases hb with rfl | rfl <;> cases m <;> decide
      have hend : step ⟨stack, .number text m⟩ b = step ⟨stack, .after (.num text)⟩ b := by
        simp [step, hnum, haccepts]
      rw [run_append, run_cons _ b, ← hend]
      exact congrArg (fun s => s.bind fun s' => run s' (b :: w)) hlift
    · simp at hfinish
  · simp at hfinish

theorem run_slot {stack : List Frame} {slot : Slot} {v : Value} (hclean : slot.Clean)
    (hv : slot.Denotes v) {b : Byte} (hb : b = 44 ∨ b = 125) (w : List Byte) :
    run ⟨stack, .value⟩ (slot.render ++ b :: w) = run ⟨stack, .after v⟩ (b :: w) := by
  cases slot with
  | quoted t =>
    obtain rfl : v = .str t := hv
    simpa [Slot.render] using run_quoted hclean (b :: w)
  | raw t => exact run_raw hv hb w

/-- One member, up to the comma or the brace behind it. -/
theorem run_member {stack : List Frame} {done : List (List Byte × Value)} {first : Bool}
    {m : Member} {v : Value} (hkey : Safe m.key) (hclean : m.slot.Clean) (hv : m.slot.Denotes v)
    {b : Byte} (hb : b = 44 ∨ b = 125) (w : List Byte) :
    run ⟨stack, .member done first⟩ (m.render ++ b :: w) =
      run ⟨.obj done m.key :: stack, .after v⟩ (b :: w) := by
  have hrender : m.render ++ b :: w =
      34 :: (m.key ++ (34 :: 58 :: 32 :: (m.slot.render ++ b :: w))) := by
    simp [Member.render]
  rw [hrender, run_key hkey, run_slot hclean hv hb]

theorem run_after_comma {stack : List Frame} {done : List (List Byte × Value)} {key : List Byte}
    {v : Value} (w : List Byte) :
    run ⟨.obj done key :: stack, .after v⟩ (44 :: 32 :: w) =
      run ⟨stack, .member (done ++ [(key, v)]) false⟩ w := by
  have hcomma : step ⟨.obj done key :: stack, .after v⟩ 44 =
      some ⟨stack, .member (done ++ [(key, v)]) false⟩ := by
    simp [step, stepAfter, isSpace]
  have hblank : step ⟨stack, .member (done ++ [(key, v)]) false⟩ 32 =
      some ⟨stack, .member (done ++ [(key, v)]) false⟩ := by
    simp [step, isSpace]
  rw [run_cons, hcomma, Option.bind_some, run_cons, hblank, Option.bind_some]

theorem run_after_brace {stack : List Frame} {done : List (List Byte × Value)} {key : List Byte}
    {v : Value} (w : List Byte) :
    run ⟨.obj done key :: stack, .after v⟩ (125 :: w) =
      run ⟨stack, .after (.obj (done ++ [(key, v)]))⟩ w := by
  have hbrace : step ⟨.obj done key :: stack, .after v⟩ 125 =
      some ⟨stack, .after (.obj (done ++ [(key, v)]))⟩ := by
    simp [step, stepAfter, isSpace]
  rw [run_cons, hbrace, Option.bind_some]

/-- Clean members are read as what they stand for. -/
theorem run_members {stack : List Frame} {ms : List Member} {d : List (List Byte × Value)}
    (hne : ms ≠ []) (hd : Denotes ms d) (hkeys : ∀ m ∈ ms, Safe m.key)
    (hclean : ∀ m ∈ ms, m.slot.Clean) (done : List (List Byte × Value)) (first : Bool)
    (w : List Byte) :
    run ⟨stack, .member done first⟩ (renderMembers ms ++ 125 :: w) =
      run ⟨stack, .after (.obj (done ++ d))⟩ w := by
  induction hd generalizing done first with
  | nil => exact absurd rfl hne
  | @cons m kv ms d hm htail ih =>
    obtain ⟨k, v⟩ := kv
    obtain ⟨rfl, hv⟩ := hm
    have hkey := hkeys m (by simp)
    have hslot := hclean m (by simp)
    cases ms with
    | nil =>
      cases htail
      rw [renderMembers, run_member hkey hslot hv (.inr rfl), run_after_brace]
    | cons m' ms =>
      rw [renderMembers_cons_cons, List.append_assoc, List.cons_append, List.cons_append,
        run_member hkey hslot hv (.inl rfl), run_after_comma,
        ih (by simp) (fun x hx => hkeys x (by simp [hx])) (fun x hx => hclean x (by simp [hx]))]
      simp

/-- When the result has the members that the template stands for, the pasted texts were clean. -/
theorem clean_of_run_members {stack : List Frame} {ms : List Member}
    {d : List (List Byte × Value)} (hd : Denotes ms d) (hkeys : ∀ m ∈ ms, Safe m.key)
    {done : List (List Byte × Value)} {first : Bool} {w : List Byte} {s : State} {v : Value}
    (hrun : run ⟨stack, .member done first⟩ (renderMembers ms ++ 125 :: w) = some s)
    (hfinish : s.finish = some v)
    (hresult : ∀ d', Fills stack (.obj d') v → d' = done ++ d) : ∀ m ∈ ms, m.slot.Clean := by
  induction hd generalizing done first with
  | nil => simp
  | @cons m kv ms d hm htail ih =>
    obtain ⟨k, x⟩ := kv
    obtain ⟨rfl, hx⟩ := hm
    -- what follows the first member: a brace, or a comma and the others
    obtain ⟨b, hb, w', hw⟩ : ∃ b, (b = 44 ∨ b = 125) ∧ ∃ w',
        renderMembers (m :: ms) ++ 125 :: w = m.render ++ b :: w' := by
      cases ms with
      | nil => exact ⟨125, .inr rfl, w, rfl⟩
      | cons m' ms =>
        exact ⟨44, .inl rfl, 32 :: (renderMembers (m' :: ms) ++ 125 :: w), by
          simp [renderMembers_cons_cons]⟩
    have hclean : m.slot.Clean := by
      obtain ⟨key, slot⟩ := m
      cases slot with
      | raw t =>
        have hparse : parse t = some x := hx
        simp [Slot.Clean, hparse]
      | quoted t =>
        have hrender : Member.render ⟨key, .quoted t⟩ ++ b :: w' =
            34 :: (key ++ (34 :: 58 :: 32 :: (34 :: (t ++ 34 :: b :: w')))) := by
          simp [Member.render, Slot.render]
        have hkey : Safe key := hkeys ⟨key, .quoted t⟩ (by simp)
        rw [hw, hrender, run_key hkey, run_open] at hrun
        obtain ⟨c, r, acc, hsplit, hc, hr⟩ := run_string_closes hrun hfinish
        obtain ⟨more, hmore⟩ := run_leads hr hfinish
        have hacc := hresult _ hmore
        obtain rfl : x = .str t := hx
        simp only [List.append_cancel_left_eq, List.cons.injEq, Prod.mk.injEq, Value.str.injEq,
          true_and] at hacc
        rw [hacc.1] at hc
        exact (closes_exactly hc hsplit.symm).1
    refine List.forall_mem_cons.mpr ⟨hclean, ?_⟩
    cases ms with
    | nil => simp
    | cons m' ms =>
      rw [renderMembers_cons_cons, List.append_assoc, List.cons_append, List.cons_append,
        run_member (hkeys m (by simp)) hclean hx (.inl rfl), run_after_comma] at hrun
      exact ih (fun y hy => hkeys y (by simp [hy])) hrun fun d' hd' => by
        rw [hresult d' hd']
        simp

theorem run_object {stack : List Frame} (w : List Byte) :
    run ⟨stack, .value⟩ (123 :: w) = run ⟨stack, .member [] true⟩ w := by
  have hopen : step ⟨stack, .value⟩ 123 = some ⟨stack, .member [] true⟩ := by
    simp [step, stepValue, valueStart, isSpace]
  rw [run_cons, hopen, Option.bind_some]

/-- An object written from clean members is read back. -/
theorem parse_renderObject {ms : List Member} {d : List (List Byte × Value)} (hne : ms ≠ [])
    (hd : Denotes ms d) (hkeys : ∀ m ∈ ms, Safe m.key) (hclean : ∀ m ∈ ms, m.slot.Clean) :
    parse (renderObject ms) = some (.obj d) := by
  rw [parse, renderObject, State.init, run_object, run_members hne hd hkeys hclean, run_nil]
  rfl

theorem exists_denotes {ms : List Member} (hclean : ∀ m ∈ ms, m.slot.Clean) :
    ∃ d, Denotes ms d := by
  induction ms with
  | nil => exact ⟨[], .nil⟩
  | cons m ms ih =>
    obtain ⟨d, hd⟩ := ih fun x hx => hclean x (by simp [hx])
    obtain ⟨v, hv⟩ : ∃ v, m.slot.Denotes v := by
      have hm := hclean m (by simp)
      obtain ⟨key, slot⟩ := m
      cases slot with
      | quoted t => exact ⟨.str t, rfl⟩
      | raw t => exact Option.isSome_iff_exists.mp hm
    exact ⟨(m.key, v) :: d, .cons ⟨rfl, hv⟩ hd⟩

end BoardTest.Json
