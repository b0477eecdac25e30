import BoardTest.Lib.Fields
import BoardTest.Lib.Stores

/-!
# Strings inside of an array

An array of bytes with C strings in it; a pointer is an index. Every byte that a routine of
`string.h` loads or stores is checked against the array, and an access outside of it is `none`. What
the routines do is said of the strings that the array holds (`Holds`): a cut and a `strtok` store
into one string, overwrite no NUL and keep every string in front of it and behind it (`Keeps`).
-/

namespace BoardTest.Memory

/-- How far a loop over a string goes: it loads each byte up to the first one that stops it. -/
def scan (stop : Byte → Bool) : List Byte → Option Nat
  | [] => none
  | b :: view => if stop b then some 0 else (scan stop view).map (· + 1)

/-- The pointer moved on to the byte that stops the loop. -/
def seek (stop : Byte → Bool) (a : List Byte) (p : Nat) : Option Nat :=
  (scan stop (a.drop p)).map (p + ·)

def strlen (a : List Byte) (p : Nat) : Option Nat := scan (· = 0) (a.drop p)

/-- The string at `p`, as `%s` prints it -/
def str (a : List Byte) (p : Nat) : Option (List Byte) :=
  (strlen a p).map fun n => (a.drop p).take n

/-- `p + k`, which must not leave the string at `p` -/
def advance (a : List Byte) (p k : Nat) : Option Nat :=
  (strlen a p).bind fun n => if k ≤ n then some (p + k) else none

/-- `strchr(p, c)` -/
def strchr (c : Byte) (a : List Byte) (p : Nat) : Option (Option Nat) :=
  (seek (fun b => b = c ∨ b = 0) a p).bind fun q =>
    a[q]?.map fun b => if b = c then some q else none

/-- `strrchr(p, c)` -/
def strrchr (c : Byte) (a : List Byte) (p : Nat) : Option (Option Nat) :=
  (str a p).map fun s => (s.reverse.idxOf? c).map fun k => p + s.length - 1 - k

/-- `!strcmp(s, t)`: both strings are loaded up to the first difference. -/
def strcmp : List Byte → List Byte → Option Bool
  | a :: s, b :: t => if a ≠ b then some false else if a = 0 then some true else strcmp s t
  | _, _ => none

/-- `if ((q = strchr(p, c))) *q = '\0'` -/
def cut (c : Byte) (a : List Byte) (p : Nat) : Option (List Byte) :=
  (strchr c a p).bind fun
    | none => some a
    | some q => store a (q, 0)

/-- Bytes stored from the start of an array on. -/
def overwrite (a bs : List Byte) : Option (List Byte) :=
  if bs.length ≤ a.length then some (bs ++ a.drop bs.length) else none

/-- The bytes that `strncpy` stores: the string, then zeros. -/
def strncpyBytes : Nat → List Byte → Option (List Byte)
  | 0, _ => some []
  | _ + 1, [] => none
  | n + 1, b :: view =>
    if b = 0 then some (List.replicate (n + 1) 0) else (strncpyBytes n view).map (b :: ·)

/-- `strncpy(a, src, n)` -/
def strncpy (a src : List Byte) (n : Nat) : Option (List Byte) :=
  (strncpyBytes n src).bind (overwrite a)

/-- `strcpy(a, src)` -/
def strcpy (a src : List Byte) : Option (List Byte) :=
  (str src 0).bind fun s => overwrite a (s ++ [0])

/-- What `strtok` leaves: the array, the pointer it saves for the next call, and the token. -/
structure Strtok where
  array : List Byte
  save : Nat
  token : Option Nat
  deriving DecidableEq

/-- `strtok` from a string on, which is the argument or the saved pointer: separators are skipped,
and the one behind the token is overwritten. -/
def strtok (sep : Byte) (a : List Byte) (p : Nat) : Option Strtok := do
  let start ← seek (fun b => b ≠ sep) a p
  let c ← a[start]?
  if c = 0 then some ⟨a, start, none⟩
  else
    let stop ← seek (fun b => b = sep ∨ b = 0) a start
    let d ← a[stop]?
    if d = 0 then some ⟨a, stop, some start⟩
    else
      let a ← store a (stop, 0)
      some ⟨a, stop + 1, some start⟩

/-- The array holds a string at `p`. -/
structure Holds (a : List Byte) (p : Nat) (s : List Byte) : Prop where
  nonzero : 0 ∉ s
  chars : ∀ k < s.length, a[p + k]? = s[k]?
  nul : a[p + s.length]? = some 0

/-- Only bytes from `lo` to `hi` are changed, and none that is a NUL. -/
structure Keeps (lo hi : Nat) (a a' : List Byte) : Prop where
  length_eq : a'.length = a.length
  outside : ∀ j, a[j]? = some 0 ∨ j < lo ∨ hi ≤ j → a'[j]? = a[j]?

section Strings

variable {a a' a'' : List Byte} {p k lo hi : Nat} {s : List Byte} {c : Byte}

theorem Holds.of_view {rest : List Byte} (h0 : 0 ∉ s) (h : a.drop p = s ++ 0 :: rest) :
    Holds a p s where
  nonzero := h0
  chars := by
    intro k hk
    rw [← List.getElem?_drop, h, List.getElem?_append_left hk]
  nul := by
    rw [← List.getElem?_drop, h, List.getElem?_append_right le_rfl, Nat.sub_self]
    rfl

/-- What is seen from the pointer on. -/
theorem Holds.view (h : Holds a p s) : ∃ rest, a.drop p = s ++ 0 :: rest := by
  induction s generalizing p with
  | nil =>
    have hnul : a[p]? = some 0 := h.nul
    obtain ⟨hlt, hget⟩ := List.getElem?_eq_some_iff.mp hnul
    exact ⟨a.drop (p + 1), by rw [List.drop_eq_getElem_cons hlt, hget]; rfl⟩
  | cons b s ih =>
    have hb : a[p]? = some b := h.chars 0 (Nat.succ_pos _)
    obtain ⟨hlt, hget⟩ := List.getElem?_eq_some_iff.mp hb
    have htail : Holds a (p + 1) s := by
      refine ⟨fun h0 => h.nonzero (List.mem_cons_of_mem b h0), fun k hk => ?_, ?_⟩
      · have hnext := h.chars (k + 1) (Nat.succ_lt_succ hk)
        rwa [Nat.add_comm k 1, ← Nat.add_assoc, Nat.add_comm 1 k] at hnext
      · have hnul := h.nul
        rwa [List.length_cons, Nat.add_comm s.length 1, ← Nat.add_assoc] at hnul
    obtain ⟨rest, hrest⟩ := ih htail
    exact ⟨rest, by rw [List.drop_eq_getElem_cons hlt, hget, hrest]; rfl⟩

theorem Holds.lt (h : Holds a p s) : p + s.length < a.length :=
  (List.getElem?_eq_some_iff.mp h.nul).1

theorem Holds.congr (h : Holds a p s) (heq : ∀ j, p ≤ j → j ≤ p + s.length → a'[j]? = a[j]?) :
    Holds a' p s where
  nonzero := h.nonzero
  chars k hk := (heq (p + k) (by omega) (by omega)).trans (h.chars k hk)
  nul := (heq (p + s.length) (by omega) le_rfl).trans h.nul

/-- The end of a string is a string. -/
theorem Holds.drop (h : Holds a p s) (hk : k ≤ s.length) : Holds a (p + k) (s.drop k) := by
  obtain ⟨rest, hrest⟩ := h.view
  have hview : a.drop (p + k) = s.drop k ++ 0 :: rest := by
    rw [← List.drop_drop, hrest, List.drop_append_of_le_length hk]
  exact .of_view (fun h0 => h.nonzero (List.mem_of_mem_drop h0)) hview

/-- A string seen from its own pointer. -/
theorem Holds.at_pointer (h : Holds a p s) : Holds (a.drop p) 0 s := by
  obtain ⟨rest, hrest⟩ := h.view
  exact .of_view h.nonzero (List.drop_zero.trans hrest)

theorem Holds.of_append {t : List Byte} (h : Holds a p (s ++ t)) : Holds a (p + s.length) t := by
  have hdrop := h.drop (k := s.length) (by rw [List.length_append]; omega)
  rwa [List.drop_left] at hdrop

theorem Keeps.refl (lo hi : Nat) (a : List Byte) : Keeps lo hi a a := ⟨rfl, fun _ _ => rfl⟩

theorem Keeps.trans (h : Keeps lo hi a a') (h' : Keeps lo hi a' a'') : Keeps lo hi a a'' where
  length_eq := h'.length_eq.trans h.length_eq
  outside := by
    intro j hj
    have hfirst := h.outside j hj
    have hj' : a'[j]? = some 0 ∨ j < lo ∨ hi ≤ j := hj.imp_left hfirst.trans
    exact (h'.outside j hj').trans hfirst

theorem Keeps.mono {lo' hi' : Nat} (h : Keeps lo hi a a') (hlo : lo' ≤ lo) (hhi : hi ≤ hi') :
    Keeps lo' hi' a a' where
  length_eq := h.length_eq
  outside j hj := h.outside j (hj.imp_right (Or.imp (by omega) (by omega)))

/-- A string that ends where the changes begin. -/
theorem Holds.keeps_before (h : Holds a p s) (hkeep : Keeps lo hi a a') (hlo : p + s.length ≤ lo) :
    Holds a' p s := by
  refine h.congr fun j hj hle => hkeep.outside j ?_
  rcases Nat.lt_or_eq_of_le hle with hlt | rfl
  · exact .inr (.inl (by omega))
  · exact .inl h.nul

/-- A string behind the changes. -/
theorem Holds.keeps_behind (h : Holds a p s) (hkeep : Keeps lo hi a a') (hhi : hi ≤ p) :
    Holds a' p s :=
  h.congr fun j hj _ => hkeep.outside j (.inr (.inr (by omega)))

/-- A NUL that is stored into a string. -/
theorem Holds.store_nul (h : Holds a p s) (hk : k < s.length) :
    ∃ a', store a (p + k, 0) = some a' ∧ Holds a' p (s.take k) ∧
      Holds a' (p + k + 1) (s.drop (k + 1)) ∧ Keeps (p + k) (p + k + 1) a a' := by
  have hlt := h.lt
  have hset : ∀ j, j ≠ p + k → (a.set (p + k) 0)[j]? = a[j]? := by
    intro j hj
    exact List.getElem?_set_ne hj.symm
  have hne : a[p + k]? ≠ some 0 := by
    rw [h.chars k hk]
    intro hzero
    exact h.nonzero (List.mem_of_getElem? hzero)
  refine ⟨a.set (p + k) 0, if_pos (by change p + k < a.length; omega), ?_, ?_, ?_⟩
  · have hlen : (s.take k).length = k := List.length_take_of_le hk.le
    refine ⟨fun h0 => h.nonzero (List.mem_of_mem_take h0), fun i hi => ?_, ?_⟩
    · rw [hlen] at hi
      rw [hset _ (by omega), h.chars i (by omega), List.getElem?_take_of_lt hi]
    · rw [hlen, List.getElem?_set_self (by omega)]
  · exact (h.drop hk).congr fun j hj _ => hset j (by omega)
  · refine ⟨List.length_set, fun j hj => ?_⟩
    apply hset
    rintro rfl
    rcases hj with hzero | hj | hj
    · exact hne hzero
    · omega
    · omega

theorem scan_eq {stop : Byte → Bool} (hstop : stop 0 = true) (s rest : List Byte) :
    scan stop (s ++ 0 :: rest) = some (s.takeWhile (fun b => !stop b)).length := by
  induction s with
  | nil => simp [scan, hstop]
  | cons b s ih =>
    rw [List.cons_append, scan]
    cases hb : stop b with
    | true => simp [hb]
    | false => simp [hb, ih]

theorem Holds.seek (h : Holds a p s) (stop : Byte → Bool) (hstop : stop 0 = true) :
    seek stop a p = some (p + (s.takeWhile (fun b => !stop b)).length) := by
  obtain ⟨rest, hrest⟩ := h.view
  rw [Memory.seek, hrest, scan_eq hstop, Option.map_some]

theorem Holds.strlen (h : Holds a p s) : strlen a p = some s.length := by
  obtain ⟨rest, hrest⟩ := h.view
  have hall : s.takeWhile (fun b => !decide (b = 0)) = s := by
    rw [List.takeWhile_eq_self_iff]
    intro b hb
    simpa using ne_of_mem_of_not_mem hb h.nonzero
  rw [Memory.strlen, hrest, scan_eq (by decide), hall]

theorem Holds.str (h : Holds a p s) : str a p = some s := by
  obtain ⟨rest, hrest⟩ := h.view
  rw [Memory.str, h.strlen, Option.map_some, hrest, List.take_left]

theorem Holds.advance (h : Holds a p s) (hk : k ≤ s.length) : advance a p k = some (p + k) := by
  rw [Memory.advance, h.strlen, Option.bind_some, if_pos hk]

theorem Holds.strrchr (h : Holds a p s) (c : Byte) : ∃ q, strrchr c a p = some q :=
  ⟨_, by rw [Memory.strrchr, h.str, Option.map_some]⟩

theorem strcmp_eq (s t : List Byte) (h : 0 ∉ s) (h' : 0 ∉ t) (rest : List Byte) :
    strcmp (s ++ 0 :: rest) (t ++ [0]) = some (decide (s = t)) := by
  induction s generalizing t with
  | nil =>
    cases t with
    | nil => simp [strcmp]
    | cons b t =>
      have hb : (0 : Byte) ≠ b := fun e => h' (by simp [← e])
      simp [strcmp, hb]
  | cons a s ih =>
    rw [List.mem_cons, not_or] at h
    cases t with
    | nil => simp [strcmp, Ne.symm h.1]
    | cons b t =>
      rw [List.mem_cons, not_or] at h'
      by_cases hab : a = b
      · simp [strcmp, ← hab, Ne.symm h.1, ih t h.2 h'.2]
      · simp [strcmp, hab]

theorem Holds.strcmp (h : Holds a p s) {t : List Byte} (ht : 0 ∉ t) :
    strcmp (a.drop p) (t ++ [0]) = some (decide (s = t)) := by
  obtain ⟨rest, hrest⟩ := h.view
  rw [hrest, strcmp_eq s t h.nonzero ht]

/-- The first byte of a string, which is the NUL when the string is empty. -/
theorem Holds.getElem? (h : Holds a p s) : a[p]? = some (s.headD 0) := by
  cases s with
  | nil => exact h.nul
  | cons b s => exact h.chars 0 (Nat.succ_pos _)

theorem takeWhile_eq_cutAt (hs : 0 ∉ s) (c : Byte) :
    s.takeWhile (fun b => !decide (b = c ∨ b = 0)) = cutAt c s := by
  induction s with
  | nil => rfl
  | cons b s ih =>
    rw [List.mem_cons, not_or] at hs
    rw [cutAt, List.takeWhile_cons, List.takeWhile_cons, ih hs.2]
    simp [Ne.symm hs.1, cutAt]

theorem Holds.seek_char (h : Holds a p s) (c : Byte) :
    Memory.seek (fun b => b = c ∨ b = 0) a p = some (p + (cutAt c s).length) := by
  rw [h.seek _ (by simp), takeWhile_eq_cutAt h.nonzero]

theorem length_cutAt_lt (hmem : c ∈ s) : (cutAt c s).length < s.length := by
  obtain ⟨t, ht⟩ := exists_cutAt_append hmem
  conv_rhs => rw [ht]
  simp

theorem drop_cutAt (c : Byte) (s : List Byte) :
    s.drop (cutAt c s).length = s.dropWhile (· ≠ c) := by
  have hsplit : cutAt c s ++ s.dropWhile (· ≠ c) = s := List.takeWhile_append_dropWhile
  have hdrop := congrArg (List.drop (cutAt c s).length) hsplit
  rw [List.drop_left] at hdrop
  exact hdrop.symm

theorem take_cutAt (c : Byte) (s : List Byte) : s.take (cutAt c s).length = cutAt c s :=
  (List.prefix_iff_eq_take.mp (cutAt_isPrefix c s)).symm

/-- The byte at which the search for a character stops. -/
theorem Holds.getElem?_cutAt (h : Holds a p s) (c : Byte) :
    a[p + (cutAt c s).length]? = some (if c ∈ s then c else 0) := by
  by_cases hmem : c ∈ s
  · obtain ⟨t, ht⟩ := exists_cutAt_append hmem
    rw [if_pos hmem, h.chars _ (length_cutAt_lt hmem)]
    conv_lhs => rw [ht]
    rw [cutAt_append_cons (not_mem_cutAt c s), List.getElem?_append_right le_rfl, Nat.sub_self]
    rfl
  · rw [if_neg hmem, cutAt_eq_self hmem, h.nul]

theorem Holds.strchr (h : Holds a p s) (hc : c ≠ 0) :
    strchr c a p = some (if c ∈ s then some (p + (cutAt c s).length) else none) := by
  rw [Memory.strchr, h.seek_char, Option.bind_some, h.getElem?_cutAt, Option.map_some]
  by_cases hmem : c ∈ s <;> simp [hmem, Ne.symm hc]

theorem Holds.cut (h : Holds a p s) (hc : c ≠ 0) :
    ∃ a', cut c a p = some a' ∧ Holds a' p (cutAt c s) ∧ Keeps p (p + s.length) a a' := by
  rw [Memory.cut, h.strchr hc, Option.bind_some]
  by_cases hmem : c ∈ s
  · have hlt := length_cutAt_lt hmem
    obtain ⟨a', hstore, hcut, -, hkeep⟩ := h.store_nul hlt
    rw [take_cutAt] at hcut
    rw [if_pos hmem]
    exact ⟨a', hstore, hcut, hkeep.mono (by omega) (by omega)⟩
  · rw [if_neg hmem, cutAt_eq_self hmem]
    exact ⟨a, rfl, h, .refl _ _ a⟩

/-- The separators in front of a token. -/
theorem Holds.skip {sep : Byte} (h : Holds a p s) (hsep : sep ≠ 0) :
    ∃ k, Memory.seek (fun b => b ≠ sep) a p = some (p + k) ∧
      Holds a (p + k) (s.dropWhile (· = sep)) ∧
      k + (s.dropWhile (· = sep)).length = s.length := by
  have hskip : (fun b : Byte => !decide (b ≠ sep)) = fun b => decide (b = sep) := by
    funext b
    simp
  have hsplit : s.takeWhile (· = sep) ++ s.dropWhile (· = sep) = s :=
    List.takeWhile_append_dropWhile
  have hseek := h.seek (fun b => b ≠ sep) (by simpa using hsep.symm)
  rw [hskip] at hseek
  refine ⟨(s.takeWhile (· = sep)).length, hseek, ?_, ?_⟩
  · rw [← hsplit] at h
    exact h.of_append
  · rw [← List.length_append, hsplit]

/-- `strtok` finds the next token: what it leaves is that token and, at the pointer it saves,
the rest of the string. -/
theorem Holds.strtok {sep : Byte} (h : Holds a p s) (hsep : sep ≠ 0) :
    match BoardTest.strtok sep s with
    | none => ∃ save, strtok sep a p = some ⟨a, save, none⟩
    | some (token, rest) => ∃ a' save start, strtok sep a p = some ⟨a', save, some start⟩ ∧
        Holds a' start token ∧ Holds a' save rest ∧ p ≤ start ∧ start + token.length ≤ save ∧
        Keeps start (p + s.length) a a' := by
  obtain ⟨k, hseek, hstart, hlen⟩ := h.skip hsep
  generalize hbody : s.dropWhile (· = sep) = body at hstart hlen
  cases body with
  | nil =>
    have hzero : a[p + k]? = some 0 := hstart.nul
    rw [BoardTest.strtok, hbody]
    refine ⟨p + k, ?_⟩
    rw [Memory.strtok]
    simp only [hseek, hzero, Option.bind_eq_bind, Option.bind_some, if_true]
  | cons b t =>
    have hb0 : b ≠ 0 := fun e => hstart.nonzero (by simp [e])
    have hfirst : a[p + k]? = some b := hstart.getElem?
    have hstop := hstart.seek_char sep
    have hlast := hstart.getElem?_cutAt sep
    have hpure : BoardTest.strtok sep s =
        some (cutAt sep (b :: t), ((b :: t).dropWhile (· ≠ sep)).drop 1) := by
      rw [BoardTest.strtok, hbody]
      rfl
    rw [hpure]
    by_cases hmem : sep ∈ b :: t
    · -- the separator behind the token is overwritten
      obtain ⟨a', hstore, htoken, hrest, hkeep⟩ := hstart.store_nul (length_cutAt_lt hmem)
      have hdrop : (b :: t).drop ((cutAt sep (b :: t)).length + 1) =
          ((b :: t).dropWhile (· ≠ sep)).drop 1 := by
        rw [← List.drop_drop, drop_cutAt]
      rw [take_cutAt] at htoken
      rw [hdrop] at hrest
      rw [if_pos hmem] at hlast
      refine ⟨a', _, _, ?_, htoken, hrest, by omega, by omega, hkeep.mono (by omega) ?_⟩
      · rw [Memory.strtok]
        simp only [hseek, hfirst, hstop, hlast, hstore, Option.bind_eq_bind, Option.bind_some,
          if_neg hb0, if_neg hsep]
      · have hlt := length_cutAt_lt hmem
        omega
    · -- the token ends with the string
      have hnil : (b :: t).dropWhile (· ≠ sep) = [] := by
        rw [List.dropWhile_eq_nil_iff]
        intro x hx
        simpa using ne_of_mem_of_not_mem hx hmem
      rw [if_neg hmem] at hlast
      rw [cutAt_eq_self hmem] at hstop hlast ⊢
      rw [hnil, List.drop_nil]
      have hend := hstart.drop (k := (b :: t).length) le_rfl
      rw [List.drop_length] at hend
      refine ⟨a, _, _, ?_, hstart, hend, by omega, le_rfl, .refl _ _ a⟩
      rw [Memory.strtok]
      simp only [hseek, hfirst, hstop, hlast, Option.bind_eq_bind, Option.bind_some, if_neg hb0,
        if_true]

/-! ## Copies -/

theorem length_overwrite {bs : List Byte} (h : overwrite a bs = some a') :
    a'.length = a.length := by
  rw [overwrite] at h
  split at h
  · cases h
    rw [List.length_append, List.length_drop]
    omega
  · cases h

theorem strcpy_holds {src : List Byte} (h : Holds src 0 s) (hroom : s.length < a.length) :
    ∃ a', strcpy a src = some a' ∧ Holds a' 0 s ∧ a'.length = a.length := by
  have hcopy : overwrite a (s ++ [0]) = some (s ++ [0] ++ a.drop (s ++ [0]).length) := by
    rw [overwrite, if_pos]
    rw [List.length_append, List.length_singleton]
    exact hroom
  have hview : s ++ [0] ++ a.drop (s ++ [0]).length = s ++ 0 :: a.drop (s ++ [0]).length :=
    List.append_cons s 0 _ |>.symm
  refine ⟨_, ?_, .of_view h.nonzero (List.drop_zero.trans hview), length_overwrite hcopy⟩
  rw [strcpy, h.str, Option.bind_some, hcopy]

theorem strncpyBytes_eq (n : Nat) (s rest : List Byte) (h : 0 ∉ s) :
    strncpyBytes n (s ++ 0 :: rest) = some (s.take n ++ List.replicate (n - s.length) 0) := by
  induction n generalizing s with
  | zero => simp [strncpyBytes]
  | succ n ih =>
    cases s with
    | nil => simp [strncpyBytes]
    | cons b s =>
      rw [List.mem_cons, not_or] at h
      rw [List.cons_append, strncpyBytes, if_neg (Ne.symm h.1), ih s h.2]
      simp

/-- A copy of at most `n` bytes, with the NUL that is stored behind it. -/
theorem strncpy_holds {src : List Byte} {n : Nat} (h : Holds src 0 s) (hroom : n < a.length) :
    ∃ a' a'', strncpy a src n = some a' ∧ store a' (n, 0) = some a'' ∧ Holds a'' 0 (s.take n) ∧
      a''.length = a.length := by
  obtain ⟨rest, hrest⟩ := h.view
  rw [List.drop_zero] at hrest
  have hlen : (s.take n ++ List.replicate (n - s.length) (0 : Byte)).length = n := by
    rw [List.length_append, List.length_take, List.length_replicate]
    omega
  have hcopy : strncpy a src n =
      some (s.take n ++ List.replicate (n - s.length) 0 ++ a.drop n) := by
    rw [strncpy, hrest, strncpyBytes_eq n s rest h.nonzero, Option.bind_some, overwrite, hlen,
      if_pos hroom.le]
  refine ⟨_, (s.take n ++ List.replicate (n - s.length) 0 ++ a.drop n).set n 0, hcopy, ?_, ?_, ?_⟩
  · rw [store, if_pos]
    simp only [List.length_append, hlen, List.length_drop]
    omega
  · have hset : (s.take n ++ List.replicate (n - s.length) 0 ++ a.drop n).set n 0 =
        s.take n ++ List.replicate (n - s.length) 0 ++ 0 :: a.drop (n + 1) := by
      rw [List.set_append_right _ _ hlen.le, hlen, Nat.sub_self, List.drop_eq_getElem_cons hroom,
        List.set_cons_zero]
    have h0 : 0 ∉ s.take n := fun hmem => h.nonzero (List.mem_of_mem_take hmem)
    rw [hset]
    cases n - s.length with
    | zero =>
      rw [List.replicate_zero, List.append_nil]
      exact .of_view h0 (List.drop_zero ..)
    | succ k =>
      rw [List.replicate_succ, List.append_assoc, List.cons_append]
      exact .of_view h0 (List.drop_zero ..)
  · simp only [List.length_set, List.length_append, hlen, List.length_drop]
    omega

end Strings

end BoardTest.Memory
