import BoardTest.Lib.CInt
import BoardTest.Lib.CString
import BoardTest.Lib.Feed
import BoardTest.Lib.Stores

/-!
# The serial loop test

`uarttest.c` sends a line of text on a port that is wired to itself and reads it back byte by byte.
The port is opened with `O_NONBLOCK`, so `read` gives -1 while nothing has come, and the loop adds
that to the index of the next byte. The index stays in the buffer exactly when a byte has come for
every empty poll beforehand (`indexInside_iff`). The text that came back is never compared with the
one that was sent, only its length is: a report is right for a text that comes before the first
empty poll and for no other (`readLoop_truthful`).
-/

namespace BoardTest.Uart

/-- `char test[100]="forlinx_uart_test.1234567890..."` -/
def test : List Byte := bytes "forlinx_uart_test.1234567890..."

/-- `write(fd, test, strlen(test) + 1)` -/
def sent : List Byte := test ++ [0]

/-- What `read(fd, &buffer[n], 1)` can do. -/
inductive ReadResult where
  | failed
  | none
  | byte (b : Byte)
  deriving DecidableEq

/-- `nread` -/
def ReadResult.nread : ReadResult → Int
  | failed => -1
  | none => 0
  | byte _ => 1

/-- `char buffer[512]` and the index in it. -/
structure State where
  buffer : List Byte
  length_buffer : buffer.length = 512
  n : Int

theorem length_zeros : (List.replicate 512 (0 : Byte)).length = 512 := List.length_replicate

/-- After `memset(buffer,0,sizeof(buffer))`. -/
def start : State := ⟨List.replicate 512 0, length_zeros, 0⟩

/-- How the loop is left: with the text it reports, or by a byte that `read` stores outside the
buffer or an index that leaves `int`, from where on nothing is known. -/
inductive End where
  | finished (text : List Byte)
  | outside
  deriving DecidableEq

theorem State.length_set (s : State) (i : Nat) (b : Byte) : (s.buffer.set i b).length = 512 :=
  List.length_set.trans s.length_buffer

/-- `buffer[n] = b` -/
def State.store (s : State) (b : Byte) : State :=
  ⟨s.buffer.set s.n.toNat b, s.length_set s.n.toNat b, s.n⟩

@[simp] theorem State.store_buffer (s : State) (b : Byte) :
    (s.store b).buffer = s.buffer.set s.n.toNat b := rfl

/-- The call of `read`. -/
def State.read (s : State) : ReadResult → Except End State
  | .byte b => if 0 ≤ s.n ∧ s.n < 512 then .ok (s.store b) else .error .outside
  | _ => .ok s

/-- One round (`uarttest.c:86-98`). Where the buffer holds no NUL, `strlen` reads on behind it: the
length is 512 or more then and not that of `test`. -/
def readLoop (s : State) (r : ReadResult) : Except End State :=
  match s.read r with
  | .error e => .error e
  | .ok s =>
    if test.length = (cstr s.buffer).length then .error (.finished (cstr s.buffer))
    else
      match inInt (s.n + r.nread) with
      | some n => .ok ⟨s.buffer, s.length_buffer, n⟩
      | none => .error .outside

/-- The bytes that have come. -/
def received (rs : List ReadResult) : List Byte :=
  rs.filterMap fun
    | .byte b => some b
    | _ => none

/-- The empty polls. -/
def failures (rs : List ReadResult) : Nat := rs.count .failed

/-- Where the next byte belongs: as many bytes have come, less the empty polls. -/
def place (rs : List ReadResult) : Int := (received rs).length - failures rs

theorem length_test : test.length = 31 := by decide

theorem zero_notMem_test : 0 ∉ test := by decide

section
variable (rs : List ReadResult)

@[simp] theorem received_append_failed : received (rs ++ [.failed]) = received rs := by
  simp [received]

@[simp] theorem received_append_none : received (rs ++ [.none]) = received rs := by
  simp [received]

@[simp] theorem received_append_byte (b : Byte) :
    received (rs ++ [.byte b]) = received rs ++ [b] := by
  simp [received]

@[simp] theorem failures_append_failed : failures (rs ++ [.failed]) = failures rs + 1 := by
  simp [failures]

@[simp] theorem failures_append_none : failures (rs ++ [.none]) = failures rs := by
  simp [failures]

@[simp] theorem failures_append_byte (b : Byte) :
    failures (rs ++ [.byte b]) = failures rs := by
  simp [failures]

end

section
variable {s t : State} {r : ReadResult} {b : Byte}

/-- An empty poll does not end the loop. -/
theorem readLoop_failed (h : (cstr s.buffer).length ≠ 31) (hn : IsInt (s.n - 1)) :
    readLoop s .failed = .ok ⟨s.buffer, s.length_buffer, s.n - 1⟩ := by
  simp only [readLoop, State.read, length_test, if_neg h.symm, ReadResult.nread,
    ← Int.sub_eq_add_neg, inInt_eq_some_iff.mpr ⟨hn, rfl⟩]

theorem readLoop_none (h : (cstr s.buffer).length ≠ 31) (hn : IsInt s.n) :
    readLoop s .none = .ok s := by
  simp only [readLoop, State.read, length_test, if_neg h.symm, ReadResult.nread, Int.add_zero,
    inInt_eq_some_iff.mpr ⟨hn, rfl⟩]

/-- A byte ends it when it makes the string as long as the one that was sent. -/
theorem readLoop_byte (h : 0 ≤ s.n ∧ s.n < 512) :
    readLoop s (.byte b) =
      if (cstr (s.store b).buffer).length = 31 then .error (.finished (cstr (s.store b).buffer))
      else .ok ⟨(s.store b).buffer, (s.store b).length_buffer, s.n + 1⟩ := by
  have hn : IsInt (s.n + 1) := ⟨by omega, by omega⟩
  have hint : inInt ((s.store b).n + 1) = some (s.n + 1) := inInt_eq_some_iff.mpr ⟨hn, rfl⟩
  simp only [readLoop, State.read, if_pos h, length_test, eq_comm (a := 31), ReadResult.nread, hint]

theorem readLoop_byte_outside (h : ¬ (0 ≤ s.n ∧ s.n < 512)) :
    readLoop s (.byte b) = .error .outside := by
  simp only [readLoop, State.read, if_neg h]

/-- Nothing is stored by an empty poll, and the index goes back when `int` has the next one. -/
theorem readLoop_failed_ok (htext : (cstr s.buffer).length ≠ 31) (h : readLoop s .failed = .ok t) :
    IsInt (s.n - 1) ∧ t = ⟨s.buffer, s.length_buffer, s.n - 1⟩ := by
  by_cases hn : IsInt (s.n - 1)
  · rw [readLoop_failed htext hn] at h
    cases h
    exact ⟨hn, rfl⟩
  · have hnone : inInt (s.n - 1) = none := if_neg hn
    simp only [readLoop, State.read, length_test, if_neg htext.symm, ReadResult.nread,
      ← Int.sub_eq_add_neg, hnone] at h
    cases h

/-- What a byte does when the loop goes on. -/
theorem readLoop_byte_ok (h : readLoop s (.byte b) = .ok t) :
    (0 ≤ s.n ∧ s.n < 512) ∧ (cstr (s.store b).buffer).length ≠ 31 ∧
      t = ⟨(s.store b).buffer, (s.store b).length_buffer, s.n + 1⟩ := by
  by_cases hin : 0 ≤ s.n ∧ s.n < 512
  · rw [readLoop_byte hin] at h
    split at h
    · cases h
    · rename_i hne
      cases h
      exact ⟨hin, hne, rfl⟩
  · rw [readLoop_byte_outside hin] at h
    cases h

/-- Only a byte ends the loop with a report. -/
theorem readLoop_finished {text : List Byte} (htext : (cstr s.buffer).length ≠ 31)
    (h : readLoop s r = .error (.finished text)) :
    ∃ b, r = .byte b ∧ (0 ≤ s.n ∧ s.n < 512) ∧ (cstr (s.store b).buffer).length = 31 := by
  cases r with
  | failed =>
    simp only [readLoop, State.read, length_test, if_neg htext.symm] at h
    split at h <;> cases h
  | none =>
    simp only [readLoop, State.read, length_test, if_neg htext.symm] at h
    split at h <;> cases h
  | byte b =>
    refine ⟨b, rfl, ?_⟩
    by_cases hin : 0 ≤ s.n ∧ s.n < 512
    · rw [readLoop_byte hin] at h
      split at h
      · rename_i hlen
        exact ⟨hin, hlen⟩
      · cases h
    · rw [readLoop_byte_outside hin] at h
      cases h

/-- The byte at the last place of the buffer does not end it. -/
theorem readLoop_byte_last (h : (cstr s.buffer).length ≠ 31) (hn : s.n = 511) :
    readLoop s (.byte b) = .ok ⟨(s.store b).buffer, (s.store b).length_buffer, s.n + 1⟩ := by
  have htext : (cstr (s.store b).buffer).length ≠ 31 := by
    intro heq
    exact h ((length_cstr_set_iff (by omega) b).mp heq)
  rw [readLoop_byte (by omega), if_neg htext]

end

/-- The bytes that come from an index on, each with its place. -/
def placedFrom : Int → List ReadResult → List (Int × Byte)
  | _, [] => []
  | n, .failed :: rs => placedFrom (n - 1) rs
  | n, .none :: rs => placedFrom n rs
  | n, .byte b :: rs => (n, b) :: placedFrom (n + 1) rs

def placed (rs : List ReadResult) : List (Int × Byte) := placedFrom 0 rs

/-- The last byte that came to a place, 0 when there is none. -/
def lastAt (rs : List ReadResult) (i : Nat) : Byte :=
  (lastStore ((placed rs).map fun c => (c.1.toNat, c.2)) i).getD 0

/-- Every byte has its place in the buffer, and all places are `int`s. -/
structure PlacesInside (rs : List ReadResult) : Prop where
  bytes : ∀ c ∈ placed rs, 0 ≤ c.1 ∧ c.1 < 512
  ints : ∀ ps, ps <+: rs → IsInt (place ps)

/-- The last bytes at the first 31 places are characters, and behind them is none. -/
def Spells (rs : List ReadResult) : Prop := (∀ i < 31, lastAt rs i ≠ 0) ∧ lastAt rs 31 = 0

section
variable (rs : List ReadResult)

@[simp] theorem place_append_failed : place (rs ++ [.failed]) = place rs - 1 := by
  rw [place, place, received_append_failed, failures_append_failed]
  omega

@[simp] theorem place_append_none : place (rs ++ [.none]) = place rs := by
  rw [place, place, received_append_none, failures_append_none]

@[simp] theorem place_append_byte (b : Byte) : place (rs ++ [.byte b]) = place rs + 1 := by
  rw [place, place, received_append_byte, failures_append_byte, List.length_append,
    List.length_singleton]
  omega

theorem placedFrom_append (n : Int) (r : ReadResult) :
    placedFrom n (rs ++ [r]) = placedFrom n rs ++ placedFrom (n + place rs) [r] := by
  induction rs generalizing n with
  | nil =>
    have hzero : place [] = 0 := rfl
    rw [hzero, Int.add_zero]
    rfl
  | cons q rs ih =>
    cases q with
    | failed =>
      have hplace : n - 1 + place rs = n + place (.failed :: rs) := by
        simp only [place, received, failures, List.filterMap_cons, List.count_cons_self]
        omega
      rw [List.cons_append, placedFrom, placedFrom, ih, hplace]
    | none =>
      have hplace : place rs = place (.none :: rs) := by
        simp [place, received, failures]
      rw [List.cons_append, placedFrom, placedFrom, ih, hplace]
    | byte b =>
      have hplace : n + 1 + place rs = n + place (.byte b :: rs) := by
        simp [place, received, failures]
        omega
      rw [List.cons_append, placedFrom, placedFrom, ih, hplace, List.cons_append]

@[simp] theorem placed_append_failed : placed (rs ++ [.failed]) = placed rs := by
  rw [placed, placedFrom_append, placedFrom, placedFrom, List.append_nil, placed]

@[simp] theorem placed_append_none : placed (rs ++ [.none]) = placed rs := by
  rw [placed, placedFrom_append, placedFrom, placedFrom, List.append_nil, placed]

@[simp] theorem placed_append_byte (b : Byte) :
    placed (rs ++ [.byte b]) = placed rs ++ [(place rs, b)] := by
  rw [placed, placedFrom_append, Int.zero_add, placedFrom, placedFrom, placed]

theorem lastAt_append_byte (b : Byte) (i : Nat) :
    lastAt (rs ++ [.byte b]) i = if (place rs).toNat = i then b else lastAt rs i := by
  rw [lastAt, placed_append_byte, List.map_append, lastStore_append, List.map_singleton, lastStore,
    lastStore, Option.none_or]
  split
  · rw [Option.some_or, Option.getD_some]
  · rw [Option.none_or, lastAt]

end

section
variable {rs ps : List ReadResult} {r : ReadResult}

theorem placesInside_nil : PlacesInside [] where
  bytes _ hc := absurd hc List.not_mem_nil
  ints ps hps := by
    rw [List.prefix_nil.mp hps]
    decide

/-- One result more. -/
theorem placesInside_append_iff : PlacesInside (rs ++ [r]) ↔
    PlacesInside rs ∧ (∀ b, r = .byte b → 0 ≤ place rs ∧ place rs < 512) ∧
      IsInt (place (rs ++ [r])) := by
  constructor
  · rintro ⟨hbytes, hints⟩
    have hmem : ∀ c ∈ placed rs, c ∈ placed (rs ++ [r]) := by
      intro c hc
      rw [placed, placedFrom_append]
      exact List.mem_append_left _ hc
    refine ⟨⟨fun c hc => hbytes c (hmem c hc), fun ps hps => hints ps ?_⟩, ?_,
      hints _ (List.prefix_refl _)⟩
    · exact hps.trans (List.prefix_append _ _)
    · rintro b rfl
      exact hbytes (place rs, b) (by simp)
  · rintro ⟨⟨hbytes, hints⟩, hbyte, hint⟩
    constructor
    · intro c hc
      cases r with
      | failed => exact hbytes c (by simpa using hc)
      | none => exact hbytes c (by simpa using hc)
      | byte b =>
        rw [placed_append_byte, List.mem_append, List.mem_singleton] at hc
        rcases hc with hc | rfl
        · exact hbytes c hc
        · exact hbyte b rfl
    · intro ps hps
      rcases List.prefix_concat_iff.mp hps with rfl | hps
      · exact hint
      · exact hints ps hps

/-- The length of the string in a buffer that holds the last byte of every place. -/
theorem length_cstr_iff_spells {l : List Byte} (hlen : l.length = 512)
    (h : ∀ i < 512, l[i]? = some (lastAt rs i)) : (cstr l).length = 31 ↔ Spells rs := by
  rw [length_cstr_eq_iff (by omega), Spells, h 31 (by omega), Option.some_inj]
  refine and_congr_left' (forall₂_congr fun i hi => ?_)
  rw [h i (by omega), ne_eq, Option.some_inj]

end

/-- What holds before every read. -/
structure Inv (rs : List ReadResult) (s : State) : Prop where
  n_eq : s.n = place rs
  places : PlacesInside rs
  cells : ∀ i < 512, s.buffer[i]? = some (lastAt rs i)
  text_ne : (cstr s.buffer).length ≠ 31
  -- without an empty poll the bytes stand in the buffer as they came
  quiet : .failed ∉ rs → s.buffer = cbuf 512 (received rs)
  -- the last character that was sent would have ended the loop, or it came after an empty poll
  intact : received rs <+: sent → ∀ i c, 30 ≤ i → s.buffer[i]? = some c → c = 0

theorem inv_start : Inv [] start where
  n_eq := rfl
  places := placesInside_nil
  cells i hi := by
    rw [start, List.getElem?_replicate_of_lt hi]
    rfl
  text_ne := by
    rw [start, cstr_replicate_zero]
    decide
  quiet _ := rfl
  intact _ i c _ hc := List.eq_of_mem_replicate (List.mem_of_getElem? hc)

section
variable {rs : List ReadResult} {s t : State} {r : ReadResult} {b : Byte}

theorem failures_eq_zero (h : .failed ∉ rs) : failures rs = 0 := List.count_eq_zero.mpr h

theorem place_eq_of_quiet (h : .failed ∉ rs) : place rs = (received rs).length := by
  rw [place, failures_eq_zero h]
  omega

theorem Inv.isInt (h : Inv rs s) : IsInt s.n := by
  rw [h.n_eq]
  exact h.places.ints rs (List.prefix_refl _)

theorem Inv.store_quiet (h : Inv rs s) (hin : s.n < 512) (hquiet : .failed ∉ rs) :
    (s.store b).buffer = cbuf 512 (received rs ++ [b]) := by
  have hn : s.n = (received rs).length := h.n_eq.trans (place_eq_of_quiet hquiet)
  rw [State.store_buffer, h.quiet hquiet, hn, Int.toNat_natCast, cbuf_set (by omega) b]

/-- A byte comes to the place of its index. -/
theorem Inv.store_cells (h : Inv rs s) :
    ∀ i < 512, (s.store b).buffer[i]? = some (lastAt (rs ++ [.byte b]) i) := by
  intro i hi
  rw [State.store_buffer, List.getElem?_set, lastAt_append_byte, ← h.n_eq, h.cells i hi]
  split
  · rw [if_pos]
    rw [s.length_buffer]
    omega
  · rfl

theorem Inv.store_spells (h : Inv rs s) :
    (cstr (s.store b).buffer).length = 31 ↔ Spells (rs ++ [.byte b]) :=
  length_cstr_iff_spells (s.store b).length_buffer h.store_cells

/-- What was sent, up to a place in it. -/
theorem eq_of_prefix_sent {w : List Byte} (h : w <+: sent) :
    (w.length = 31 → w = test) ∧ (w.length = 32 → w = sent) := by
  have hw := List.prefix_iff_eq_take.mp h
  refine ⟨fun hlen => ?_, fun hlen => ?_⟩
  · rw [hw, hlen, sent, ← length_test, List.take_left]
  · rw [hw, hlen]
    rfl

/-- As long as what comes is what was sent, the places from 30 on stay empty until the text has come
back. -/
theorem Inv.store_intact (h : Inv rs s) (hlow : 0 ≤ s.n) (hin : s.n < 512)
    (hsent : received rs ++ [b] <+: sent) :
    (.failed ∉ rs ∧ received rs ++ [b] = test) ∨
      ∀ i c, 30 ≤ i → (s.store b).buffer[i]? = some c → c = 0 := by
  have hn : s.n = (received rs).length - failures rs := h.n_eq
  have hlen := hsent.length_le
  rw [List.length_append, List.length_singleton, show sent.length = 32 by decide] at hlen
  by_cases hlast : .failed ∉ rs ∧ (received rs).length = 30
  · left
    refine ⟨hlast.1, (eq_of_prefix_sent hsent).1 ?_⟩
    rw [List.length_append, hlast.2]
    rfl
  · right
    intro i c hi hc
    rw [State.store_buffer, List.getElem?_set] at hc
    split at hc
    · rename_i hplace
      have hfail : .failed ∉ rs ∨ 0 < failures rs := by
        by_cases hmem : .failed ∈ rs
        · exact .inr (List.count_pos_iff.mpr hmem)
        · exact .inl hmem
      -- the byte is the NUL behind the text
      have hall : received rs ++ [b] = sent := by
        apply (eq_of_prefix_sent hsent).2
        rw [List.length_append, List.length_singleton]
        rcases hfail with hquiet | hpos
        · have : (received rs).length ≠ 30 := fun h30 => hlast ⟨hquiet, h30⟩
          omega
        · omega
      obtain ⟨-, hb⟩ := List.append_inj' hall rfl
      rw [List.singleton_inj] at hb
      split at hc
      · rw [← Option.some.inj hc, hb]
      · cases hc
    · exact h.intact ((List.prefix_append _ _).trans hsent) i c hi hc

theorem length_cstr_test : (cstr (cbuf 512 test)).length = 31 := by
  rw [cstr_cbuf zero_notMem_test, length_test]

theorem Inv.step (h : Inv rs s) (hstep : readLoop s r = .ok t) : Inv (rs ++ [r]) t := by
  cases r with
  | failed =>
    obtain ⟨hint, rfl⟩ := readLoop_failed_ok h.text_ne hstep
    rw [h.n_eq] at hint
    refine ⟨?_, placesInside_append_iff.mpr ⟨h.places, nofun, ?_⟩, ?_, h.text_ne,
      fun hquiet => absurd ?_ hquiet, ?_⟩
    · rw [place_append_failed, ← h.n_eq]
    · rwa [place_append_failed]
    · simpa only [lastAt, placed_append_failed] using h.cells
    · simp
    · rw [received_append_failed]
      exact h.intact
  | none =>
    rw [readLoop_none h.text_ne h.isInt] at hstep
    cases hstep
    have hint := h.isInt
    rw [h.n_eq] at hint
    refine ⟨?_, placesInside_append_iff.mpr ⟨h.places, nofun, ?_⟩, ?_, h.text_ne,
      fun hquiet => ?_, ?_⟩
    · rw [place_append_none, ← h.n_eq]
    · rwa [place_append_none]
    · simpa only [lastAt, placed_append_none] using h.cells
    · rw [received_append_none]
      exact h.quiet fun hmem => hquiet (List.mem_append_left _ hmem)
    · rw [received_append_none]
      exact h.intact
  | byte b =>
    obtain ⟨hin, hne, rfl⟩ := readLoop_byte_ok hstep
    have hplace : 0 ≤ place rs ∧ place rs < 512 := by
      rw [← h.n_eq]
      exact hin
    refine ⟨?_, placesInside_append_iff.mpr ⟨h.places, fun _ _ => hplace, ?_⟩, h.store_cells, hne,
      fun hquiet => ?_, fun hsent => ?_⟩
    · rw [place_append_byte, ← h.n_eq]
    · rw [place_append_byte]
      constructor <;> omega
    · rw [received_append_byte]
      exact h.store_quiet hin.2 fun hmem => hquiet (List.mem_append_left _ hmem)
    · rw [received_append_byte] at hsent
      rcases h.store_intact hin.1 hin.2 hsent with ⟨hquiet, htest⟩ | hzero
      · rw [h.store_quiet hin.2 hquiet, htest] at hne
        exact absurd length_cstr_test hne
      · exact hzero

theorem inv_run (h : feed readLoop start rs = .ok s) : Inv rs s :=
  feed_invariant inv_start (fun _ _ _ _ _ => Inv.step) h

end

/-! ## The index -/

/-- At every read the index lies in `buffer[512]`, and no byte is stored elsewhere. -/
def IndexInside (rs : List ReadResult) : Prop :=
  ∀ ps, ps <+: rs → feed readLoop start ps ≠ .error .outside ∧
    ∀ s, feed readLoop start ps = .ok s → 0 ≤ s.n ∧ s.n ≤ 511

/-- Before every empty poll more bytes have come than polls were empty, and before every byte at
most 510 more. -/
def KeepsAhead (rs : List ReadResult) : Prop :=
  ∀ ps r s, ps ++ [r] <+: rs → feed readLoop start ps = .ok s →
    (r = .failed → failures ps < (received ps).length) ∧
      (∀ b, r = .byte b → (received ps).length < failures ps + 511)

section
variable {rs ps : List ReadResult}

/-- One round keeps the index in the buffer when it may move. -/
theorem readLoop_inside {s : State} {r : ReadResult} (htext : (cstr s.buffer).length ≠ 31)
    (hrange : 0 ≤ s.n ∧ s.n ≤ 511) (hfailed : r = .failed → 0 < s.n)
    (hbyte : ∀ b, r = .byte b → s.n < 511) :
    readLoop s r ≠ .error .outside ∧ ∀ t, readLoop s r = .ok t → 0 ≤ t.n ∧ t.n ≤ 511 := by
  cases r with
  | failed =>
    have hpos := hfailed rfl
    rw [readLoop_failed htext ⟨by omega, by omega⟩]
    refine ⟨nofun, ?_⟩
    intro t ht
    cases ht
    change 0 ≤ s.n - 1 ∧ s.n - 1 ≤ 511
    omega
  | none =>
    rw [readLoop_none htext ⟨by omega, by omega⟩]
    refine ⟨nofun, ?_⟩
    intro t ht
    cases ht
    exact hrange
  | byte b =>
    have hlt := hbyte b rfl
    rw [readLoop_byte (by omega)]
    split
    · exact ⟨nofun, nofun⟩
    · refine ⟨nofun, ?_⟩
      intro t ht
      cases ht
      change 0 ≤ s.n + 1 ∧ s.n + 1 ≤ 511
      omega

theorem KeepsAhead.inside (h : KeepsAhead rs) (hps : ps <+: rs) :
    feed readLoop start ps ≠ .error .outside ∧
      ∀ s, feed readLoop start ps = .ok s → 0 ≤ s.n ∧ s.n ≤ 511 := by
  induction ps using List.reverseRecOn with
  | nil =>
    refine ⟨nofun, ?_⟩
    intro s hs
    cases hs
    decide
  | append_singleton ps r ih =>
    obtain ⟨hbefore, hin⟩ := ih ((List.prefix_append ps [r]).trans hps)
    rw [feed_append_singleton]
    cases hs : feed readLoop start ps with
    | error e => exact ⟨fun hout => hbefore (hs.trans hout), nofun⟩
    | ok s =>
      have hinv := inv_run hs
      have hn : s.n = (received ps).length - failures ps := hinv.n_eq
      obtain ⟨hfailed, hbyte⟩ := h ps r s hps hs
      apply readLoop_inside hinv.text_ne (hin s hs)
      · intro hr
        have := hfailed hr
        omega
      · intro b hr
        have := hbyte b hr
        omega

theorem IndexInside.keepsAhead (h : IndexInside rs) : KeepsAhead rs := by
  intro ps r s hps hs
  have hinv := inv_run hs
  have hn : s.n = (received ps).length - failures ps := hinv.n_eq
  have hrange := (h ps ((List.prefix_append ps [r]).trans hps)).2 s hs
  refine ⟨?_, ?_⟩
  · rintro rfl
    have hint : IsInt (s.n - 1) := ⟨by omega, by omega⟩
    have hnext := (h _ hps).2 _ (feed_next hs (readLoop_failed hinv.text_ne hint))
    have : 0 ≤ s.n - 1 := hnext.1
    omega
  · rintro b rfl
    by_contra hge
    have hlast : s.n = 511 := by omega
    have hnext := (h _ hps).2 _ (feed_next hs (readLoop_byte_last hinv.text_ne hlast))
    have : s.n + 1 ≤ 511 := hnext.2
    omega

end

/-- The index stays in the buffer exactly when the bytes keep ahead of the empty polls. -/
theorem indexInside_iff (rs : List ReadResult) : IndexInside rs ↔ KeepsAhead rs :=
  ⟨IndexInside.keepsAhead, fun h _ hps => h.inside hps⟩

/-- The first poll is empty, and the byte after it is stored before the buffer. -/
theorem first_poll_outside : ¬ ∀ rs, IndexInside rs := by
  intro h
  have houtside : feed readLoop start [.failed, .byte 0x66] = .error .outside := by rfl
  exact (h [.failed, .byte 0x66] _ (List.prefix_refl _)).1 houtside

/-! ## The verdict -/

/-- The test is reported as finished only with the text that was sent; and no byte is stored outside
the buffer, from where on the report would mean nothing. -/
def Truthful (rs : List ReadResult) : Prop :=
  feed readLoop start rs ≠ .error .outside ∧
    ∀ ps text, ps <+: rs → EndsOn readLoop start ps (.finished text) → received ps = test

section
variable {rs ps : List ReadResult} {text : List Byte}

/-- The loop is on as long as the bytes stay inside and spell nothing. -/
theorem exists_feed_of_places (h : PlacesInside rs) (hspells : ∀ ps, ps <+: rs → ¬ Spells ps) :
    ∃ s, feed readLoop start rs = .ok s := by
  induction rs using List.reverseRecOn with
  | nil => exact ⟨start, rfl⟩
  | append_singleton rs r ih =>
    obtain ⟨hbefore, hbyte, hint⟩ := placesInside_append_iff.mp h
    obtain ⟨s, hs⟩ := ih hbefore fun ps hps => hspells ps (hps.trans (List.prefix_append _ _))
    have hinv := inv_run hs
    cases r with
    | failed =>
      rw [place_append_failed, ← hinv.n_eq] at hint
      exact ⟨_, feed_next hs (readLoop_failed hinv.text_ne hint)⟩
    | none => exact ⟨_, feed_next hs (readLoop_none hinv.text_ne hinv.isInt)⟩
    | byte b =>
      have hin := hbyte b rfl
      rw [← hinv.n_eq] at hin
      refine ⟨_, feed_next hs ((readLoop_byte hin).trans (if_neg ?_))⟩
      rw [hinv.store_spells]
      exact hspells _ (List.prefix_refl _)

theorem not_spells_of_feed {s : State} (h : feed readLoop start ps = .ok s) : ¬ Spells ps := by
  have hinv := inv_run h
  rw [← length_cstr_iff_spells s.length_buffer hinv.cells]
  exact hinv.text_ne

/-- When what comes is what was sent, the report comes with the whole text and no empty poll. -/
theorem quiet_of_endsOn (h : EndsOn readLoop start ps (.finished text))
    (htest : received ps = test) :
    .failed ∉ ps := by
  obtain ⟨qs, r, s, rfl, hs, hstep⟩ := h
  have hinv := inv_run hs
  obtain ⟨b, rfl, hin, hlen⟩ := readLoop_finished hinv.text_ne hstep
  have hsent : received qs ++ [b] <+: sent := by
    rw [← received_append_byte, htest]
    exact List.prefix_append test [0]
  rcases hinv.store_intact hin.1 hin.2 hsent with ⟨hquiet, -⟩ | hzero
  · simpa using hquiet
  · obtain ⟨c, hc, hne⟩ := exists_getElem?_of_lt_cstr (l := (s.store b).buffer) (i := 30) (by omega)
    exact absurd (hzero 30 c le_rfl hc) hne

/-- Before the 31st byte the loop is on. -/
theorem exists_run (hquiet : .failed ∉ rs) (hlen : (received rs).length ≤ 30) :
    ∃ s, feed readLoop start rs = .ok s := by
  induction rs using List.reverseRecOn with
  | nil => exact ⟨start, rfl⟩
  | append_singleton rs r ih =>
    rw [List.mem_append, List.mem_singleton, not_or] at hquiet
    cases r with
    | failed => exact absurd rfl hquiet.2
    | none =>
      rw [received_append_none] at hlen
      obtain ⟨s, hs⟩ := ih hquiet.1 hlen
      exact ⟨s, feed_next hs (readLoop_none (inv_run hs).text_ne (inv_run hs).isInt)⟩
    | byte b =>
      rw [received_append_byte, List.length_append, List.length_singleton] at hlen
      obtain ⟨s, hs⟩ := ih hquiet.1 (by omega)
      have hinv := inv_run hs
      have hn : s.n = (received rs).length := hinv.n_eq.trans (place_eq_of_quiet hquiet.1)
      refine ⟨_, feed_next hs (readLoop_byte (by omega) |>.trans (if_neg ?_))⟩
      rw [hinv.store_quiet (by omega) hquiet.1, cstr_cbuf_eq_cutAt]
      have hle := (cutAt_isPrefix 0 (received rs ++ [b])).length_le
      rw [List.length_append, List.length_singleton] at hle
      omega

/-- The result that brings the byte at a place of what comes. -/
theorem exists_prefix_byte {k : Nat} (hk : k < (received rs).length) :
    ∃ ps b, ps ++ [.byte b] <+: rs ∧ received ps ++ [b] = (received rs).take (k + 1) := by
  induction rs using List.reverseRecOn with
  | nil => exact absurd hk (Nat.not_lt_zero k)
  | append_singleton rs r ih =>
    by_cases hbefore : k < (received rs).length
    · obtain ⟨ps, b, hps, htake⟩ := ih hbefore
      refine ⟨ps, b, hps.trans (List.prefix_append _ _), ?_⟩
      rw [htake]
      cases r with
      | failed => rw [received_append_failed]
      | none => rw [received_append_none]
      | byte c => rw [received_append_byte, List.take_append_of_le_length hbefore]
    · cases r with
      | failed => exact absurd (received_append_failed rs ▸ hk) hbefore
      | none => exact absurd (received_append_none rs ▸ hk) hbefore
      | byte b =>
        rw [received_append_byte, List.length_append, List.length_singleton] at hk
        refine ⟨rs, b, List.prefix_refl _, ?_⟩
        rw [received_append_byte, List.take_of_length_le]
        rw [List.length_append, List.length_singleton]
        omega

/-- The text that was sent ends the loop when it comes before the first empty poll. -/
theorem exists_endsOn_test (hquiet : .failed ∉ rs) (htest : test <+: received rs) :
    ∃ ps, ps <+: rs ∧ received ps = test ∧ ∃ text, EndsOn readLoop start ps (.finished text) := by
  have hk : 30 < (received rs).length := htest.length_le
  obtain ⟨ps, b, hps, htake⟩ := exists_prefix_byte hk
  have hall : received ps ++ [b] = test := by
    rw [htake]
    exact (List.prefix_iff_eq_take.mp htest).symm
  have hmem : .failed ∉ ps := fun hmem => hquiet (hps.subset (List.mem_append_left _ hmem))
  have hcount : (received ps).length = 30 := by
    have := congrArg List.length hall
    rw [List.length_append, List.length_singleton, length_test] at this
    omega
  obtain ⟨s, hs⟩ := exists_run hmem (Nat.le_of_eq hcount)
  have hinv := inv_run hs
  have hn : s.n = (received ps).length := hinv.n_eq.trans (place_eq_of_quiet hmem)
  refine ⟨_, hps, by rw [received_append_byte, hall], (cstr (s.store b).buffer), ?_⟩
  refine endsOn_append_singleton_iff.mpr ⟨s, hs, ?_⟩
  rw [readLoop_byte (by omega), if_pos]
  rw [hinv.store_quiet (by omega) hmem, hall]
  exact length_cstr_test

theorem received_mono (h : ps <+: rs) : received ps <+: received rs := h.filterMap _

/-- The results up to the first empty poll. -/
def beforeEmpty (rs : List ReadResult) : List ReadResult := rs.takeWhile (· ≠ .failed)

theorem failed_notMem_beforeEmpty (rs : List ReadResult) : .failed ∉ beforeEmpty rs := by
  intro hmem
  simpa using List.mem_takeWhile_imp hmem

theorem prefix_beforeEmpty (hps : ps <+: rs) (h : .failed ∉ ps) : ps <+: beforeEmpty rs := by
  refine prefix_takeWhile hps ?_
  intro r hr
  simpa using ne_of_mem_of_not_mem hr h

end

/-- When a report is right: the text that was sent comes before the first empty poll; or every byte
stays in the buffer, and at no time do they spell a text of that length. -/
theorem readLoop_truthful (rs : List ReadResult) :
    Truthful rs ↔ test <+: received (beforeEmpty rs) ∨
      (PlacesInside rs ∧ ∀ ps, ps <+: rs → ¬ Spells ps) := by
  constructor
  · rintro ⟨hinside, hright⟩
    cases hfeed : feed readLoop start rs with
    | ok s =>
      refine .inr ⟨(inv_run hfeed).places, fun ps hps => ?_⟩
      obtain ⟨t, ht⟩ := exists_feed_of_prefix hfeed hps
      exact not_spells_of_feed ht
    | error e =>
      cases e with
      | outside => exact absurd hfeed hinside
      | finished text =>
        obtain ⟨ps, hps, hend⟩ := exists_endsOn hfeed
        have htest := hright ps text hps hend
        left
        rw [← htest]
        exact received_mono (prefix_beforeEmpty hps (quiet_of_endsOn hend htest))
  · rintro (htest | ⟨hplaces, hspells⟩)
    · obtain ⟨ps, hps, hps', text, hend⟩ :=
        exists_endsOn_test (failed_notMem_beforeEmpty rs) htest
      have hpre : ps <+: rs := hps.trans (List.takeWhile_prefix _)
      refine ⟨?_, ?_⟩
      · rw [hend.feed_eq hpre]
        exact nofun
      · intro qs text' hqs hend'
        rcases List.prefix_or_prefix_of_prefix hpre hqs with h | h
        · rw [← hend.eq_of_prefix hend' h, hps']
        · rw [hend'.eq_of_prefix hend h, hps']
    · obtain ⟨s, hs⟩ := exists_feed_of_places hplaces hspells
      refine ⟨?_, ?_⟩
      · rw [hs]
        exact nofun
      · intro ps text hps hend
        rw [hend.feed_eq hps] at hs
        cases hs

/-- Any 31 characters do. -/
theorem other_text_finished : ¬ ∀ rs, Truthful rs := by
  intro h
  have hends : EndsOn readLoop start (List.replicate 31 (.byte 0x55))
      (.finished (List.replicate 31 0x55)) :=
    ⟨List.replicate 30 (.byte 0x55), .byte 0x55, _, rfl, rfl, rfl⟩
  have hright := (h _).2 _ _ (List.prefix_refl _) hends
  exact absurd hright (by decide)

end BoardTest.Uart
