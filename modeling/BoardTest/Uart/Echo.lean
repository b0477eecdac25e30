import BoardTest.Lib.CString
import BoardTest.Lib.Feed
import Mathlib.Data.List.Range

/-!
# `uart_echo`

The loop of `uart_echo.c` reads a chunk into `buf` and writes it back once. The port was opened with
`O_NONBLOCK`, so that `write` may take a part of the chunk or nothing, and its result is only
printed: the next chunk overwrites what was left. Beside the bytes the state keeps the place that
each byte sent has among the bytes received, for a place says which byte was sent where two bytes
are equal.
-/

namespace BoardTest.Uart.Echo

/-- A chunk as `read(uart_fd, buf, sizeof(buf) - 1)` returns it, and the result of the `write` that
follows: the number of bytes it took, or -1. -/
structure Echoed where
  chunk : List Byte
  written : Option Nat
  one_le : 1 ≤ chunk.length
  le_request : chunk.length ≤ 127
  written_le : ∀ c ∈ written, 1 ≤ c ∧ c ≤ chunk.length
  deriving DecidableEq

/-- What the calls of a round of `while (1)` return. -/
inductive Round
  /-- `select` fails, with `EINTR` or with another error -/
  | selectFailed (eintr : Bool)
  | timeout
  | readFailed
  | readNone
  | echoed (e : Echoed)
  deriving DecidableEq

/-- `buf`, the bytes of the port in both directions, and the places of those sent. -/
structure State where
  buf : List Byte
  length_buf : buf.length = 128
  received : List Byte
  sent : List Byte
  places : List Nat

theorem length_zeros : (List.replicate 128 (0 : Byte)).length = 128 := List.length_replicate

/-- Before the first round; what `buf` holds then is never sent. -/
def start : State := ⟨List.replicate 128 0, length_zeros, [], [], []⟩

/-- `read`, and `buf[n] = 0` behind the chunk. -/
def bufAfter (buf chunk : List Byte) : List Byte :=
  (chunk ++ buf.drop chunk.length).set chunk.length 0

theorem length_bufAfter {buf chunk : List Byte} (hbuf : buf.length = 128)
    (hchunk : chunk.length ≤ 127) : (bufAfter buf chunk).length = 128 := by
  rw [bufAfter, List.length_set, List.length_append, List.length_drop]
  omega

/-- Lines 109 to 119. -/
def State.read (s : State) (e : Echoed) : State :=
  { s with
    buf := bufAfter s.buf e.chunk
    length_buf := length_bufAfter s.length_buf e.le_request
    received := s.received ++ e.chunk }

/-- The number of bytes that `write` took. -/
def Echoed.taken (e : Echoed) : Nat := e.written.getD 0

/-- `write(uart_fd, buf, n)`, which takes bytes from the beginning of `buf`. -/
def State.write (s : State) (n taken : Nat) : State :=
  { s with
    sent := s.sent ++ s.buf.take taken
    places := s.places ++ (List.range taken).map fun i => s.received.length - n + i }

/-- `read` and `write` of a round (lines 109 to 127). -/
def State.echo (s : State) (e : Echoed) : State := (s.read e).write e.chunk.length e.taken

/-- A round of the loop (lines 83 to 137); `.error` is the state in which it is left. -/
def round (s : State) : Round → Except State State
  | .selectFailed eintr => if eintr then .ok s else .error s
  | .timeout | .readFailed | .readNone => .ok s
  | .echoed e => .ok (s.echo e)

/-- The states that a round goes through. -/
def moments (s : State) : Round → List State
  | .echoed e => [s, s.read e, s.echo e]
  | _ => [s]

/-- The bytes sent are the first of the bytes received: the same bytes, and the same occurrences. -/
structure State.InOrder (s : State) : Prop where
  bytes : s.sent <+: s.received
  occurrences : s.places <+: List.range s.received.length

/-- At every moment of the run. -/
def Echoes (rs : List Round) : Prop :=
  ∀ ps r s, ps ++ [r] <+: rs → feed round start ps = .ok s → ∀ m ∈ moments s r, m.InOrder

/-- `write` finds the chunk at the beginning of `buf`. -/
theorem take_bufAfter (buf chunk : List Byte) {c : Nat} (hc : c ≤ chunk.length) :
    (bufAfter buf chunk).take c = chunk.take c := by
  rw [bufAfter, List.take_set_of_le hc, List.take_append_of_le_length hc]

theorem Echoed.taken_le (e : Echoed) : e.taken ≤ e.chunk.length := by
  rw [taken]
  cases h : e.written with
  | none => exact Nat.zero_le _
  | some c => exact (e.written_le c h).2

variable {s t : State} {e : Echoed} {r : Round} {rs : List Round}

theorem echo_received : (s.echo e).received = s.received ++ e.chunk := rfl

theorem echo_sent : (s.echo e).sent = s.sent ++ e.chunk.take e.taken := by
  rw [← take_bufAfter s.buf e.chunk e.taken_le]
  rfl

theorem echo_places : (s.echo e).places = s.places ++ List.range' s.received.length e.taken := by
  rw [List.range'_eq_map_range]
  simp only [State.echo, State.write, State.read, List.length_append, Nat.add_sub_cancel_right]

/-- Every byte sent is the byte received at its place. -/
def State.Placed (s : State) : Prop :=
  s.sent.map some = s.places.map fun i => s.received[i]?

theorem placed_start : start.Placed := rfl

theorem State.Placed.lt (h : s.Placed) {i : Nat} (hi : i ∈ s.places) : i < s.received.length := by
  have hmem : s.received[i]? ∈ s.sent.map some := by
    rw [h]
    exact List.mem_map_of_mem hi
  obtain ⟨b, -, hb⟩ := List.mem_map.mp hmem
  exact (List.getElem?_eq_some_iff.mp hb.symm).1

/-- What arrives does not move what is there. -/
theorem State.Placed.map_append (h : s.Placed) (chunk : List Byte) :
    (s.places.map fun i => (s.received ++ chunk)[i]?) = s.sent.map some := by
  rw [h]
  refine List.map_congr_left ?_
  intro i hi
  exact List.getElem?_append_left (h.lt hi)

theorem placed_echo (h : s.Placed) : (s.echo e).Placed := by
  have hchunk : (e.chunk.take e.taken).map some =
      (List.range' s.received.length e.taken).map fun i => (s.received ++ e.chunk)[i]? := by
    rw [List.range'_eq_map_range, List.map_map]
    refine List.ext_getElem ?_ ?_
    · simp [e.taken_le]
    · intro i hi hi'
      simp only [List.length_map, List.length_take, lt_min_iff] at hi
      simp [hi.2]
  rw [State.Placed, echo_sent, echo_places, echo_received, List.map_append, List.map_append,
    h.map_append, hchunk]

theorem prefix_range_iff {l : List Nat} {n : Nat} :
    l <+: List.range n ↔ l = List.range l.length ∧ l.length ≤ n := by
  constructor
  · intro h
    have hle := h.length_le
    rw [List.length_range] at hle
    refine ⟨?_, hle⟩
    rwa [List.prefix_iff_eq_take, List.take_range, min_eq_left hle] at h
  · rintro ⟨h, hle⟩
    rw [h, List.prefix_iff_eq_take, List.length_range, List.take_range, min_eq_left hle]

/-- The places of a write continue those before it when there are none, or nothing was left. -/
theorem append_range'_prefix_iff {l : List Nat} {n t m : Nat} (hl : l.length ≤ n) (ht : t ≤ m) :
    l ++ List.range' n t <+: List.range (n + m) ↔
      l <+: List.range n ∧ (t = 0 ∨ l.length = n) := by
  constructor
  · intro h
    have hpre := (List.prefix_append l _).trans h
    refine ⟨prefix_range_iff.mpr ⟨(prefix_range_iff.mp hpre).1, hl⟩, ?_⟩
    rcases Nat.eq_zero_or_pos t with ht | ht
    · exact .inl ht
    · -- the first place of the write is `n`, and its number is the length of `l`
      have hget := h.getElem (i := l.length) (by simp; omega)
      rw [List.getElem_append_right le_rfl, List.getElem_range] at hget
      simp only [Nat.sub_self, List.getElem_range', Nat.mul_zero, Nat.add_zero] at hget
      exact .inr hget.symm
  · rintro ⟨h, rfl | hn⟩
    · rw [List.range'_zero, List.append_nil]
      exact prefix_range_iff.mpr ⟨(prefix_range_iff.mp h).1, by omega⟩
    · have hrange : l ++ List.range' n t = List.range (n + t) := by
        rw [(prefix_range_iff.mp h).1, hn, List.range_eq_range', List.range_eq_range',
          ← List.range'_append_1, Nat.zero_add]
      rw [hrange, prefix_range_iff, List.length_range]
      exact ⟨rfl, by omega⟩

/-- Where all places are right, the bytes are. -/
theorem State.Placed.inOrder_iff (h : s.Placed) :
    s.InOrder ↔ s.places <+: List.range s.received.length := by
  refine ⟨State.InOrder.occurrences, fun hocc => ⟨?_, hocc⟩⟩
  have hle := (prefix_range_iff.mp hocc).2
  have hsome : s.sent.map some = (s.received.take s.places.length).map some := by
    rw [h]
    refine List.ext_getElem ?_ ?_
    · rw [List.length_map, List.length_map, List.length_take, min_eq_left hle]
    · intro i hi hi'
      rw [List.length_map] at hi
      have hplace : s.places[i] = i := by
        rw [hocc.getElem hi, List.getElem_range]
      rw [List.getElem_map, List.getElem_map, hplace, List.getElem_take,
        List.getElem?_eq_getElem (by omega)]
  rw [List.map_injective_iff.mpr (Option.some_injective _) hsome]
  exact List.take_prefix _ _

/-! ## Runs -/

/-- The `write` of the round took less than the chunk. -/
def Round.short : Round → Bool
  | .echoed e => e.taken < e.chunk.length
  | _ => false

/-- The `write` of the round took something. -/
def Round.takes : Round → Bool
  | .echoed e => 0 < e.taken
  | _ => false

/-- Behind a `write` that took less than its chunk none takes anything. -/
def Quiet (rs : List Round) : Prop := rs.Pairwise fun a b => a.short = true → b.takes = false

/-- What is known of the state behind the rounds `rs`. -/
structure Inv (rs : List Round) (s : State) : Prop where
  placed : s.Placed
  le_received : s.places.length ≤ s.received.length
  behind_iff : s.places.length = s.received.length ↔ ∀ r ∈ rs, r.short = false
  inOrder_iff : s.places <+: List.range s.received.length ↔ Quiet rs

theorem inv_start : Inv [] start :=
  ⟨placed_start, le_rfl, iff_of_true rfl (List.forall_mem_nil _),
    iff_of_true (List.prefix_refl _) List.Pairwise.nil⟩

theorem quiet_append_singleton :
    Quiet (rs ++ [r]) ↔ Quiet rs ∧ (r.takes = false ∨ ∀ a ∈ rs, a.short = false) := by
  rw [Quiet, List.pairwise_append, ← Quiet]
  refine and_congr_right fun _ => ?_
  constructor
  · rintro ⟨-, h⟩
    cases ht : r.takes with
    | false => exact .inl rfl
    | true =>
      refine .inr fun a ha => Bool.eq_false_iff.mpr fun hs => ?_
      exact Bool.false_ne_true ((h a ha r (List.mem_singleton_self r) hs).symm.trans ht)
  · intro h
    refine ⟨List.pairwise_singleton _ _, ?_⟩
    intro a ha b hb hs
    obtain rfl := List.mem_singleton.mp hb
    rcases h with h | h
    · exact h
    · rw [h a ha] at hs
      cases hs

/-- A round without an echo changes nothing. -/
theorem Inv.idle (h : Inv rs s) (hshort : r.short = false) (htakes : r.takes = false) :
    Inv (rs ++ [r]) s where
  placed := h.placed
  le_received := h.le_received
  behind_iff := by
    rw [h.behind_iff, List.forall_mem_append, List.forall_mem_singleton]
    exact (and_iff_left hshort).symm
  inOrder_iff := by
    rw [h.inOrder_iff, quiet_append_singleton]
    exact (and_iff_left (.inl htakes)).symm

theorem Inv.echo (h : Inv rs s) : Inv (rs ++ [.echoed e]) (s.echo e) where
  placed := placed_echo h.placed
  le_received := by
    have hle := h.le_received
    have htaken := e.taken_le
    rw [echo_places, echo_received, List.length_append, List.length_append, List.length_range']
    omega
  behind_iff := by
    have hle := h.le_received
    have htaken := e.taken_le
    rw [List.forall_mem_append, List.forall_mem_singleton, ← h.behind_iff, Round.short,
      decide_eq_false_iff_not, echo_places, echo_received, List.length_append, List.length_append,
      List.length_range']
    omega
  inOrder_iff := by
    rw [echo_places, echo_received, List.length_append,
      append_range'_prefix_iff h.le_received e.taken_le, h.inOrder_iff, h.behind_iff,
      quiet_append_singleton, Round.takes, decide_eq_false_iff_not, Nat.pos_iff_ne_zero, not_not]

theorem inv_step (h : Inv rs s) (hstep : round s r = .ok t) : Inv (rs ++ [r]) t := by
  cases r with
  | selectFailed eintr =>
    cases eintr with
    | true =>
      obtain rfl := Except.ok.inj hstep
      exact h.idle rfl rfl
    | false => cases hstep
  | timeout | readFailed | readNone =>
    obtain rfl := Except.ok.inj hstep
    exact h.idle rfl rfl
  | echoed e =>
    obtain rfl := Except.ok.inj hstep
    exact h.echo

theorem inv_run (h : feed round start rs = .ok s) : Inv rs s :=
  feed_invariant inv_start (fun _ _ _ _ _ hinv hstep => inv_step hinv hstep) h

/-- The bytes sent are the first of those received exactly behind quiet rounds. -/
theorem inOrder_run_iff (h : feed round start rs = .ok s) : s.InOrder ↔ Quiet rs := by
  rw [(inv_run h).placed.inOrder_iff, (inv_run h).inOrder_iff]

/-- `select` does not leave the loop. -/
def Round.stays : Round → Bool
  | .selectFailed eintr => eintr
  | _ => true

/-- The rounds up to the one that leaves the loop. -/
def executed (rs : List Round) : List Round := rs.takeWhile Round.stays

theorem exists_round_eq_ok_iff (s : State) (r : Round) :
    (∃ t, round s r = .ok t) ↔ r.stays = true := by
  cases r with
  | selectFailed eintr => cases eintr <;> simp [round, Round.stays]
  | timeout | readFailed | readNone | echoed => simp [round, Round.stays]

theorem exists_run_iff : (∃ s, feed round start rs = .ok s) ↔ ∀ r ∈ rs, r.stays = true :=
  exists_feed_eq_ok_iff exists_round_eq_ok_iff

/-- Rounds that were run. -/
theorem quiet_of_run {ps : List Round} (h : Quiet (executed rs)) (hps : ps <+: rs)
    (hs : feed round start ps = .ok s) : Quiet ps := by
  have hstays := exists_run_iff.mp ⟨s, hs⟩
  exact List.Pairwise.sublist (prefix_takeWhile hps hstays).sublist h

/-- What arrives does not disturb the order. -/
theorem State.InOrder.read (h : s.InOrder) : (s.read e).InOrder where
  bytes := h.bytes.trans (List.prefix_append _ _)
  occurrences := by
    obtain ⟨hplaces, hle⟩ := prefix_range_iff.mp h.occurrences
    refine prefix_range_iff.mpr ⟨hplaces, hle.trans ?_⟩
    simp only [State.read, List.length_append]
    exact Nat.le_add_right _ _

theorem mem_moments_of_round (h : round s r = .ok t) : t ∈ moments s r := by
  cases r with
  | selectFailed eintr =>
    cases eintr with
    | true =>
      obtain rfl := Except.ok.inj h
      exact List.mem_singleton_self _
    | false => cases h
  | timeout | readFailed | readNone =>
    obtain rfl := Except.ok.inj h
    exact List.mem_singleton_self _
  | echoed e =>
    obtain rfl := Except.ok.inj h
    exact List.mem_cons_of_mem _ (List.mem_cons_of_mem _ (List.mem_singleton_self _))

theorem Echoes.inOrder {ps : List Round} (h : Echoes rs) (hps : ps <+: rs)
    (hs : feed round start ps = .ok s) : s.InOrder := by
  induction ps using List.reverseRecOn with
  | nil =>
    obtain rfl := Except.ok.inj hs
    exact ⟨List.prefix_refl _, List.prefix_refl _⟩
  | append_singleton ps r _ =>
    obtain ⟨t, ht, hstep⟩ := feed_append_singleton_iff.mp hs
    exact h ps r t hps ht s (mem_moments_of_round hstep)

/-- At every moment the bytes sent are the first of those received, if and only if behind a
`write` that took less than its chunk no `write` takes anything. -/
theorem echoes_iff (rs : List Round) : Echoes rs ↔ Quiet (executed rs) := by
  constructor
  · intro h
    have hstays : ∀ r ∈ executed rs, r.stays = true := fun r hr => List.mem_takeWhile_imp hr
    obtain ⟨s, hs⟩ := exists_run_iff.mpr hstays
    exact (inOrder_run_iff hs).mp (h.inOrder (List.takeWhile_prefix _) hs)
  · intro h ps r s hps hs m hm
    have hinOrder : s.InOrder := by
      rw [inOrder_run_iff hs]
      exact quiet_of_run h ((List.prefix_append ps [r]).trans hps) hs
    cases r with
    | selectFailed | timeout | readFailed | readNone =>
      rw [List.mem_singleton.mp hm]
      exact hinOrder
    | echoed e =>
      have hecho : (s.echo e).InOrder := by
        have hnext := feed_next hs (rfl : round s (.echoed e) = .ok (s.echo e))
        exact (inOrder_run_iff hnext).mpr (quiet_of_run h hps hnext)
      simp only [moments, List.mem_cons, List.not_mem_nil, or_false] at hm
      rcases hm with rfl | rfl | rfl
      · exact hinOrder
      · exact hinOrder.read
      · exact hecho

/-- Two chunks of which `write` takes a byte each: the second byte is skipped. -/
def skipping : List Round :=
  [.echoed ⟨bytes "ab", some 1, by decide, by decide, by decide⟩,
    .echoed ⟨bytes "c", some 1, by decide, by decide, by decide⟩]

theorem partial_write_skips : ¬ ∀ rs, Echoes rs := by
  intro h
  have hskip := (h skipping).inOrder (List.prefix_refl _) rfl
  exact absurd hskip.bytes (by decide)

end BoardTest.Uart.Echo
