import BoardTest.Lib.Feed
import Mathlib.Algebra.Order.Ring.Int
import Mathlib.Data.List.Range
import Mathlib.Tactic.Ring

/-!
# The transfers of the serial test

`fltest_uarttest.c` moves a message of `len` bytes in three loops: `buffer_tx` to the port, and the
port to `buffer_rx` with `-r` and in the loop test. Each adds the result of its call to the unsigned
counter `n`, which is the place of the next byte and part of the next request. A call that fails
moves the place back by one. `transfer_faithful_iff` says which runs are right nevertheless.
-/

namespace BoardTest.Uart.Transfer

/-- The result of `write(fd, &buffer_tx[n], len - n)` or `read(fd, &buffer_rx[n], len - n)`. -/
inductive IoResult where
  | error (errno : Int)
  | count (c : Nat)
  deriving DecidableEq

/-- The result as a `size_t`. -/
def IoResult.toSize : IoResult → Nat
  | error _ => 2 ^ 64 - 1
  | count c => c

/-- The length of a message, a `size_t`. -/
structure Message where
  len : Nat
  one_le : 1 ≤ len
  lt_size : len < 2 ^ 64

/-- `n`, and the places in the buffer of the bytes that were moved. -/
structure Progress where
  n : Nat
  places : List Nat
  deriving DecidableEq

def Progress.start : Progress := ⟨0, []⟩

/-- `len - n` -/
def Message.request (m : Message) (n : Nat) : Nat := (m.len + 2 ^ 64 - n) % 2 ^ 64

/-- The places `&buffer[n]`, `&buffer[n + 1]`, ... that a call fills or sends from. -/
def IoResult.places (n : Nat) : IoResult → List Nat
  | error _ => []
  | count c => (List.range c).map fun i => (n + i) % 2 ^ 64

/-- After a call: `n += nwrite` or `n += nread`. -/
def Progress.after (s : Progress) (r : IoResult) : Progress :=
  ⟨(s.n + r.toSize) % 2 ^ 64, s.places ++ r.places s.n⟩

/-- One round of `do { .. n += nwrite; } while (n != len)` and of the same loop with `nread`
(`fltest_uarttest.c:307-311`, `322-325`, `342-345`); `.error` is the state in which it is left. -/
def transfer (m : Message) (s : Progress) (r : IoResult) : Except Progress Progress :=
  if (s.after r).n ≠ m.len then .ok (s.after r) else .error (s.after r)

/-- The bytes that were moved. -/
def moved (rs : List IoResult) : Nat :=
  (rs.map fun
    | .error _ => 0
    | .count c => c).sum

/-- The calls that failed. -/
def failed (rs : List IoResult) : Nat :=
  (rs.map fun
    | .error _ => 1
    | .count _ => 0).sum

/-- Results that the calls can have: no call moves more than it was asked for. -/
structure PosixRun (m : Message) where
  results : List IoResult
  allowed : ∀ ps c s, ps ++ [.count c] <+: results → feed (transfer m) .start ps = .ok s →
    c ≤ m.request s.n

/-- `n` never exceeds `len`, each byte has the place that is the number of bytes before it, and the
loop is left with the whole message. -/
def Faithful {m : Message} (run : PosixRun m) : Prop :=
  ∀ ps, ps <+: run.results →
    (∀ s, feed (transfer m) .start ps = .ok s →
      s.n ≤ m.len ∧ s.places = List.range s.places.length) ∧
    ∀ s, EndsOn (transfer m) .start ps s → s.n ≤ m.len ∧ s.places = List.range m.len

/-- Before a call that fails more bytes were moved than calls have failed, and no bytes are moved
after one. -/
def Steady {m : Message} (run : PosixRun m) : Prop :=
  ∀ ps r s, ps ++ [r] <+: run.results → feed (transfer m) .start ps = .ok s →
    (∀ errno, r = .error errno → failed ps < moved ps) ∧
      ∀ c, r = .count c → 0 < c → failed ps = 0

section
variable (rs : List IoResult)

@[simp] theorem moved_append_error (errno : Int) : moved (rs ++ [.error errno]) = moved rs := by
  simp [moved]

@[simp] theorem moved_append_count (c : Nat) : moved (rs ++ [.count c]) = moved rs + c := by
  simp [moved]

@[simp] theorem failed_append_error (errno : Int) :
    failed (rs ++ [.error errno]) = failed rs + 1 := by
  simp [failed]

@[simp] theorem failed_append_count (c : Nat) : failed (rs ++ [.count c]) = failed rs := by
  simp [failed]

end

section
variable {m : Message} {s t : Progress} {r : IoResult} {rs ps : List IoResult}

/-- What holds before every call of a run that is steady so far. -/
structure Progress.Inv (m : Message) (rs : List IoResult) (s : Progress) : Prop where
  n_add : s.n + failed rs = moved rs
  moved_lt : moved rs < m.len
  places_eq : s.places = List.range (moved rs)

theorem Progress.inv_start (m : Message) : Progress.start.Inv m [] := ⟨rfl, m.one_le, rfl⟩

theorem transfer_of_ne (h : (s.after r).n ≠ m.len) : transfer m s r = .ok (s.after r) := by
  rw [transfer, if_pos h]

theorem transfer_of_eq (h : (s.after r).n = m.len) : transfer m s r = .error (s.after r) := by
  rw [transfer, if_neg (not_not.mpr h)]

theorem transfer_ok (h : transfer m s r = .ok t) : t = s.after r ∧ t.n ≠ m.len := by
  by_cases hne : (s.after r).n = m.len
  · rw [transfer_of_eq hne] at h
    cases h
  · rw [transfer_of_ne hne] at h
    cases h
    exact ⟨rfl, hne⟩

theorem transfer_error (h : transfer m s r = .error t) : t = s.after r ∧ t.n = m.len := by
  by_cases hne : (s.after r).n = m.len
  · rw [transfer_of_eq hne] at h
    cases h
    exact ⟨rfl, hne⟩
  · rw [transfer_of_ne hne] at h
    cases h

/-- The places of a call that stays below `len` follow on the others. -/
theorem range_append_places {n c : Nat} (h : n + c < 2 ^ 64) :
    List.range n ++ (IoResult.count c).places n = List.range (n + c) := by
  rw [List.range_add, IoResult.places]
  congr 1
  apply List.map_congr_left
  intro i hi
  rw [List.mem_range] at hi
  exact Nat.mod_eq_of_lt (by omega)

/-- What a steady call does. -/
theorem Progress.Inv.after (h : s.Inv m rs)
    (hallowed : ∀ c, r = .count c → c ≤ m.request s.n)
    (herror : ∀ errno, r = .error errno → failed rs < moved rs)
    (hcount : ∀ c, r = .count c → 0 < c → failed rs = 0) :
    (s.after r).n + failed (rs ++ [r]) = moved (rs ++ [r]) ∧
      moved (rs ++ [r]) ≤ m.len ∧
      (moved (rs ++ [r]) = m.len → (s.after r).n = m.len) ∧
      (s.after r).places = List.range (moved (rs ++ [r])) := by
  obtain ⟨hn, hlt, hplaces⟩ := h
  have hsize := m.lt_size
  cases r with
  | error errno =>
    have hpos := herror errno rfl
    have hnext : (s.after (.error errno)).n = s.n - 1 := by
      change (s.n + (2 ^ 64 - 1)) % 2 ^ 64 = s.n - 1
      omega
    rw [moved_append_error, failed_append_error, hnext]
    refine ⟨by omega, hlt.le, fun heq => absurd heq hlt.ne, ?_⟩
    exact (List.append_nil _).trans hplaces
  | count c =>
    have hc : c ≤ m.len - s.n := by
      have hle : c ≤ (m.len + 2 ^ 64 - s.n) % 2 ^ 64 := hallowed c rfl
      omega
    have hsum : s.n + c < 2 ^ 64 := by omega
    have hnext : (s.after (.count c)).n = s.n + c := Nat.mod_eq_of_lt hsum
    rw [moved_append_count, failed_append_count, hnext]
    by_cases hzero : c = 0
    · subst hzero
      refine ⟨by omega, by omega, fun heq => absurd heq (by omega), ?_⟩
      exact (List.append_nil _).trans hplaces
    · have hquiet := hcount c rfl (by omega)
      have hmoved : moved rs = s.n := by omega
      refine ⟨by omega, by omega, fun heq => by omega, ?_⟩
      rw [Progress.after, hplaces, hmoved]
      exact range_append_places (by omega)

/-- A call whose outcome is right is a steady one. -/
theorem Progress.Inv.steady (h : s.Inv m rs)
    (hok : (s.after r).n ≠ m.len →
      (s.after r).n ≤ m.len ∧ (s.after r).places = List.range (s.after r).places.length)
    (hleft : (s.after r).n = m.len → (s.after r).places = List.range m.len) :
    (∀ errno, r = .error errno → failed rs < moved rs) ∧
      ∀ c, r = .count c → 0 < c → failed rs = 0 := by
  obtain ⟨hn, hlt, hplaces⟩ := h
  have hsize := m.lt_size
  refine ⟨?_, ?_⟩
  · rintro errno rfl
    by_contra hge
    -- the counter wraps round
    have hnext : (s.after (.error errno)).n = 2 ^ 64 - 1 := by
      change (s.n + (2 ^ 64 - 1)) % 2 ^ 64 = 2 ^ 64 - 1
      omega
    by_cases heq : (s.after (.error errno)).n = m.len
    · have hall : (s.after (.error errno)).places = List.range m.len := hleft heq
      have hsame : (s.after (.error errno)).places = s.places := List.append_nil _
      have hlen := congrArg List.length (hsame.symm.trans hall)
      rw [hplaces, List.length_range, List.length_range] at hlen
      omega
    · have := (hok heq).1
      omega
  · rintro c rfl hc
    by_contra hfailed
    obtain ⟨k, hk⟩ : ∃ k, (s.after (.count c)).places = List.range k := by
      by_cases heq : (s.after (.count c)).n = m.len
      · exact ⟨_, hleft heq⟩
      · exact ⟨_, (hok heq).2⟩
    -- the first byte of the call has a place before its own
    have hfirst : (s.after (.count c)).places[moved rs]? = some s.n := by
      have hlt' : s.n < 2 ^ 64 := by omega
      rw [Progress.after, hplaces, List.getElem?_append_right (List.length_range).le,
        List.length_range, Nat.sub_self, IoResult.places, List.getElem?_map,
        List.getElem?_range hc, Option.map_some, Nat.add_zero, Nat.mod_eq_of_lt hlt']
    rw [hk] at hfirst
    obtain ⟨_, hplace⟩ := List.getElem?_eq_some_iff.mp hfirst
    rw [List.getElem_range] at hplace
    omega

end

/-! ## The runs -/

section
variable {m : Message} {run : PosixRun m}

/-- A run that is steady, call after call, keeps the invariant. -/
theorem inv_run
    (hsteady : ∀ ps r s, ps ++ [r] <+: run.results → feed (transfer m) .start ps = .ok s →
      s.Inv m ps → (∀ errno, r = .error errno → failed ps < moved ps) ∧
        ∀ c, r = .count c → 0 < c → failed ps = 0)
    {ps : List IoResult} {s : Progress} (hs : feed (transfer m) .start ps = .ok s) :
    ps <+: run.results → s.Inv m ps := by
  refine feed_invariant (I := fun ps s => ps <+: run.results → s.Inv m ps) ?_ ?_ hs
  · exact fun _ => Progress.inv_start m
  · intro ps s r t hs hinv hstep hps
    have hinv := hinv ((List.prefix_append ps [r]).trans hps)
    obtain ⟨herror, hcount⟩ := hsteady ps r s hps hs hinv
    obtain ⟨rfl, hne⟩ := transfer_ok hstep
    obtain ⟨hn, hle, hall, hplaces⟩ :=
      hinv.after (fun c hr => run.allowed ps c s (hr ▸ hps) hs) herror hcount
    exact ⟨hn, lt_of_le_of_ne hle fun heq => hne (hall heq), hplaces⟩

theorem Steady.faithful (h : Steady run) : Faithful run := by
  have hinv : ∀ {ps s}, feed (transfer m) .start ps = .ok s → ps <+: run.results → s.Inv m ps :=
    inv_run fun ps r s hps hs _ => h ps r s hps hs
  intro ps hps
  refine ⟨?_, ?_⟩
  · intro s hs
    obtain ⟨hn, hlt, hplaces⟩ := hinv hs hps
    refine ⟨by omega, ?_⟩
    rw [hplaces, List.length_range]
  · rintro t ⟨qs, r, s, rfl, hs, hstep⟩
    obtain ⟨rfl, heq⟩ := transfer_error hstep
    obtain ⟨herror, hcount⟩ := h qs r s hps hs
    obtain ⟨hn, hle, -, hplaces⟩ :=
      (hinv hs ((List.prefix_append qs [r]).trans hps)).after
        (fun c hr => run.allowed qs c s (hr ▸ hps) hs) herror hcount
    refine ⟨heq.le, ?_⟩
    rw [hplaces]
    congr 1
    omega

/-- A faithful run is steady at every call. -/
theorem Faithful.steady_at (h : Faithful run) {ps : List IoResult} {r : IoResult} {s : Progress}
    (hps : ps ++ [r] <+: run.results) (hs : feed (transfer m) .start ps = .ok s)
    (hinv : s.Inv m ps) :
    (∀ errno, r = .error errno → failed ps < moved ps) ∧
      ∀ c, r = .count c → 0 < c → failed ps = 0 := by
  obtain ⟨hon, hleft⟩ := h _ hps
  apply hinv.steady
  · intro hne
    exact hon _ (feed_next hs (transfer_of_ne hne))
  · intro heq
    exact (hleft _ (endsOn_append_singleton_iff.mpr ⟨s, hs, transfer_of_eq heq⟩)).2

theorem Faithful.steady (h : Faithful run) : Steady run := by
  intro ps r s hps hs
  have hinv := inv_run (fun ps r s hps hs => h.steady_at hps hs) hs
  exact h.steady_at hps hs (hinv ((List.prefix_append ps [r]).trans hps))

end

/-- The transfers are right in exactly the steady runs. -/
theorem transfer_faithful_iff {m : Message} (run : PosixRun m) : Faithful run ↔ Steady run :=
  ⟨Faithful.steady, Steady.faithful⟩

/-- A message of the default length. -/
def defaultMessage : Message := ⟨32, by decide, by decide⟩

theorem allowed_interrupted (ps : List IoResult) (c : Nat) (s : Progress)
    (hps : ps ++ [.count c] <+: [.error 4])
    (_ : feed (transfer defaultMessage) .start ps = .ok s) : c ≤ defaultMessage.request s.n := by
  have hmem : IoResult.count c ∈ [IoResult.error 4] := hps.subset (by simp)
  simp at hmem

/-- The first call is interrupted. -/
def interrupted : PosixRun defaultMessage := ⟨[.error 4], allowed_interrupted⟩

/-- The place of the next byte is then the last one there is. -/
theorem interrupted_not_faithful : ¬ ∀ (m : Message) (run : PosixRun m), Faithful run := by
  intro h
  have hnext : feed (transfer defaultMessage) .start [.error 4] = .ok ⟨2 ^ 64 - 1, []⟩ := by rfl
  have hle := ((h defaultMessage interrupted [.error 4] (List.prefix_refl _)).1 _ hnext).1
  exact absurd hle (by decide)

end BoardTest.Uart.Transfer
