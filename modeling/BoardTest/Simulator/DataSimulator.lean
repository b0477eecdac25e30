import BoardTest.Lib.Calendar
import BoardTest.Lib.Strtol

/-!
# `data_simulator`

Each line of `data_simulator.cpp` begins with a date, a time and milliseconds, but the clock is read
twice for it: `time` gives the second and `clock_gettime` the milliseconds. A line names a moment of
its call as long as both fall in one second (`Call.SameSecond`), and a second too early otherwise.

Real time is counted in nanoseconds from 1970 on. The kernel's clock ends in the year 2262, so that
the text of a date always fits `time_str`.
-/

namespace BoardTest.Simulator

open Numeral Strtol Calendar

/-- A call of `generateData`, with the real times of its beginning, of its two looks at the clock,
and of its end. -/
structure Call where
  start : Nat
  time : Nat
  clock_gettime : Nat
  stop : Nat

/-- `struct tm` -/
structure Tm where
  date : Date
  hour : Nat
  min : Nat
  sec : Nat

/-- `localtime`, where the zone is `offset` seconds east of UTC -/
def localtime (offset now : Int) : Tm :=
  let rem := ((now + offset) % 86400).toNat
  ⟨ofDays ((now + offset) / 86400), rem / 3600, rem % 3600 / 60, rem % 60⟩

/-- `strftime` with `"%Y-%m-%d %H:%M:%S"` -/
def strftime (tm : Tm) : List Byte :=
  printInt tm.date.year ++ bytes "-" ++ padded 2 tm.date.month ++ bytes "-" ++
    padded 2 tm.date.day ++ bytes " " ++ padded 2 tm.hour ++ bytes ":" ++ padded 2 tm.min ++
    bytes ":" ++ padded 2 tm.sec

def values : List Byte := bytes "-0.01,-0.07,-0.05,-12.5,277.0,0.07,00,CE,00"

/-- Lines 16 to 40. -/
def generateData (offset : Int) (call : Call) : List Byte :=
  let now : Int := (call.time / 1000000000 : Nat)
  let time_str := strftime (localtime offset now)
  let tv_nsec := call.clock_gettime % 1000000000
  let ms := tv_nsec / 1000000
  let timestamp := time_str ++ bytes "." ++ padded 3 ms
  timestamp ++ bytes "," ++ values

/-- A round of `while (true)`: the lines of the file behind it. -/
def round (offset : Int) (file : List (List Byte)) (call : Call) : List (List Byte) :=
  file ++ [generateData offset call]

/-- The lines that `main` has written after the calls, when the file could be opened. -/
def main (opened : Bool) (offset : Int) (calls : List Call) : List (List Byte) :=
  if opened then calls.foldl (round offset) [] else []

/-- The digits at the beginning. -/
def readNat (s : List Byte) : Option (Nat × List Byte) :=
  if s.takeWhile isDigit = [] then none
  else some (numeral 10 (s.takeWhile isDigit), s.dropWhile isDigit)

/-- What was read, when the delimiter stands behind it. -/
def delimited {β : Type*} (delimiter : Byte) : Option (β × List Byte) → Option (β × List Byte)
  | some (v, b :: rest) => if b = delimiter then some (v, rest) else none
  | _ => none

/-- The moment that the stamp of a line names, in milliseconds of local time from 1970 on. -/
def readStamp (line : List Byte) : Option Int := do
  let (year, s) ← delimited 45 (readInteger line)
  let (month, s) ← delimited 45 (readNat s)
  let (day, s) ← delimited 32 (readNat s)
  let (hour, s) ← delimited 58 (readNat s)
  let (min, s) ← delimited 58 (readNat s)
  let (sec, s) ← delimited 46 (readNat s)
  let (ms, _) ← delimited 44 (readNat s)
  let date : Date := ⟨year, month, day⟩
  if date.Valid ∧ hour < 24 ∧ min < 60 ∧ sec < 60 ∧ ms < 1000 then
    some ((((date.dayNumber * 24 + hour) * 60 + min) * 60 + sec) * 1000 + ms)
  else none

theorem delimited_readNat {delimiter : Byte} (hdelimiter : isDigit delimiter = false)
    (width n : Nat) (t : List Byte) :
    delimited delimiter (readNat (padded width n ++ delimiter :: t)) = some (n, t) := by
  have hpadded := isNumeral_padded width n
  unfold readNat
  rw [takeWhile_isDigit hpadded.2 hdelimiter, dropWhile_isDigit hpadded.2 hdelimiter,
    if_neg hpadded.1, numeral_padded]
  exact if_pos rfl

theorem delimited_readInteger {delimiter : Byte} (hdelimiter : isDigit delimiter = false)
    (v : Int) (t : List Byte) :
    delimited delimiter (readInteger (printInt v ++ delimiter :: t)) = some (v, t) := by
  have hstop : ∀ b ∈ (delimiter :: t).head?, isDigit b = false := by
    intro b hb
    obtain rfl := Option.some.inj hb
    exact hdelimiter
  rw [readInteger_printInt v hstop]
  exact if_pos rfl

/-- A time that exists is read back. -/
theorem readStamp_strftime {tm : Tm} {ms : Nat} (hdate : tm.date.Valid) (hhour : tm.hour < 24)
    (hmin : tm.min < 60) (hsec : tm.sec < 60) (hms : ms < 1000) (t : List Byte) :
    readStamp (strftime tm ++ bytes "." ++ padded 3 ms ++ bytes "," ++ t) =
      some ((((tm.date.dayNumber * 24 + tm.hour) * 60 + tm.min) * 60 + tm.sec) * 1000 + ms) := by
  have hdash : bytes "-" = [45] := rfl
  have hblank : bytes " " = [32] := rfl
  have hcolon : bytes ":" = [58] := rfl
  have hdot : bytes "." = [46] := rfl
  have hcomma : bytes "," = [44] := rfl
  unfold strftime
  rw [hdash, hblank, hcolon, hdot, hcomma]
  simp only [List.append_assoc, List.cons_append, List.nil_append]
  unfold readStamp
  -- field by field
  simp (disch := decide) only [delimited_readInteger, delimited_readNat, Option.bind_eq_bind,
    Option.bind_some]
  rw [if_pos ⟨hdate, hhour, hmin, hsec, hms⟩]

/-- The moment that the line of a call names. -/
def stamp (offset : Int) (call : Call) : Int :=
  ((call.time / 1000000000 : Nat) + offset) * 1000 +
    (call.clock_gettime % 1000000000 / 1000000 : Nat)

theorem localtime_lt (offset now : Int) :
    (localtime offset now).hour < 24 ∧ (localtime offset now).min < 60 ∧
      (localtime offset now).sec < 60 := by
  dsimp only [localtime]
  omega

/-- The fields of `localtime` name the second that it was given. -/
theorem localtime_seconds (offset now : Int) :
    (((localtime offset now).date.dayNumber * 24 + (localtime offset now).hour) * 60 +
      (localtime offset now).min) * 60 + (localtime offset now).sec = now + offset := by
  dsimp only [localtime]
  rw [dayNumber_ofDays]
  omega

/-- Every line is read back, as the second of one look at the clock and the milliseconds of the
other. -/
theorem readStamp_generateData (offset : Int) (call : Call) :
    readStamp (generateData offset call) = some (stamp offset call) := by
  have hms : call.clock_gettime % 1000000000 / 1000000 < 1000 := by omega
  obtain ⟨hhour, hmin, hsec⟩ := localtime_lt offset (call.time / 1000000000 : Nat)
  dsimp only [generateData, stamp]
  rw [readStamp_strftime (valid_ofDays _) hhour hmin hsec hms, localtime_seconds]

/-! ## What the stamps are worth -/

/-- Both looks at the clock fall in one second. -/
def Call.SameSecond (call : Call) : Prop :=
  call.time / 1000000000 = call.clock_gettime / 1000000000

def Call.times (call : Call) : List Nat := [call.start, call.time, call.clock_gettime, call.stop]

/-- A stamp in milliseconds is at most one millisecond away from a real time in nanoseconds. -/
def Near (offset stamp : Int) (t : Nat) : Prop :=
  stamp * 1000000 ≤ t + offset * 1000000000 + 1000000 ∧
    t + offset * 1000000000 ≤ stamp * 1000000 + 1000000

/-- The stamps of the lines are readable and in order, and each is near a moment of its call. -/
def TrueStamps (offset : Int) (calls : List Call) (lines : List (List Byte)) : Prop :=
  ∃ stamps : List Int, lines.map readStamp = stamps.map some ∧ stamps.Pairwise (· ≤ ·) ∧
    ∀ (n : Nat) (stamp : Int), stamps[n]? = some stamp → ∃ call : Call, calls[n]? = some call ∧
      ∃ t : Nat, call.start ≤ t ∧ t ≤ call.stop ∧ Near offset stamp t

theorem main_eq (offset : Int) (calls : List Call) :
    main true offset calls = calls.map (generateData offset) := by
  have hfold : ∀ file,
      calls.foldl (round offset) file = file ++ calls.map (generateData offset) := by
    induction calls with
    | nil =>
      intro file
      rw [List.map_nil, List.append_nil]
      rfl
    | cons call calls ih =>
      intro file
      rw [List.foldl_cons, ih, round, List.append_assoc]
      rfl
  exact hfold []

theorem map_readStamp (offset : Int) (calls : List Call) :
    (main true offset calls).map readStamp = (calls.map (stamp offset)).map some := by
  rw [main_eq, List.map_map, List.map_map]
  apply List.map_congr_left
  intro call _
  exact readStamp_generateData offset call

/-- Within one second a stamp is the later look at the clock, in whole milliseconds. -/
theorem stamp_eq {call : Call} (h : call.SameSecond) (offset : Int) :
    stamp offset call = (call.clock_gettime / 1000000 : Nat) + offset * 1000 := by
  unfold Call.SameSecond at h
  unfold stamp
  omega

/-- The clock is read once more after the call began and before it ends. -/
theorem times_of_mem {calls : List Call} (h : (calls.flatMap Call.times).Pairwise (· ≤ ·))
    {call : Call} (hmem : call ∈ calls) :
    call.start ≤ call.time ∧ call.time ≤ call.clock_gettime ∧ call.clock_gettime ≤ call.stop := by
  have hcall := (List.pairwise_flatMap.mp h).1 call hmem
  simp only [Call.times, List.pairwise_cons, List.mem_cons] at hcall
  exact ⟨hcall.1 _ (.inl rfl), hcall.2.1 _ (.inl rfl), hcall.2.2.1 _ (.inl rfl)⟩

theorem pairwise_clock_gettime {calls : List Call}
    (h : (calls.flatMap Call.times).Pairwise (· ≤ ·)) :
    calls.Pairwise fun a b => a.clock_gettime ≤ b.clock_gettime := by
  apply (List.pairwise_flatMap.mp h).2.imp
  intro a b hab
  exact hab _ (by simp [Call.times]) _ (by simp [Call.times])

/-- When no call crosses the boundary of a second, the stamps are true. -/
theorem trueStamps_of_sameSecond (opened : Bool) (offset : Int) {calls : List Call}
    (hclock : (calls.flatMap Call.times).Pairwise (· ≤ ·)) (h : ∀ call ∈ calls, call.SameSecond) :
    TrueStamps offset calls (main opened offset calls) := by
  cases opened with
  | false => exact ⟨[], rfl, .nil, by simp⟩
  | true =>
    refine ⟨calls.map (stamp offset), map_readStamp offset calls, ?_, ?_⟩
    · rw [List.pairwise_map]
      have hmono := pairwise_clock_gettime hclock
      apply hmono.imp_of_mem
      intro a b ha hb hab
      rw [stamp_eq (h a ha), stamp_eq (h b hb)]
      have := Nat.div_le_div_right (c := 1000000) hab
      omega
    · intro n s hs
      rw [List.getElem?_map, Option.map_eq_some_iff] at hs
      obtain ⟨call, hcall, rfl⟩ := hs
      have hmem := List.mem_of_getElem? hcall
      obtain ⟨hstart, htime, hstop⟩ := times_of_mem hclock hmem
      refine ⟨call, hcall, call.clock_gettime, by omega, hstop, ?_⟩
      rw [Near, stamp_eq (h call hmem)]
      omega

/-- What the lines are read as is known. -/
theorem eq_map_stamp {offset : Int} {calls : List Call} {stamps : List Int}
    (h : (main true offset calls).map readStamp = stamps.map some) :
    stamps = calls.map (stamp offset) := by
  rw [map_readStamp] at h
  exact ((List.map_injective_iff.mpr (Option.some_injective Int)) h).symm

/-- Across the boundary of a second a stamp is early by a second or more. -/
theorem stamp_add_second_le {call : Call} (htime : call.time ≤ call.clock_gettime)
    (h : ¬ call.SameSecond) (offset : Int) :
    stamp offset call * 1000000 + 1000000000 ≤
      call.clock_gettime + offset * 1000000000 := by
  unfold Call.SameSecond at h
  unfold stamp
  have hle := Nat.div_le_div_right (c := 1000000000) htime
  omega

/-- Calls that take less than the second they are off by have true stamps only within a second. -/
theorem sameSecond_of_trueStamps {offset : Int} {calls : List Call}
    (hclock : (calls.flatMap Call.times).Pairwise (· ≤ ·))
    (hshort : ∀ call ∈ calls, call.stop < call.start + 999000000)
    (h : TrueStamps offset calls (main true offset calls)) : ∀ call ∈ calls, call.SameSecond := by
  intro call hmem
  by_contra hcross
  obtain ⟨stamps, hread, -, hnear⟩ := h
  obtain rfl := eq_map_stamp hread
  obtain ⟨n, hn⟩ := List.getElem?_of_mem hmem
  obtain ⟨call', hcall', t, hstart, hstop, hnear⟩ := hnear n (stamp offset call)
    (by rw [List.getElem?_map, hn, Option.map_some])
  rw [hn] at hcall'
  obtain rfl := Option.some.inj hcall'
  obtain ⟨-, htime, hend⟩ := times_of_mem hclock hmem
  have hearly := stamp_add_second_le htime hcross offset
  have htaken := hshort call hmem
  have hlate := hnear.2
  omega

/-- The stamps of a run are true when no call crosses the boundary of a second, and where a
call takes less than 0.999 seconds, only then. -/
theorem trueStamps_main (opened : Bool) (offset : Int) (calls : List Call)
    (hclock : (calls.flatMap Call.times).Pairwise (· ≤ ·)) :
    ((∀ call ∈ calls, call.SameSecond) → TrueStamps offset calls (main opened offset calls)) ∧
      (opened = true → (∀ call ∈ calls, call.stop < call.start + 999000000) →
        TrueStamps offset calls (main opened offset calls) →
        ∀ call ∈ calls, call.SameSecond) := by
  refine ⟨trueStamps_of_sameSecond opened offset hclock, ?_⟩
  rintro rfl hshort
  exact sameSecond_of_trueStamps hclock hshort

/-- Two calls a tenth of a second apart, each within a second. -/
def steady : List Call :=
  [⟨1785938588400000000, 1785938588400010000, 1785938588400020000, 1785938588400030000⟩,
   ⟨1785938588500000000, 1785938588500010000, 1785938588500020000, 1785938588500030000⟩]

theorem trueStamps_steady : TrueStamps 28800 steady (main true 28800 steady) :=
  (trueStamps_main true 28800 steady (by decide)).1 (by unfold Call.SameSecond; decide)

/-- Two calls a tenth of a second apart, of which the second looks at the clock shortly before and
shortly after the end of a second. -/
def crossing : List Call :=
  [⟨1785938588899900000, 1785938588899910000, 1785938588899920000, 1785938588899930000⟩,
   ⟨1785938588999980000, 1785938588999990000, 1785938589000010000, 1785938589000020000⟩]

theorem crossing_goes_back :
    (crossing.flatMap Call.times).Pairwise (· ≤ ·) ∧
      ¬ TrueStamps 28800 crossing (main true 28800 crossing) := by
  refine ⟨by decide, ?_⟩
  rintro ⟨stamps, hread, hordered, -⟩
  obtain rfl := eq_map_stamp hread
  revert hordered
  decide

end BoardTest.Simulator
