import BoardTest.Lib.CString
import BoardTest.Lib.Strtol
import Mathlib.Data.Int.Basic

/-!
# `fltest_backlight`

`set` takes the brightness from its third argument by `strtol`, in a `long`, and hands it to
`set_brightness` as an `int`. The two hold different numbers from `2 ^ 31` on (`Wraps`), and the
test of the end pointer lets the empty string pass, which `strtol` reads as 0.
-/

namespace BoardTest.Backlight

open Strtol

/-- What `fscanf(file, "%d", &v)` reads from each file of `/sys`: nothing where it does not return
1. -/
abbrev Sysfs := List Byte → Option Int32

/-- How a run of the program ends: the exit status, what it printed, and the texts that it wrote to
files. -/
structure Outcome where
  status : Nat
  stdout : List Byte
  stderr : List Byte
  written : List (List Byte × List Byte)
  deriving DecidableEq

/-- `exit(1)` or `return 1` behind a message. -/
def fail (message : List Byte) : Outcome := ⟨1, [], message, []⟩

/-- What `print_usage` prints. -/
def usage : List Byte :=
  bytes "用法: fltest_backlight get|set  [设备号] [亮度值]\n" ++ bytes "示例:\n" ++
    bytes "  fltest_backlight get 0\n" ++ bytes "  fltest_backlight set 0 100\n"

/-- `get_max_brightness`, or the outcome of its `exit`. -/
def get_max_brightness (fs : Sysfs) (max_brightness_path : List Byte) : Except Outcome Int32 :=
  match fs max_brightness_path with
  | none => .error (fail (bytes "Unable to read maximum brightness value\n"))
  | some max => .ok max

/-- `get_current_brightness` -/
def get_current_brightness (fs : Sysfs) (brightness_path : List Byte) : Except Outcome Int32 :=
  match fs brightness_path with
  | none => .error (fail [])
  | some current => .ok current

/-- `set_brightness`: what it writes, and to which file. -/
def set_brightness (fs : Sysfs) (brightness_path max_brightness_path : List Byte)
    (new_value : Int32) : Except Outcome (List Byte × List Byte) := do
  let max ← get_max_brightness fs max_brightness_path
  if new_value < 0 ∨ new_value > max then
    .error (fail (sprintf "Error: Brightness value must be between 0 and%d\n"
      [printInt max.toInt]))
  else
    .ok (brightness_path, printInt new_value.toInt)

/-- `BASE_PATH "backlight%d/brightness"` and its neighbour, in arrays of `PATH_MAX` bytes. -/
def brightness_path (device_num : Int32) : List Byte :=
  snprintf 4096 "/sys/class/backlight/backlight%d/brightness" [printInt device_num.toInt]

def max_brightness_path (device_num : Int32) : List Byte :=
  snprintf 4096 "/sys/class/backlight/backlight%d/max_brightness" [printInt device_num.toInt]

/-- `atoi` -/
def atoi (s : List Byte) : Int32 := Int32.ofInt (strtol s).1

/-- The branch `get` of `main`. -/
def get (fs : Sysfs) (device_num : Int32) : Outcome :=
  match get_current_brightness fs (brightness_path device_num) with
  | .error e => e
  | .ok current => ⟨0, sprintf "Current brightness: %d\n" [printInt current.toInt], [], []⟩

/-- The branch `set` of `main`, behind the test of `argc`. -/
def set (fs : Sysfs) (device_num : Int32) (arg : List Byte) : Outcome :=
  let value := (strtol arg).1
  let end_ := (strtol arg).2
  if end_ ≠ [] ∨ value < 0 then
    fail (bytes "Error: Invalid brightness value (must be a non negative integer)\n")
  else
    match set_brightness fs (brightness_path device_num) (max_brightness_path device_num)
        (Int32.ofInt value) with
    | .error e => e
    | .ok file =>
      ⟨0, bytes "The brightness has been set to: " ++ printInt value ++ bytes "\n", [], [file]⟩

/-- `main`; `argv` without the name of the program. -/
def main (fs : Sysfs) (argv : List (List Byte)) : Outcome :=
  match argv with
  | command :: device :: rest =>
    let device_num := atoi device
    if command = bytes "get" then get fs device_num
    else if command = bytes "set" then
      match rest with
      | [] => fail (bytes "Error: Setting brightness requires specifying a value\n" ++ usage)
      | arg :: _ => set fs device_num arg
    else fail usage
  | _ => fail usage

/-- The argument is a number that the device has. -/
def Settable (max : Int32) (arg : List Byte) (v : Int) : Prop :=
  IsInteger arg v ∧ 0 ≤ v ∧ v ≤ max.toInt

/-- `fltest_backlight set device arg` writes and reports the number that `arg` is, if the device
has it, and otherwise fails and writes nothing. -/
structure SetsExactly (max : Int32) (device arg : List Byte) (o : Outcome) : Prop where
  sets : ∀ v, Settable max arg v → o.status = 0 ∧
    o.written = [(brightness_path (atoi device), printInt v)] ∧
    o.stdout = bytes "The brightness has been set to: " ++ printInt v ++ bytes "\n"
  rejects : (¬ ∃ v, Settable max arg v) → o.status ≠ 0 ∧ o.written = []

/-- A number beyond `int` whose lowest 32 bits are a brightness of the device. -/
def Wraps (max : Int32) (arg : List Byte) : Prop :=
  ∃ v, IsInteger arg v ∧ 2 ^ 31 ≤ v ∧ v < 2 ^ 63 ∧ 0 ≤ Int32.ofInt v ∧ Int32.ofInt v ≤ max

/-- The number that `strtol` yields passes the test of `main` and the one of `set_brightness`. -/
def Passes (max : Int32) (n : Int) : Prop := 0 ≤ n ∧ 0 ≤ Int32.ofInt n ∧ Int32.ofInt n ≤ max

variable {fs : Sysfs} {device_num max : Int32} {device arg : List Byte} {n v : Int}

theorem set_of_end (fs : Sysfs) (device_num : Int32) (h : (strtol arg).2 ≠ []) :
    ∃ message, set fs device_num arg = fail message := by
  unfold set
  exact ⟨_, if_pos (.inl h)⟩

theorem set_of_passes (hmax : fs (max_brightness_path device_num) = some max)
    (h : strtol arg = (n, [])) (hpasses : Passes max n) :
    set fs device_num arg =
      ⟨0, bytes "The brightness has been set to: " ++ printInt n ++ bytes "\n", [],
        [(brightness_path device_num, printInt (Int32.ofInt n).toInt)]⟩ := by
  obtain ⟨hn, hlow, hhigh⟩ := hpasses
  have hmain : ¬ (([] : List Byte) ≠ [] ∨ n < 0) := by
    rintro (hne | hneg)
    · exact hne rfl
    · omega
  have hrange : ¬ (Int32.ofInt n < 0 ∨ Int32.ofInt n > max) := by
    rw [not_or]
    exact ⟨Int32.not_lt.mpr hlow, Int32.not_lt.mpr hhigh⟩
  have hset : set_brightness fs (brightness_path device_num) (max_brightness_path device_num)
      (Int32.ofInt n) = .ok (brightness_path device_num, printInt (Int32.ofInt n).toInt) := by
    simp only [set_brightness, get_max_brightness, hmax]
    exact if_neg hrange
  simp only [set, h, if_neg hmain, hset]

theorem set_of_not_passes (hmax : fs (max_brightness_path device_num) = some max)
    (h : strtol arg = (n, [])) (hfails : ¬ Passes max n) :
    ∃ message, set fs device_num arg = fail message := by
  by_cases hneg : n < 0
  · simp only [set, h]
    exact ⟨_, if_pos (.inr hneg)⟩
  · have hmain : ¬ (([] : List Byte) ≠ [] ∨ n < 0) := by
      rintro (hne | hlt)
      · exact hne rfl
      · exact hneg hlt
    have hrange : Int32.ofInt n < 0 ∨ Int32.ofInt n > max := by
      by_contra hno
      rw [not_or] at hno
      exact hfails ⟨Int.not_lt.mp hneg, Int32.not_lt.mp hno.1, Int32.not_lt.mp hno.2⟩
    have hset : ∃ message, set_brightness fs (brightness_path device_num)
        (max_brightness_path device_num) (Int32.ofInt n) = .error (fail message) := by
      simp only [set_brightness, get_max_brightness, hmax]
      exact ⟨_, if_pos hrange⟩
    obtain ⟨message, hset⟩ := hset
    refine ⟨message, ?_⟩
    simp only [set, h, if_neg hmain, hset]

/-! ## The two tests -/

/-- In the range of `int` nothing is lost. -/
theorem passes_iff_of_lt (hv : 0 ≤ v) (hlt : v < 2 ^ 31) : Passes max v ↔ v ≤ max.toInt := by
  have hint : (Int32.ofInt v).toInt = v := Int32.toInt_ofInt_of_le (by omega) hlt
  rw [Passes, Int32.le_iff_toInt_le, Int32.le_iff_toInt_le, hint, Int32.toInt_zero]
  exact ⟨fun h => h.2.2, fun h => ⟨hv, hv, h⟩⟩

/-- The greatest `long` is -1 as an `int`. -/
theorem not_passes_longMax : ¬ Passes max (2 ^ 63 - 1) := fun h => absurd h.2.1 (by decide)

theorem passes_saturate_iff :
    Passes max (saturate v) ↔
      (0 ≤ v ∧ v ≤ max.toInt) ∨
        (2 ^ 31 ≤ v ∧ v < 2 ^ 63 ∧ 0 ≤ Int32.ofInt v ∧ Int32.ofInt v ≤ max) := by
  have hmax := max.toInt_lt
  rcases lt_or_ge v 0 with hneg | hv
  · have hsaturate : saturate v < 0 := by
      unfold saturate
      omega
    exact iff_of_false (fun h => absurd h.1 (by omega)) (by omega)
  rcases lt_or_ge v (2 ^ 63) with hlt | hbig
  · have hsaturate : saturate v = v := by
      unfold saturate
      omega
    rw [hsaturate]
    rcases lt_or_ge v (2 ^ 31) with hint | hwide
    · rw [passes_iff_of_lt hv hint, or_iff_left fun h => absurd h.1 (by omega)]
      exact (and_iff_right hv).symm
    · rw [or_iff_right fun h => absurd h.2 (by omega), Passes, and_iff_right hv,
        and_iff_right hwide, and_iff_right hlt]
  · have hsaturate : saturate v = 2 ^ 63 - 1 := by
      unfold saturate
      omega
    rw [hsaturate]
    exact iff_of_false not_passes_longMax (by omega)

/-- The number that an argument is, and whether it is taken. -/
theorem setsExactly_iff_of_isInteger (hmax : fs (max_brightness_path (atoi device)) = some max)
    (harg : IsInteger arg v) :
    SetsExactly max device arg (set fs (atoi device) arg) ↔ ¬ Wraps max arg := by
  have hread := strtol_of_isInteger harg
  have hsettable : ∀ w, Settable max arg w ↔ w = v ∧ 0 ≤ v ∧ v ≤ max.toInt := by
    intro w
    constructor
    · rintro ⟨hw, hrange⟩
      obtain rfl := hw.eq harg
      exact ⟨rfl, hrange⟩
    · rintro ⟨rfl, hrange⟩
      exact ⟨harg, hrange⟩
  have hwraps : Wraps max arg ↔
      2 ^ 31 ≤ v ∧ v < 2 ^ 63 ∧ 0 ≤ Int32.ofInt v ∧ Int32.ofInt v ≤ max := by
    constructor
    · rintro ⟨w, hw, hrange⟩
      obtain rfl := hw.eq harg
      exact hrange
    · exact fun h => ⟨v, harg, h⟩
  rw [hwraps]
  constructor
  · intro h hwide
    have hset := set_of_passes hmax hread (passes_saturate_iff.mpr (.inr hwide))
    have hno : ¬ ∃ w, Settable max arg w := by
      rintro ⟨w, hw⟩
      obtain ⟨-, -, hle⟩ := (hsettable w).mp hw
      have := max.toInt_lt
      omega
    have hwritten := (h.rejects hno).2
    rw [hset] at hwritten
    cases hwritten
  · intro hwide
    by_cases hv : 0 ≤ v ∧ v ≤ max.toInt
    · have hlt : v < 2 ^ 31 := lt_of_le_of_lt hv.2 max.toInt_lt
      have hset := set_of_passes hmax hread (passes_saturate_iff.mpr (.inl hv))
      have hsaturate : saturate v = v := by
        unfold saturate
        omega
      have hint : (Int32.ofInt v).toInt = v := Int32.toInt_ofInt_of_le (by omega) hlt
      rw [hset, hsaturate, hint]
      refine ⟨?_, fun hno => absurd ⟨v, (hsettable v).mpr ⟨rfl, hv⟩⟩ hno⟩
      intro w hw
      obtain ⟨rfl, -⟩ := (hsettable w).mp hw
      exact ⟨rfl, rfl, rfl⟩
    · have hfails : ¬ Passes max (saturate v) := by
        rw [passes_saturate_iff, not_or]
        exact ⟨hv, hwide⟩
      obtain ⟨message, hset⟩ := set_of_not_passes hmax hread hfails
      rw [hset]
      exact ⟨fun w hw => absurd ((hsettable w).mp hw).2 hv, fun _ => ⟨Nat.one_ne_zero, rfl⟩⟩

theorem main_set (fs : Sysfs) (device arg : List Byte) (rest : List (List Byte)) :
    main fs (bytes "set" :: device :: arg :: rest) = set fs (atoi device) arg := by
  have hne : ¬ bytes "set" = bytes "get" := by decide
  simp only [main, if_neg hne, if_true]

/-- The empty string is taken for 0. -/
theorem setsExactly_nil_iff (hmax : fs (max_brightness_path (atoi device)) = some max) :
    SetsExactly max device [] (set fs (atoi device) []) ↔ ¬ 0 ≤ max.toInt := by
  have hno : ¬ ∃ v, Settable max [] v := by
    rintro ⟨v, hv, -⟩
    exact not_isInteger_nil v hv
  have hread : strtol [] = (0, []) := rfl
  have hpasses : Passes max 0 ↔ 0 ≤ max.toInt := passes_iff_of_lt (le_refl 0) (by decide)
  constructor
  · intro h hle
    have hwritten := (h.rejects hno).2
    rw [set_of_passes hmax hread (hpasses.mpr hle)] at hwritten
    cases hwritten
  · intro hle
    obtain ⟨message, hset⟩ := set_of_not_passes hmax hread (mt hpasses.mp hle)
    rw [hset]
    exact ⟨fun v hv => absurd ⟨v, hv⟩ hno, fun _ => ⟨Nat.one_ne_zero, rfl⟩⟩

theorem setsExactly_of_end (h : (strtol arg).2 ≠ []) :
    SetsExactly max device arg (set fs (atoi device) arg) := by
  obtain ⟨message, hset⟩ := set_of_end fs (atoi device) h
  rw [hset]
  refine ⟨?_, fun _ => ⟨Nat.one_ne_zero, rfl⟩⟩
  rintro v ⟨hv, -⟩
  rw [strtol_of_isInteger hv] at h
  exact absurd rfl h

/-- `set` writes and reports the number that its argument is, and nothing else, except for the
empty string and for numbers beyond `int` that come back into the range of the device. -/
theorem set_setsExactly_iff (hmax : fs (max_brightness_path (atoi device)) = some max)
    (rest : List (List Byte)) :
    SetsExactly max device arg (main fs (bytes "set" :: device :: arg :: rest)) ↔
      ¬ (arg = [] ∧ 0 ≤ max.toInt) ∧ ¬ Wraps max arg := by
  rw [main_set]
  by_cases hend : (strtol arg).2 = []
  · rcases strtol_eq_iff.mp (Prod.ext rfl hend : strtol arg = ((strtol arg).1, [])) with
      ⟨rfl, -⟩ | ⟨v, hv, -⟩
    · have hwraps : ¬ Wraps max [] := by
        rintro ⟨v, hv, -⟩
        exact not_isInteger_nil v hv
      rw [setsExactly_nil_iff hmax, and_iff_left hwraps, and_iff_right rfl]
    · have hne : arg ≠ [] := by
        rintro rfl
        exact not_isInteger_nil v hv
      rw [setsExactly_iff_of_isInteger hmax hv, and_iff_right fun h => hne h.1]
  · refine iff_of_true (setsExactly_of_end hend) ⟨?_, ?_⟩
    · rintro ⟨rfl, -⟩
      exact hend rfl
    · rintro ⟨v, hv, -⟩
      rw [strtol_of_isInteger hv] at hend
      exact hend rfl

theorem set_setsExactly_hundred :
    SetsExactly 255 (bytes "0") (bytes "100")
        (main (fun _ => some 255) [bytes "set", bytes "0", bytes "100"]) ↔
      ¬ (bytes "100" = [] ∧ 0 ≤ (255 : Int32).toInt) ∧ ¬ Wraps 255 (bytes "100") :=
  set_setsExactly_iff rfl []

/-- 4294967301 is written as 5. -/
theorem set_wraps :
    ¬ ∀ fs max device arg rest, fs (max_brightness_path (atoi device)) = some max →
      SetsExactly max device arg (main fs (bytes "set" :: device :: arg :: rest)) := by
  intro h
  have hset := h (fun _ => some 255) 255 (bytes "0") (bytes "4294967301") [] rfl
  have harg : IsInteger (bytes "4294967301") 4294967301 := by decide
  rw [main_set, setsExactly_iff_of_isInteger rfl harg] at hset
  exact hset ⟨4294967301, harg, by decide⟩

end BoardTest.Backlight
