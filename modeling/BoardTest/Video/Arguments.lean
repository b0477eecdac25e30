import BoardTest.Lib.CString
import BoardTest.Lib.LastWrite
import BoardTest.Lib.Numerals

/-!
# The command lines of the video tests

`decoder_test`, `encoder_test` and `stream_player_test` read pairs of an option and a value, each
with its own copy of `GetArguType` and of the switch in `ParseArguType`. The copies are kept apart
as tables under one walk; what each setting ends with is followed back to the last pair that
stores to it.
-/

namespace BoardTest.Video.Arguments

open Numeral

/-- `isspace` -/
def isSpace (b : Byte) : Bool := b = 32 ∨ 9 ≤ b ∧ b ≤ 13

/-- The conversions of the `sscanf` calls. -/
inductive Conversion
  /-- `%255s`, into a cleared buffer -/
  | word
  /-- `%32u` -/
  | unsigned
  /-- `%32d` -/
  | int
  deriving DecidableEq, Repr

/-- What a setting holds: a C string, or a word of 32 bits. -/
inductive Value
  | text (s : List Byte)
  | number (n : UInt32)
  deriving DecidableEq, Repr

/-- The sign and the digits that `%32u` and `%32d` take from the text, if there are any. -/
def scanInteger (text : List Byte) : Option (Bool × Nat) :=
  let field := (text.dropWhile isSpace).take 32
  let negative := field.head? = some 45
  let digits := (if negative ∨ field.head? = some 43 then field.drop 1 else field).takeWhile isDigit
  if digits = [] then none else some (negative, numeral 10 digits)

/-- `strtoul` on 64 bits, stored in 32. -/
def toUnsigned (negative : Bool) (n : Nat) : UInt32 :=
  if n < 2 ^ 64 then UInt32.ofInt (if negative then -n else n) else UInt32.ofNat (2 ^ 64 - 1)

/-- `strtol` on 64 bits, stored in 32. -/
def toInt (negative : Bool) (n : Nat) : UInt32 :=
  if negative then UInt32.ofInt (-(min n (2 ^ 63) : Nat)) else UInt32.ofNat (min n (2 ^ 63 - 1))

/-- `sscanf(value, ...)`: nothing is stored when the conversion fails. -/
def Conversion.read : Conversion → List Byte → Option Value
  | word, value =>
    some (.text (((value.dropWhile isSpace).takeWhile fun b => !isSpace b).take 255))
  | unsigned, value => (scanInteger value).map fun (negative, n) => .number (toUnsigned negative n)
  | int, value => (scanInteger value).map fun (negative, n) => .number (toInt negative n)

/-- `ArguType`, for all three programs; `DECODE_FORMAT` and `ENCODE_FORMAT` are `format`. -/
inductive ArguType
  | input
  | help
  | encodeFrameNum
  | format
  | pixelFormat
  | output
  | srcW
  | srcH
  | bitRate
  | testWay
  | testTimes
  | testCmd
  | invalid
  deriving DecidableEq, Repr

/-- The fields that options are for, of `TestParm` and of the parameter structure. -/
inductive Setting
  | intputFile
  | outputFile
  | codecType
  | pixelFormat
  | srcW
  | srcH
  | frameCount
  | bitRate
  | testWay
  | testTimes
  | testCmd
  deriving DecidableEq, Repr

/-- The conversion in every `sscanf` that stores to the field. -/
def Setting.conversion : Setting → Conversion
  | intputFile | outputFile => .word
  | codecType | pixelFormat | srcW | srcH | frameCount => .unsigned
  | bitRate | testWay | testTimes | testCmd => .int

/-- The option that is there for the field. -/
def Setting.option : Setting → ArguType
  | intputFile => .input
  | outputFile => .output
  | codecType => .format
  | pixelFormat => .pixelFormat
  | srcW => .srcW
  | srcH => .srcH
  | frameCount => .encodeFrameNum
  | bitRate => .bitRate
  | testWay => .testWay
  | testTimes => .testTimes
  | testCmd => .testCmd

abbrev Settings := Setting → Value

/-- Constants of the vendor's headers. -/
structure Sdk where
  decoderH264 : UInt32
  decoderNv21 : UInt32
  encoderJpeg : UInt32
  encoderYvu420sp : UInt32
  onlyOneFrame : UInt32
  playerH264 : UInt32

inductive Tool
  | decoder
  | encoder
  | player
  deriving DecidableEq, Repr

/-- A row of `ArguTypeMapping`, without the description that only the usage text shows. -/
structure Argument where
  option : List Byte
  type : List Byte
  argument : ArguType

/-- `ArguTypeMapping` (`decoder_test.cpp:94-131`, `encoder_test.cpp:78-123`,
`stream_player_test.cpp:91-132`). -/
def Tool.arguTypeMapping : Tool → List Argument
  | decoder =>
    [⟨bytes "-h", bytes "--help", .help⟩, ⟨bytes "-i", bytes "--input", .input⟩,
      ⟨bytes "-f", bytes "--codecType", .format⟩, ⟨bytes "-p", bytes "--pixelFormat", .pixelFormat⟩,
      ⟨bytes "-o", bytes "--output", .output⟩, ⟨bytes "-sw", bytes "--srcw", .srcW⟩,
      ⟨bytes "-sh", bytes "--srch", .srcH⟩, ⟨bytes "-w", bytes "--test way", .testWay⟩,
      ⟨bytes "-t", bytes "--test times", .testTimes⟩]
  | encoder =>
    [⟨bytes "-h", bytes "--help", .help⟩, ⟨bytes "-i", bytes "--input", .input⟩,
      ⟨bytes "-n", bytes "--frameCount", .encodeFrameNum⟩,
      ⟨bytes "-f", bytes "--codecType", .format⟩, ⟨bytes "-p", bytes "--pixelFormat", .pixelFormat⟩,
      ⟨bytes "-o", bytes "--output", .output⟩, ⟨bytes "-sw", bytes "--srcw", .srcW⟩,
      ⟨bytes "-sh", bytes "--srch", .srcH⟩, ⟨bytes "-b", bytes "--bitrate", .bitRate⟩,
      ⟨bytes "-w", bytes "--test way", .testWay⟩, ⟨bytes "-t", bytes "--test times", .testTimes⟩]
  | player =>
    [⟨bytes "-h", bytes "--help", .help⟩, ⟨bytes "-i", bytes "--input", .input⟩,
      ⟨bytes "-f", bytes "--codecType", .format⟩, ⟨bytes "-p", bytes "--pixelFormat", .pixelFormat⟩,
      ⟨bytes "-o", bytes "--output", .output⟩, ⟨bytes "-s", bytes "--srcw", .srcW⟩,
      ⟨bytes "-d", bytes "--srch", .srcH⟩, ⟨bytes "-w", bytes "--test way", .testWay⟩,
      ⟨bytes "-t", bytes "--test times", .testTimes⟩, ⟨bytes "-c", bytes "--test cmd", .testCmd⟩]

/-- `GetArguType` (`decoder_test.cpp:133-146` and its copies). -/
def getArguType (t : Tool) (name : List Byte) : ArguType :=
  match t.arguTypeMapping.find? fun row =>
    row.type = name ∨ row.option = name ∧ row.option ≠ bytes "--" with
  | some row => row.argument
  | none => .invalid

/-- What the switch of `ParseArguType` stores to from a label on to the next `break`
(`decoder_test.cpp:162-218`, `encoder_test.cpp:154-211`, `stream_player_test.cpp:163-221`).
`TEST_WAY` has no `break` of its own, and `SRC_H` of the player stores to `srcW`. -/
def Tool.cases : Tool → ArguType → List Setting
  | _, .input => [.intputFile]
  | _, .format => [.codecType]
  | decoder, .pixelFormat | encoder, .pixelFormat => [.pixelFormat]
  | _, .output => [.outputFile]
  | _, .srcW => [.srcW]
  | decoder, .srcH | encoder, .srcH => [.srcH]
  | player, .srcH => [.srcW]
  | encoder, .encodeFrameNum => [.frameCount]
  | encoder, .bitRate => [.bitRate]
  | _, .testWay => [.testWay, .testTimes]
  | _, .testTimes => [.testTimes]
  | player, .testCmd => [.testCmd]
  | _, _ => []

/-- One `sscanf` of the switch. -/
def scanSetting (value : List Byte) (s : Settings) (f : Setting) : Settings :=
  match f.conversion.read value with
  | some v => Function.update s f v
  | none => s

/-- `ParseArguType`; `none` where it leaves the program. -/
def parseArguType (t : Tool) (s : Settings) (argument value : List Byte) : Option Settings :=
  match getArguType t argument with
  | .help => none
  | arg => some ((t.cases arg).foldl (scanSetting value) s)

/-- The settings before the command line is read (`decoder_test.cpp:757-773`,
`encoder_test.cpp:718-740`, `stream_player_test.cpp:660-681`). -/
def Tool.defaults (sdk : Sdk) : Tool → Settings
  | decoder, .codecType => .number sdk.decoderH264
  | decoder, .pixelFormat => .number sdk.decoderNv21
  | decoder, .intputFile => .text (bytes "/tmp/decoder_test/video_800x480.h264")
  | decoder, .outputFile => .text (bytes "/tmp/decoder_test/video_800x480.yuv")
  | encoder, .codecType => .number sdk.encoderJpeg
  | encoder, .pixelFormat => .number sdk.encoderYvu420sp
  | encoder, .frameCount => .number sdk.onlyOneFrame
  | encoder, .bitRate => .number (1 * 1024 * 1024)
  | encoder, .intputFile => .text (bytes "/tmp/encoder_test/video_800x480.yuv")
  | encoder, .outputFile => .text (bytes "/tmp/encoder_test/output/video_800x480")
  | player, .codecType => .number sdk.playerH264
  | player, .intputFile => .text []
  | player, .outputFile => .text []
  | _, .srcW => .number 800
  | _, .srcH => .number 480
  | _, .testTimes => .number 1
  | _, _ => .number 0

/-- The settings a program has. The parameters of the player have no pixel format. -/
def Tool.settings : Tool → List Setting
  | decoder => [.intputFile, .outputFile, .codecType, .pixelFormat, .srcW, .srcH, .testWay,
      .testTimes]
  | encoder => [.intputFile, .outputFile, .codecType, .pixelFormat, .srcW, .srcH, .frameCount,
      .bitRate, .testWay, .testTimes]
  | player => [.intputFile, .outputFile, .codecType, .srcW, .srcH, .testWay, .testTimes, .testCmd]

/-- An option and its value, `argv[i]` and `argv[i + 1]`. -/
abbrev Pair := List Byte × List Byte

/-- The loop of `main` over the pairs. -/
def finalSettings (t : Tool) (sdk : Sdk) (ps : List Pair) : Option Settings :=
  ps.foldlM (fun s p => parseArguType t s p.1 p.2) (t.defaults sdk)

variable (t : Tool) (sdk : Sdk)

def optionOf (p : Pair) : ArguType := getArguType t p.1

/-- The value of the last occurrence of an option. -/
def lastValue (a : ArguType) (ps : List Pair) : Option (List Byte) :=
  (lastOf (optionOf t) a ps).map (·.2)

/-- The value a setting is to have: that of the last occurrence of its option, or its default. -/
def Wanted (ps : List Pair) (f : Setting) (v : Value) : Prop :=
  match lastValue t f.option ps with
  | some value => f.conversion.read value = some v
  | none => v = t.defaults sdk f

/-- Every setting ends with the value it is to have. -/
def Settled (ps : List Pair) : Prop :=
  ∀ s, finalSettings t sdk ps = some s → ∀ f ∈ t.settings, Wanted t sdk ps f (s f)

/-- Pairs of different options may change places. -/
def Reorderable (ps : List Pair) : Prop :=
  ∀ ps', Reordered (optionOf t) (· ≠ .invalid) ps ps' →
    finalSettings t sdk ps' = finalSettings t sdk ps

/-- The options whose case stores to the setting of another one. -/
def Tool.spills : Tool → List (ArguType × Setting)
  | decoder | encoder => [(.testWay, .testTimes)]
  | player => [(.testWay, .testTimes), (.srcH, .srcW)]

/-- The settings that no case stores to. -/
def Tool.unset : Tool → List Setting
  | decoder | encoder => []
  | player => [.srcH]

/-- The program prints its usage, or the last value of every number option is a number, where a
case stores to another option's setting it is the number that setting is to have, and where no case
stores to the setting it is the default. -/
def Undisturbed (ps : List Pair) : Prop :=
  (∃ p ∈ ps, optionOf t p = .help) ∨
    (∀ f ∈ t.settings, ∀ value, lastValue t f.option ps = some value →
      (f.conversion.read value).isSome) ∧
    (∀ c ∈ t.spills, ∀ value, lastValue t c.1 ps = some value →
      ∀ v, c.2.conversion.read value = some v → Wanted t sdk ps c.2 v) ∧
    ∀ f ∈ t.unset, ∀ value, lastValue t f.option ps = some value →
      f.conversion.read value = some (t.defaults sdk f)

theorem settings_of_cases {t : Tool} {a : ArguType} {f : Setting} (h : f ∈ t.cases a) :
    f ∈ t.settings ∧ (a = f.option ∨ (a, f) ∈ t.spills) := by
  have hall : ∀ g ∈ t.cases a, g ∈ t.settings ∧ (a = g.option ∨ (a, g) ∈ t.spills) := by
    cases t <;> cases a <;> decide
  exact hall f h

theorem cases_or_unset {t : Tool} {f : Setting} (h : f ∈ t.settings) :
    f ∈ t.cases f.option ∨ f ∈ t.unset := by
  have hall : ∀ g ∈ t.settings, g ∈ t.cases g.option ∨ g ∈ t.unset := by cases t <;> decide
  exact hall f h

theorem not_cases_of_unset {t : Tool} {f : Setting} (h : f ∈ t.unset) (a : ArguType) :
    f ∉ t.cases a := by
  have hall : ∀ g ∈ t.unset, g ∉ t.cases a := by cases t <;> cases a <;> decide
  exact hall f h

theorem unset_subset {t : Tool} {f : Setting} (h : f ∈ t.unset) : f ∈ t.settings := by
  have hall : ∀ g ∈ t.unset, g ∈ t.settings := by cases t <;> decide
  exact hall f h

/-- An option that spills is that of a number setting too. -/
theorem exists_of_spills {t : Tool} {c : ArguType × Setting} (h : c ∈ t.spills) :
    c.2 ∈ t.cases c.1 ∧ c.2.conversion ≠ .word ∧
      ∃ g ∈ t.settings, g.option = c.1 ∧ g.conversion ≠ .word := by
  have hall : ∀ d ∈ t.spills, d.2 ∈ t.cases d.1 ∧ d.2.conversion ≠ .word ∧
      ∃ g ∈ t.settings, g.option = d.1 ∧ g.conversion ≠ .word := by cases t <;> decide
  exact hall c h

variable {t : Tool} {sdk : Sdk} {ps ps' : List Pair} {f : Setting} {s : Settings}

/-- What a pair stores to a setting, if it does. -/
def stored (t : Tool) (f : Setting) (p : Pair) : Option Value :=
  if f ∈ t.cases (optionOf t p) then f.conversion.read p.2 else none

/-- The effect of a pair that is no call for help. -/
def applyPair (t : Tool) (s : Settings) (p : Pair) : Settings :=
  (t.cases (optionOf t p)).foldl (scanSetting p.2) s

theorem scanSetting_apply (value : List Byte) (s : Settings) (g f : Setting) :
    scanSetting value s g f = if f = g then (f.conversion.read value).getD (s f) else s f := by
  unfold scanSetting
  by_cases hfg : f = g
  · subst hfg
    rw [if_pos rfl]
    cases f.conversion.read value with
    | none => rfl
    | some v => exact Function.update_self f v s
  · rw [if_neg hfg]
    cases g.conversion.read value with
    | none => rfl
    | some v => exact Function.update_of_ne hfg v s

theorem foldl_scanSetting_apply (value : List Byte) (l : List Setting) (s : Settings)
    (f : Setting) : l.foldl (scanSetting value) s f =
      if f ∈ l then (f.conversion.read value).getD (s f) else s f := by
  induction l generalizing s with
  | nil => rfl
  | cons g l ih =>
    rw [List.foldl_cons, ih, scanSetting_apply]
    cases f.conversion.read value <;> grind

theorem applyPair_apply (t : Tool) (s : Settings) (p : Pair) :
    applyPair t s p f = (stored t f p).getD (s f) := by
  rw [applyPair, foldl_scanSetting_apply, stored]
  split <;> rfl

theorem parseArguType_eq (t : Tool) (s : Settings) (p : Pair) : parseArguType t s p.1 p.2 =
    if optionOf t p = .help then none else some (applyPair t s p) := by
  unfold parseArguType
  split
  · next h => exact (if_pos h).symm
  · next h => exact (if_neg h).symm

/-- The program goes on to its test exactly when there is no call for help. -/
theorem finalSettings_eq (t : Tool) (sdk : Sdk) (ps : List Pair) : finalSettings t sdk ps =
    if ps.any (optionOf t · = .help) then none
    else some (ps.foldl (applyPair t) (t.defaults sdk)) := by
  rw [finalSettings]
  generalize t.defaults sdk = s
  induction ps generalizing s with
  | nil => rfl
  | cons p ps ih =>
    rw [List.foldlM_cons, parseArguType_eq, List.any_cons]
    by_cases hp : optionOf t p = .help
    · rw [if_pos hp, decide_eq_true hp]
      rfl
    · rw [if_neg hp, decide_eq_false hp, Bool.false_or]
      exact ih (applyPair t s p)

theorem finalSettings_eq_none_iff :
    finalSettings t sdk ps = none ↔ ∃ p ∈ ps, optionOf t p = .help := by
  have hany : ps.any (optionOf t · = .help) = true ↔ ∃ p ∈ ps, optionOf t p = .help := by
    simp
  rw [finalSettings_eq, ← hany]
  split
  · next h => exact ⟨fun _ => h, fun _ => rfl⟩
  · next h => exact ⟨fun hnone => (nomatch hnone), fun hhelp => absurd hhelp h⟩

theorem finalSettings_apply (h : finalSettings t sdk ps = some s) (f : Setting) :
    s f = lastWrite (stored t f) (t.defaults sdk f) ps := by
  rw [finalSettings_eq] at h
  split at h
  · cases h
  · rw [← Option.some.inj h]
    exact @view_foldl _ _ _ (applyPair t) (fun s => s f) _ (applyPair_apply t) _ ps

theorem lastValue_of_reordered {a : ArguType} (h : Reordered (optionOf t) (· ≠ .invalid) ps ps')
    (ha : a ≠ .invalid) : lastValue t a ps' = lastValue t a ps := by
  rw [lastValue, lastValue, h.lastOf_eq ha]

theorem option_ne_invalid (f : Setting) : f.option ≠ .invalid := by cases f <;> decide

theorem wanted_of_reordered (h : Reordered (optionOf t) (· ≠ .invalid) ps ps') (f : Setting)
    (v : Value) : Wanted t sdk ps' f v ↔ Wanted t sdk ps f v := by
  rw [Wanted, Wanted, lastValue_of_reordered h (option_ne_invalid f)]

/-- No setting is to have two values. -/
theorem Wanted.unique {v w : Value} (hv : Wanted t sdk ps f v) (hw : Wanted t sdk ps f w) :
    v = w := by
  unfold Wanted at hv hw
  split at hv
  · next value hlast =>
    rw [hlast] at hw
    exact Option.some.inj (hv.symm.trans hw)
  · next hlast =>
    rw [hlast] at hw
    exact hv.trans hw.symm

/-! ## When every setting is as asked -/

theorem mem_of_lastValue {a : ArguType} {value : List Byte} (h : lastValue t a ps = some value) :
    ∃ p, lastOf (optionOf t) a ps = some p ∧ p.2 = value := by
  rw [lastValue, Option.map_eq_some_iff] at h
  exact h

/-- A number is read for one number setting exactly when it is for another. -/
theorem isSome_read_iff {c d : Conversion} (hc : c ≠ .word) (hd : d ≠ .word) (value : List Byte) :
    (c.read value).isSome ↔ (d.read value).isSome := by
  cases c <;> cases d <;> simp_all [Conversion.read]

theorem cases_of_stored {p : Pair} {v : Value} (h : stored t f p = some v) :
    f ∈ t.cases (optionOf t p) ∧ f.conversion.read p.2 = some v := by
  unfold stored at h
  split at h
  · next hcase => exact ⟨hcase, h⟩
  · cases h

/-- Behind a pair that stores to a setting last, its option does not occur again. -/
theorem lastValue_of_stored {p : Pair} {v : Value} {l₁ l₂ : List Pair}
    (hread : ∀ g ∈ t.settings, ∀ value, lastValue t g.option (l₁ ++ p :: l₂) = some value →
      (g.conversion.read value).isSome)
    (hstored : stored t f p = some v) (hnone : ∀ q ∈ l₂, stored t f q = none) :
    lastValue t (optionOf t p) (l₁ ++ p :: l₂) = some p.2 := by
  have hcase := (cases_of_stored hstored).1
  rw [lastValue, lastOf_eq_of_writes hnone, Option.map_some]
  intro c hc
  have hvalue : lastValue t (optionOf t p) (l₁ ++ p :: l₂) = some c.2 := by
    rw [lastValue, hc, Option.map_some]
  rw [stored, key_of_lastOf hc, if_pos hcase, ← Option.isSome_iff_ne_none]
  obtain ⟨hf, hown | hspill⟩ := settings_of_cases hcase
  · exact hread f hf c.2 (hown ▸ hvalue)
  · obtain ⟨-, hword, g, hg, hoption, hgword⟩ := exists_of_spills hspill
    exact (isSome_read_iff hgword hword c.2).mp (hread g hg c.2 (hoption ▸ hvalue))

/-- A command line without a disturbance gives every setting its value. -/
theorem settled_of_undisturbed (h : Undisturbed t sdk ps) : Settled t sdk ps := by
  intro s hs f hf
  rcases h with hhelp | ⟨hread, hspill, hunset⟩
  · rw [finalSettings_eq_none_iff.mpr hhelp] at hs
    cases hs
  · rw [finalSettings_apply hs f]
    rcases lastWrite_cases (stored t f) (t.defaults sdk f) ps with
      ⟨hdefault, hnone⟩ | ⟨l₁, p, l₂, hps, hp, hnone⟩
    · rw [hdefault]
      unfold Wanted
      split
      · next value hvalue =>
        rcases cases_or_unset hf with hcase | hunsetf
        · obtain ⟨p, hlast, rfl⟩ := mem_of_lastValue hvalue
          have hnot := hnone p (mem_of_lastOf hlast)
          rw [stored, key_of_lastOf hlast, if_pos hcase] at hnot
          have hsome := hread f hf p.2 hvalue
          rw [hnot] at hsome
          cases hsome
        · exact hunset f hunsetf value hvalue
      · rfl
    · subst hps
      have hvalue := lastValue_of_stored hread hp hnone
      obtain ⟨hcase, hread⟩ := cases_of_stored hp
      rcases (settings_of_cases hcase).2 with hown | hspilled
      · unfold Wanted
        rw [← hown, hvalue]
        exact hread
      · exact hspill _ hspilled p.2 hvalue _ hread

theorem spills_ne_invalid {c : ArguType × Setting} (h : c ∈ t.spills) : c.1 ≠ .invalid := by
  obtain ⟨-, -, g, -, hoption, -⟩ := exists_of_spills h
  exact hoption ▸ option_ne_invalid g

theorem undisturbed_of_reordered (h : Reordered (optionOf t) (· ≠ .invalid) ps ps')
    (hps : Undisturbed t sdk ps) : Undisturbed t sdk ps' := by
  rcases hps with ⟨p, hp, hhelp⟩ | ⟨hread, hspill, hunset⟩
  · exact .inl ⟨p, h.1.mem_iff.mp hp, hhelp⟩
  · refine .inr ⟨fun f hf value hvalue => ?_, fun c hc value hvalue v hv => ?_,
      fun f hf value hvalue => ?_⟩
    · rw [lastValue_of_reordered h (option_ne_invalid f)] at hvalue
      exact hread f hf value hvalue
    · rw [lastValue_of_reordered h (spills_ne_invalid hc)] at hvalue
      exact (wanted_of_reordered h c.2 v).mpr (hspill c hc value hvalue v hv)
    · rw [lastValue_of_reordered h (option_ne_invalid f)] at hvalue
      exact hunset f hf value hvalue

/-- A field no option is for keeps its default. -/
theorem finalSettings_of_not_setting (h : finalSettings t sdk ps = some s) (hf : f ∉ t.settings) :
    s f = t.defaults sdk f := by
  rw [finalSettings_apply h f]
  rcases lastWrite_cases (stored t f) (t.defaults sdk f) ps with ⟨hdefault, -⟩ | ⟨_, p, _, _, hp, _⟩
  · exact hdefault
  · exact absurd (settings_of_cases (cases_of_stored hp).1).1 hf

theorem reorderable_of_undisturbed (h : Undisturbed t sdk ps) : Reorderable t sdk ps := by
  intro ps' hre
  cases hs : finalSettings t sdk ps with
  | none =>
    obtain ⟨p, hp, hhelp⟩ := finalSettings_eq_none_iff.mp hs
    exact finalSettings_eq_none_iff.mpr ⟨p, hre.1.mem_iff.mp hp, hhelp⟩
  | some s =>
    cases hs' : finalSettings t sdk ps' with
    | none =>
      obtain ⟨p, hp, hhelp⟩ := finalSettings_eq_none_iff.mp hs'
      rw [finalSettings_eq_none_iff.mpr ⟨p, hre.1.mem_iff.mpr hp, hhelp⟩] at hs
      cases hs
    | some s' =>
      congr 1
      funext f
      by_cases hf : f ∈ t.settings
      · have hw' := settled_of_undisturbed (undisturbed_of_reordered hre h) s' hs' f hf
        exact ((wanted_of_reordered hre f _).mp hw').unique (settled_of_undisturbed h s hs f hf)
      · rw [finalSettings_of_not_setting hs hf, finalSettings_of_not_setting hs' hf]

/-- A value that spills reaches the other option's setting when its pair is moved to the end. -/
theorem finalSettings_of_spill {c : ArguType × Setting} (hc : c ∈ t.spills) {value : List Byte}
    (hvalue : lastValue t c.1 ps = some value) {v : Value}
    (hv : c.2.conversion.read value = some v) (hre : Reorderable t sdk ps)
    (hs : finalSettings t sdk ps = some s) : s c.2 = v := by
  obtain ⟨p, hlast, rfl⟩ := mem_of_lastValue hvalue
  have hmoved : Reordered (optionOf t) (· ≠ .invalid) ps
      (ps.filter (optionOf t · ≠ c.1) ++ ps.filter (optionOf t · = c.1)) :=
    reordered_partition (· ≠ .invalid) c.1 ps
  rw [← hre _ hmoved] at hs
  rw [finalSettings_apply hs]
  apply lastWrite_of_getLast? (a := p)
  · have hend : (ps.filter (optionOf t · = c.1)).getLast? = some p := hlast
    rw [List.getLast?_append, hend]
    rfl
  · rw [stored, key_of_lastOf hlast, if_pos (exists_of_spills hc).1, hv]

theorem undisturbed_of_settled (hsettled : Settled t sdk ps) (hre : Reorderable t sdk ps) :
    Undisturbed t sdk ps := by
  cases hs : finalSettings t sdk ps with
  | none => exact .inl (finalSettings_eq_none_iff.mp hs)
  | some s =>
    have hwanted := hsettled s hs
    have hown : ∀ f ∈ t.settings, ∀ value, lastValue t f.option ps = some value →
        f.conversion.read value = some (s f) := by
      intro f hf value hvalue
      have hw := hwanted f hf
      rwa [Wanted, hvalue] at hw
    refine .inr ⟨fun f hf value hvalue => ?_, fun c hc value hvalue v hv => ?_,
      fun f hf value hvalue => ?_⟩
    · rw [hown f hf value hvalue]
      rfl
    · rw [← finalSettings_of_spill hc hvalue hv hre hs]
      exact hwanted c.2 (settings_of_cases (exists_of_spills hc).1).1
    · rw [hown f (unset_subset hf) value hvalue, finalSettings_apply hs f]
      rcases lastWrite_cases (stored t f) (t.defaults sdk f) ps with
        ⟨hdefault, -⟩ | ⟨_, p, _, _, hp, _⟩
      · rw [hdefault]
      · exact absurd (cases_of_stored hp).1 (not_cases_of_unset hf _)

/-- The settings are those the options ask for, in whatever order the options come, exactly when
nothing on the command line meets the case without a `break` or the one with the wrong field. -/
theorem settled_reorderable_iff (t : Tool) (sdk : Sdk) (ps : List Pair) :
    Settled t sdk ps ∧ Reorderable t sdk ps ↔ Undisturbed t sdk ps :=
  ⟨fun h => undisturbed_of_settled h.1 h.2,
    fun h => ⟨settled_of_undisturbed h, reorderable_of_undisturbed h⟩⟩

def noSdk : Sdk := ⟨0, 0, 0, 0, 0, 0⟩

/-- `-w 5` -/
def testWayFive : List Pair := [(bytes "-w", bytes "5")]

/-- A test way of 5 makes the decoder test run five times. -/
theorem testWayFive_not_settled :
    ¬ ∀ t sdk ps, Settled t sdk ps ∧ Reorderable t sdk ps := by
  intro h
  have hrun : (finalSettings .decoder noSdk testWayFive).map (· .testTimes) =
      some (.number 5) := by decide
  have hunused : lastValue .decoder .testTimes testWayFive = none := by decide
  obtain ⟨s, hs, htimes⟩ := Option.map_eq_some_iff.mp hrun
  have hwanted := (h .decoder noSdk testWayFive).1 s hs .testTimes (by decide)
  have hdefault : s .testTimes = Tool.defaults noSdk .decoder .testTimes := by
    unfold Wanted at hwanted
    simpa only [Setting.option, hunused] using hwanted
  rw [htimes] at hdefault
  exact absurd hdefault (by decide)

end BoardTest.Video.Arguments
