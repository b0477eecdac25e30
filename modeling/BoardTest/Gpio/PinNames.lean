import BoardTest.Lib.Numerals
import Mathlib.Data.List.DropRight

/-!
# Pin names of the GPIO test

`parse_pin` of `forlinx_cmd/lctest_gpio.sh` turns a pin name of one of two naming schemes (`PB4` on
Allwinner boards, `GPIO1_B2` on Rockchip boards) into the number under which the
kernel exports the pin. A name is followed from its text to the pin it names, digits read in
decimal, and to the pin the shell's arithmetic reads, and the numbers of two names are compared.
-/

namespace BoardTest.Gpio

open Numeral

/-- An argument that `echo` takes as an option: a dash and letters of `n`, `e` and `E`. -/
def isEchoOption : List Byte → Bool
  | 45 :: o :: os => (o :: os).all fun b => b = 110 ∨ b = 101 ∨ b = 69
  | _ => false

/-- `echo "$s"` -/
def echo (s : List Byte) : List Byte :=
  if isEchoOption s then if 110 ∈ s then [] else [10] else s ++ [10]

/-- `$(...)`: the output without the newlines at its end. -/
def commandSubst (output : List Byte) : List Byte := output.rdropWhile (· = 10)

def upper (b : Byte) : Byte := if 97 ≤ b ∧ b ≤ 122 then b - 32 else b

/-- `tr '[:lower:]' '[:upper:]'` -/
def trUpper (s : List Byte) : List Byte := s.map upper

/-- `[:alnum:]` -/
def isAlnum (b : Byte) : Bool := isDigit b ∨ 65 ≤ b ∧ b ≤ 90 ∨ 97 ≤ b ∧ b ≤ 122

/-- `[:alnum:]_` -/
def isAlnumOrUnderscore (b : Byte) : Bool := isAlnum b ∨ b = 95

/-- What the functions write to the standard error before they return 1. -/
inductive PinError
  /-- lines 98 and 128 -/
  | badGroup (group name : List Byte)
  /-- line 104 -/
  | notANumber (pinNum : List Byte)
  /-- line 135 -/
  | badRockchip (name : List Byte)
  /-- line 149 -/
  | unknown (name : List Byte)
  /-- A constant the arithmetic of lines 108 and 133 refuses, with a message of the shell. -/
  | badConstant
  deriving DecidableEq, Repr

def PinError.text : PinError → List Byte
  | badGroup group name => bytes "错误: 无效的引脚组 '" ++ group ++ bytes "' (解析自 '" ++ name ++ bytes "')"
  | notANumber pinNum => bytes "错误: 引脚编号 '" ++ pinNum ++ bytes "' 不是数字"
  | badRockchip name => bytes "错误: 瑞芯微引脚格式错误 '" ++ name ++ bytes "'，应为 GPIO0_PA0 格式"
  | unknown name => bytes "错误: 无法识别引脚格式 '" ++ name ++ bytes "'"
  | badConstant => []

/-- `case "$group"`, lines 87-101. -/
def allwinnerGroup : List Byte → Option Nat
  | [65] => some 0
  | [66] => some 1
  | [67] => some 2
  | [68] => some 3
  | [69] => some 4
  | [70] => some 5
  | [71] => some 6
  | [72] => some 7
  | [73] => some 8
  | _ => none

/-- `case "$group"`, lines 122-131. -/
def rockchipGroup : List Byte → Option Nat
  | [65] => some 0
  | [66] => some 1
  | [67] => some 2
  | [68] => some 3
  | _ => none

/-- The value of a variable in `$((...))`. -/
def arithValue (v : List Byte) : Except PinError Int64 :=
  match shellConstant v with
  | some n => .ok n
  | none => .error .badConstant

/-- `parse_allwinner_pin`, lines 74-109. -/
def parseAllwinnerPin (name : List Byte) : Except PinError Int64 :=
  let pin := commandSubst (trUpper ((echo name).filter isAlnum))
  let pin := if pin.head? = some 80 then pin.drop 1 else pin
  let group := pin.take 1
  let pinNum := pin.drop 1
  match allwinnerGroup group with
  | none => .error (.badGroup group name)
  | some groupNum =>
    if IsNumeral pinNum then do
      let n ← arithValue pinNum
      return Int64.ofNat groupNum * 32 + n
    else .error (.notANumber pinNum)

/-- `^GPIO([0-9]+)_([A-D])([0-9]+)$`: the groups of a match. -/
def matchRockchip : List Byte → Option (List Byte × Byte × List Byte)
  | 71 :: 80 :: 73 :: 79 :: t =>
    match t.dropWhile isDigit with
    | 95 :: group :: num =>
      if t.takeWhile isDigit ≠ [] ∧ (65 ≤ group ∧ group ≤ 68) ∧ IsNumeral num then
        some (t.takeWhile isDigit, group, num)
      else none
    | _ => none
  | _ => none

/-- `^P[A-I][0-9]+$` -/
def matchAllwinner : List Byte → Bool
  | 80 :: group :: num => (65 ≤ group ∧ group ≤ 73) ∧ IsNumeral num
  | _ => false

/-- `parse_rockchip_pin`, lines 111-138. -/
def parseRockchipPin (name : List Byte) : Except PinError Int64 :=
  let pin := commandSubst (trUpper ((echo name).filter isAlnumOrUnderscore))
  match matchRockchip pin with
  | none => .error (.badRockchip name)
  | some (ctrl, group, pinNum) =>
    match rockchipGroup [group] with
    | none => .error (.badGroup [group] name)
    | some groupNum => do
      let c ← arithValue ctrl
      let n ← arithValue pinNum
      return c * 32 + Int64.ofNat groupNum * 8 + n

/-- `parse_pin`, lines 140-152. -/
def parsePin (name : List Byte) : Except PinError Int64 :=
  let pinUpper := commandSubst (trUpper (echo name))
  if (matchRockchip pinUpper).isSome then parseRockchipPin name
  else if matchAllwinner pinUpper then parseAllwinnerPin name
  else .error (.unknown name)

inductive Scheme
  | allwinner
  | rockchip
  deriving DecidableEq, Repr

def Scheme.lastGroup : Scheme → Byte
  | allwinner => 73
  | rockchip => 68

/-- How many numbers a group has, as the formulas of lines 108 and 133 count them. -/
def Scheme.stride : Scheme → Nat
  | allwinner => 32
  | rockchip => 8

structure Pin where
  controller : Nat
  group : Nat
  number : Nat
  deriving DecidableEq, Repr

/-- The parts of an upper case pin name. Allwinner names have no controller. -/
structure Written (s : Scheme) where
  ctrl : List Byte
  group : Byte
  num : List Byte
  ctrl_ok : match s with
    | .allwinner => ctrl = []
    | .rockchip => IsNumeral ctrl
  group_ok : 65 ≤ group ∧ group ≤ s.lastGroup
  num_ok : IsNumeral num

def Written.text : {s : Scheme} → Written s → List Byte
  | .allwinner, w => 80 :: w.group :: w.num
  | .rockchip, w => bytes "GPIO" ++ (w.ctrl ++ 95 :: w.group :: w.num)

variable {s : Scheme}

/-- The pin a name names: numbers are read in decimal. -/
def Written.named (w : Written s) : Pin :=
  ⟨numeral 10 w.ctrl, w.group.toNat - 65, numeral 10 w.num⟩

/-- The pin as the arithmetic of the shell reads it. -/
def Written.asRead (w : Written s) : Pin :=
  ⟨shellNumeral w.ctrl, w.group.toNat - 65, shellNumeral w.num⟩

/-- The place of a group among the groups of all controllers. -/
def Scheme.row : Scheme → Pin → Nat
  | allwinner, p => p.group
  | rockchip, p => p.controller * 4 + p.group

theorem allwinnerGroup_eq {g : Byte} (h : 65 ≤ g ∧ g ≤ 73) :
    allwinnerGroup [g] = some (g.toNat - 65) :=
  @forall_byte (fun g => 65 ≤ g ∧ g ≤ 73 → allwinnerGroup [g] = some (g.toNat - 65))
    (by decide +kernel) g h

theorem rockchipGroup_eq {g : Byte} (h : 65 ≤ g ∧ g ≤ 68) :
    rockchipGroup [g] = some (g.toNat - 65) :=
  @forall_byte (fun g => 65 ≤ g ∧ g ≤ 68 → rockchipGroup [g] = some (g.toNat - 65))
    (by decide +kernel) g h

theorem matchAllwinner_iff {t : List Byte} :
    matchAllwinner t = true ↔ ∃ w : Written .allwinner, w.text = t := by
  constructor
  · intro h
    unfold matchAllwinner at h
    split at h
    · next group num =>
      have hparts := of_decide_eq_true h
      exact ⟨⟨[], group, num, rfl, hparts.1, hparts.2⟩, rfl⟩
    · cases h
  · rintro ⟨w, rfl⟩
    exact decide_eq_true ⟨w.group_ok, w.num_ok⟩

theorem matchRockchip_text (w : Written .rockchip) :
    matchRockchip w.text = some (w.ctrl, w.group, w.num) := by
  have hctrl : IsNumeral w.ctrl := w.ctrl_ok
  have hunderscore : isDigit 95 = false := by decide
  have htext : w.text = 71 :: 80 :: 73 :: 79 :: (w.ctrl ++ 95 :: w.group :: w.num) := rfl
  rw [htext, matchRockchip, dropWhile_isDigit hctrl.2 hunderscore,
    takeWhile_isDigit hctrl.2 hunderscore]
  exact if_pos ⟨hctrl.1, w.group_ok, w.num_ok⟩

theorem exists_written_of_matchRockchip {t : List Byte} (h : (matchRockchip t).isSome) :
    ∃ w : Written .rockchip, w.text = t := by
  unfold matchRockchip at h
  split at h
  · next t =>
    split at h
    · next group num hrest =>
      split at h
      · next hparts =>
        have hctrl : IsNumeral (t.takeWhile isDigit) :=
          ⟨hparts.1, fun _ hb => List.mem_takeWhile_imp hb⟩
        refine ⟨⟨t.takeWhile isDigit, group, num, hctrl, hparts.2.1, hparts.2.2⟩, ?_⟩
        have ht : t.takeWhile isDigit ++ 95 :: group :: num = t := by
          rw [← hrest, List.takeWhile_append_dropWhile]
        show 71 :: 80 :: 73 :: 79 :: (t.takeWhile isDigit ++ 95 :: group :: num) = _
        rw [ht]
      · cases h
    · cases h
  · cases h

theorem upper_eq_newline_iff (b : Byte) : upper b = 10 ↔ b = 10 :=
  @forall_byte (fun b => upper b = 10 ↔ b = 10) (by decide +kernel) b

theorem isAlnum_upper (b : Byte) : isAlnum (upper b) = isAlnum b :=
  @forall_byte (fun b => isAlnum (upper b) = isAlnum b) (by decide +kernel) b

theorem isAlnumOrUnderscore_upper (b : Byte) :
    isAlnumOrUnderscore (upper b) = isAlnumOrUnderscore b :=
  @forall_byte (fun b => isAlnumOrUnderscore (upper b) = isAlnumOrUnderscore b)
    (by decide +kernel) b

theorem commandSubst_trUpper (t : List Byte) :
    commandSubst (trUpper t) = trUpper (commandSubst t) := by
  rw [commandSubst, commandSubst, List.rdropWhile, List.rdropWhile, trUpper, trUpper,
    ← List.map_reverse, List.dropWhile_map, ← List.map_reverse]
  congr 3
  funext b
  simp [upper_eq_newline_iff]

/-- What `tr -dc` keeps of a name is the name without newlines at its end, when that has no byte to
delete. -/
theorem commandSubst_filter {keep : Byte → Bool} (hkeep : ∀ b, keep (upper b) = keep b)
    (hnewline : keep 10 = false) {t text : List Byte} (htext : commandSubst (trUpper t) = text)
    (hall : ∀ b ∈ text, keep b = true) : commandSubst (trUpper (t.filter keep)) = text := by
  rw [commandSubst_trUpper] at htext
  have hkept : ∀ b ∈ commandSubst t, keep b = true := by
    intro b hb
    rw [← hkeep]
    exact hall _ (htext ▸ List.mem_map_of_mem hb)
  have hdeleted : ∀ b ∈ t.rtakeWhile (· = 10), ¬ keep b = true := by
    intro b hb
    obtain rfl : b = 10 := by simpa using List.mem_rtakeWhile_imp hb
    simp [hnewline]
  have hfilter : t.filter keep = commandSubst t := by
    conv => lhs; rw [← List.rdropWhile_append_rtakeWhile (p := (· = 10)) (l := t)]
    rw [List.filter_append, List.filter_eq_nil_iff.mpr hdeleted, List.append_nil]
    exact List.filter_eq_self.mpr hkept
  rw [hfilter, commandSubst_trUpper, ← htext, commandSubst, commandSubst,
    List.rdropWhile_idempotent]

theorem isAlnum_of_isDigit {b : Byte} (h : isDigit b = true) : isAlnum b = true := by
  simp [isAlnum, h]

theorem isAlnum_group (w : Written s) : isAlnum w.group = true := by
  have hlast : s.lastGroup ≤ 73 := by cases s <;> decide
  exact @forall_byte (fun g => 65 ≤ g ∧ g ≤ 73 → isAlnum g = true) (by decide +kernel) w.group
    ⟨w.group_ok.1, UInt8.le_trans w.group_ok.2 hlast⟩

/-- The number without a bound on the word. -/
def Scheme.gpio (s : Scheme) (p : Pin) : Nat := s.row p * s.stride + p.number

theorem parseAllwinnerPin_eq (w : Written .allwinner) {name : List Byte}
    (h : commandSubst (trUpper (echo name)) = w.text) :
    parseAllwinnerPin name =
      (arithValue w.num).map (Int64.ofNat (w.group.toNat - 65) * 32 + ·) := by
  have hclean : commandSubst (trUpper ((echo name).filter isAlnum)) = w.text := by
    apply commandSubst_filter isAlnum_upper (by decide) h
    rintro b (_ | ⟨_, _ | ⟨_, hb⟩⟩)
    · decide
    · exact isAlnum_group w
    · exact isAlnum_of_isDigit (w.num_ok.2 b hb)
  have htext : w.text = 80 :: w.group :: w.num := rfl
  rw [parseAllwinnerPin, hclean, htext]
  simp only [List.head?_cons, if_true, List.drop_succ_cons, List.drop_zero, List.take_succ_cons,
    List.take_zero, allwinnerGroup_eq w.group_ok, if_pos w.num_ok]
  cases arithValue w.num <;> rfl

theorem parseRockchipPin_eq (w : Written .rockchip) {name : List Byte}
    (h : commandSubst (trUpper (echo name)) = w.text) :
    parseRockchipPin name = (arithValue w.ctrl).bind fun c => (arithValue w.num).map
      (c * 32 + Int64.ofNat (w.group.toNat - 65) * 8 + ·) := by
  have hctrl : IsNumeral w.ctrl := w.ctrl_ok
  have hclean : commandSubst (trUpper ((echo name).filter isAlnumOrUnderscore)) = w.text := by
    apply commandSubst_filter isAlnumOrUnderscore_upper (by decide) h
    have halnum {b : Byte} (hb : isAlnum b = true) : isAlnumOrUnderscore b = true := by
      simp [isAlnumOrUnderscore, hb]
    have hgpio : ∀ b ∈ bytes "GPIO", isAlnumOrUnderscore b = true := by decide +kernel
    intro b hb
    rcases List.mem_append.mp hb with hb | hb
    · exact hgpio b hb
    · rcases List.mem_append.mp hb with hb | _ | ⟨_, _ | ⟨_, hb⟩⟩
      · exact halnum (isAlnum_of_isDigit (hctrl.2 b hb))
      · decide
      · exact halnum (isAlnum_group w)
      · exact halnum (isAlnum_of_isDigit (w.num_ok.2 b hb))
  rw [parseRockchipPin, hclean]
  simp only [matchRockchip_text, rockchipGroup_eq w.group_ok]
  cases arithValue w.ctrl with
  | error e => rfl
  | ok c => cases arithValue w.num <;> rfl

/-- A name that `parse_pin` of the script accepts, with the number it prints for it. -/
structure AcceptedPin (s : Scheme) where
  name : List Byte
  written : Written s
  gpio : Int64
  /-- upper case, without newlines at the end -/
  spells : commandSubst (trUpper (echo name)) = written.text
  accepted : parsePin name = .ok gpio

/-- Every accepted name belongs to one of the schemes. -/
theorem exists_acceptedPin {name : List Byte} {n : Int64} (h : parsePin name = .ok n) :
    ∃ (s : Scheme) (a : AcceptedPin s), a.name = name ∧ a.gpio = n := by
  have hparse := h
  rw [parsePin] at h
  split at h
  · next hrockchip =>
    obtain ⟨w, hw⟩ := exists_written_of_matchRockchip hrockchip
    exact ⟨.rockchip, ⟨name, w, n, hw.symm, hparse⟩, rfl, rfl⟩
  · split at h
    · next hallwinner =>
      obtain ⟨w, hw⟩ := matchAllwinner_iff.mp hallwinner
      exact ⟨.allwinner, ⟨name, w, n, hw.symm, hparse⟩, rfl, rfl⟩
    · cases h

theorem ofNat_of_arithValue {ds : List Byte} {v : Int64} (h : arithValue ds = .ok v) :
    v = Int64.ofNat (shellNumeral ds) := by
  unfold arithValue at h
  split at h
  · next n hn =>
    cases h
    exact eq_of_shellConstant hn
  · cases h

theorem ofNat_of_parseAllwinnerPin (w : Written .allwinner) {name : List Byte} {n : Int64}
    (hspells : commandSubst (trUpper (echo name)) = w.text) (h : parseAllwinnerPin name = .ok n) :
    n = Int64.ofNat (Scheme.allwinner.gpio w.asRead) := by
  rw [parseAllwinnerPin_eq w hspells] at h
  cases hnum : arithValue w.num with
  | error e => rw [hnum] at h; cases h
  | ok v =>
    rw [hnum] at h
    cases h
    show Int64.ofNat (w.group.toNat - 65) * 32 + v = _
    rw [ofNat_of_arithValue hnum, Scheme.gpio, Int64.ofNat_add, Int64.ofNat_mul]
    rfl

theorem ofNat_of_parseRockchipPin (w : Written .rockchip) {name : List Byte} {n : Int64}
    (hspells : commandSubst (trUpper (echo name)) = w.text) (h : parseRockchipPin name = .ok n) :
    n = Int64.ofNat (Scheme.rockchip.gpio w.asRead) := by
  rw [parseRockchipPin_eq w hspells] at h
  cases hctrl : arithValue w.ctrl with
  | error e => rw [hctrl] at h; cases h
  | ok c =>
    cases hnum : arithValue w.num with
    | error e => rw [hctrl, hnum] at h; cases h
    | ok v =>
      rw [hctrl, hnum] at h
      cases h
      have hsum : Scheme.rockchip.gpio w.asRead =
          shellNumeral w.ctrl * 32 + (w.group.toNat - 65) * 8 + shellNumeral w.num := by
        simp only [Scheme.gpio, Scheme.row, Scheme.stride, Written.asRead]
        omega
      show c * 32 + Int64.ofNat (w.group.toNat - 65) * 8 + v = _
      rw [ofNat_of_arithValue hctrl, ofNat_of_arithValue hnum, hsum, Int64.ofNat_add,
        Int64.ofNat_add, Int64.ofNat_mul, Int64.ofNat_mul]
      rfl

/-- The number of a name is that of the pin the shell reads, in one word. -/
theorem AcceptedPin.gpio_eq (a : AcceptedPin s) :
    a.gpio = Int64.ofNat (s.gpio a.written.asRead) := by
  obtain ⟨name, w, n, hspells, haccepted⟩ := a
  rw [parsePin, hspells] at haccepted
  cases s with
  | allwinner =>
    have hother : matchRockchip w.text = none := rfl
    have hown : matchAllwinner w.text = true := matchAllwinner_iff.mpr ⟨w, rfl⟩
    rw [hother, hown] at haccepted
    exact ofNat_of_parseAllwinnerPin w hspells haccepted
  | rockchip =>
    rw [matchRockchip_text] at haccepted
    exact ofNat_of_parseRockchipPin w hspells haccepted

/-! ## Two names -/

/-- Two pins share a number: they are on the same line of their groups, and their groups have the
same place once a pin number past the end of a group has been carried into the groups behind it.
Places are told apart as far as a word of 64 bits goes. -/
def Scheme.Overlap (s : Scheme) (p q : Pin) : Prop :=
  p.number % s.stride = q.number % s.stride ∧
    s.row p + p.number / s.stride ≡ s.row q + q.number / s.stride [MOD 2 ^ 64 / s.stride]

theorem AcceptedPin.gpio_eq_iff (a b : AcceptedPin s) :
    a.gpio = b.gpio ↔ s.Overlap a.written.asRead b.written.asRead := by
  have hpos : 0 < s.stride := by cases s <;> decide
  have hword : s.stride * (2 ^ 64 / s.stride) = 2 ^ 64 := by cases s <;> rfl
  rw [a.gpio_eq, b.gpio_eq, ofNat_eq_iff, ← hword]
  exact strided_modEq_iff hpos

/-- Names of different pins get different numbers exactly when the pins the shell reads from them
do not overlap. -/
theorem AcceptedPin.gpio_ne_iff (a b : AcceptedPin s) :
    (a.written.named ≠ b.written.named → a.gpio ≠ b.gpio) ↔
      (a.written.named ≠ b.written.named →
        ¬ s.Overlap a.written.asRead b.written.asRead) := by
  rw [Ne, Ne, a.gpio_eq_iff b]

/-- `PA010` is read as pin 8 of its group. -/
def pa010 : AcceptedPin .allwinner :=
  ⟨bytes "PA010", ⟨[], 65, bytes "010", rfl, by decide, by decide⟩, 8, by decide,
    by decide +kernel⟩

def pa8 : AcceptedPin .allwinner :=
  ⟨bytes "PA8", ⟨[], 65, bytes "8", rfl, by decide, by decide⟩, 8, by decide,
    by decide +kernel⟩

/-- Two names of different pins with one number. -/
theorem leadingZero_shares_number : ¬ ∀ (s : Scheme) (a b : AcceptedPin s),
    a.written.named ≠ b.written.named → a.gpio ≠ b.gpio := by
  intro h
  exact h .allwinner pa010 pa8 (by decide) rfl

example : parsePin (bytes "PA32") = parsePin (bytes "PB0") := by decide +kernel

/-- No leading zeros, a pin number inside the group and a controller inside the word. -/
structure Written.Plain (w : Written s) : Prop where
  ctrl : ∀ t, w.ctrl = 48 :: t → t = []
  num : ∀ t, w.num = 48 :: t → t = []
  number_lt : w.named.number < s.stride
  controller_lt : w.named.controller < 2 ^ 59

theorem Written.asRead_eq_named {w : Written s} (h : w.Plain) : w.asRead = w.named := by
  rw [Written.asRead, Written.named, shellNumeral_eq_numeral h.ctrl, shellNumeral_eq_numeral h.num]

theorem Written.group_lt (w : Written s) : w.named.group < s.lastGroup.toNat - 64 := by
  have hfirst := UInt8.le_iff_toNat_le.mp w.group_ok.1
  have hlast := UInt8.le_iff_toNat_le.mp w.group_ok.2
  have h65 : (65 : Byte).toNat = 65 := rfl
  rw [h65] at hfirst
  show w.group.toNat - 65 < _
  omega

/-- The place of a group tells the controller and the group. -/
theorem Written.eq_of_row_eq {v w : Written s} (h : s.row v.named = s.row w.named) :
    v.named.controller = w.named.controller ∧ v.named.group = w.named.group := by
  cases s with
  | allwinner =>
    have hctrl (w : Written .allwinner) : w.ctrl = [] := w.ctrl_ok
    exact ⟨by rw [Written.named, Written.named, hctrl v, hctrl w], h⟩
  | rockchip =>
    have hgroup (w : Written .rockchip) : w.named.group < 4 := w.group_lt
    have hv := hgroup v
    have hw := hgroup w
    rw [Scheme.row, Scheme.row] at h
    omega

theorem Written.row_lt {w : Written s} (h : w.Plain) : s.row w.named < 2 ^ 64 / s.stride := by
  have hctrl := h.controller_lt
  cases s with
  | allwinner =>
    have hgroup : w.named.group < 9 := w.group_lt
    show w.named.group < 2 ^ 64 / 32
    omega
  | rockchip =>
    have hgroup : w.named.group < 4 := w.group_lt
    show w.named.controller * 4 + w.named.group < 2 ^ 64 / 8
    omega

/-- Plainly written names of different pins get different numbers. -/
theorem AcceptedPin.gpio_ne_of_plain (a b : AcceptedPin s) (ha : a.written.Plain)
    (hb : b.written.Plain) (hne : a.written.named ≠ b.written.named) : a.gpio ≠ b.gpio := by
  rw [Ne, a.gpio_eq_iff b, Written.asRead_eq_named ha, Written.asRead_eq_named hb]
  rintro ⟨hline, hrow⟩
  rw [Nat.div_eq_of_lt ha.number_lt, Nat.div_eq_of_lt hb.number_lt] at hrow
  rw [Nat.mod_eq_of_lt ha.number_lt, Nat.mod_eq_of_lt hb.number_lt] at hline
  have hrows := hrow.eq_of_lt_of_lt (Written.row_lt ha) (Written.row_lt hb)
  obtain ⟨hctrl, hgroup⟩ := Written.eq_of_row_eq hrows
  apply hne
  rw [Pin.mk.injEq]
  exact ⟨hctrl, hgroup, hline⟩

end BoardTest.Gpio
