import BoardTest.Gpio.PinNames

/-!
# The names the help text documents

`show_help` of `lctest_gpio.sh` shows the two forms of a pin name, `PB4` and `GPIO0_PA0`, with the
number of the pin. The regular expressions for the second form leave out its `P`, so that no name of
it is accepted (`parsePin_rockchip`). Names of the first form are all accepted, but their digits are
a constant of shell arithmetic, in which a leading zero means octal (`numbered_iff`).
-/

namespace BoardTest.Gpio

open Numeral

/-- The pipeline of line 142 on a text that is more than options of `echo` and does not end in a
newline. -/
theorem commandSubst_trUpper_echo {name : List Byte} {b : Byte} {t : List Byte}
    (h : trUpper name = b :: t) (hdash : b ≠ 45) (hlast : ∀ hne, (b :: t).getLast hne ≠ 10) :
    commandSubst (trUpper (echo name)) = b :: t := by
  have hoption : isEchoOption name = false := by
    unfold isEchoOption
    split
    · rw [trUpper, List.map_cons, List.cons.injEq] at h
      exact absurd h.1.symm hdash
    · rfl
  have happend : trUpper (name ++ [10]) = (b :: t) ++ [10] := by
    rw [trUpper, List.map_append, ← trUpper, h]
    rfl
  rw [echo, hoption, if_neg Bool.false_ne_true, happend, commandSubst,
    List.rdropWhile_concat_pos _ _ _ (by decide), List.rdropWhile_eq_self_iff]
  simpa using hlast

/-- A name of the form `GPIO<c>_P<g><n>`, in letters of either case. -/
structure RockchipName where
  name : List Byte
  ctrl : List Byte
  group : Byte
  num : Byte
  ctrl_ok : IsNumeral ctrl
  group_ok : 65 ≤ group ∧ group ≤ 68
  num_ok : 48 ≤ num ∧ num ≤ 55
  spells : trUpper name = bytes "GPIO" ++ (ctrl ++ (bytes "_P" ++ [group, num]))

namespace RockchipName

variable (d : RockchipName)

/-- `GPIO号 = 控制器号*32 + 组号*8 + 引脚号` -/
def gpio : Nat := numeral 10 d.ctrl * 32 + (d.group.toNat - 65) * 8 + digitValue d.num

/-- `parse_pin` succeeds and prints the documented number. -/
def Printed : Prop := ∃ v, parsePin d.name = .ok v ∧ v.toInt = d.gpio

/-- No name has a match: both expressions go on from the underscore with a letter of `A` to `D`. -/
theorem matchRockchip_eq_none :
    matchRockchip (71 :: 80 :: 73 :: 79 :: (d.ctrl ++ 95 :: 80 :: [d.group, d.num])) = none := by
  have hunderscore : isDigit 95 = false := by decide
  rw [matchRockchip, dropWhile_isDigit d.ctrl_ok.2 hunderscore]
  exact if_neg fun h => absurd h.2.1.2 (by decide)

theorem parsePin_rockchip : parsePin d.name = .error (.unknown d.name) := by
  have hupper : commandSubst (trUpper (echo d.name)) =
      71 :: 80 :: 73 :: 79 :: (d.ctrl ++ 95 :: 80 :: [d.group, d.num]) := by
    apply commandSubst_trUpper_echo (d.spells.trans rfl) (by decide)
    intro hne hlast
    have hnum : d.num = 10 := by simpa [List.getLast_cons] using hlast
    exact absurd (hnum ▸ d.num_ok.1) (by decide)
  rw [parsePin, hupper, d.matchRockchip_eq_none]
  rfl

/-- No documented name of a Rockchip pin is accepted. -/
theorem not_printed : ¬ d.Printed := by
  rintro ⟨v, hv, -⟩
  rw [d.parsePin_rockchip] at hv
  cases hv

end RockchipName

/-- `GPIO0_PA0` of the help text. -/
def gpio0Pa0 : RockchipName where
  name := bytes "GPIO0_PA0"
  ctrl := [48]
  group := 65
  num := 48
  ctrl_ok := by decide
  group_ok := by decide
  num_ok := by decide
  spells := by decide +kernel

theorem gpio0Pa0_unknown : ¬ ∀ d : RockchipName, d.Printed := by
  intro h
  obtain ⟨v, hv, -⟩ := h gpio0Pa0
  have herror : parsePin gpio0Pa0.name = .error (.unknown gpio0Pa0.name) := by decide +kernel
  rw [herror] at hv
  cases hv

/-! ## Allwinner names -/

/-- A name of the form `P<g><digits>`, in letters of either case. -/
structure AllwinnerName where
  name : List Byte
  group : Byte
  digits : List Byte
  group_ok : 65 ≤ group ∧ group ≤ 73
  digits_ok : IsNumeral digits
  spells : trUpper name = 80 :: group :: digits

namespace AllwinnerName

variable (d : AllwinnerName)

/-- `GPIO号 = 组号 * 32 + 引脚号` -/
def gpio : Nat := (d.group.toNat - 65) * 32 + numeral 10 d.digits

/-- `parse_pin` prints the documented number or fails, and it fails only where the number does not
fit in 64 bits with a sign. -/
def Numbered : Prop :=
  (∀ v, parsePin d.name = .ok v → v.toInt = d.gpio) ∧
    (d.gpio < 2 ^ 63 → ∃ v, parsePin d.name = .ok v)

/-- Without a leading zero, a number that fits. With one, a number of a single octal digit behind
the zeros, or one that does not fit and has a digit that is not octal. -/
def Legible : Prop :=
  if d.digits.head? = some 48 then
    numeral 10 d.digits < 8 ∨ 2 ^ 63 ≤ d.gpio ∧ ∃ b ∈ d.digits, 8 ≤ digitValue b
  else d.gpio < 2 ^ 63

theorem parsePin_eq :
    parsePin d.name = (arithValue d.digits).map (Int64.ofNat (d.group.toNat - 65) * 32 + ·) := by
  let w : Written .allwinner := ⟨[], d.group, d.digits, rfl, d.group_ok, d.digits_ok⟩
  have hupper : commandSubst (trUpper (echo d.name)) = w.text := by
    apply commandSubst_trUpper_echo d.spells (by decide)
    intro hne hlast
    rw [List.getLast_cons (List.cons_ne_nil _ _), List.getLast_cons d.digits_ok.1] at hlast
    have hdigit := d.digits_ok.2 _ (List.getLast_mem d.digits_ok.1)
    rw [hlast] at hdigit
    exact absurd hdigit (by decide)
  have hother : matchRockchip w.text = none := rfl
  have hown : matchAllwinner w.text = true := matchAllwinner_iff.mpr ⟨w, rfl⟩
  rw [parsePin, hupper, hother, hown]
  exact parseAllwinnerPin_eq w hupper

/-- The digits are read as a number that is not too great. -/
theorem numbered_of_read {n : Nat} (hn : n ≤ numeral 10 d.digits)
    (h : shellConstant d.digits = some (Int64.ofNat n)) :
    d.Numbered ↔ n = numeral 10 d.digits ∧ d.gpio < 2 ^ 63 := by
  have hparse : parsePin d.name = .ok (Int64.ofNat ((d.group.toNat - 65) * 32 + n)) := by
    rw [d.parsePin_eq, arithValue, h, Int64.ofNat_add, Int64.ofNat_mul]
    rfl
  have hle : (d.group.toNat - 65) * 32 + n ≤ d.gpio := Nat.add_le_add_left hn _
  have hsame : (d.group.toNat - 65) * 32 + n = d.gpio ↔ n = numeral 10 d.digits :=
    Nat.add_left_cancel_iff
  rw [Numbered, hparse, ← hsame, ← toInt_ofNat_eq_iff hle]
  constructor
  · exact fun hnumbered => hnumbered.1 _ rfl
  · rintro hv
    refine ⟨?_, fun _ => ⟨_, rfl⟩⟩
    rintro v hv'
    cases hv'
    exact hv

theorem numbered_of_refused (h : shellConstant d.digits = none) :
    d.Numbered ↔ 2 ^ 63 ≤ d.gpio := by
  have hparse : parsePin d.name = .error .badConstant := by
    rw [d.parsePin_eq, arithValue, h]
    rfl
  simp [Numbered, hparse]

theorem gpio_lt (h : numeral 10 d.digits < 8) : d.gpio < 2 ^ 63 := by
  have hlast := UInt8.le_iff_toNat_le.mp d.group_ok.2
  have h73 : (73 : Byte).toNat = 73 := rfl
  rw [gpio]
  omega

/-- A name is numbered as documented exactly when its digits are legible to the shell. -/
theorem numbered_iff : d.Numbered ↔ d.Legible := by
  by_cases hzero : d.digits.head? = some 48
  · rw [Legible, if_pos hzero]
    obtain ⟨ds, hds⟩ := List.head?_eq_some_iff.mp hzero
    have hnumeral : numeral 10 d.digits = numeral 10 ds := by rw [hds, numeral_zero_cons]
    by_cases hoctal : ∀ b ∈ ds, digitValue b < 8
    · have hread := shellConstant_octal hoctal
      rw [← hds] at hread
      have hle : numeral 8 ds ≤ numeral 10 d.digits := by
        rw [hnumeral]
        exact numeral_le_numeral (by decide) ds
      rw [d.numbered_of_read hle hread, hnumeral,
        numeral_eq_numeral_iff (by decide) (by decide) hoctal]
      have hall : ¬ ∃ b ∈ d.digits, 8 ≤ digitValue b := by
        rw [hds]
        rintro ⟨b, _ | ⟨_, hb⟩, hbig⟩
        · exact absurd hbig (by decide)
        · exact absurd (hoctal b hb) (by omega)
      constructor
      · exact fun h => .inl h.1
      · rintro (hsmall | ⟨-, hbig⟩)
        · exact ⟨hsmall, d.gpio_lt (hnumeral ▸ hsmall)⟩
        · exact absurd hbig hall
    · push Not at hoctal
      have hread := shellConstant_not_octal hoctal
      rw [← hds] at hread
      obtain ⟨b, hb, hbig⟩ := hoctal
      have hmem : b ∈ d.digits := hds ▸ List.mem_cons_of_mem _ hb
      have hle : digitValue b ≤ numeral 10 d.digits := digitValue_le_numeral (by decide) hmem
      rw [d.numbered_of_refused hread]
      constructor
      · exact fun h => .inr ⟨h, b, hmem, hbig⟩
      · rintro (hsmall | ⟨h, -⟩)
        · omega
        · exact h
  · rw [Legible, if_neg hzero, d.numbered_of_read le_rfl (shellConstant_of_head_ne hzero)]
    exact and_iff_right rfl

end AllwinnerName

theorem isNumeral_010 : IsNumeral (bytes "010") := by decide +kernel

/-- `PA010` is taken for pin 8. -/
def namePa010 : AllwinnerName where
  name := bytes "PA010"
  group := 65
  digits := bytes "010"
  group_ok := by decide
  digits_ok := isNumeral_010
  spells := by decide +kernel

theorem namePa010_not_numbered : ¬ ∀ d : AllwinnerName, d.Numbered := by
  intro h
  have hvalue := (h namePa010).1 8 (by decide +kernel)
  exact absurd hvalue (by decide +kernel)

end BoardTest.Gpio
