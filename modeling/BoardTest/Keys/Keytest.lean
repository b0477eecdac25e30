import BoardTest.Lib.LastWrite
import BoardTest.Lib.Strtol

/-!
# `scan_devices` of `keytest`

The function looks for an input device whose name begins with `adc-keys` and puts its path together
from the number that `sscanf` read behind `event`. `devnum` has no initialiser: where no device
stores to it, its old value decides.
-/

namespace BoardTest.Keys

open Strtol

/-- An entry that `scandir` returns, and what `open` and the `ioctl` yield for it. -/
structure Device where
  d_name : List Byte
  is_event_device : bytes "event" <+: d_name
  /-- nothing where `open` fails; the name, or nothing where the `ioctl` fails -/
  opened : Option (Option (List Byte))

/-- `name` behind the `ioctl`, of a device that was opened. -/
def Device.name (d : Device) : Option (List Byte) := d.opened.map (·.getD (bytes "???"))

/-- `strncmp(name, "adc-keys", strlen("adc-keys")) == 0` -/
def isAdcKeys (name : List Byte) : Bool := (bytes "adc-keys").isPrefixOf name

/-- `sscanf(d_name, "event%d", &devnum)`: what it stores. -/
def scanEvent (d_name : List Byte) : Option Int32 :=
  if (bytes "event").isPrefixOf d_name then
    (readInteger (d_name.drop 5)).map fun r => Int32.ofInt (saturate r.1)
  else none

structure State where
  devnum : Int32
  max_device : Int32

/-- The body of the loop (lines 36 to 58). -/
def scanDevice (s : State) (d : Device) : State :=
  match d.name with
  | none => s
  | some name =>
    if isAdcKeys name then
      let devnum := (scanEvent d.d_name).getD s.devnum
      ⟨devnum, if devnum > s.max_device then devnum else s.max_device⟩
    else s

/-- `"%s/%s%d"` -/
def eventPath (devnum : Int32) : List Byte :=
  sprintf "%s/%s%d" [bytes "/dev/input", bytes "event", printInt devnum.toInt]

/-- `scan_devices`, for what `scandir` returns (`none` is -1) and what `devnum` holds before. -/
def scan_devices (devnum : Int32) (namelist : Option (List Device)) : Option (List Byte) :=
  match namelist with
  | none | some [] => none
  | some (d :: l) =>
    let s := (d :: l).foldl scanDevice ⟨devnum, 0⟩
    if s.devnum > s.max_device ∨ s.devnum < 0 then none else some (eventPath s.devnum)

/-- The device could be opened and its name begins with `adc-keys`. -/
def Device.AdcKeys (d : Device) : Prop := ∃ name, d.name = some name ∧ isAdcKeys name = true

/-- The path of a device. -/
def Device.path (d : Device) : List Byte := bytes "/dev/input/" ++ d.d_name

/-- `NULL` exactly where there is no such device, else the path of one, whatever `devnum` held. -/
structure FindsAdcKeys (l : List Device) (result : Int32 → Option (List Byte)) : Prop where
  null_iff : ∀ devnum, result devnum = none ↔ ¬ ∃ d ∈ l, d.AdcKeys
  path : ∀ devnum p, result devnum = some p → ∃ d ∈ l, d.AdcKeys ∧ p = d.path
  unique : ∀ devnum devnum', result devnum = result devnum'

/-- The number that a device stores to `devnum`. -/
def Device.stores (d : Device) : Option Int32 :=
  match d.name with
  | none => none
  | some name => if isAdcKeys name then scanEvent d.d_name else none

/-- The number that is stored last. -/
def lastStored (l : List Device) : Option Int32 := (l.filterMap Device.stores).getLast?

/-- The number stored last is that of a device it is the plain number of. -/
def NamesLast (l : List Device) : Prop :=
  ∃ n, lastStored l = some n ∧ 0 ≤ n ∧
    ∃ d ∈ l, d.AdcKeys ∧ d.d_name = bytes "event" ++ printInt n.toInt

variable {d : Device} {l : List Device} {s : State} {devnum : Int32}

theorem adcKeys_of_stores {n : Int32} (h : d.stores = some n) : d.AdcKeys := by
  unfold Device.stores at h
  split at h
  · cases h
  · next name hname =>
    split at h
    · next hadc => exact ⟨name, hname, hadc⟩
    · cases h

theorem exists_adcKeys_of_lastStored {n : Int32} (h : lastStored l = some n) :
    ∃ d ∈ l, d.AdcKeys := by
  obtain ⟨d, hd, hn⟩ := List.mem_filterMap.mp (List.mem_of_getLast? h)
  exact ⟨d, hd, adcKeys_of_stores hn⟩

theorem scanDevice_of_not (h : ¬ d.AdcKeys) : scanDevice s d = s := by
  unfold scanDevice
  split
  · rfl
  · next name hname => exact if_neg fun hadc => h ⟨name, hname, hadc⟩

theorem scanDevice_devnum (s : State) (d : Device) :
    (scanDevice s d).devnum = d.stores.getD s.devnum := by
  unfold scanDevice Device.stores
  split
  · rfl
  · split <;> rfl

/-- A device that matches leaves `max_device` at `devnum` or above. -/
theorem scanDevice_of_adcKeys (h : d.AdcKeys) :
    (scanDevice s d).devnum ≤ (scanDevice s d).max_device ∧
      s.max_device ≤ (scanDevice s d).max_device := by
  obtain ⟨name, hname, hadc⟩ := h
  have hstep : scanDevice s d = ⟨(scanEvent d.d_name).getD s.devnum,
      if (scanEvent d.d_name).getD s.devnum > s.max_device then (scanEvent d.d_name).getD s.devnum
      else s.max_device⟩ := by
    simp only [scanDevice, hname, hadc, if_true]
  rw [hstep]
  by_cases hmax : (scanEvent d.d_name).getD s.devnum > s.max_device
  · rw [if_pos hmax]
    exact ⟨Int32.le_refl _, Int32.le_of_lt hmax⟩
  · rw [if_neg hmax]
    exact ⟨Int32.not_lt.mp hmax, Int32.le_refl _⟩

/-- What the loop keeps: `max_device` starts at 0, and bounds `devnum` from the first match on. -/
structure Inv (l : List Device) (s : State) : Prop where
  zero_le : 0 ≤ s.max_device
  devnum_le : (∃ d ∈ l, d.AdcKeys) → s.devnum ≤ s.max_device

theorem inv_step (h : Inv l s) (d : Device) : Inv (l ++ [d]) (scanDevice s d) := by
  by_cases hd : d.AdcKeys
  · obtain ⟨hle, hmax⟩ := scanDevice_of_adcKeys (s := s) hd
    exact ⟨Int32.le_trans h.zero_le hmax, fun _ => hle⟩
  · rw [scanDevice_of_not hd]
    refine ⟨h.zero_le, ?_⟩
    rintro ⟨e, he, hadc⟩
    rcases List.mem_append.mp he with he | he
    · exact h.devnum_le ⟨e, he, hadc⟩
    · rw [List.mem_singleton.mp he] at hadc
      exact absurd hadc hd

theorem inv_loop (devnum : Int32) (l : List Device) : Inv l (l.foldl scanDevice ⟨devnum, 0⟩) := by
  induction l using List.reverseRecOn with
  | nil =>
    refine ⟨Int32.le_refl 0, ?_⟩
    rintro ⟨d, hd, -⟩
    exact absurd hd List.not_mem_nil
  | append_singleton l d ih =>
    rw [List.foldl_append]
    exact inv_step ih d

/-- `devnum` ends with the number stored last. -/
theorem devnum_loop (devnum : Int32) (l : List Device) :
    (l.foldl scanDevice ⟨devnum, 0⟩).devnum = (lastStored l).getD devnum := by
  rw [view_foldl scanDevice_devnum, lastWrite_eq_getD]
  rfl

/-! ## The result -/

theorem scan_devices_of_ne_nil (hl : l ≠ []) (devnum : Int32) :
    scan_devices devnum (some l) =
      if (l.foldl scanDevice ⟨devnum, 0⟩).devnum > (l.foldl scanDevice ⟨devnum, 0⟩).max_device ∨
          (l.foldl scanDevice ⟨devnum, 0⟩).devnum < 0 then none
      else some (eventPath (l.foldl scanDevice ⟨devnum, 0⟩).devnum) := by
  obtain ⟨d, l, rfl⟩ := List.exists_cons_of_ne_nil hl
  rfl

/-- A number was stored. -/
theorem scan_devices_of_lastStored {n : Int32} (h : lastStored l = some n) (devnum : Int32) :
    scan_devices devnum (some l) = if n < 0 then none else some (eventPath n) := by
  obtain ⟨d, hd, hadc⟩ := exists_adcKeys_of_lastStored h
  have hle := (inv_loop devnum l).devnum_le ⟨d, hd, hadc⟩
  rw [scan_devices_of_ne_nil (List.ne_nil_of_mem hd)]
  rw [devnum_loop, h, Option.getD_some] at hle ⊢
  have hmax := Int32.not_lt.mpr hle
  simp only [gt_iff_lt, hmax, false_or]

/-- No number was stored: the result is that of the old value. -/
theorem scan_devices_stale (hl : l ≠ []) (h : lastStored l = none) :
    scan_devices 0 (some l) = some (eventPath 0) ∧ scan_devices (-1) (some l) = none := by
  have hdevnum (devnum : Int32) : (l.foldl scanDevice ⟨devnum, 0⟩).devnum = devnum := by
    rw [devnum_loop, h, Option.getD_none]
  rw [scan_devices_of_ne_nil hl, scan_devices_of_ne_nil hl, hdevnum, hdevnum]
  constructor
  · refine if_neg (not_or.mpr ⟨?_, Int32.lt_irrefl⟩)
    exact Int32.not_lt.mpr (inv_loop 0 l).zero_le
  · exact if_pos (.inr (by decide))

theorem eventPath_eq (n : Int32) :
    eventPath n = bytes "/dev/input/" ++ (bytes "event" ++ printInt n.toInt) := by
  have hpieces : formatPieces (bytes "%s/%s%d") = [[], bytes "/", [], []] := by decide
  rw [eventPath, sprintf_eq hpieces]
  simp only [weave, List.nil_append, List.append_nil]
  rfl

theorem eventPath_eq_path_iff {n : Int32} :
    eventPath n = d.path ↔ d.d_name = bytes "event" ++ printInt n.toInt := by
  rw [eventPath_eq, Device.path, List.append_cancel_left_eq, eq_comm]

/-- `scan_devices` finds what it looks for, whatever `devnum` held, if and only if there are no
event devices at all or the number stored last names an `adc-keys` device. -/
theorem findsAdcKeys_iff (namelist : Option (List Device)) :
    FindsAdcKeys (namelist.getD []) (fun devnum => scan_devices devnum namelist) ↔
      namelist.getD [] = [] ∨ NamesLast (namelist.getD []) := by
  rcases eq_or_ne (namelist.getD []) [] with hnil | hne
  · refine iff_of_true ?_ (.inl hnil)
    have hnull (devnum : Int32) : scan_devices devnum namelist = none := by
      cases namelist with
      | none => rfl
      | some l =>
        obtain rfl : l = [] := hnil
        rfl
    simp only [hnull, hnil]
    refine ⟨fun _ => iff_of_true rfl ?_, fun _ _ h => (nomatch h), fun _ _ => rfl⟩
    rintro ⟨d, hd, -⟩
    exact absurd hd List.not_mem_nil
  · obtain ⟨l, rfl⟩ : ∃ l, namelist = some l := by
      cases namelist with
      | none => exact absurd rfl hne
      | some l => exact ⟨l, rfl⟩
    rw [Option.getD_some] at hne ⊢
    rw [or_iff_right hne]
    cases hlast : lastStored l with
    | none =>
      refine iff_of_false ?_ ?_
      · intro h
        obtain ⟨hzero, hneg⟩ := scan_devices_stale hne hlast
        have heq := h.unique 0 (-1)
        rw [hzero, hneg] at heq
        cases heq
      · rintro ⟨n, hn, -⟩
        rw [hlast] at hn
        cases hn
    | some n =>
      have hadc := exists_adcKeys_of_lastStored hlast
      simp only [scan_devices_of_lastStored hlast]
      by_cases hneg : n < 0
      · simp only [if_pos hneg]
        refine iff_of_false (fun h => (h.null_iff 0).mp rfl hadc) ?_
        rintro ⟨m, hm, hle, -⟩
        obtain rfl := Option.some.inj (hlast.symm.trans hm)
        exact Int32.not_lt.mpr hle hneg
      · simp only [if_neg hneg]
        constructor
        · intro h
          obtain ⟨d, hd, hkeys, hpath⟩ := h.path 0 _ rfl
          exact ⟨n, hlast, Int32.not_lt.mp hneg, d, hd, hkeys, eventPath_eq_path_iff.mp hpath⟩
        · rintro ⟨m, hm, -, d, hd, hkeys, hname⟩
          obtain rfl := Option.some.inj (hlast.symm.trans hm)
          refine ⟨?_, ?_, fun _ _ => rfl⟩
          · exact fun _ => iff_of_false (fun h => nomatch h) (not_not_intro hadc)
          · rintro _ _ ⟨⟩
            exact ⟨d, hd, hkeys, eventPath_eq_path_iff.mpr hname⟩

/-- One device, which could not be opened. -/
def closedDevice : Device := ⟨bytes "event0", by decide, none⟩

theorem closedDevice_is_returned :
    ¬ ∀ namelist,
      FindsAdcKeys (namelist.getD []) (fun devnum => scan_devices devnum namelist) := by
  intro h
  have heq := (h (some [closedDevice])).unique 0 (-1)
  have hstale := scan_devices_stale (l := [closedDevice]) (List.cons_ne_nil _ _) rfl
  rw [hstale.1, hstale.2] at heq
  cases heq

end BoardTest.Keys
