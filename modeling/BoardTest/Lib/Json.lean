import BoardTest.Lib.CString
import Mathlib.Tactic.Common

/-!
# JSON texts

The JSON grammar of RFC 8259 as a machine that reads a text byte by byte: a stack of the arrays and
objects that are open, and the place inside the innermost one. A text is UTF-8. Numbers keep their
text, strings are decoded to bytes, the members of an object keep their order and may repeat.

What is already on the stack is untouched while a value is read (`run_lift`), and what has been read
is in the result (`run_leads`).
-/

namespace BoardTest.Json

inductive Value
  | null
  | bool (b : Bool)
  | num (text : List Byte)
  | str (s : List Byte)
  | arr (vs : List Value)
  | obj (ms : List (List Byte × Value))

/-- The ranges of the bytes still owed to a character. -/
abbrev Owed := List (Byte × Byte)

def utf8Tail : Byte × Byte := (0x80, 0xBF)

/-- What a first byte of two, three or four calls for (Unicode, table 3-7). -/
def utf8Lead (b : Byte) : Option Owed :=
  if 0xC2 ≤ b ∧ b ≤ 0xDF then some [utf8Tail]
  else if b = 0xE0 then some [(0xA0, 0xBF), utf8Tail]
  else if b = 0xED then some [(0x80, 0x9F), utf8Tail]
  else if 0xE1 ≤ b ∧ b ≤ 0xEF then some [utf8Tail, utf8Tail]
  else if b = 0xF0 then some [(0x90, 0xBF), utf8Tail, utf8Tail]
  else if 0xF1 ≤ b ∧ b ≤ 0xF3 then some [utf8Tail, utf8Tail, utf8Tail]
  else if b = 0xF4 then some [(0x80, 0x8F), utf8Tail, utf8Tail]
  else none

def utf8Step : Owed → Byte → Option Owed
  | [], b => if b < 0x80 then some [] else utf8Lead b
  | (lo, hi) :: owed, b => if lo ≤ b ∧ b ≤ hi then some owed else none

/-- Well-formed UTF-8. -/
def Utf8 (s : List Byte) : Prop := s.foldlM utf8Step [] = some []

instance (s : List Byte) : Decidable (Utf8 s) := inferInstanceAs (Decidable (_ = _))

/-- Inside a string: in its text, behind a backslash, in the digits of a `\u` escape, between the
two escapes of a surrogate pair. -/
inductive StrMode
  | text (owed : Owed)
  | escape
  | hex (high : Option Nat) (digits value : Nat)
  | lowBackslash (high : Nat)
  | lowU (high : Nat)
  deriving DecidableEq

def escapes : List (Byte × Byte) :=
  [(34, 34), (92, 92), (47, 47), (98, 8), (102, 12), (110, 10), (114, 13), (116, 9)]

def hexValue (b : Byte) : Option Nat :=
  if 48 ≤ b ∧ b ≤ 57 then some (b.toNat - 48)
  else if 65 ≤ b ∧ b ≤ 70 then some (b.toNat - 55)
  else if 97 ≤ b ∧ b ≤ 102 then some (b.toNat - 87)
  else none

def encodeChar (n : Nat) : List Byte := String.utf8EncodeChar (Char.ofNat n)

/-- The end of the four digits of a `\u` escape. -/
def endHex (acc : List Byte) (high : Option Nat) (value : Nat) : Option (List Byte × StrMode) :=
  match high with
  | none =>
    if 0xD800 ≤ value ∧ value < 0xDC00 then some (acc, .lowBackslash value)
    else if 0xDC00 ≤ value ∧ value < 0xE000 then none
    else some (acc ++ encodeChar value, .text [])
  | some high =>
    if 0xDC00 ≤ value ∧ value < 0xE000 then
      some (acc ++ encodeChar (0x10000 + (high - 0xD800) * 0x400 + (value - 0xDC00)), .text [])
    else none

/-- One byte of a string, the closing quote aside; `acc` is what the string decodes to so far. -/
def strStep (s : List Byte × StrMode) (b : Byte) : Option (List Byte × StrMode) :=
  match s with
  | (acc, .text owed) =>
    if b < 32 ∨ b = 34 then none
    else if b = 92 then (if owed = [] then some (acc, .escape) else none)
    else (utf8Step owed b).map fun owed' => (acc ++ [b], .text owed')
  | (acc, .escape) =>
    if b = 117 then some (acc, .hex none 0 0)
    else (escapes.lookup b).map fun c => (acc ++ [c], .text [])
  | (acc, .hex high digits value) =>
    (hexValue b).bind fun d =>
      if digits = 3 then endHex acc high (value * 16 + d)
      else some (acc, .hex high (digits + 1) (value * 16 + d))
  | (acc, .lowBackslash high) => if b = 92 then some (acc, .lowU high) else none
  | (acc, .lowU high) => if b = 117 then some (acc, .hex (some high) 0 0) else none

/-- The places in a number. -/
inductive NumMode
  | minus | zero | int | dot | frac | e | expSign | exp
  deriving DecidableEq

def isDigit (b : Byte) : Bool := 48 ≤ b && b ≤ 57

def numStep : NumMode → Byte → Option NumMode
  | .minus, b => if b = 48 then some .zero else if isDigit b then some .int else none
  | .zero, b => if b = 46 then some .dot else if b = 101 ∨ b = 69 then some .e else none
  | .int, b =>
    if isDigit b then some .int
    else if b = 46 then some .dot
    else if b = 101 ∨ b = 69 then some .e
    else none
  | .dot, b => if isDigit b then some .frac else none
  | .frac, b =>
    if isDigit b then some .frac else if b = 101 ∨ b = 69 then some .e else none
  | .e, b =>
    if isDigit b then some .exp else if b = 43 ∨ b = 45 then some .expSign else none
  | .expSign, b => if isDigit b then some .exp else none
  | .exp, b => if isDigit b then some .exp else none

def NumMode.accepts : NumMode → Bool
  | .zero | .int | .frac | .exp => true
  | _ => false

/-- An open array, or an object with the key of the member being read. -/
inductive Frame
  | arr (done : List Value)
  | obj (done : List (List Byte × Value)) (key : List Byte)

inductive Mode
  /-- a value comes next -/
  | value
  /-- just behind `[` -/
  | firstElement
  /-- a member comes next, or the end when `first` is set -/
  | member (done : List (List Byte × Value)) (first : Bool)
  | colon (done : List (List Byte × Value)) (key : List Byte)
  /-- a string, or the key of a member of the object whose members so far are given -/
  | string (keyOf : Option (List (List Byte × Value))) (s : List Byte × StrMode)
  | number (text : List Byte) (m : NumMode)
  | literal (rest : List Byte) (v : Value)
  /-- a value is complete -/
  | after (v : Value)

structure State where
  stack : List Frame
  mode : Mode

def State.init : State := ⟨[], .value⟩

def isSpace (b : Byte) : Bool := b = 32 ∨ b = 9 ∨ b = 10 ∨ b = 13

/-- Where the first byte of a value leads; a blank leads nowhere yet. -/
def valueStart (b : Byte) : Option Mode :=
  if isSpace b then some .value
  else if b = 34 then some (.string none ([], .text []))
  else if b = 123 then some (.member [] true)
  else if b = 91 then some .firstElement
  else if b = 45 then some (.number [b] .minus)
  else if b = 48 then some (.number [b] .zero)
  else if isDigit b then some (.number [b] .int)
  else if b = 116 then some (.literal (bytes "rue") (.bool true))
  else if b = 102 then some (.literal (bytes "alse") (.bool false))
  else if b = 110 then some (.literal (bytes "ull") .null)
  else none

def stepValue (stack : List Frame) (b : Byte) : Option State :=
  (valueStart b).map fun mode => ⟨stack, mode⟩

/-- A byte behind a complete value. -/
def stepAfter (stack : List Frame) (v : Value) (b : Byte) : Option State :=
  if isSpace b then some ⟨stack, .after v⟩
  else match stack with
    | [] => none
    | .arr done :: stack =>
      if b = 44 then some ⟨.arr (done ++ [v]) :: stack, .value⟩
      else if b = 93 then some ⟨stack, .after (.arr (done ++ [v]))⟩
      else none
    | .obj done key :: stack =>
      if b = 44 then some ⟨stack, .member (done ++ [(key, v)]) false⟩
      else if b = 125 then some ⟨stack, .after (.obj (done ++ [(key, v)]))⟩
      else none

/-- Behind the closing quote of a string. -/
def endString (keyOf : Option (List (List Byte × Value))) (str : List Byte) : Mode :=
  match keyOf with
  | none => .after (.str str)
  | some done => .colon done str

def step (s : State) (b : Byte) : Option State :=
  match s.mode with
  | .value => stepValue s.stack b
  | .firstElement =>
    if isSpace b then some s
    else if b = 93 then some ⟨s.stack, .after (.arr [])⟩
    else stepValue (.arr [] :: s.stack) b
  | .member done first =>
    if isSpace b then some s
    else if b = 34 then some ⟨s.stack, .string (some done) ([], .text [])⟩
    else if b = 125 ∧ first = true then some ⟨s.stack, .after (.obj done)⟩
    else none
  | .colon done key =>
    if isSpace b then some s
    else if b = 58 then some ⟨.obj done key :: s.stack, .value⟩
    else none
  | .string keyOf str =>
    if b = 34 ∧ str.2 = .text [] then some ⟨s.stack, endString keyOf str.1⟩
    else (strStep str b).map fun str' => ⟨s.stack, .string keyOf str'⟩
  | .number text m =>
    match numStep m b with
    | some m' => some ⟨s.stack, .number (text ++ [b]) m'⟩
    | none => if m.accepts then stepAfter s.stack (.num text) b else none
  | .literal rest v =>
    match rest with
    | [] => none
    | c :: rest =>
      if b = c then some ⟨s.stack, if rest = [] then .after v else .literal rest v⟩ else none
  | .after v => stepAfter s.stack v b

def run (s : State) (text : List Byte) : Option State := text.foldlM step s

/-- The value read when the text ends here. -/
def State.finish (s : State) : Option Value :=
  match s.stack, s.mode with
  | [], .after v => some v
  | [], .number text m => if m.accepts then some (.num text) else none
  | _, _ => none

/-- A JSON text read as the value it denotes. -/
def parse (text : List Byte) : Option Value := (run .init text).bind State.finish

theorem run_nil (s : State) : run s [] = some s := rfl

theorem run_cons (s : State) (b : Byte) (text : List Byte) :
    run s (b :: text) = (step s b).bind fun s' => run s' text := rfl

theorem run_append (s : State) (t₁ t₂ : List Byte) :
    run s (t₁ ++ t₂) = (run s t₁).bind fun s' => run s' t₂ := by
  simp [run, List.foldlM_append]

def State.lift (s : State) (below : List Frame) : State := ⟨s.stack ++ below, s.mode⟩

theorem stepValue_lift {stack : List Frame} {b : Byte} {s : State}
    (h : stepValue stack b = some s) (below : List Frame) :
    stepValue (stack ++ below) b = some (s.lift below) := by
  obtain ⟨mode, hmode, rfl⟩ := Option.map_eq_some_iff.mp h
  simp [stepValue, hmode, State.lift]

theorem stepAfter_lift {stack : List Frame} {v : Value} {b : Byte} {s : State}
    (h : stepAfter stack v b = some s) (below : List Frame) :
    stepAfter (stack ++ below) v b = some (s.lift below) := by
  cases stack with
  | nil =>
    simp only [stepAfter] at h ⊢
    split at h
    · obtain rfl := Option.some.inj h
      rename_i hspace
      simp [hspace, State.lift]
    · simp at h
  | cons f stack =>
    cases f <;> simp only [stepAfter, List.cons_append] at h ⊢ <;> grind [State.lift]

/-- A step looks at the innermost frame only. -/
theorem step_lift {s s' : State} {b : Byte} (h : step s b = some s') (below : List Frame) :
    step (s.lift below) b = some (s'.lift below) := by
  obtain ⟨stack, mode⟩ := s
  cases mode with
  | value => exact stepValue_lift h below
  | firstElement =>
    simp only [step, State.lift] at h ⊢
    split at h
    · rename_i hspace
      obtain rfl := Option.some.inj h
      simp [hspace]
    split at h
    · rename_i hspace hclose
      obtain rfl := Option.some.inj h
      rw [if_neg hspace, if_pos hclose]
    · rename_i hspace hclose
      rw [if_neg hspace, if_neg hclose, ← List.cons_append]
      exact stepValue_lift h below
  | member done first => simp only [step, State.lift] at h ⊢; grind
  | colon done key => simp only [step, State.lift] at h ⊢; grind
  | string keyOf str =>
    simp only [step, State.lift] at h ⊢
    split at h
    · rename_i hclose
      obtain rfl := Option.some.inj h
      simp [hclose]
    · rename_i hclose
      obtain ⟨str', hstr, rfl⟩ := Option.map_eq_some_iff.mp h
      simp [hclose, hstr]
  | number text m =>
    simp only [step] at h ⊢
    cases hm : numStep m b with
    | some m' =>
      simp only [hm, Option.some.injEq] at h ⊢
      rw [← h]
      simp [State.lift, hm]
    | none =>
      simp only [hm] at h
      split at h
      · rename_i haccepts
        simp only [State.lift, hm, haccepts]
        exact stepAfter_lift h below
      · simp at h
  | literal rest v =>
    cases rest with
    | nil => simp [step] at h
    | cons c rest => simp only [step, State.lift] at h ⊢; grind
  | after v => exact stepAfter_lift h below

theorem run_lift {s s' : State} {text : List Byte} (h : run s text = some s')
    (below : List Frame) : run (s.lift below) text = some (s'.lift below) := by
  induction text generalizing s with
  | nil =>
    obtain rfl := Option.some.inj h
    rfl
  | cons b text ih =>
    rw [run_cons] at h ⊢
    obtain ⟨s₁, hstep, hrun⟩ := Option.bind_eq_some_iff.mp h
    rw [step_lift hstep below, Option.bind_some]
    exact ih hrun

/-! ## What has been read is in the result -/

/-- `v` is the result once `w` has filled the innermost place and all that is open is closed. -/
def Fills : List Frame → Value → Value → Prop
  | [], w, v => v = w
  | .arr done :: stack, w, v => ∃ more, Fills stack (.arr (done ++ w :: more)) v
  | .obj done key :: stack, w, v => ∃ more, Fills stack (.obj (done ++ (key, w) :: more)) v

/-- What a state says of the result it may still come to. -/
def State.Leads (s : State) (v : Value) : Prop :=
  match s.mode with
  | .member done _ | .string (some done) _ => ∃ more, Fills s.stack (.obj (done ++ more)) v
  | .colon done key => ∃ w more, Fills s.stack (.obj (done ++ (key, w) :: more)) v
  | .after w => Fills s.stack w v
  | _ => ∃ w, Fills s.stack w v

theorem stepValue_leads {stack : List Frame} {b : Byte} {s : State} {v : Value}
    (h : stepValue stack b = some s) (hv : s.Leads v) : ∃ w, Fills stack w v := by
  obtain ⟨mode, hmode, rfl⟩ := Option.map_eq_some_iff.mp h
  cases mode with
  | member done first =>
    obtain ⟨more, hmore⟩ := hv
    exact ⟨_, hmore⟩
  | string keyOf str =>
    cases keyOf with
    | none => exact hv
    | some done =>
      obtain ⟨more, hmore⟩ := hv
      exact ⟨_, hmore⟩
  | colon done key =>
    obtain ⟨w, more, hmore⟩ := hv
    exact ⟨_, hmore⟩
  | after w => exact ⟨w, hv⟩
  | _ => exact hv

theorem stepAfter_leads {stack : List Frame} {w : Value} {b : Byte} {s : State} {v : Value}
    (h : stepAfter stack w b = some s) (hv : s.Leads v) : Fills stack w v := by
  unfold stepAfter at h
  split at h
  · obtain rfl := Option.some.inj h
    exact hv
  split at h
  · simp at h
  · split at h
    · obtain rfl := Option.some.inj h
      obtain ⟨x, more, hmore⟩ := hv
      exact ⟨x :: more, by simpa using hmore⟩
    split at h
    · obtain rfl := Option.some.inj h
      exact ⟨[], hv⟩
    · simp at h
  · split at h
    · obtain rfl := Option.some.inj h
      obtain ⟨more, hmore⟩ := hv
      exact ⟨more, by simpa using hmore⟩
    split at h
    · obtain rfl := Option.some.inj h
      exact ⟨[], hv⟩
    · simp at h

/-- What the next state leads to, this one leads to. -/
theorem step_leads {s s' : State} {b : Byte} {v : Value} (h : step s b = some s')
    (hv : s'.Leads v) : s.Leads v := by
  obtain ⟨stack, mode⟩ := s
  cases mode with
  | value => exact stepValue_leads h hv
  | firstElement =>
    simp only [step] at h
    split at h
    · obtain rfl := Option.some.inj h
      exact hv
    split at h
    · obtain rfl := Option.some.inj h
      exact ⟨_, hv⟩
    · obtain ⟨w, more, hmore⟩ := stepValue_leads h hv
      exact ⟨_, hmore⟩
  | member done first =>
    simp only [step] at h
    split at h
    · obtain rfl := Option.some.inj h
      exact hv
    split at h
    · obtain rfl := Option.some.inj h
      exact hv
    split at h
    · obtain rfl := Option.some.inj h
      exact ⟨[], by rw [List.append_nil]; exact hv⟩
    · simp at h
  | colon done key =>
    simp only [step] at h
    split at h
    · obtain rfl := Option.some.inj h
      exact hv
    split at h
    · obtain rfl := Option.some.inj h
      obtain ⟨w, more, hmore⟩ := hv
      exact ⟨w, more, hmore⟩
    · simp at h
  | string keyOf str =>
    simp only [step] at h
    cases keyOf with
    | none =>
      split at h
      · obtain rfl := Option.some.inj h
        exact ⟨_, hv⟩
      · obtain ⟨str', -, rfl⟩ := Option.map_eq_some_iff.mp h
        exact hv
    | some done =>
      split at h
      · obtain rfl := Option.some.inj h
        obtain ⟨w, more, hmore⟩ := hv
        exact ⟨_, hmore⟩
      · obtain ⟨str', -, rfl⟩ := Option.map_eq_some_iff.mp h
        exact hv
  | number text m =>
    simp only [step] at h
    split at h
    · obtain rfl := Option.some.inj h
      exact hv
    split at h
    · exact ⟨_, stepAfter_leads h hv⟩
    · simp at h
  | literal rest w =>
    cases rest with
    | nil => simp [step] at h
    | cons c rest =>
      simp only [step] at h
      split at h
      · obtain rfl := Option.some.inj h
        by_cases hrest : rest = []
        · rw [if_pos hrest] at hv
          exact ⟨w, hv⟩
        · rw [if_neg hrest] at hv
          exact hv
      · simp at h
  | after w => exact stepAfter_leads h hv

theorem run_leads {s s' : State} {text : List Byte} {v : Value} (h : run s text = some s')
    (hv : s'.finish = some v) : s.Leads v := by
  induction text generalizing s with
  | nil =>
    obtain rfl := Option.some.inj h
    unfold State.finish at hv
    split at hv
    · rename_i hstack hmode
      obtain rfl := Option.some.inj hv
      simp [State.Leads, hstack, hmode, Fills]
    · rename_i hstack hmode
      simp [State.Leads, hstack, hmode, Fills]
    · simp at hv
  | cons b text ih =>
    rw [run_cons] at h
    obtain ⟨s₁, hstep, hrun⟩ := Option.bind_eq_some_iff.mp h
    exact step_leads hstep (ih hrun)

end BoardTest.Json
