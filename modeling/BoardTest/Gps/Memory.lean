import BoardTest.Gps.Framing
import BoardTest.Lib.CMemory
import BoardTest.Lib.HexRows

/-!
# The GPS reader in its arrays

The same program with the memory it works on: `line` of `main`, `buf` and `tokens` of `parse_nmea`,
whose contents are arbitrary when it is called. A pointer is an index into its array. Every load and
every store is checked, an entry of `tokens` must have been set before it is read, and a pointer
must not be moved out of its string: the first access that breaks this makes the run `none`. The run
never is (`mainLoop_inside`), and it prints what the functions of `Nmea` say.
-/

namespace BoardTest.Gps.InMemory

/-- `nmea_checksum` from a pointer on -/
def checksumLoop : List Byte → Byte → Option Byte
  | [], _ => none
  | b :: view, cs => if b ≠ 0 ∧ b ≠ star then checksumLoop view (cs ^^^ b) else some cs

/-- `nmea_checksum` (`gps.c:72`) -/
def nmeaChecksum (sentence : List Byte) : Option Byte := do
  let p ← Memory.advance sentence 0 1
  checksumLoop (sentence.drop p) 0

/-- `tokens[i]` -/
def entry (tokens : List (Option Nat)) (i : Nat) : Option Nat := tokens[i]?.join

/-- `TOK(i)` (`gps.c:80`), as what is seen from the pointer on -/
def tok (buf : List Byte) (tokens : List (Option Nat)) (count i : Nat) : Option (List Byte) :=
  if i < count then (entry tokens i).map (buf.drop ·) else some [0]

section Routines

variable (t : Nat → Option (List Byte))

/-- `%s` of `TOK(i)` -/
def text (i : Nat) : Option (List Byte) := (t i).bind (Memory.str · 0)

/-- `!strcmp(TOK(i), s)` -/
def is (i : Nat) (s : String) : Option Bool := (t i).bind (Memory.strcmp · (bytes s ++ [0]))

/-- `TOK(i)[0]` -/
def first (i : Nat) : Option Byte := (t i).bind (·[0]?)

/-- `parse_gpgga` (`gps.c:82`) -/
def parseGpgga : Option (List (List Byte)) := do
  let quality ← do
    if ← is t 6 "0" then some (bytes "Invalid")
    else if ← is t 6 "1" then some (bytes "GPS fix")
    else if ← is t 6 "2" then some (bytes "DGPS fix")
    else if (← first t 6) ≠ 0 then some (bytes "Other")
    else some (bytes "N/A")
  some
    [ bytes "  [GGA] Fix Data",
      sprintf "    UTC Time:     %s" [← text t 1],
      sprintf "    Latitude:     %s %s" [← text t 2, ← text t 3],
      sprintf "    Longitude:    %s %s" [← text t 4, ← text t 5],
      sprintf "    Fix Quality:  %s (%s)" [← text t 6, quality],
      sprintf "    Satellites:   %s" [← text t 7],
      sprintf "    Altitude:     %s m" [← text t 9] ]

/-- `parse_gprmc` (`gps.c:96`) -/
def parseGprmc : Option (List (List Byte)) := do
  let status ← do
    if ← is t 2 "A" then some (bytes "Valid")
    else if (← first t 2) ≠ 0 then some (bytes "Invalid")
    else some (bytes "N/A")
  some
    [ bytes "  [RMC] Recommended Minimum",
      sprintf "    UTC Time:     %s" [← text t 1],
      sprintf "    Status:       %s (%s)" [← text t 2, status],
      sprintf "    Latitude:     %s %s" [← text t 3, ← text t 4],
      sprintf "    Longitude:    %s %s" [← text t 5, ← text t 6],
      sprintf "    Speed:        %s knots" [← text t 7],
      sprintf "    Date:         %s" [← text t 9] ]

/-- `parse_gpvtg` (`gps.c:108`) -/
def parseGpvtg : Option (List (List Byte)) := do
  some
    [ bytes "  [VTG] Track & Speed",
      sprintf "    True Track:   %s°" [← text t 1],
      sprintf "    Speed:        %s km/h" [← text t 7] ]

/-- `parse_gpgsa` (`gps.c:115`) -/
def parseGpgsa : Option (List (List Byte)) := do
  let mode ← do
    if ← is t 2 "M" then some (bytes "Manual")
    else if (← first t 2) ≠ 0 then some (bytes "Auto")
    else some (bytes "N/A")
  let fix ← do
    if ← is t 3 "3" then some (bytes "3D")
    else if ← is t 3 "2" then some (bytes "2D")
    else if (← first t 3) ≠ 0 then some (bytes "None")
    else some (bytes "N/A")
  some
    [ bytes "  [GSA] Satellite Status",
      sprintf "    Mode:         %s (%s)" [← text t 2, mode],
      sprintf "    3D Fix:       %s (%s)" [← text t 3, fix],
      sprintf "    PDOP:         %s" [← text t 15],
      sprintf "    HDOP:         %s" [← text t 16],
      sprintf "    VDOP:         %s" [← text t 17] ]

/-- `parse_zda` (`gps.c:127`) -/
def parseZda : Option (List (List Byte)) := do
  some
    [ bytes "  [ZDA] Time & Date",
      sprintf "    UTC Time:     %s" [← text t 1],
      sprintf "    Day:          %s" [← text t 2],
      sprintf "    Month:        %s" [← text t 3],
      sprintf "    Year:         %s" [← text t 4] ]

/-- `parse_gst` (`gps.c:136`) -/
def parseGst : Option (List (List Byte)) := do
  some
    [ bytes "  [GST] Pseudorange Error Statistics",
      sprintf "    UTC Time:     %s" [← text t 1],
      sprintf "    RMS Dev:      %s m" [← text t 2],
      sprintf "    Semi-major:   %s m" [← text t 3],
      sprintf "    Semi-minor:   %s m" [← text t 4],
      sprintf "    Orientation:  %s°" [← text t 5],
      sprintf "    Lat Error:    %s m" [← text t 6],
      sprintf "    Lon Error:    %s m" [← text t 7],
      sprintf "    Alt Error:    %s m" [← text t 8] ]

def run : Routine → Option (List (List Byte))
  | .gpgga => parseGpgga t
  | .gprmc => parseGprmc t
  | .gpvtg => parseGpvtg t
  | .gpgsa => parseGpgsa t
  | .zda => parseZda t
  | .gst => parseGst t

end Routines

/-- `nmea_suffix` (`gps.c:150`) -/
def nmeaSuffix (buf : List Byte) (sentence : Nat) : Option (Option Nat) := do
  let _ ← Memory.strrchr comma buf sentence
  let len ← Memory.strlen buf sentence
  if len ≥ 3 then (Memory.advance buf sentence (len - 3)).map some else some none

/-- `suffix && !strcmp(suffix, s)` -/
def suffixIs (buf : List Byte) (suffix : Option Nat) (s : String) : Option Bool :=
  match suffix with
  | none => some false
  | some p => Memory.strcmp (buf.drop p) (bytes s ++ [0])

/-- The dispatch (`gps.c:211`). -/
def dispatch (buf : List Byte) (suffix : Option Nat) : Option (Option Routine) := do
  if ← suffixIs buf suffix "GGA" then some (some .gpgga)
  else if ← suffixIs buf suffix "RMC" then some (some .gprmc)
  else if ← suffixIs buf suffix "VTG" then some (some .gpvtg)
  else if ← suffixIs buf suffix "GSA" then some (some .gpgsa)
  else if ← suffixIs buf suffix "ZDA" then some (some .zda)
  else if ← suffixIs buf suffix "GST" then some (some .gst)
  else some none

/-- `while (len > 0 && (buf[len-1] == '\r' || ...)) buf[--len] = '\0'` (`gps.c:172`) -/
def stripLoop : Nat → List Byte → Option (List Byte)
  | 0, buf => some buf
  | len + 1, buf => do
    let b ← buf[len]?
    if b = cr ∨ b = lf then stripLoop len (← store buf (len, 0)) else some buf

/-- The checksum test (`gps.c:178`): the array behind it, and the value of a mismatch. -/
def checksumTest (expected₀ : Int) (buf : List Byte) : Option (List Byte × Option Byte) := do
  match ← Memory.strchr star buf 0 with
  | none => some (buf, none)
  | some p =>
    let number ← Memory.str buf (← Memory.advance buf p 1)
    let expected := (scanHex number).getD expected₀
    let buf ← store buf (p, 0)
    let actual ← nmeaChecksum buf
    let buf ← store buf (p, star)
    some (buf, if expected ≠ (actual.toNat : Int) then some actual else none)

/-- What the loop of line 195 works on; `save` is what `strtok` keeps. -/
structure Tokens where
  buf : List Byte
  tokens : List (Option Nat)
  count : Nat
  save : Nat
  p : Option Nat
  deriving DecidableEq

/-- The body of the loop for the token at `p`, but for `count++` -/
def tokenRound (st : Tokens) (p : Nat) : Option Tokens := do
  let buf ← Memory.cut cr st.buf p
  let buf ← Memory.cut lf buf p
  let buf ← Memory.cut star buf p
  let tokens ← store st.tokens (st.count, some p)
  let next ← Memory.strtok comma buf st.save
  some ⟨next.array, tokens, st.count, next.save, next.token⟩

/-- `while (p && count < NMEA_MAX_TOKENS)` (`gps.c:195`) -/
def tokenLoop (st : Tokens) : Option Tokens :=
  match st.p with
  | none => some st
  | some p =>
    if st.count < nmeaMaxTokens then
      (tokenRound st p).bind fun next => tokenLoop { next with count := st.count + 1 }
    else some st
termination_by nmeaMaxTokens - st.count

/-- What the stack holds when `parse_nmea` is called: `buf` and `expected`. -/
structure Frame where
  buf : List Byte
  expected : Int
  length_buf : buf.length = bufSize

/-- `  [WARN] ...` (`gps.c:187`) -/
def warning (actual : Byte) : List Byte :=
  bytes "  [WARN] Checksum mismatch (calc=0x" ++ hexPair actual ++ bytes ")"

/-- What is printed of the tokens (`gps.c:206`). -/
def showTokens (st : Tokens) : Option (List (List Byte)) := do
  if st.count < 1 then some []
  else
    let address ← entry st.tokens 0
    let suffix ← nmeaSuffix st.buf address
    match ← dispatch st.buf suffix with
    | some routine => run (tok st.buf st.tokens st.count) routine
    | none =>
      let name ← Memory.str st.buf (← Memory.advance st.buf address 1)
      some [sprintf "  [%s]" [name]]

/-- `parse_nmea` (`gps.c:160`): the lines it prints -/
def parseNmea (frame : Frame) (line : List Byte) : Option (List (List Byte)) := do
  let buf ← Memory.strncpy frame.buf line (bufSize - 1)
  let buf ← store buf (bufSize - 1, 0)
  let buf ← stripLoop (← Memory.strlen buf 0) buf
  let raw := sprintf ">>> %s" [← Memory.str buf 0]
  let (buf, mismatch) ← checksumTest frame.expected buf
  match mismatch with
  | some actual => some [raw, warning actual]
  | none =>
    let buf ← Memory.strcpy buf line
    let start ← Memory.strtok comma buf 0
    let st ← tokenLoop
      ⟨start.array, List.replicate nmeaMaxTokens none, 0, start.save, start.token⟩
    let shown ← showTokens st
    some (raw :: shown)

/-- One byte from the port (`gps.c:280`): the state behind it and what is printed. -/
def readByte (s : LineState) (frame : Frame) (c : Byte) :
    Option (LineState × List (List Byte)) := do
  if c = lf then
    let full ← store s.line (s.linePos, 0)
    if s.linePos > 0 then
      if (← full[0]?) = dollar then
        let printed ← parseNmea frame full
        some (.fresh, printed)
      else some (.fresh, [])
    else some (.fresh, [])
  else if s.linePos < bufSize - 1 then
    let line ← store s.line (s.linePos, c)
    some (⟨line, s.linePos + 1⟩, [])
  else some (.fresh, [])

/-- The loop of `main` (`gps.c:270`): each read brings a byte or none, and finds a stack. -/
def mainLoop : LineState → List (Option Byte × Frame) → Option (List (List Byte))
  | _, [] => some []
  | s, (none, _) :: reads => mainLoop s reads
  | s, (some c, frame) :: reads => do
    let (s, printed) ← readByte s frame c
    let more ← mainLoop s reads
    some (printed ++ more)

section Display

variable {t : Nat → Option (List Byte)} {s : Nat → List Byte}

/-- What is seen through `TOK` are strings. -/
def Shows (t : Nat → Option (List Byte)) (s : Nat → List Byte) : Prop :=
  ∀ i, ∃ view, t i = some view ∧ Memory.Holds view 0 (s i)

theorem Shows.text (h : Shows t s) (i : Nat) : text t i = some (s i) := by
  obtain ⟨view, hview, hholds⟩ := h i
  rw [InMemory.text, hview, Option.bind_some, hholds.str]

theorem Shows.is (h : Shows t s) (i : Nat) {lit : String} (hlit : 0 ∉ bytes lit) :
    is t i lit = some (decide (s i = bytes lit)) := by
  obtain ⟨view, hview, hholds⟩ := h i
  have hcmp := hholds.strcmp hlit
  rw [InMemory.is, hview, Option.bind_some]
  exact hcmp

theorem Shows.first (h : Shows t s) (i : Nat) : first t i = some ((s i).headD 0) := by
  obtain ⟨view, hview, hholds⟩ := h i
  rw [InMemory.first, hview, Option.bind_some, hholds.getElem?]

theorem Shows.headD_ne_zero_iff (h : Shows t s) (i : Nat) : (s i).headD 0 ≠ 0 ↔ s i ≠ [] := by
  obtain ⟨view, -, hholds⟩ := h i
  have hnonzero := hholds.nonzero
  cases hs : s i with
  | nil => simp
  | cons b rest =>
    rw [hs, List.mem_cons, not_or] at hnonzero
    simp [Ne.symm hnonzero.1]

/-- The display routines read strings only, and print them. -/
theorem Shows.run (h : Shows t s) (routine : Routine) :
    run t routine = some (routine.lines s) := by
  have hA : 0 ∉ bytes "A" := by decide
  have hM : 0 ∉ bytes "M" := by decide
  have h0 : 0 ∉ bytes "0" := by decide
  have h1 : 0 ∉ bytes "1" := by decide
  have h2 : 0 ∉ bytes "2" := by decide
  have h3 : 0 ∉ bytes "3" := by decide
  cases routine with
  | gpgga =>
    simp only [InMemory.run, Routine.lines, parseGpgga, Gps.parseGpgga, h.text, h.is 6 h0,
      h.is 6 h1, h.is 6 h2, h.first, Option.bind_eq_bind, Option.bind_some, decide_eq_true_eq,
      h.headD_ne_zero_iff]
    split_ifs <;> rfl
  | gprmc =>
    simp only [InMemory.run, Routine.lines, parseGprmc, Gps.parseGprmc, h.text, h.is 2 hA,
      h.first, Option.bind_eq_bind, Option.bind_some, decide_eq_true_eq, h.headD_ne_zero_iff]
    split_ifs <;> rfl
  | gpvtg =>
    simp only [InMemory.run, Routine.lines, parseGpvtg, Gps.parseGpvtg, h.text,
      Option.bind_eq_bind, Option.bind_some]
  | gpgsa =>
    simp only [InMemory.run, Routine.lines, parseGpgsa, Gps.parseGpgsa, h.text, h.is 2 hM,
      h.is 3 h3, h.is 3 h2, h.first, Option.bind_eq_bind, Option.bind_some, decide_eq_true_eq,
      h.headD_ne_zero_iff]
    split_ifs <;> rfl
  | zda =>
    simp only [InMemory.run, Routine.lines, parseZda, Gps.parseZda, h.text,
      Option.bind_eq_bind, Option.bind_some]
  | gst =>
    simp only [InMemory.run, Routine.lines, parseGst, Gps.parseGst, h.text,
      Option.bind_eq_bind, Option.bind_some]

end Display

section Line

variable {buf : List Byte} {u : List Byte} {p : Nat}

theorem stripEnd_concat (u : List Byte) (b : Byte) :
    stripEnd (u ++ [b]) = if b = cr ∨ b = lf then stripEnd u else u ++ [b] := by
  rw [stripEnd, List.reverse_concat, List.dropWhile_cons]
  by_cases hb : b = cr ∨ b = lf
  · simp [hb, stripEnd]
  · simp [hb]

/-- The end of the line is stripped in place. -/
theorem stripLoop_eq (h : Memory.Holds buf 0 u) :
    ∃ buf', stripLoop u.length buf = some buf' ∧ Memory.Holds buf' 0 (stripEnd u) ∧
      buf'.length = buf.length := by
  induction u using List.reverseRecOn generalizing buf with
  | nil => exact ⟨buf, rfl, h, rfl⟩
  | append_singleton u b ih =>
    have hget : buf[u.length]? = some b := by
      have hchar := h.chars u.length (by simp)
      rwa [Nat.zero_add, List.getElem?_concat_length] at hchar
    rw [List.length_append, List.length_singleton, stripLoop, hget, stripEnd_concat]
    by_cases hb : b = cr ∨ b = lf
    · obtain ⟨buf', hstore, hcut, -, hkeep⟩ := h.store_nul (k := u.length) (by simp)
      rw [Nat.zero_add] at hstore
      rw [List.take_left] at hcut
      obtain ⟨buf'', hloop, hholds, hlen⟩ := ih hcut
      refine ⟨buf'', ?_, ?_, hlen.trans hkeep.length_eq⟩
      · simp only [Option.bind_eq_bind, Option.bind_some, if_pos hb, hstore, hloop]
      · rwa [if_pos hb]
    · refine ⟨buf, ?_, ?_, rfl⟩
      · simp only [Option.bind_eq_bind, Option.bind_some, if_neg hb]
      · rwa [if_neg hb]

/-- A first byte that is not stripped stays. -/
theorem head?_stripEnd (hu : u.head? = some dollar) : (stripEnd u).head? = some dollar := by
  induction u using List.reverseRecOn with
  | nil => cases hu
  | append_singleton u b ih =>
    rw [stripEnd_concat]
    split
    next hb =>
      cases u with
      | nil =>
        obtain rfl : b = dollar := Option.some.inj hu
        exact absurd hb (by decide)
      | cons c u => exact ih hu
    next => exact hu

theorem checksumLoop_eq (u rest : List Byte) (h : 0 ∉ u) (cs : Byte) :
    checksumLoop (u ++ 0 :: rest) cs =
      some ((u.takeWhile fun b => b ≠ 0 ∧ b ≠ star).foldl (· ^^^ ·) cs) := by
  induction u generalizing cs with
  | nil => simp [checksumLoop]
  | cons b u ih =>
    rw [List.mem_cons, not_or] at h
    by_cases hb : b = star
    · simp [checksumLoop, hb]
    · simp [checksumLoop, hb, Ne.symm h.1, ih h.2]

theorem nmeaChecksum_eq (h : Memory.Holds buf 0 u) (hu : 0 < u.length) :
    nmeaChecksum buf = some (Gps.nmeaChecksum u) := by
  obtain ⟨rest, hrest⟩ := (h.drop hu).view
  have hadvance := h.advance (k := 1) hu
  have h0 : 0 ∉ u.drop 1 := fun hmem => h.nonzero (List.mem_of_mem_drop hmem)
  rw [Nat.zero_add] at hadvance hrest
  rw [nmeaChecksum, hadvance, Option.bind_eq_bind, Option.bind_some, hrest,
    checksumLoop_eq _ _ h0, Gps.nmeaChecksum]

/-- The start of an empty sentence would be left. -/
example : nmeaChecksum [0, 36] = none := rfl

/-- A line that begins with `$` has a byte in front of its `*`. -/
theorem length_cutAt_pos (hu : u.head? = some dollar) : 0 < (cutAt star u).length := by
  cases u with
  | nil => cases hu
  | cons b u =>
    obtain rfl : b = dollar := Option.some.inj hu
    have hne : dollar ≠ star := by decide
    simp [cutAt, hne]

theorem checksumTest_eq (h : Memory.Holds buf 0 u) (hu : u.head? = some dollar) (expected₀ : Int) :
    ∃ buf', checksumTest expected₀ buf = some (buf', Gps.checksumTest expected₀ u) ∧
      buf'.length = buf.length := by
  have hstar : star ≠ 0 := by decide
  have hchr := h.strchr hstar
  rw [Nat.zero_add] at hchr
  by_cases hmem : star ∈ u
  · have hlt := Memory.length_cutAt_lt hmem
    have hat := h.drop hlt.le
    have hbehind := h.drop (k := (cutAt star u).length + 1) hlt
    obtain ⟨buf', hstore, hcut, -, hkeep⟩ := h.store_nul hlt
    have hadvance := hat.advance (k := 1) (by rw [List.length_drop]; omega)
    rw [Memory.take_cutAt] at hcut
    have hsum := nmeaChecksum_eq hcut (length_cutAt_pos hu)
    have hback : store buf' ((cutAt star u).length, star) =
        some (buf'.set (cutAt star u).length star) := by
      apply if_pos
      have hroom := h.lt
      have hlen := hkeep.length_eq
      change (cutAt star u).length < buf'.length
      omega
    rw [Nat.zero_add] at hadvance hstore hbehind
    refine ⟨buf'.set (cutAt star u).length star, ?_, ?_⟩
    · rw [if_pos hmem] at hchr
      have hnumber := hbehind.str
      rw [← List.drop_drop, Memory.drop_cutAt] at hnumber
      rw [checksumTest, hchr, Gps.checksumTest, if_pos hmem]
      simp only [Option.bind_eq_bind, Option.bind_some, hadvance, hnumber, hstore, hsum, hback]
    · rw [List.length_set, hkeep.length_eq]
  · refine ⟨buf, ?_, rfl⟩
    rw [if_neg hmem] at hchr
    rw [checksumTest, hchr, Gps.checksumTest, if_neg hmem]
    rfl

end Line

/-! ## The tokens -/

section TokenArray

variable {buf buf' : List Byte} {tokens : List (Option Nat)} {ts : List (List Byte)}
variable {s token rest : List Byte} {p bound lo hi : Nat} {st : Tokens}

/-- The first entries of `tokens` are set and go to the strings `ts`, which end in front of
`bound` or there. -/
def TokensHold (buf : List Byte) (tokens : List (Option Nat)) (ts : List (List Byte))
    (bound : Nat) : Prop :=
  ∀ i u, ts[i]? = some u →
    ∃ p, entry tokens i = some p ∧ Memory.Holds buf p u ∧ p + u.length ≤ bound

theorem TokensHold.keeps (h : TokensHold buf tokens ts bound) (hkeep : Memory.Keeps lo hi buf buf')
    (hlo : bound ≤ lo) : TokensHold buf' tokens ts bound := by
  intro i u hi
  obtain ⟨p, hentry, hholds, hle⟩ := h i u hi
  exact ⟨p, hentry, hholds.keeps_before hkeep (by omega), hle⟩

/-- `tokens[count] = p` -/
theorem TokensHold.set (h : TokensHold buf tokens ts lo) (hroom : ts.length < tokens.length)
    (htoken : Memory.Holds buf p token) (hp : p + token.length ≤ bound) (hlo : lo ≤ bound) :
    TokensHold buf (tokens.set ts.length (some p)) (ts ++ [token]) bound := by
  intro i u hi
  rcases Nat.lt_trichotomy i ts.length with hlt | rfl | hgt
  · rw [List.getElem?_append_left hlt] at hi
    obtain ⟨q, hentry, hholds, hle⟩ := h i u hi
    refine ⟨q, ?_, hholds, by omega⟩
    rwa [entry, List.getElem?_set_ne (by omega)]
  · rw [List.getElem?_concat_length] at hi
    obtain rfl := Option.some.inj hi
    exact ⟨p, by rw [entry, List.getElem?_set_self hroom]; rfl, htoken, hp⟩
  · rw [List.getElem?_eq_none (by rw [List.length_append, List.length_singleton]; omega)] at hi
    cases hi

/-- Where the loop stands: the tokens `ts` are set, and `strtok` has taken the first one of
`s`. -/
def Pending (st : Tokens) (ts : List (List Byte)) (s : List Byte) : Prop :=
  st.count = ts.length ∧ st.tokens.length = nmeaMaxTokens ∧
    match strtok comma s with
    | none => st.p = none ∧ ∃ bound, TokensHold st.buf st.tokens ts bound
    | some (token, rest) => ∃ p, st.p = some p ∧ Memory.Holds st.buf p token ∧
        Memory.Holds st.buf st.save rest ∧ p + token.length ≤ st.save ∧
        TokensHold st.buf st.tokens ts p

/-- A `strtok` brings the loop to its next round. -/
theorem pending_of_strtok (hs : Memory.Holds buf p s) (hts : TokensHold buf tokens ts bound)
    (hle : bound ≤ p) (hlen : tokens.length = nmeaMaxTokens) :
    ∃ next, Memory.strtok comma buf p = some next ∧
      Pending ⟨next.array, tokens, ts.length, next.save, next.token⟩ ts s := by
  have hcomma : comma ≠ 0 := by decide
  have hstrtok := hs.strtok hcomma
  unfold Pending
  cases hpure : strtok comma s with
  | none =>
    rw [hpure] at hstrtok
    obtain ⟨save, hrun⟩ := hstrtok
    exact ⟨_, hrun, rfl, hlen, rfl, bound, hts⟩
  | some r =>
    rw [hpure] at hstrtok
    obtain ⟨buf', save, start, hrun, htoken, hrest, hstart, hsave, hkeep⟩ := hstrtok
    have hts' := hts.keeps hkeep (by omega)
    refine ⟨_, hrun, rfl, hlen, start, rfl, htoken, hrest, hsave, ?_⟩
    intro i u hi
    obtain ⟨q, hentry, hholds, hend⟩ := hts' i u hi
    exact ⟨q, hentry, hholds, by omega⟩

/-- The three cuts of a token. -/
theorem cuts_eq (h : Memory.Holds buf p token) :
    ∃ b b' b'', Memory.cut cr buf p = some b ∧ Memory.cut lf b p = some b' ∧
      Memory.cut star b' p = some b'' ∧ Memory.Holds b'' p (cutToken token) ∧
      Memory.Keeps p (p + token.length) buf b'' := by
  obtain ⟨b, hcr, hb, hkeep⟩ := h.cut (c := cr) (by decide)
  obtain ⟨b', hlf, hb', hkeep'⟩ := hb.cut (c := lf) (by decide)
  obtain ⟨b'', hstar, hb'', hkeep''⟩ := hb'.cut (c := star) (by decide)
  have hle : (cutAt cr token).length ≤ token.length := (cutAt_isPrefix cr token).length_le
  have hle' : (cutAt lf (cutAt cr token)).length ≤ (cutAt cr token).length :=
    (cutAt_isPrefix lf _).length_le
  exact ⟨b, b', b'', hcr, hlf, hstar, hb'', hkeep.trans
    ((hkeep'.mono le_rfl (by omega)).trans (hkeep''.mono le_rfl (by omega)))⟩

theorem length_cutToken_le (token : List Byte) : (cutToken token).length ≤ token.length :=
  ((cutAt_isPrefix star _).length_le.trans (cutAt_isPrefix lf _).length_le).trans
    (cutAt_isPrefix cr token).length_le

/-- A round cuts its token, sets an entry and keeps the tokens before it and the rest. -/
theorem tokenRound_eq (hcount : st.count = ts.length) (hlen : st.tokens.length = nmeaMaxTokens)
    (hroom : st.count < nmeaMaxTokens) (htoken : Memory.Holds st.buf p token)
    (hrest : Memory.Holds st.buf st.save rest) (hsave : p + token.length ≤ st.save)
    (hts : TokensHold st.buf st.tokens ts p) :
    ∃ next, tokenRound st p = some next ∧
      Pending { next with count := st.count + 1 } (ts ++ [cutToken token]) rest := by
  obtain ⟨b, b', b'', hcr, hlf, hstar, hcut, hkeep⟩ := cuts_eq htoken
  have hset : TokensHold b'' (st.tokens.set ts.length (some p)) (ts ++ [cutToken token])
      (p + token.length) :=
    (hts.keeps hkeep le_rfl).set (by omega) hcut
      (Nat.add_le_add_left (length_cutToken_le token) p) (by omega)
  have hstore : store st.tokens (st.count, some p) = some (st.tokens.set st.count (some p)) :=
    if_pos (by rw [hlen]; exact hroom)
  obtain ⟨next, hstrtok, hpending⟩ := pending_of_strtok (hrest.keeps_behind hkeep hsave) hset
    hsave (by rw [List.length_set, hlen])
  refine ⟨⟨next.array, st.tokens.set st.count (some p), st.count, next.save, next.token⟩, ?_, ?_⟩
  · rw [tokenRound]
    simp only [hcr, hlf, hstar, hstore, hstrtok, Option.bind_eq_bind, Option.bind_some]
  · rw [List.length_append, List.length_singleton, ← hcount] at hpending
    exact hpending

/-- The loop sets an entry for each token that there is room for. -/
theorem tokenLoop_eq (h : Pending st ts s) :
    ∃ st' bound, tokenLoop st = some st' ∧
      st'.count =
        (ts ++ (strtokAll comma (nmeaMaxTokens - st.count) s).map cutToken).length ∧
      TokensHold st'.buf st'.tokens
        (ts ++ (strtokAll comma (nmeaMaxTokens - st.count) s).map cutToken) bound := by
  obtain ⟨hcount, hlen, hpending⟩ := h
  induction hroom : nmeaMaxTokens - st.count generalizing st ts s with
  | zero =>
    have hfull : ¬ st.count < nmeaMaxTokens := by omega
    have hend : tokenLoop st = some st := by
      rw [tokenLoop]
      cases st.p with
      | none => rfl
      | some p => exact if_neg hfull
    have hts : ∃ bound, TokensHold st.buf st.tokens ts bound := by
      cases hpure : strtok comma s with
      | none => rw [hpure] at hpending; exact hpending.2
      | some r =>
        rw [hpure] at hpending
        obtain ⟨p, -, -, -, -, hts⟩ := hpending
        exact ⟨p, hts⟩
    obtain ⟨bound, hts⟩ := hts
    rw [strtokAll, List.map_nil, List.append_nil]
    exact ⟨st, bound, hend, hcount, hts⟩
  | succ room ih =>
    have hlt : st.count < nmeaMaxTokens := by omega
    rw [strtokAll]
    cases hpure : strtok comma s with
    | none =>
      rw [hpure] at hpending
      obtain ⟨hp, bound, hts⟩ := hpending
      refine ⟨st, bound, ?_, ?_, ?_⟩
      · rw [tokenLoop, hp]
      · simpa using hcount
      · simpa using hts
    | some r =>
      rw [hpure] at hpending
      obtain ⟨p, hp, htoken, hrest, hsave, hts⟩ := hpending
      obtain ⟨next, hround, hcount', hlen', hpending'⟩ :=
        tokenRound_eq hcount hlen hlt htoken hrest hsave hts
      obtain ⟨st', bound, hloop, hcount'', hts'⟩ := ih hcount' hlen' hpending' (by
        change nmeaMaxTokens - (st.count + 1) = room
        omega)
      refine ⟨st', bound, ?_, ?_, ?_⟩
      · rw [tokenLoop, hp]
        simp only [if_pos hlt, hround, Option.bind_some, hloop]
      · simpa using hcount''
      · simpa using hts'

end TokenArray

/-! ## `parse_nmea` and `main` -/

section Run

variable {buf line : List Byte} {tokens : List (Option Nat)} {ts : List (List Byte)}
variable {u : List Byte} {p bound : Nat} {s : LineState}

/-- The strings that `TOK` shows are those of the tokens. -/
theorem TokensHold.shows (h : TokensHold buf tokens ts bound) :
    Shows (tok buf tokens ts.length) (Gps.tok ts) := by
  intro i
  rw [Gps.tok, List.getD_eq_getElem?_getD]
  by_cases hi : i < ts.length
  · have hget := List.getElem?_eq_getElem hi
    obtain ⟨p, hentry, hholds, -⟩ := h i _ hget
    refine ⟨buf.drop p, ?_, ?_⟩
    · rw [tok, if_pos hi, hentry, Option.map_some]
    · rw [hget, Option.getD_some]
      exact hholds.at_pointer
  · refine ⟨[0], if_neg hi, ?_⟩
    rw [List.getElem?_eq_none (by omega)]
    exact ⟨List.not_mem_nil, fun k hk => absurd hk (Nat.not_lt_zero k), rfl⟩

/-- `nmea_suffix` stays within its string, and what it gives compares as the last three
characters. -/
theorem nmeaSuffix_eq (h : Memory.Holds buf p u) :
    ∃ suffix, nmeaSuffix buf p = some suffix ∧ ∀ lit, 0 ∉ bytes lit →
      suffixIs buf suffix lit = some (decide (Gps.nmeaSuffix u = some (bytes lit))) := by
  obtain ⟨q, hq⟩ := h.strrchr comma
  rw [nmeaSuffix, Gps.nmeaSuffix]
  simp only [hq, h.strlen, Option.bind_eq_bind, Option.bind_some]
  by_cases hlen : 3 ≤ u.length
  · have hle : u.length - 3 ≤ u.length := Nat.sub_le _ _
    refine ⟨some (p + (u.length - 3)), ?_, ?_⟩
    · rw [if_pos hlen, h.advance hle, Option.map_some]
    · intro lit hlit
      rw [suffixIs, (h.drop hle).strcmp hlit, if_pos hlen]
      simp only [Option.some.injEq]
  · refine ⟨none, if_neg hlen, ?_⟩
    intro lit hlit
    rw [suffixIs, if_neg hlen]
    simp

theorem dispatch_eq {suffix : Option Nat} {sfx : Option (List Byte)}
    (h : ∀ lit, 0 ∉ bytes lit → suffixIs buf suffix lit = some (decide (sfx = some (bytes lit)))) :
    dispatch buf suffix = some (Gps.dispatch sfx) := by
  rw [dispatch, Gps.dispatch, h "GGA" (by decide), h "RMC" (by decide), h "VTG" (by decide),
    h "GSA" (by decide), h "ZDA" (by decide), h "GST" (by decide)]
  simp only [Option.bind_eq_bind, Option.bind_some, decide_eq_true_eq]
  split_ifs <;> rfl

/-- The lines that an outcome prints behind the raw one. -/
def outcomeLines : Outcome → List (List Byte)
  | .mismatch actual => [warning actual]
  | .noTokens => []
  | .shown routine tokens => routine.lines (Gps.tok tokens)
  | .unknown name => [sprintf "  [%s]" [name]]

/-- What `parse_nmea` is to print. -/
def nmeaLines (expected₀ : Int) (line : List Byte) : List (List Byte) :=
  sprintf ">>> %s" [stripEnd (line.take (bufSize - 1))] ::
    outcomeLines (Gps.parseNmea expected₀ line)

/-- What the dispatch makes of the tokens of a line. -/
def tokensOutcome : List (List Byte) → Outcome
  | [] => .noTokens
  | first :: rest =>
    match Gps.dispatch (Gps.nmeaSuffix first) with
    | some routine => .shown routine (first :: rest)
    | none => .unknown (first.drop 1)

/-- The tokens are shown through entries that are set, and the address from its second
character on. -/
theorem showTokens_eq {st : Tokens} (hcount : st.count = ts.length)
    (h : TokensHold st.buf st.tokens ts bound) (hts : ∀ address ∈ ts.head?, address ≠ []) :
    showTokens st = some (outcomeLines (tokensOutcome ts)) := by
  rw [showTokens]
  cases ts with
  | nil => exact if_pos (by rw [hcount]; exact Nat.one_pos)
  | cons first rest =>
    obtain ⟨p, hentry, hholds, -⟩ := h 0 first rfl
    obtain ⟨suffix, hsuffix, hcmp⟩ := nmeaSuffix_eq hholds
    have hpos : 1 ≤ first.length := List.length_pos_iff.mpr (hts first rfl)
    rw [if_neg (by rw [hcount, List.length_cons]; omega)]
    simp only [hentry, hsuffix, dispatch_eq hcmp, Option.bind_eq_bind, Option.bind_some,
      tokensOutcome]
    cases Gps.dispatch (Gps.nmeaSuffix first) with
    | some routine =>
      rw [hcount]
      exact h.shows.run routine
    | none =>
      simp only [hholds.advance hpos, (hholds.drop hpos).str, Option.bind_some, outcomeLines]

/-- The address of a line that begins with `$` is not empty. -/
theorem ne_nil_of_tokenize (hu : u.head? = some dollar) :
    ∀ address ∈ (tokenize u).head?, address ≠ [] := by
  cases u with
  | nil => cases hu
  | cons b u =>
    obtain rfl : b = dollar := Option.some.inj hu
    have hcut : ∀ c v, dollar ≠ c → cutAt c (dollar :: v) = dollar :: cutAt c v := by
      intro c v hc
      exact cutAt_append (s := [dollar]) (by simpa using hc.symm) v
    have hskip : (dollar :: u).dropWhile (· = comma) = dollar :: u :=
      List.dropWhile_cons_of_neg (by decide)
    have htoken : ∃ v rest, strtok comma (dollar :: u) = some (dollar :: v, rest) := by
      refine ⟨cutAt comma u, ((dollar :: u).dropWhile (· ≠ comma)).drop 1, ?_⟩
      rw [strtok, hskip, ← hcut comma u (by decide)]
      rfl
    obtain ⟨v, rest, hstrtok⟩ := htoken
    intro address haddress
    rw [tokenize, nmeaMaxTokens, strtokAll, hstrtok, List.map_cons, List.head?_cons, cutToken,
      hcut cr v (by decide), hcut lf _ (by decide), hcut star _ (by decide)] at haddress
    obtain rfl := Option.some.inj haddress
    exact List.cons_ne_nil _ _

/-- `parse_nmea` keeps inside of its arrays, and prints what it should. -/
theorem parseNmea_eq (frame : Frame) (h : Memory.Holds line 0 u) (hu : u.head? = some dollar)
    (hlen : u.length < bufSize) : parseNmea frame line = some (nmeaLines frame.expected u) := by
  obtain ⟨b₁, b₂, hncpy, hnul, hcopy, hlen₂⟩ :=
    Memory.strncpy_holds (a := frame.buf) (n := bufSize - 1) h (by rw [frame.length_buf]; decide)
  obtain ⟨b₃, hstrip, hraw, hlen₃⟩ := stripLoop_eq hcopy
  have hhead : (u.take (bufSize - 1)).head? = some dollar := by
    rw [List.head?_take, hu]
    rfl
  obtain ⟨b₄, hcheck, hlen₄⟩ := checksumTest_eq hraw (head?_stripEnd hhead) frame.expected
  have hroom : u.length < b₄.length := by
    rw [hlen₄, hlen₃, hlen₂, frame.length_buf]
    exact hlen
  obtain ⟨b₅, hcpy, hline, -⟩ := Memory.strcpy_holds h hroom
  have hnone : TokensHold b₅ (List.replicate nmeaMaxTokens none) [] 0 := by
    intro i v hi
    cases hi
  obtain ⟨start, hstrtok, hpending⟩ := pending_of_strtok hline hnone le_rfl List.length_replicate
  obtain ⟨st, bound, hloop, hcount, hts⟩ := tokenLoop_eq hpending
  rw [parseNmea, nmeaLines, Gps.parseNmea]
  simp only [hncpy, hnul, hcopy.strlen, hstrip, hraw.str, hcheck, Option.bind_eq_bind,
    Option.bind_some]
  cases Gps.checksumTest frame.expected (stripEnd (u.take (bufSize - 1))) with
  | some actual => rfl
  | none =>
    rw [List.length_nil] at hloop
    have hshown : showTokens st = some (outcomeLines (tokensOutcome (tokenize u))) :=
      showTokens_eq hcount hts (ne_nil_of_tokenize hu)
    simp only [hcpy, hstrtok, hloop, hshown, Option.bind_some]
    rfl

/-- What a read finds in `line`. -/
def InLine (s : LineState) : Prop := s.line.length = bufSize ∧ s.linePos < bufSize

theorem inLine_fresh : InLine .fresh := ⟨List.length_replicate, bufSize_pos⟩

/-- A NUL anywhere makes the start of an array a string. -/
theorem holds_cstr (h : 0 ∈ line) : Memory.Holds line 0 (cstr line) := by
  obtain ⟨rest, hrest⟩ := exists_cutAt_append h
  exact .of_view (not_mem_cutAt 0 line) (List.drop_zero.trans hrest)

/-- A full array that begins with `$` goes to `parse_nmea` as a string that does. -/
theorem parseNmea_full {full : List Byte} (frame : Frame) (hlen : full.length = bufSize)
    (h0 : 0 ∈ full) (hfirst : full[0]? = some dollar) :
    parseNmea frame full = some (nmeaLines frame.expected (cstr full)) := by
  have hholds := holds_cstr h0
  have hlt := hholds.lt
  have hget := hholds.getElem?
  have hhead : (cstr full).head? = some dollar := by
    rw [hfirst] at hget
    cases hstr : cstr full with
    | nil =>
      rw [hstr] at hget
      exact absurd (Option.some.inj hget) (by decide)
    | cons b u =>
      rw [hstr] at hget
      exact hget.symm
  exact parseNmea_eq frame hholds hhead (by omega)

/-- What a newline makes of the line before it. -/
theorem readByte_lf (h : InLine s) (frame : Frame) :
    readByte s frame lf = some ((s.readByte lf).1,
      (s.readByte lf).2.flatMap fun line => nmeaLines frame.expected (cstr line)) := by
  obtain ⟨hlen, hpos⟩ := h
  have hstore : store s.line (s.linePos, 0) = some (s.line.set s.linePos 0) :=
    if_pos (by rw [hlen]; exact hpos)
  have hend : s.readByte lf = (.fresh,
      if 0 < s.linePos ∧ (s.line.set s.linePos 0).getD 0 0 = dollar then
        [s.line.set s.linePos 0] else []) := by rw [LineState.readByte, if_pos rfl]
  have hzero : 0 ∈ s.line.set s.linePos 0 := List.mem_set (by rw [hlen]; exact hpos) 0
  have hlen' : (s.line.set s.linePos 0).length = bufSize := by rw [List.length_set, hlen]
  rw [readByte, if_pos rfl, hstore, hend, Option.bind_eq_bind, Option.bind_some]
  generalize s.line.set s.linePos 0 = full at hzero hlen' ⊢
  have hfirst : full[0]? = some (full.getD 0 0) := by
    have hroom : 0 < full.length := by rw [hlen']; exact bufSize_pos
    rw [List.getD_eq_getElem?_getD, List.getElem?_eq_getElem hroom, Option.getD_some]
  by_cases hfill : s.linePos > 0
  · rw [if_pos hfill, hfirst, Option.bind_eq_bind, Option.bind_some]
    by_cases hdollar : full.getD 0 0 = dollar
    · rw [hdollar] at hfirst
      rw [if_pos hdollar, if_pos ⟨hfill, hdollar⟩, parseNmea_full frame hlen' hzero hfirst]
      simp
    · rw [if_neg hdollar, if_neg fun hand => hdollar hand.2]
      rfl
  · rw [if_neg hfill, if_neg fun hand => hfill hand.1]
    rfl

/-- A byte from the port: `line` is kept within its bounds, and a sentence goes to
`parse_nmea`. -/
theorem readByte_eq (h : InLine s) (frame : Frame) (c : Byte) :
    InLine (s.readByte c).1 ∧
      readByte s frame c = some ((s.readByte c).1,
        (s.readByte c).2.flatMap fun line => nmeaLines frame.expected (cstr line)) := by
  by_cases hc : c = lf
  · subst hc
    refine ⟨?_, readByte_lf h frame⟩
    rw [LineState.readByte, if_pos rfl]
    exact inLine_fresh
  · obtain ⟨hlen, hpos⟩ := h
    have hstore : store s.line (s.linePos, c) = some (s.line.set s.linePos c) :=
      if_pos (by rw [hlen]; exact hpos)
    rw [readByte, hstore, LineState.readByte, if_neg hc, if_neg hc]
    by_cases hroom : s.linePos < bufSize - 1
    · rw [if_pos hroom, if_pos hroom]
      refine ⟨⟨by rw [List.length_set]; exact hlen, ?_⟩, rfl⟩
      change s.linePos + 1 < bufSize
      omega
    · rw [if_neg hroom, if_neg hroom]
      exact ⟨inLine_fresh, rfl⟩

/-- What is to be printed of the bytes from the port. -/
def printed : LineState → List (Option Byte × Frame) → List (List Byte)
  | _, [] => []
  | s, (none, _) :: reads => printed s reads
  | s, (some c, frame) :: reads =>
    ((s.readByte c).2.flatMap fun line => nmeaLines frame.expected (cstr line)) ++
      printed (s.readByte c).1 reads

theorem mainLoop_of_inLine (h : InLine s) (reads : List (Option Byte × Frame)) :
    mainLoop s reads = some (printed s reads) := by
  induction reads generalizing s with
  | nil => rfl
  | cons read reads ih =>
    obtain ⟨read, frame⟩ := read
    cases read with
    | none => exact ih h
    | some c =>
      obtain ⟨hnext, hread⟩ := readByte_eq h frame c
      rw [mainLoop, printed, hread]
      simp only [Option.bind_eq_bind, Option.bind_some, ih hnext]

/-- No access leaves its array or its string, whatever comes from the port and whatever the
stack holds, and what is printed is what the lines of the stream call for. -/
theorem mainLoop_inside (reads : List (Option Byte × Frame)) :
    mainLoop .fresh reads = some (printed .fresh reads) :=
  mainLoop_of_inLine inLine_fresh reads

end Run

end BoardTest.Gps.InMemory
