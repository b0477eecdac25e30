import BoardTest.Lib.Fields
import Mathlib.Data.Int.Init

/-!
# The GPS reader's NMEA sentences

`parse_nmea` of `openharmony_cmd/fltest_gps/gps.c`: a line is trimmed, its checksum is compared
when it has a `*`, and its fields, cut by `strtok`, are handed to the display routine chosen by the
last three characters of the address. `char` is unsigned, as on the aarch64 targets.
-/

namespace BoardTest.Gps

def comma : Byte := 44
def star : Byte := 42
def dollar : Byte := 36
def cr : Byte := 13
def lf : Byte := 10

/-- `BUF_SIZE` (`gps.c:16`). -/
def bufSize : Nat := 512

/-- `NMEA_MAX_TOKENS` (`gps.c:17`). -/
def nmeaMaxTokens : Nat := 32

/-- `nmea_checksum` (`gps.c:72-78`): the XOR of the bytes from index 1 to the NUL or the `*`. -/
def nmeaChecksum (sentence : List Byte) : Byte :=
  ((sentence.drop 1).takeWhile (fun b => b ≠ 0 ∧ b ≠ star)).foldl (· ^^^ ·) 0

def isSpace (b : Byte) : Bool := b = 32 ∨ (9 ≤ b ∧ b ≤ 13)

/-- The value of a hexadecimal digit. -/
def hexDigit (b : Byte) : Option Nat :=
  if 48 ≤ b ∧ b ≤ 57 then some (b.toNat - 48)
  else if 65 ≤ b ∧ b ≤ 70 then some (b.toNat - 55)
  else if 97 ≤ b ∧ b ≤ 102 then some (b.toNat - 87)
  else none

def hexValue (digits : List Byte) : Nat :=
  digits.foldl (fun v b => 16 * v + (hexDigit b).getD 0) 0

/-- The optional sign of a scanned number: whether it is a minus, and the text behind it. -/
def scanSign : List Byte → Bool × List Byte
  | 43 :: rest => (false, rest)
  | 45 :: rest => (true, rest)
  | s => (false, s)

/-- The optional `0x` of a hexadecimal number. -/
def scanHexMark : List Byte → List Byte
  | 48 :: 120 :: rest => rest
  | 48 :: 88 :: rest => rest
  | s => s

/-- `%x`: blanks, a sign, `0x`, then at least one digit; `strtoul`'s 64-bit value is stored in an
`int`. Without a digit nothing is stored. -/
def scanHex (s : List Byte) : Option Int :=
  let (neg, rest) := scanSign (s.dropWhile isSpace)
  let digits := (scanHexMark rest).takeWhile (fun b => (hexDigit b).isSome)
  if digits = [] then none
  else
    let v := hexValue digits
    let stored := if 2 ^ 64 ≤ v then 2 ^ 64 - 1 else if neg then (2 ^ 64 - v) % 2 ^ 64 else v
    some ((stored : Int).bmod (2 ^ 32))

/-- `TOK(i)` (`gps.c:80`). -/
def tok (tokens : List (List Byte)) (i : Nat) : List Byte := tokens.getD i []

/-- `parse_gpgga` (`gps.c:82-94`), as the lines it prints. -/
def parseGpgga (t : Nat → List Byte) : List (List Byte) :=
  let quality :=
    if t 6 = bytes "0" then bytes "Invalid"
    else if t 6 = bytes "1" then bytes "GPS fix"
    else if t 6 = bytes "2" then bytes "DGPS fix"
    else if t 6 ≠ [] then bytes "Other" else bytes "N/A"
  [ bytes "  [GGA] Fix Data",
    sprintf "    UTC Time:     %s" [t 1],
    sprintf "    Latitude:     %s %s" [t 2, t 3],
    sprintf "    Longitude:    %s %s" [t 4, t 5],
    sprintf "    Fix Quality:  %s (%s)" [t 6, quality],
    sprintf "    Satellites:   %s" [t 7],
    sprintf "    Altitude:     %s m" [t 9] ]

/-- `parse_gprmc` (`gps.c:96-106`). -/
def parseGprmc (t : Nat → List Byte) : List (List Byte) :=
  let status :=
    if t 2 = bytes "A" then bytes "Valid" else if t 2 ≠ [] then bytes "Invalid" else bytes "N/A"
  [ bytes "  [RMC] Recommended Minimum",
    sprintf "    UTC Time:     %s" [t 1],
    sprintf "    Status:       %s (%s)" [t 2, status],
    sprintf "    Latitude:     %s %s" [t 3, t 4],
    sprintf "    Longitude:    %s %s" [t 5, t 6],
    sprintf "    Speed:        %s knots" [t 7],
    sprintf "    Date:         %s" [t 9] ]

/-- `parse_gpvtg` (`gps.c:108-113`). -/
def parseGpvtg (t : Nat → List Byte) : List (List Byte) :=
  [ bytes "  [VTG] Track & Speed",
    sprintf "    True Track:   %s°" [t 1],
    sprintf "    Speed:        %s km/h" [t 7] ]

/-- `parse_gpgsa` (`gps.c:115-125`). -/
def parseGpgsa (t : Nat → List Byte) : List (List Byte) :=
  let mode :=
    if t 2 = bytes "M" then bytes "Manual" else if t 2 ≠ [] then bytes "Auto" else bytes "N/A"
  let fix :=
    if t 3 = bytes "3" then bytes "3D"
    else if t 3 = bytes "2" then bytes "2D"
    else if t 3 ≠ [] then bytes "None" else bytes "N/A"
  [ bytes "  [GSA] Satellite Status",
    sprintf "    Mode:         %s (%s)" [t 2, mode],
    sprintf "    3D Fix:       %s (%s)" [t 3, fix],
    sprintf "    PDOP:         %s" [t 15],
    sprintf "    HDOP:         %s" [t 16],
    sprintf "    VDOP:         %s" [t 17] ]

/-- `parse_zda` (`gps.c:127-134`). -/
def parseZda (t : Nat → List Byte) : List (List Byte) :=
  [ bytes "  [ZDA] Time & Date",
    sprintf "    UTC Time:     %s" [t 1],
    sprintf "    Day:          %s" [t 2],
    sprintf "    Month:        %s" [t 3],
    sprintf "    Year:         %s" [t 4] ]

/-- `parse_gst` (`gps.c:136-147`). -/
def parseGst (t : Nat → List Byte) : List (List Byte) :=
  [ bytes "  [GST] Pseudorange Error Statistics",
    sprintf "    UTC Time:     %s" [t 1],
    sprintf "    RMS Dev:      %s m" [t 2],
    sprintf "    Semi-major:   %s m" [t 3],
    sprintf "    Semi-minor:   %s m" [t 4],
    sprintf "    Orientation:  %s°" [t 5],
    sprintf "    Lat Error:    %s m" [t 6],
    sprintf "    Lon Error:    %s m" [t 7],
    sprintf "    Alt Error:    %s m" [t 8] ]

/-- The six display routines of the dispatch. -/
inductive Routine
  | gpgga | gprmc | gpvtg | gpgsa | zda | gst
  deriving DecidableEq, Repr

def Routine.lines : Routine → (Nat → List Byte) → List (List Byte)
  | .gpgga => parseGpgga
  | .gprmc => parseGprmc
  | .gpvtg => parseGpvtg
  | .gpgsa => parseGpgsa
  | .zda => parseZda
  | .gst => parseGst

/-- `nmea_suffix` (`gps.c:150-158`): the last three characters. -/
def nmeaSuffix (sentence : List Byte) : Option (List Byte) :=
  if 3 ≤ sentence.length then some (sentence.drop (sentence.length - 3)) else none

/-- The `strcmp` chain of the dispatch (`gps.c:211-224`). -/
def dispatch (suffix : Option (List Byte)) : Option Routine :=
  if suffix = some (bytes "GGA") then some .gpgga
  else if suffix = some (bytes "RMC") then some .gprmc
  else if suffix = some (bytes "VTG") then some .gpvtg
  else if suffix = some (bytes "GSA") then some .gpgsa
  else if suffix = some (bytes "ZDA") then some .zda
  else if suffix = some (bytes "GST") then some .gst
  else none

/-- What `parse_nmea` comes to on a line. -/
inductive Outcome
  /-- the checksum warning, with the calculated value -/
  | mismatch (actual : Byte)
  /-- `count < 1` -/
  | noTokens
  /-- a display routine got this token array -/
  | shown (routine : Routine) (tokens : List (List Byte))
  /-- no suffix matched: `  [%s]` with the text behind the first character of the address -/
  | unknown (name : List Byte)
  deriving DecidableEq, Repr

/-- `while (len > 0 && (buf[len-1] == '\r' || buf[len-1] == '\n')) buf[--len] = '\0'`. -/
def stripEnd (s : List Byte) : List Byte :=
  (s.reverse.dropWhile (fun b => b = cr ∨ b = lf)).reverse

/-- The checksum test (`gps.c:175-189`): `none` when it lets the line through, the calculated value
when it stops it. `expected₀` is the value of the uninitialised variable `expected`. -/
def checksumTest (expected₀ : Int) (buf : List Byte) : Option Byte :=
  if star ∈ buf then
    let expected := (scanHex ((buf.dropWhile (· ≠ star)).drop 1)).getD expected₀
    let actual := nmeaChecksum (cutAt star buf)
    if expected ≠ (actual.toNat : Int) then some actual else none
  else none

/-- The three cuts of a token, at CR, LF and `*` (`gps.c:195-200`). -/
def cutToken (p : List Byte) : List Byte := cutAt star (cutAt lf (cutAt cr p))

/-- The token array of a line (`gps.c:191-203`). -/
def tokenize (line : List Byte) : List (List Byte) :=
  (strtokAll comma nmeaMaxTokens line).map cutToken

/-- `parse_nmea` (`gps.c:160-225`) on a NUL-free `line`. -/
def parseNmea (expected₀ : Int) (line : List Byte) : Outcome :=
  let buf := stripEnd (line.take (bufSize - 1))
  match checksumTest expected₀ buf with
  | some actual => .mismatch actual
  | none =>
    match tokenize line with
    | [] => .noTokens
    | first :: rest =>
      match dispatch (nmeaSuffix first) with
      | some routine => .shown routine (first :: rest)
      | none => .unknown (first.drop 1)

end BoardTest.Gps
