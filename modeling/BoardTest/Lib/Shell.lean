import BoardTest.Lib.CString
import Mathlib.Tactic.Common

/-!
# Shell command lines

The token recognition and the quoting of the POSIX shell, for the text of one command: blanks
separate words, operators end them, quotes and backslashes take the meaning off the bytes they
cover, and what the shell would expand is kept apart (`Part.special`). `parse` reads a line as one
simple command with its redirections and fails on anything else.
-/

namespace BoardTest.Shell

/-- A piece of a word: an unquoted byte, an unquoted byte that starts an expansion or a pattern, a
byte behind a backslash, a quoted stretch. In double quotes a byte is marked when it starts an
expansion. -/
inductive Part
  | bare (b : Byte)
  | special (b : Byte)
  | escaped (b : Byte)
  | single (v : List Byte)
  | double (v : List (Byte × Bool))
  deriving DecidableEq, Repr

abbrev Word := List Part

inductive Token
  | word (w : Word)
  /-- digits right before a redirection operator -/
  | ioNumber (w : Word)
  | op (o : List Byte)
  deriving DecidableEq, Repr

/-- The control and redirection operators, the newline among them. -/
def operators : List (List Byte) :=
  [[10], bytes "|", bytes "||", bytes "&", bytes "&&", bytes ";", bytes ";;", bytes "(", bytes ")",
    bytes "<", bytes ">", bytes ">|", bytes "<<", bytes ">>", bytes "<&", bytes ">&", bytes "<>",
    bytes "<<-"]

def redirections : List (List Byte) :=
  [bytes "<", bytes ">", bytes ">|", bytes ">>", bytes "<&", bytes ">&", bytes "<>"]

def isBlank (b : Byte) : Bool := b = 32 ∨ b = 9

/-- The first bytes of the operators: newline and `| & ; ( ) < >`. -/
def isOperatorStart (b : Byte) : Bool :=
  b = 10 ∨ b = 124 ∨ b = 38 ∨ b = 59 ∨ b = 40 ∨ b = 41 ∨ b = 60 ∨ b = 62

/-- `$`, the backquote and the pattern bytes `* ? [`. -/
def isExpansion (b : Byte) : Bool := b = 36 ∨ b = 96 ∨ b = 42 ∨ b = 63 ∨ b = 91

/-- A byte without a meaning of its own inside an unquoted word. -/
def isPlain (b : Byte) : Bool :=
  !isBlank b && !isOperatorStart b && !isExpansion b && b ≠ 39 && b ≠ 34 && b ≠ 92

/-- Where the scanner is: outside quotes, behind a backslash, in an operator, in quotes, in a
comment. -/
inductive Mode
  | plain
  | escape
  | operator (o : List Byte)
  | single (v : List Byte)
  | double (v : List (Byte × Bool))
  | doubleEscape (v : List (Byte × Bool))
  | comment
  deriving DecidableEq, Repr

structure State where
  tokens : List Token
  word : Option Word
  mode : Mode
  deriving DecidableEq, Repr

def State.init : State := ⟨[], none, .plain⟩

/-- The word read so far is complete. -/
def State.endWord (s : State) : State :=
  { s with tokens := s.tokens ++ (s.word.map Token.word).toList, word := none, mode := .plain }

/-- One more part of the current word, or the first of a new one. -/
def State.push (s : State) (p : Part) : State :=
  { s with word := some (s.word.getD [] ++ [p]), mode := .plain }

/-- Only unquoted digits. -/
def isNumber (w : Word) : Bool :=
  w.all fun p => match p with
    | .bare b => 48 ≤ b && b ≤ 57
    | _ => false

/-- An operator begins; a number right before `<` or `>` belongs to it. -/
def State.startOperator (s : State) (b : Byte) : State :=
  match s.word with
  | some w =>
    if isNumber w ∧ (b = 60 ∨ b = 62) then
      ⟨s.tokens ++ [.ioNumber w], none, .operator [b]⟩
    else { s.endWord with mode := .operator [b] }
  | none => { s.endWord with mode := .operator [b] }

/-- A byte outside quotes. -/
def State.stepPlain (s : State) (b : Byte) : State :=
  if isBlank b then s.endWord
  else if isOperatorStart b then s.startOperator b
  else if b = 39 then { s with mode := .single [] }
  else if b = 34 then { s with mode := .double [] }
  else if b = 92 then { s with mode := .escape }
  else if b = 35 ∧ s.word = none then { s with mode := .comment }
  else if isExpansion b ∨ (b = 126 ∧ s.word = none) then s.push (.special b)
  else s.push (.bare b)

def State.step (s : State) (b : Byte) : State :=
  match s.mode with
  | .plain => s.stepPlain b
  | .escape => if b = 10 then { s with mode := .plain } else s.push (.escaped b)
  | .operator o =>
    if o ++ [b] ∈ operators then { s with mode := .operator (o ++ [b]) }
    else State.stepPlain ⟨s.tokens ++ [.op o], s.word, .plain⟩ b
  | .single v => if b = 39 then s.push (.single v) else { s with mode := .single (v ++ [b]) }
  | .double v =>
    if b = 34 then s.push (.double v)
    else if b = 92 then { s with mode := .doubleEscape v }
    else { s with mode := .double (v ++ [(b, decide (b = 36 ∨ b = 96))]) }
  | .doubleEscape v =>
    if b = 10 then { s with mode := .double v }
    else if b = 36 ∨ b = 96 ∨ b = 34 ∨ b = 92 then { s with mode := .double (v ++ [(b, false)]) }
    else { s with mode := .double (v ++ [(92, false), (b, false)]) }
  | .comment => if b = 10 then { s.endWord with mode := .operator [10] } else s

def State.run (s : State) (line : List Byte) : State := line.foldl State.step s

/-- The tokens at the end of the line; none when a quotation is still open. -/
def State.finish (s : State) : Option (List Token) :=
  match s.mode with
  | .plain => some s.endWord.tokens
  | .escape => some (s.push (.escaped 92)).endWord.tokens
  | .operator o => some (s.tokens ++ [.op o])
  | .comment => some s.endWord.tokens
  | .single _ => none
  | .double _ => none
  | .doubleEscape _ => none

structure Redirect where
  fd : Option Word
  op : List Byte
  target : Word
  deriving DecidableEq, Repr

/-- A command name with its arguments, and its redirections in order. -/
structure SimpleCommand where
  words : List Word
  redirects : List Redirect
  deriving DecidableEq, Repr

/-- The tokens as one simple command, closed by the end of the line or a last newline. -/
def simpleCommand : List Token → Option SimpleCommand
  | [] => some ⟨[], []⟩
  | .word w :: rest => (simpleCommand rest).map fun c => { c with words := w :: c.words }
  | .op o :: .word w :: rest =>
    if o ∈ redirections then
      (simpleCommand rest).map fun c => { c with redirects := ⟨none, o, w⟩ :: c.redirects }
    else none
  | .ioNumber n :: .op o :: .word w :: rest =>
    if o ∈ redirections then
      (simpleCommand rest).map fun c => { c with redirects := ⟨some n, o, w⟩ :: c.redirects }
    else none
  | [.op o] => if o = [10] then some ⟨[], []⟩ else none
  | _ => none

/-- A command line read as one simple command. -/
def parse (line : List Byte) : Option SimpleCommand :=
  (State.init.run line).finish.bind simpleCommand

end BoardTest.Shell
