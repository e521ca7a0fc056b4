import FeatureMarkdown.Text.Bytes

/-!
Text with escape sequences, which a terminal takes as commands. Where there is no terminal they are
left out, and the control characters with them.
-/

namespace FeatureMarkdown.Terminal

/-- What an escape character has begun: a short sequence, a control sequence, a command to the
operating system, or a string, which for a device has a head of its own. -/
inductive Sequence where
  | escape
  | short
  | control
  | system
  | deviceEntry
  | deviceParameters
  | deviceIntermediates
  | string
deriving DecidableEq, Inhabited

def within (first last c : Char) : Bool :=
  first.toNat ≤ c.toNat && c.toNat ≤ last.toNat

/-- The byte 9C ends a string, also where it is a part of a character. -/
def endsString (c : Char) : Bool :=
  (Text.toBytes [c]).contains 0x9C

namespace Sequence

/-- The sequence after one more character, unless that was the last one. -/
def goOn : Sequence → Char → Option Sequence
  | .escape, c =>
    if c = '[' then some .control
    else if c = ']' then some .system
    else if c = 'P' then some .deviceEntry
    else if c = 'X' || c = '^' || c = '_' then some .string
    else if within ' ' '/' c then some .short
    else if within '0' '~' c then none
    else some .escape
  | .short, c => if within '0' '~' c then none else some .short
  | .control, c => if within '@' '~' c then none else some .control
  | .system, c => if c = '\x07' then none else some .system
  | .deviceEntry, c =>
    if within ' ' '/' c then some .deviceIntermediates
    else if within '0' '?' c then some .deviceParameters
    else if within '@' '~' c then some .string
    else some .deviceEntry
  | .deviceParameters, c =>
    if within ' ' '/' c then some .deviceIntermediates
    else if within '<' '~' c then some .string
    else some .deviceParameters
  | .deviceIntermediates, c =>
    if within '0' '~' c then some .string else some .deviceIntermediates
  | .string, c => if endsString c then none else some .string

/-- Whether a blank that is no space is shown although it stands inside the sequence. -/
def isOpenToBlanks : Sequence → Bool
  | .escape | .short | .control => true
  | _ => false

end Sequence

/-- The sequence after one more character. An escape begins a new one, and a cancel or a substitute
ends any. -/
def next (sequence : Option Sequence) (c : Char) : Option Sequence :=
  if c = '\x1b' then some .escape
  else if c = '\x18' || c = '\x1a' then none
  else sequence.bind (·.goOn c)

def isControlBlank (c : Char) : Bool :=
  c = '\t' || c = '\n' || c = '\x0c' || c = '\r'

/-- Whether a character outside of sequences is shown. The control characters of ASCII are not,
unless they are blanks. -/
def isShown (c : Char) : Bool :=
  isControlBlank c || (32 ≤ c.toNat && c.toNat ≠ 127)

/-- The text without sequences and control characters, read on from inside a sequence. A blank that
is shown there interrupts the sequence, and the text after it is shown up to the next control
character, where the sequence goes on; a character beyond ASCII before that ends it. -/
def stripFrom (sequence : Option Sequence) (interrupted : Bool) : Text → Text
  | [] => []
  | c :: rest =>
    if isShown c && (sequence.isNone || interrupted) ||
        isControlBlank c && sequence.any Sequence.isOpenToBlanks then
      c :: stripFrom (if c.toNat < 128 then sequence else none) true rest
    else stripFrom (next sequence c) false rest

def strip (t : Text) : Text :=
  stripFrom none false t

/-- The text in a style of the terminal, by its number. -/
def styled (number : String) (t : Text) : Text :=
  "\x1b[".toList ++ number.toList ++ ['m'] ++ t ++ "\x1b[0m".toList

def bold (t : Text) : Text :=
  styled "1" t

def yellow (t : Text) : Text :=
  styled "33" t

end FeatureMarkdown.Terminal
