import FeatureMarkdown.Command.Arguments

/-!
The words of a command line, read from left to right. A value is judged only when the next known
argument, or the end, shows that nothing else belongs to it; so an unknown argument is reported
before a bad value on its left.
-/

namespace FeatureMarkdown.Command

structure Pending where
  slot : Slot
  value : Option Text
deriving DecidableEq, Inhabited

/-- How far the arguments have been read. After `--` no word is an option. -/
structure Reading where
  arguments : Arguments := {}
  pending : Option Pending := none
  optionsEnded : Bool := false
deriving DecidableEq, Inhabited

namespace Reading

def settle (reading : Reading) : Except Halt Reading :=
  match reading.pending with
  | none => .ok reading
  | some pending =>
    match reading.arguments.fill pending.slot pending.value with
    | .error halt => .error halt
    | .ok arguments => .ok { reading with arguments := arguments, pending := none }

def raise (reading : Reading) (flag : Flag) : Except Halt Reading :=
  match reading.settle with
  | .error halt => .error halt
  | .ok reading =>
    match reading.arguments.raise flag with
    | .error halt => .error halt
    | .ok arguments => .ok { reading with arguments := arguments }

/-- Names a slot whose value is in another word, if anywhere. -/
def await (reading : Reading) (slot : Slot) (value : Option Text) : Except Halt Reading :=
  match reading.settle with
  | .error halt => .error halt
  | .ok reading => .ok { reading with pending := some ⟨slot, value⟩ }

def give (reading : Reading) (slot : Slot) (value : Text) : Except Halt Reading :=
  match reading.settle with
  | .error halt => .error halt
  | .ok reading =>
    match reading.arguments.fill slot (some value) with
    | .error halt => .error halt
    | .ok arguments => .ok { reading with arguments := arguments }

/-- A word that is neither an option nor a value of one. There is room for one of them. -/
def positional (reading : Reading) (word : Text) : Except Halt Reading :=
  if reading.arguments.source.isSome || reading.pending.any (·.slot = .source) then
    .error (.fault (.unexpectedArgument word))
  else reading.await .source (some word)

/-- An option by its name, with the value that may be attached. -/
def named (reading : Reading) (name : Text) (value : Option Text) : Except Halt Reading :=
  match Known.ofName? name, value with
  | none, _ => .error (.fault (.unexpectedArgument ("--".toList ++ name)))
  | some (.flag flag), none => reading.raise flag
  | some (.flag flag), some value => .error (.fault (.unexpectedValue value flag))
  | some (.slot slot), none => reading.await slot none
  | some (.slot slot), some value => reading.give slot value

def splitValue (word : Text) : Text × Option Text :=
  match word.dropWhile (· ≠ '=') with
  | [] => (word, none)
  | _ :: value => (word.takeWhile (· ≠ '='), some value)

/-- The value in the rest of a word; an equals sign before it does not count. -/
def attached : Text → Text
  | '=' :: value => value
  | value => value

/-- Options by their letters. One that has a value takes the rest of the word. -/
def letters (reading : Reading) : Text → Except Halt Reading
  | [] => .ok reading
  | letter :: rest =>
    match Known.ofLetter? letter with
    | none => .error (.fault (.unexpectedArgument ['-', letter]))
    | some (.flag flag) =>
      match reading.raise flag with
      | .error halt => .error halt
      | .ok reading => letters reading rest
    | some (.slot slot) =>
      if rest = [] then reading.await slot none else reading.give slot (attached rest)

/-- A lone hyphen is a value like any other word. -/
def isValue : Text → Bool
  | '-' :: _ :: _ => false
  | _ => true

def wanting? (reading : Reading) (word : Text) : Option Slot :=
  match reading.pending with
  | some ⟨slot, none⟩ => if isValue word then some slot else none
  | _ => none

def word (reading : Reading) (word : Text) : Except Halt Reading :=
  if reading.optionsEnded then reading.positional word
  else
    match reading.wanting? word with
    | some slot => .ok { reading with pending := some ⟨slot, some word⟩ }
    | none =>
      match word with
      | ['-', '-'] => .ok { reading with optionsEnded := true }
      | '-' :: '-' :: option => reading.named (splitValue option).1 (splitValue option).2
      | '-' :: letter :: rest => reading.letters (letter :: rest)
      | _ => reading.positional word

def words (reading : Reading) : List Text → Except Halt Reading
  | [] => reading.settle
  | word :: rest =>
    match reading.word word with
    | .error halt => .error halt
    | .ok reading => reading.words rest

end Reading

def Arguments.parse (words : List Text) : Except Halt Arguments :=
  match Reading.words {} words with
  | .error halt => .error halt
  | .ok reading => .ok reading.arguments

end FeatureMarkdown.Command
