import FeatureMarkdown.Gherkin.Blank

namespace FeatureMarkdown.Gherkin

inductive Expectation where
  | literal (word : Text)
  | anyCharacter
  | space
  | endOfText
  | keyword
  /-- The text goes on with no word of the list in question. -/
  | knownWord
  /-- A word was found, but the search for words never counts as a match by itself. -/
  | wordSearch
  | tagCharacter
  | evenRows
  | leadingStep
  | supportedLanguage
  | soundText
deriving DecidableEq, Inhabited

/-- A miss is placed by the number of characters left. -/
structure Miss where
  left : Nat
  expected : Expectation
deriving DecidableEq, Inhabited

/-- The outcome of a parser. A spoiled text cannot be accepted, whatever else matches. The line
breaks are those that the parser has recorded, the last first, each by the number of characters left
behind it. They are kept where the parser fails, and so are the misses. -/
structure Reply (α : Type) where
  result : Option (α × Text)
  misses : List Miss
  breaks : List Nat
  spoiled : Bool

/-- A parser is given the line breaks recorded before it, the last first, and the text that is
left. -/
def Parser (α : Type) : Type :=
  List Nat → Text → Reply α

/-- The line breaks in a piece of text that is given backwards, with so many characters left behind
it. -/
def breaksIn : Text → Nat → List Nat
  | [], _ => []
  | c :: front, left =>
    if c = '\n' then left :: breaksIn front (left + 1) else breaksIn front (left + 1)

/-- The line breaks between a text and an end of it, the last first. -/
def breaksBetween (s rest : Text) : List Nat :=
  breaksIn (s.take (s.length - rest.length)).reverse rest.length

/-- The number of recorded line breaks up to the first that lies behind the given place, or of all
of them. The begin of the text counts as the first of them, and a line break counts as often as it
has been recorded. -/
def lineAt (recorded : List Nat) (left : Nat) : Nat :=
  recorded.reverse.findIdx (· < left)

structure Located (α : Type) where
  line : Nat
  value : α
deriving DecidableEq

def Located.map {α β : Type} (f : α → β) (node : Located α) : Located β :=
  ⟨node.line, f node.value⟩

namespace Parser

variable {α β : Type}

def succeed (a : α) : Parser α :=
  fun _ s => ⟨some (a, s), [], [], false⟩

def andThen (p : Parser α) (next : α → Parser β) : Parser β :=
  fun before s =>
    match p before s with
    | ⟨none, misses, breaks, spoiled⟩ => ⟨none, misses, breaks, spoiled⟩
    | ⟨some (a, rest), misses, breaks, spoiled⟩ =>
      let reply := next a (breaks ++ before) rest
      ⟨reply.result, misses ++ reply.misses, reply.breaks ++ breaks, spoiled || reply.spoiled⟩

instance : Monad Parser where
  pure := succeed
  bind := andThen

/-- The second parser starts anew if the first fails; what the first missed and recorded is kept. -/
def either (p q : Parser α) : Parser α :=
  fun before s =>
    match p before s with
    | ⟨some r, misses, breaks, spoiled⟩ => ⟨some r, misses, breaks, spoiled⟩
    | ⟨none, misses, breaks, spoiled⟩ =>
      let reply := q (breaks ++ before) s
      ⟨reply.result, misses ++ reply.misses, reply.breaks ++ breaks, spoiled || reply.spoiled⟩

/-- `none`, with nothing consumed, if the parser fails. -/
def optional (p : Parser α) : Parser (Option α) :=
  fun before s =>
    match p before s with
    | ⟨some (a, rest), misses, breaks, spoiled⟩ => ⟨some (some a, rest), misses, breaks, spoiled⟩
    | ⟨none, misses, breaks, spoiled⟩ => ⟨some (none, s), misses, breaks, spoiled⟩

/-- Repeats the parser until it fails or consumes nothing. -/
def many (p : Parser α) (before : List Nat) (s : Text) : Reply (List α) :=
  match p before s with
  | ⟨none, misses, breaks, spoiled⟩ => ⟨some ([], s), misses, breaks, spoiled⟩
  | ⟨some (a, rest), misses, breaks, spoiled⟩ =>
    if rest.length < s.length then
      let reply := many p (breaks ++ before) rest
      ⟨reply.result.map fun r => (a :: r.1, r.2), misses ++ reply.misses, reply.breaks ++ breaks,
        spoiled || reply.spoiled⟩
    else ⟨some ([], s), misses, breaks, spoiled⟩
termination_by s.length

def skip (f : Text → Text) : Parser Unit :=
  fun _ s => ⟨some ((), f s), [], breaksBetween s (f s), false⟩

/-- Moves over text whose line breaks are not recorded. -/
def skipUnrecorded (f : Text → Text) : Parser Unit :=
  fun _ s => ⟨some ((), f s), [], [], false⟩

/-- Moves over text whose absence is not reported. -/
def require (f : Text → Option Text) : Parser Unit :=
  fun _ s =>
    ⟨(f s).map fun rest => ((), rest), [], ((f s).map (breaksBetween s)).getD [], false⟩

/-- Fails where the text goes on in the given way. -/
def absent (f : Text → Bool) : Parser Unit :=
  fun _ s => ⟨if f s then none else some ((), s), [], [], false⟩

/-- Fails where the given parser reads on. Nothing is consumed, but the line breaks that the parser
has recorded stay. -/
def forbid (p : Parser α) : Parser Unit :=
  fun before s =>
    let reply := p before s
    ⟨if reply.result.isSome then none else some ((), s), [], reply.breaks, reply.spoiled⟩

def literal (word : Text) : Parser Unit :=
  fun _ s =>
    if word.isPrefixOf s then ⟨some ((), s.drop word.length), [], [], false⟩
    else ⟨none, [⟨s.length, .literal word⟩], [], false⟩

def check (condition : Bool) (expected : Expectation) : Parser Unit :=
  fun _ s =>
    if condition then ⟨some ((), s), [], [], false⟩
    else ⟨none, [⟨s.length, expected⟩], [], false⟩

def note (expected : Expectation) : Parser Unit :=
  fun _ s => ⟨some ((), s), [⟨s.length, expected⟩], [], false⟩

/-- A condition without which the whole text is refused. -/
def insist (condition : Bool) (expected : Expectation) : Parser Unit :=
  fun _ s =>
    if condition then ⟨some ((), s), [], [], false⟩
    else ⟨none, [⟨s.length, expected⟩], [], true⟩

/-- The characters before the first place where `stop` holds, or up to the end of the text. -/
def upTo (stop : Text → Bool) : Parser Text :=
  fun _ s =>
    let parts := splitBefore stop s
    ⟨some parts, if parts.2 = [] then [⟨0, .anyCharacter⟩] else [], [], false⟩

def someUpTo (stop : Text → Bool) : Parser Text :=
  fun _ s =>
    let parts := splitBefore stop s
    ⟨if parts.1 = [] then none else some parts,
      if parts.2 = [] then [⟨0, .anyCharacter⟩] else [], [], false⟩

/-- One or more members, with blank text before each but the first. -/
def separated (blank : Text → Text) (first next : Parser α) : Parser (List α) := do
  let a ← first
  let rest ← many (do skip blank; next)
  return a :: rest

def orEmpty (p : Parser (List α)) : Parser (List α) :=
  either p (succeed [])

/-- What the parser reads, with the line on which it begins. The line is looked up when the parser
is through, among all line breaks that have been recorded until then. -/
def located (p : Parser α) : Parser (Located α) :=
  fun before s =>
    let reply := p before s
    ⟨reply.result.map fun found => (⟨lineAt (reply.breaks ++ before) s.length, found.1⟩, found.2),
      reply.misses, reply.breaks, reply.spoiled⟩

/-- Refuses a match in which a part, kept or given up, has spoiled the text. -/
def unspoiled (p : Parser α) : Parser α :=
  fun before s =>
    match p before s with
    | ⟨some (_, rest), misses, breaks, true⟩ =>
      ⟨none, misses ++ [⟨rest.length, .soundText⟩], breaks, true⟩
    | reply => reply

end Parser

end FeatureMarkdown.Gherkin
