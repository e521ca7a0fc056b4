import FeatureMarkdown.Gherkin.Parser
import FeatureMarkdown.Sort

namespace FeatureMarkdown.Gherkin

/-- The furthest place that a parser has looked at, and all that would have let it go on there. -/
structure SyntaxError where
  line : Nat
  column : Nat
  expected : List Expectation
deriving DecidableEq, Inhabited

/-- The text in double quotes, with a backslash before each quote and backslash in it. -/
def quoted (t : Text) : Text :=
  ['"'] ++ t.flatMap (fun c => if c = '"' ∨ c = '\\' then ['\\', c] else [c]) ++ ['"']

def Expectation.label : Expectation → Text
  | .literal word => quoted word
  | .anyCharacter => "_".toList
  | .space => "' ' | '\\t'".toList
  | .endOfText => "EOF".toList
  | .keyword => "no match".toList
  | .knownWord => "unknown keyword".toList
  | .wordSearch => "success".toList
  | .tagCharacter => "tag character".toList
  | .evenRows => "inconsistent table row sizes".toList
  | .leadingStep => "given, when or then".toList
  | .supportedLanguage => "Unsupported language".toList
  | .soundText => "fatal error".toList

namespace SyntaxError

/-- The furthest place among the misses, as the number of characters left; without any miss, the
begin of the text. -/
def furthestLeft (text : Text) (misses : List Miss) : Nat :=
  misses.foldl (fun left miss => min left miss.left) text.length

def ofMisses (text : Text) (misses : List Miss) : SyntaxError :=
  let left := furthestLeft text misses
  let before := text.take (text.length - left)
  { line := before.count '\n' + 1
    column := (before.reverse.takeWhile (· ≠ '\n')).length + 1
    expected := (misses.filter (·.left = left)).map Miss.expected }

/-- The quoted labels by code point, each once. -/
def expectedLabels (e : SyntaxError) : List Text :=
  (sortBy Text.le (e.expected.map fun x => quoted x.label)).eraseReps

def message (e : SyntaxError) : Text :=
  "Error at ".toList ++ Nat.toDigits 10 e.line ++ [':'] ++ Nat.toDigits 10 e.column ++
    [':', ' ', '\x7b'] ++ Text.join [',', ' '] e.expectedLabels ++ ['\x7d']

end SyntaxError

end FeatureMarkdown.Gherkin
