import FeatureMarkdown.Gherkin.Grammar.Line
import FeatureMarkdown.Gherkin.Grammar.Table
import FeatureMarkdown.Gherkin.Language

namespace FeatureMarkdown.Gherkin

open FeatureMarkdown.Gherkin.Parser

/-- The text of a docstring from inside it: up to the quotes that close it, which a comment
hides. -/
def skipToQuotes (quotes : Text) : Text → Text
  | [] => []
  | c :: s =>
    if quotes.isPrefixOf (c :: s) then c :: s
    else
      match _h : lineEnd? (c :: s) with
      | some rest => skipToQuotes quotes rest
      | none => skipToQuotes quotes s
termination_by s => s.length
decreasing_by
  · exact length_of_lineEnd? _h
  · simp

def docstringBody (quotes : Text) : Parser Unit :=
  fun _ s =>
    let rest := skipToQuotes quotes s
    ⟨some ((), rest), if rest = [] then [⟨0, .anyCharacter⟩] else [], breaksBetween s rest, false⟩

def docstringIn (quotes : Text) : Parser Unit := do
  literal quotes
  docstringBody quotes
  literal quotes
  require lineRest?

def docstring : Parser Unit :=
  either (docstringIn "\"\"\"".toList) (docstringIn "```".toList)

/-- A step with one of the given words. Words that only continue need a step before them, which is
asked at the end of the step. -/
def stepWith (words : List Text) (allowed : Bool) : Parser Step := do
  let keyword ← keyword words
  skip skipSpaces
  let text ← lineText
  skip skipSpaces
  require lineRest?
  skip skipSpaces
  let _ ← optional docstring
  let table ← optional table
  check allowed .leadingStep
  return ⟨keyword, Text.trimEnd text, table⟩

/-- A step, where `following` tells whether another step stands before it. -/
def step (language : Language) (following : Bool) : Parser Step :=
  either (do skip skipComments; stepWith language.givenWords true)
    (either (stepWith language.whenWords true)
      (either (stepWith language.thenWords true)
        (either (stepWith language.andWords following)
          (stepWith language.butWords following))))

def steps (language : Language) : Parser (List Step) :=
  orEmpty (separated skipSpaces (step language false) (step language true))

end FeatureMarkdown.Gherkin
