import FeatureMarkdown.Gherkin.Parser
import FeatureMarkdown.Text.Blank

namespace FeatureMarkdown.Gherkin

open FeatureMarkdown.Gherkin.Parser

/-- What a failed or successful search for a word leaves as misses: it looks at as many characters
as the longest word has, and at least at as many as the shortest. -/
def wordMisses (words : List Text) (found : Bool) (left : Nat) : List Miss :=
  let longest := (words.map List.length).max?.getD 0
  let shortest := (words.map List.length).min?.getD 0
  (if left < longest then [⟨0, .anyCharacter⟩] else []) ++
    (if left < shortest then []
      else [⟨left - longest, if found then .wordSearch else .knownWord⟩]) ++
    (if found then [] else [⟨left, .keyword⟩])

/-- The first word of the list with which the text goes on. -/
def word (words : List Text) : Parser Text :=
  fun _ s =>
    match words.find? (·.isPrefixOf s) with
    | some w => ⟨some (w, s.drop w.length), wordMisses words true s.length, [], false⟩
    | none => ⟨none, wordMisses words false s.length, [], false⟩

def keyword (words : List Text) : Parser Text := do
  skip skipComments
  word words

def lineText : Parser Text :=
  someUpTo atLineBreak

/-- The rest of a heading, which may be empty, with the end of its line. -/
def headingText : Parser Text := do
  skip skipSpaces
  let text ← optional lineText
  require lineRest?
  return Text.trimEnd (text.getD [])

/-- A line of a description: it is no tag line and begins with none of the given words. -/
def descriptionLine (ends : List Text) : Parser Text := do
  skip skipSpaces
  absent ("@".toList.isPrefixOf ·)
  forbid (keyword ends)
  skip skipSpaces
  let text ← lineText
  require lineRest?
  return text

/-- The lines up to one of the given words; `none` if they hold nothing but blanks. -/
def description (ends : List Text) : Parser (Option Text) := do
  let lines ← orEmpty (separated skipSpaces (descriptionLine ends) (descriptionLine ends))
  skip skipBlankLines
  let text := Text.join ['\n'] lines
  return if text.all Text.isBlank then none else some text

end FeatureMarkdown.Gherkin
