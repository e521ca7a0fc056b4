import FeatureMarkdown.Gherkin.Parser
import FeatureMarkdown.Text.Blank

namespace FeatureMarkdown.Gherkin

open FeatureMarkdown.Gherkin.Parser

def isTagCharacter (c : Char) : Bool :=
  !Text.isBlank c && c ≠ '@'

def tagName : Parser Text :=
  fun _ s =>
    let name := s.takeWhile isTagCharacter
    let rest := s.dropWhile isTagCharacter
    let misses : List Miss :=
      [if rest = [] then ⟨0, .anyCharacter⟩ else ⟨rest.length - 1, .tagCharacter⟩]
    ⟨if name = [] then none else some (name, rest), misses, [], false⟩

def tag : Parser Text := do
  literal "@".toList
  tagName

def tags : Parser (List Text) := do
  let names ← orEmpty (separated skipBlankLines tag tag)
  skip skipSpaces
  skip skipLineEnds
  return names

end FeatureMarkdown.Gherkin
