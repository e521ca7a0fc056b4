import FeatureMarkdown.Gherkin.Grammar.Block

namespace FeatureMarkdown.Gherkin

open FeatureMarkdown.Gherkin.Parser

/-- The comment that names the language. It must name a known one. -/
def languageLine : Parser Language := do
  skipUnrecorded skipSpacesAndBreaks
  note .space
  literal "#".toList
  skip skipSpaces
  literal "language".toList
  skip skipSpaces
  literal ":".toList
  skip skipSpaces
  let code ← lineText
  skip skipSpaces
  require lineEnd?
  insist (Language.ofCode? code).isSome .supportedLanguage
  return (Language.ofCode? code).getD .english

def featureBody (language : Language) : Parser Outline := do
  skip skipLineEnds
  let tags ← tags
  let _ ← keyword language.feature
  literal ":".toList
  let name ← headingText
  let description ← description language.featureEnds
  let background ← optional (background language)
  skip skipLineEnds
  let scenarios ← scenarios language
  skip skipLineEnds
  let rules ← rules language
  skip skipLineEnds
  return ⟨name, description, tags, background, scenarios, rules⟩

def feature : Parser Outline :=
  unspoiled do
    skip skipSpaces
    let language ← optional languageLine
    featureBody (language.getD .english)

end FeatureMarkdown.Gherkin
