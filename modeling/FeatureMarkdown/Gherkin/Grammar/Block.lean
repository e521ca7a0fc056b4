import FeatureMarkdown.Gherkin.Grammar.Step
import FeatureMarkdown.Gherkin.Grammar.Tag
import FeatureMarkdown.Gherkin.Outline

namespace FeatureMarkdown.Gherkin

open FeatureMarkdown.Gherkin.Parser

def background (language : Language) : Parser (Located Background) := do
  skip skipComments
  skip skipSpaces
  located do
    let _ ← keyword language.background
    literal ":".toList
    let _ ← headingText
    let _ ← description language.scenarioEnds
    let steps ← steps language
    return ⟨steps⟩

def examples (language : Language) : Parser ExamplesNode := do
  skip skipComments
  skip skipSpaces
  let _ ← tags
  skip skipSpaces
  let keyword ← keyword language.examples
  literal ":".toList
  let _ ← headingText
  let _ ← description (language.scenarioEnds ++ ["|".toList])
  let table ← optional table
  return ⟨keyword, table⟩

/-- The line of a scenario is that of its keyword, below its tags. -/
def scenarioWith (language : Language) (words : List Text) : Parser (Located ScenarioNode) := do
  skip skipComments
  skip skipSpaces
  let tags ← tags
  skip skipSpaces
  located do
    let _ ← keyword words
    literal ":".toList
    let name ← headingText
    let description ← description language.scenarioEnds
    let steps ← steps language
    let examples ← many (examples language)
    return ⟨name, description, tags, steps, examples⟩

def scenario (language : Language) : Parser (Located ScenarioNode) :=
  either (scenarioWith language language.scenario) (scenarioWith language language.scenarioOutline)

def scenarios (language : Language) : Parser (List (Located ScenarioNode)) := do
  skip skipSpaces
  orEmpty (separated skipSpaces (scenario language) (scenario language))

def rule (language : Language) : Parser (Located RuleNode) := do
  skip skipSpaces
  let tags ← tags
  skip skipSpaces
  located do
    let _ ← keyword language.rule
    literal ":".toList
    let name ← headingText
    let description ← description language.ruleEnds
    let background ← optional (background language)
    skip skipLineEnds
    let scenarios ← scenarios language
    skip skipLineEnds
    return ⟨name, description, tags, background, scenarios⟩

def rules (language : Language) : Parser (List (Located RuleNode)) := do
  skip skipSpaces
  orEmpty (separated skipSpaces (rule language) (rule language))

end FeatureMarkdown.Gherkin
