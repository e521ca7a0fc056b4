import FeatureMarkdown.Document
import FeatureMarkdown.Gherkin.Parser
import FeatureMarkdown.Sort
import FeatureMarkdown.Text.Blank

namespace FeatureMarkdown.Gherkin

/-- Examples as the grammar finds them. Steps, tables and backgrounds have the same fields in the
grammar as in a document, so they have no types of their own here. -/
structure ExamplesNode where
  keyword : Text
  table : Option Table
deriving DecidableEq

structure ScenarioNode where
  name : Text
  description : Option Text
  tags : List Text
  steps : List Step
  examples : List ExamplesNode
deriving DecidableEq

structure RuleNode where
  name : Text
  description : Option Text
  tags : List Text
  background : Option (Located Background)
  scenarios : List (Located ScenarioNode)
deriving DecidableEq

/-- What the grammar finds in a feature file: background, scenarios and rules apart, each with the
line it stands on. -/
structure Outline where
  name : Text
  description : Option Text
  tags : List Text
  background : Option (Located Background)
  scenarios : List (Located ScenarioNode)
  rules : List (Located RuleNode)

def ExamplesNode.toExamples (node : ExamplesNode) : Examples :=
  ⟨Text.trimEndColons node.keyword, node.table⟩

def ScenarioNode.toScenario (node : ScenarioNode) : Scenario :=
  { name := node.name
    description := node.description
    tags := node.tags.map Tag.new
    steps := node.steps
    examples := node.examples.map ExamplesNode.toExamples }

/-- Within a rule the parts keep the order in which they have been found. -/
def RuleNode.toRule (node : RuleNode) : Rule :=
  { name := node.name
    description := node.description
    tags := node.tags.map Tag.new
    background := node.background.map Located.value
    scenarios := node.scenarios.map (·.value.toScenario) }

namespace Outline

def parts (outline : Outline) : List (Located Child) :=
  outline.background.toList.map (Located.map .background) ++
    outline.scenarios.map (Located.map fun node => .scenario node.toScenario) ++
    outline.rules.map (Located.map fun node => .rule node.toRule)

/-- The parts by line; parts on one line keep their order. -/
def sortedParts (outline : Outline) : List (Located Child) :=
  sortBy (fun a b => decide (a.line ≤ b.line)) outline.parts

def toFeature (outline : Outline) : Feature :=
  { name := outline.name
    description := outline.description
    tags := outline.tags.map Tag.new
    children := outline.sortedParts.map Located.value }

end Outline

end FeatureMarkdown.Gherkin
