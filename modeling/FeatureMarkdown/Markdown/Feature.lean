import FeatureMarkdown.Markdown.Step

namespace FeatureMarkdown

namespace Examples

def heading (block : Examples) : Text :=
  ">### ".toList ++ Text.trim block.keyword

def lines (block : Examples) : Except RenderError (List Text) :=
  match Table.optionalLines .examples block.table with
  | .error e => .error e
  | .ok table => .ok ([['>'], block.heading, ['>']] ++ table)

end Examples

namespace Background

def lines (background : Background) (options : RenderOptions) : Except RenderError (List Text) :=
  collectLines (Step.backgroundLines options.backgroundPlaceholders) background.steps

end Background

namespace Scenario

def heading (scenario : Scenario) : Text :=
  "### Scenario: ".toList ++ scenario.name

/-- What stands above the steps. No blank line follows the description. -/
def headLines (scenario : Scenario) : List Text :=
  [scenario.heading, []] ++ spaced (tagLines scenario.tags) ++
    optionalDescriptionLines scenario.description

def lines (scenario : Scenario) (options : RenderOptions) : Except RenderError (List Text) :=
  match collectLines (Step.scenarioLines options.scenarioPlaceholders) scenario.steps with
  | .error e => .error e
  | .ok steps =>
    match collectLines Examples.lines scenario.examples with
    | .error e => .error e
    | .ok examples => .ok (scenario.headLines ++ steps ++ [[]] ++ examples)

end Scenario

namespace Rule

/-- The heading and the description of a rule, which is all that is shown of it. -/
def lines (rule : Rule) : List Text :=
  [[], "## ".toList ++ rule.name, []] ++ optionalDescriptionLines rule.description

end Rule

inductive Treatment where
  | render
  | skip
deriving DecidableEq, Inhabited

namespace Child

/-- Rules are left out of a feature, with everything below them. -/
def treatment : Child → Treatment
  | .background _ => .render
  | .scenario _ => .render
  | .rule _ => .skip

def lines (options : RenderOptions) : Child → Except RenderError (List Text)
  | .background b => b.lines options
  | .scenario s => s.lines options
  | .rule _ => .ok []

end Child

namespace Feature

def headLines (feature : Feature) : List Text :=
  ["# Feature: ".toList ++ feature.name, []] ++ spaced (tagLines feature.tags) ++
    spaced (optionalDescriptionLines feature.description)

def lines (feature : Feature) (options : RenderOptions) : Except RenderError (List Text) :=
  match collectLines (Child.lines options) feature.children with
  | .error e => .error e
  | .ok children => .ok (feature.headLines ++ children)

end Feature

end FeatureMarkdown
