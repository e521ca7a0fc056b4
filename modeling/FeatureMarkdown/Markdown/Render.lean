import FeatureMarkdown.Markdown.Feature

/-!
Documents and their parts as Markdown text. The line ending comes in only here, where the lines
are put together.
-/

namespace FeatureMarkdown

namespace RenderOptions

def finish (options : RenderOptions) : Except RenderError (List Text) → Except RenderError Text
  | .error e => .error e
  | .ok lines => .ok (options.lineEnding.endLines lines)

def renderFeature (options : RenderOptions) (feature : Feature) : Except RenderError Text :=
  options.finish (feature.lines options)

def renderDocument (options : RenderOptions) (document : Document) : Except RenderError Text :=
  options.renderFeature document.feature

def renderScenario (options : RenderOptions) (scenario : Scenario) : Except RenderError Text :=
  options.finish (scenario.lines options)

def renderBackground (options : RenderOptions) (background : Background) :
    Except RenderError Text :=
  options.finish (background.lines options)

def renderRule (options : RenderOptions) (rule : Rule) : Text :=
  options.lineEnding.endLines rule.lines

def renderExamples (options : RenderOptions) (blocks : List Examples) : Except RenderError Text :=
  options.finish (collectLines Examples.lines blocks)

def renderStep (options : RenderOptions) (step : Step) : Except RenderError Text :=
  options.finish (step.scenarioLines options.scenarioPlaceholders)

def renderBackgroundStep (options : RenderOptions) (step : Step) : Except RenderError Text :=
  options.finish (step.backgroundLines options.backgroundPlaceholders)

def renderTags (options : RenderOptions) (tags : List Tag) : Text :=
  options.lineEnding.endLines (tagLines tags)

def renderDescription (options : RenderOptions) (description : Text) : Text :=
  options.lineEnding.endLines (descriptionLines description)

def renderTable (options : RenderOptions) (table : Table) (style : TableStyle) :
    Except RenderError Text :=
  options.finish (table.lines style)

end RenderOptions

def Document.toMarkdown (document : Document) : Except RenderError Text :=
  ({} : RenderOptions).renderDocument document

end FeatureMarkdown
