import FeatureMarkdown.Markdown.Lines
import FeatureMarkdown.Markdown.Options

namespace FeatureMarkdown

namespace Step

/-- An item of a list: `- _Given_ a user`. -/
def listItem (style : PlaceholderStyle) (step : Step) : Text :=
  "- _".toList ++ Text.trim step.keyword ++ "_ ".toList ++ style.apply step.text

/-- A quoted line that ends in a line break of Markdown: `>_Given_ a user  `. -/
def quotedItem (style : PlaceholderStyle) (step : Step) : Text :=
  ">_".toList ++ Text.trim step.keyword ++ "_ ".toList ++ style.apply step.text ++ "  ".toList

def tableLines (step : Step) : Except RenderError (List Text) :=
  Table.optionalLines .stepArgument step.table

def scenarioLines (style : PlaceholderStyle) (step : Step) : Except RenderError (List Text) :=
  match step.tableLines with
  | .error e => .error e
  | .ok table => .ok (step.listItem style :: table)

def backgroundLines (style : PlaceholderStyle) (step : Step) : Except RenderError (List Text) :=
  match step.tableLines with
  | .error e => .error e
  | .ok table => .ok (step.quotedItem style :: table)

end Step

end FeatureMarkdown
