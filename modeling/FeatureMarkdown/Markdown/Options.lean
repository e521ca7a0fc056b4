import FeatureMarkdown.Markdown.LineEnding
import FeatureMarkdown.Markdown.Placeholder

namespace FeatureMarkdown

/-- The choices that a rendering leaves open. -/
structure RenderOptions where
  lineEnding : LineEnding := .native
  scenarioPlaceholders : PlaceholderStyle := .code
  backgroundPlaceholders : PlaceholderStyle := .brackets
deriving DecidableEq, Inhabited

end FeatureMarkdown
