import FeatureMarkdown.Gherkin.Grammar.Feature
import FeatureMarkdown.Gherkin.SyntaxError

namespace FeatureMarkdown.Gherkin

/-- The text with a line feed at its end, which the grammar asks for. -/
def endWithLineFeed (text : Text) : Text :=
  if text.getLast? = some '\n' then text else text ++ ['\n']

/-- The grammar has to match the whole text. The begin of the text counts as a line break that has
been recorded. -/
def outline? (text : Text) : Except SyntaxError Outline :=
  match feature [text.length] text with
  | ⟨some (outline, []), _, _, _⟩ => .ok outline
  | ⟨some (_, rest), misses, _, _⟩ =>
    .error (.ofMisses text (misses ++ [⟨rest.length, .endOfText⟩]))
  | ⟨none, misses, _, _⟩ => .error (.ofMisses text misses)

def parse (text : Text) : Except SyntaxError Document :=
  match outline? (endWithLineFeed text) with
  | .ok outline => .ok ⟨outline.toFeature⟩
  | .error e => .error e

end FeatureMarkdown.Gherkin
