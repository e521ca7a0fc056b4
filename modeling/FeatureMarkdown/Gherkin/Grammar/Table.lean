import FeatureMarkdown.Document
import FeatureMarkdown.Gherkin.Parser
import FeatureMarkdown.Text.Blank

namespace FeatureMarkdown.Gherkin

open FeatureMarkdown.Gherkin.Parser

def atCellEnd (s : Text) : Bool :=
  "|".toList.isPrefixOf s || atLineBreak s

/-- A cell with the bar before it. The bar that closes a row begins no cell. -/
def cell : Parser Text := do
  literal "|".toList
  skip skipSpaces
  absent fun s => atLineBreak s || s.isEmpty
  let text ← upTo atCellEnd
  return Text.trim text

def row : Parser (List Text) := do
  let cells ← orEmpty (separated skipSpaces cell cell)
  skip skipSpaces
  literal "|".toList
  skip skipSpaces
  require lineRest?
  return cells

/-- Longer rows are cut to the length of the first, and a shorter one spoils the text. -/
def table : Parser Table := do
  skip skipSpaces
  let rows ← separated skipSpaces row row
  let width := (rows.head?.getD []).length
  let cut := rows.map (·.take width)
  insist (cut.all (·.length = width)) .evenRows
  return ⟨cut⟩

end FeatureMarkdown.Gherkin
