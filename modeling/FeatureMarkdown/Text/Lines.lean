import FeatureMarkdown.Text.Basic

namespace FeatureMarkdown.Text

/-- The lines without their ends. A text that ends in a line feed has no empty line after it. -/
def lines : Text → List Text
  | [] => []
  | '\n' :: t => [] :: lines t
  | '\r' :: '\n' :: t => [] :: lines t
  | c :: t =>
    match lines t with
    | [] => [[c]]
    | line :: rest => (c :: line) :: rest

end FeatureMarkdown.Text
