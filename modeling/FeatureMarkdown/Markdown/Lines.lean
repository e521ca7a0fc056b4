import FeatureMarkdown.Text.Lines
import FeatureMarkdown.Markdown.Table
import FeatureMarkdown.Text.Blank

namespace FeatureMarkdown

/-- The lines of all members in order, or the error of the first that has one. -/
def collectLines {α : Type} (f : α → Except RenderError (List Text)) :
    List α → Except RenderError (List Text)
  | [] => .ok []
  | a :: rest =>
    match f a with
    | .error e => .error e
    | .ok first =>
      match collectLines f rest with
      | .error e => .error e
      | .ok others => .ok (first ++ others)

/-- The tags as inline code on one line; without tags, no line. -/
def tagLines : List Tag → List Text
  | [] => []
  | tags => ["`".toList ++ Text.join "`, `".toList (tags.map Tag.name) ++ "`".toList]

/-- The lines of the trimmed description, each of them trimmed. -/
def descriptionLines (description : Text) : List Text :=
  (Text.lines (Text.trim description)).map Text.trim

def optionalDescriptionLines : Option Text → List Text
  | none => []
  | some description => descriptionLines description

/-- A blank line after a block, unless the block is empty. -/
def spaced : List Text → List Text
  | [] => []
  | block => block ++ [[]]

end FeatureMarkdown
