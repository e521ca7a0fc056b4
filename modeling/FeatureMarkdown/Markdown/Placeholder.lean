import FeatureMarkdown.Text.Basic

namespace FeatureMarkdown

/-- Puts `replacement` in the place of every occurrence of `c`. -/
def Text.replaceChar (c : Char) (replacement : Text) (t : Text) : Text :=
  t.flatMap fun x => if x = c then replacement else [x]

/-- How a placeholder is made visible in Markdown, which takes bare angle brackets for markup. -/
inductive PlaceholderStyle where
  /-- `<count>` becomes inline code. -/
  | code
  /-- `<count>` becomes `[count]`. -/
  | brackets
deriving DecidableEq, Inhabited

/-- Replaces every angle bracket, matched or not. -/
def PlaceholderStyle.apply (style : PlaceholderStyle) (t : Text) : Text :=
  match style with
  | .code => Text.replaceChar '>' ">`".toList (Text.replaceChar '<' "`<".toList t)
  | .brackets => Text.replaceChar '>' [']'] (Text.replaceChar '<' ['['] t)

end FeatureMarkdown
