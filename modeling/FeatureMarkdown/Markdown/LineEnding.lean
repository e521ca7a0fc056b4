import FeatureMarkdown.Text.Basic

namespace FeatureMarkdown

inductive LineEnding where
  | lf
  | crlf
  /-- The convention of the host, which is a line feed. -/
  | native
deriving DecidableEq, Inhabited

namespace LineEnding

def text : LineEnding → Text
  | .lf => ['\n']
  | .crlf => ['\r', '\n']
  | .native => ['\n']

def endLines (ending : LineEnding) (lines : List Text) : Text :=
  lines.flatMap (· ++ ending.text)

@[simp] theorem endLines_nil (ending : LineEnding) : ending.endLines [] = [] := rfl

@[simp] theorem endLines_append (ending : LineEnding) (first second : List Text) :
    ending.endLines (first ++ second) = ending.endLines first ++ ending.endLines second := by
  simp [endLines]

end LineEnding

end FeatureMarkdown
