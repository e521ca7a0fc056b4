import FeatureMarkdown.Config
import FeatureMarkdown.File.Error
import FeatureMarkdown.File.Path
import FeatureMarkdown.Gherkin.SyntaxError
import FeatureMarkdown.Markdown.Table

namespace FeatureMarkdown

/-- What could not be done with a file or directory, and why. -/
def failedTo (action : String) (path : Path) (cause : Text) : Text :=
  "failed to ".toList ++ action.toList ++ [' '] ++ path ++ [':', ' '] ++ cause

/-- Why a document cannot be had from a file. -/
inductive LoadError where
  | read (path : Path) (cause : FileError)
  | malformed (cause : Gherkin.SyntaxError)
deriving DecidableEq, Inhabited

def LoadError.message : LoadError → Text
  | .read path cause => failedTo "read feature file" path cause.message
  | .malformed cause => "failed to parse feature file: ".toList ++ cause.message

/-- Why the command fails: it cannot be configured, the run over the files stops, or something fails
that is not about one of them. -/
inductive BatchError where
  | config (cause : ConfigError)
  | discover (path : Path) (cause : FileError)
  | createOutput (path : Path) (cause : FileError)
  | read (path : Path) (cause : FileError)
  | parse (path : Path) (cause : LoadError)
  | render (path : Path) (cause : RenderError)
  | write (path : Path) (cause : FileError)
  | io (cause : FileError)
deriving DecidableEq, Inhabited

namespace BatchError

def message : BatchError → Text
  | .config cause => cause.message
  | .discover path cause => failedTo "scan" path cause.message
  | .createOutput path cause => failedTo "create output directory" path cause.message
  | .read path cause => failedTo "read" path cause.message
  | .parse path cause => failedTo "parse" path cause.message
  | .render path cause => failedTo "render" path cause.message
  | .write path cause => failedTo "write" path cause.message
  | .io cause => "I/O error: ".toList ++ cause.message

end BatchError

end FeatureMarkdown
