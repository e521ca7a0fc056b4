import FeatureMarkdown.File.Path
import FeatureMarkdown.Markdown.Render

namespace FeatureMarkdown

inductive OutputFormat where
  | markdown
  /-- The document itself instead of its Markdown. -/
  | json
deriving DecidableEq, Inhabited

def OutputFormat.extension : OutputFormat → Text
  | .markdown => "md".toList
  | .json => "json".toList

/-- Where feature files are searched, and what becomes of them. -/
structure BatchOptions where
  source : Path
  output : Path
  recursive : Bool := false
  dryRun : Bool := false
  format : OutputFormat := .markdown
  render : RenderOptions := {}
deriving DecidableEq, Inhabited

namespace BatchOptions

/-- Markdown beside the sources. -/
def new (source : Path) : BatchOptions :=
  { source := source, output := source }

def withOutput (options : BatchOptions) (output : Path) : BatchOptions :=
  { options with output := output }

def withRecursive (options : BatchOptions) (recursive : Bool) : BatchOptions :=
  { options with recursive := recursive }

def withDryRun (options : BatchOptions) (dryRun : Bool) : BatchOptions :=
  { options with dryRun := dryRun }

def withFormat (options : BatchOptions) (format : OutputFormat) : BatchOptions :=
  { options with format := format }

def withRender (options : BatchOptions) (render : RenderOptions) : BatchOptions :=
  { options with render := render }

end BatchOptions

/-- The file name of the source with the extension of the format, in the output directory. A path
without a file name is taken whole. -/
def outputPath (directory file : Path) (format : OutputFormat) : Path :=
  directory.join (file.fileName?.getD file ++ ['.'] ++ format.extension)

end FeatureMarkdown
