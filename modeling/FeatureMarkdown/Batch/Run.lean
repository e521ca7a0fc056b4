import FeatureMarkdown.Batch.Error
import FeatureMarkdown.Batch.Event
import FeatureMarkdown.Batch.Options
import FeatureMarkdown.Document.Json
import FeatureMarkdown.File.Change
import FeatureMarkdown.File.Discovery
import FeatureMarkdown.Gherkin.Parse

namespace FeatureMarkdown

def loadDocument (fs : FileSystem) (cwd : Location) (path : Path) : Except LoadError Document :=
  match fs.readText cwd path with
  | .error e => .error (.read path e)
  | .ok text =>
    match Gherkin.parse text with
    | .error e => .error (.malformed e)
    | .ok document => .ok document

/-- What a token answers that is asked before each file, by the number of files converted until
then. -/
abbrev Cancellation := Nat → Bool

def Cancellation.never : Cancellation := fun _ => false

/-- The outputs in the order in which they were made, also if nothing was written. -/
structure Report where
  outputs : List Path
  cancelled : Bool
deriving DecidableEq, Inhabited

/-- What a run tells, how it ends, and the files it leaves. -/
structure BatchRun where
  events : List Event
  result : Except BatchError Report
  files : FileSystem

namespace BatchRun

def tell (run : BatchRun) (events : List Event) : BatchRun :=
  { run with events := events ++ run.events }

end BatchRun

namespace BatchOptions

/-- One event for each rule of the feature, since rules are left out of the Markdown. -/
def skipEvents (feature : Feature) : List Event :=
  (feature.children.filter (·.treatment = .skip)).map fun child =>
    .childSkipped feature.name child.kind

def generate (options : BatchOptions) (file : Path) (document : Document) :
    List Event × Except BatchError Text :=
  match options.format with
  | .json => ([], .ok document.toJson.text)
  | .markdown =>
    match options.render.renderDocument document with
    | .error e => (skipEvents document.feature, .error (.render file e))
    | .ok text =>
      (skipEvents document.feature ++ [.rendered document.feature.name text.byteCount], .ok text)

def convertText (options : BatchOptions) (file : Path) (text : Text) :
    List Event × Except BatchError Text :=
  match Gherkin.parse text with
  | .error e => ([], .error (.parse file (.malformed e)))
  | .ok document => options.generate file document

def convertFile (options : BatchOptions) (fs : FileSystem) (cwd : Location) (file : Path) :
    List Event × Except BatchError Text :=
  match fs.readText cwd file with
  | .error e => ([], .error (.read file e))
  | .ok text =>
    let converted := options.convertText file text
    (.fileRead file text.byteCount :: converted.1, converted.2)

/-- Converts the files in order, after those whose outputs are given. The token is not asked in the
middle of a file, nor behind the last one. -/
def convertAll (options : BatchOptions) (cwd : Location) (cancelled : Cancellation)
    (fs : FileSystem) (outputs : List Path) : List Path → BatchRun
  | [] => ⟨[], .ok ⟨outputs, false⟩, fs⟩
  | file :: rest =>
    if cancelled outputs.length then ⟨[.cancelled outputs.length], .ok ⟨outputs, true⟩, fs⟩
    else
      let target := outputPath options.output file options.format
      let warning := if target ∈ outputs then [Event.overwriting file target] else []
      match options.convertFile fs cwd file with
      | (events, .error e) => ⟨warning ++ events, .error e, fs⟩
      | (events, .ok text) =>
        if options.dryRun then
          (convertAll options cwd cancelled fs (outputs ++ [target]) rest).tell
            (warning ++ events ++ [.notWritten file target])
        else
          match fs.writeFile cwd target text.toBytes with
          | .error e => ⟨warning ++ events, .error (.write target e), fs⟩
          | .ok fs =>
            (convertAll options cwd cancelled fs (outputs ++ [target]) rest).tell
              (warning ++ events ++ [.written file target])

/-- Unless the run is dry, the output directory is made before the source is searched. -/
def prepare (options : BatchOptions) (fs : FileSystem) (cwd : Location) :
    FileSystem × Option FileError :=
  if options.dryRun then (fs, none) else fs.createDirectories cwd options.output

/-- Converts every feature file that the options select. The first failure ends the run, and a
cancelled run stops before the next file; what was written until then stays. -/
def run (options : BatchOptions) (fs : FileSystem) (cwd : Location)
    (cancelled : Cancellation) : BatchRun :=
  match options.prepare fs cwd with
  | (fs, some e) => ⟨[], .error (.createOutput options.output e), fs⟩
  | (fs, none) =>
    match fs.findFeatures cwd options.source options.recursive with
    | .error (path, e) => ⟨[], .error (.discover path e), fs⟩
    | .ok files =>
      (options.convertAll cwd cancelled fs [] files).tell
        [.discovered options.source options.recursive files.length,
          .converting options.source files.length]

end BatchOptions

end FeatureMarkdown
