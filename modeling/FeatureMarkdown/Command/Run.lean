import FeatureMarkdown.Batch.Run
import FeatureMarkdown.Command.Reading

namespace FeatureMarkdown.Command

def help : Text :=
  Text.join ['\n']
    (["Convert directories of Gherkin feature files to Markdown",
      "",
      "Usage: butternut [OPTIONS] [SOURCE]",
      "",
      "Arguments:",
      "  [SOURCE]  Directory containing `.feature` files. Defaults to the current directory",
      "",
      "Options:",
      "  -o, --output <OUTPUT>            Directory receiving the generated files. Defaults to the source directory",
      "  -r, --recursive                  Search subdirectories of the source directory",
      "  -d, --dry-run                    Parse and render without writing any files",
      "  -j, --json                       Write the parsed document as JSON instead of Markdown",
      "      --log-level <LOG_LEVEL>      Log level (trace, debug, info, warn, error)",
      "      --line-ending <LINE_ENDING>  Line ending of generated files (lf, crlf, native)",
      "  -h, --help                       Print help",
      "  -V, --version                    Print version",
      ""].map String.toList)

def version : Text :=
  "butternut ".toList ++ Event.version ++ ['\n']

/-- The text of a location, which is absolute. -/
def locationText (location : Location) : Path :=
  if location = [] then ['/'] else location.flatMap fun name => '/' :: name.val

/-- The path of the working directory, which can only be had as long as that has not been
removed. -/
def currentDirectory (fs : FileSystem) (cwd : Location) : Except FileError Path :=
  if fs.get? cwd = some .directory then .ok (locationText cwd) else .error .notFound

namespace Arguments

/-- The settings of the environment, where the arguments do not override them. -/
def config (arguments : Arguments) (environment : Text → Option Bytes) :
    Except BatchError Config :=
  match Config.ofEnvironment environment with
  | .error e => .error (.config e)
  | .ok settings => .ok (settings.override arguments.logLevel arguments.lineEnding)

/-- The options for a source. Without an output the command writes beside the sources. -/
def optionsFor (arguments : Arguments) (config : Config) (source : Path) : BatchOptions where
  source := source
  output := arguments.output.getD source
  recursive := arguments.recursive
  dryRun := arguments.dryRun
  format := if arguments.json then .json else .markdown
  render := { lineEnding := config.lineEnding }

/-- Without a source the command converts the current directory, if its path can be had. -/
def batchOptions (arguments : Arguments) (config : Config) (current : Except FileError Path) :
    Except BatchError BatchOptions :=
  match arguments.source with
  | some source => .ok (arguments.optionsFor config source)
  | none =>
    match current with
    | .error e => .error (.io e)
    | .ok source => .ok (arguments.optionsFor config source)

end Arguments

/-- What the command starts from. An interrupt cancels the run, and of that it tells by itself; the
moment at which it does so is not fixed. -/
structure Invocation where
  words : List Text
  environment : Text → Option Bytes
  cwd : Location
  files : FileSystem
  interrupted : Cancellation

/-- What the command leaves behind: its exit code, what it prints, and the files. -/
structure Outcome where
  exitCode : Nat
  output : Text
  messages : List Text
  files : FileSystem

def logLines (level : LogLevel) (events : List Event) : List Text :=
  (events.filter fun event => level.shows event.level).map Event.line

def conclusion : Except BatchError Report → Event × Nat
  | .ok ⟨outputs, true⟩ => (.stopped outputs.length, 0)
  | .ok ⟨outputs, false⟩ => (.finished outputs.length, 0)
  | .error e => (.failed e.message, 1)

namespace Invocation

/-- The conversion that the arguments demand, with the options that they come to. -/
def convert (invocation : Invocation) (arguments : Arguments) (config : Config) : BatchRun :=
  match arguments.batchOptions config (currentDirectory invocation.files invocation.cwd) with
  | .error e => ⟨[], .error e, invocation.files⟩
  | .ok options => options.run invocation.files invocation.cwd invocation.interrupted

/-- Runs the command. The arguments are judged before the environment, and both before any file is
touched. -/
def run (invocation : Invocation) : Outcome :=
  match Arguments.parse invocation.words with
  | .error .help => ⟨0, help, [], invocation.files⟩
  | .error .version => ⟨0, version, [], invocation.files⟩
  | .error (.fault e) => ⟨2, [], [e.report], invocation.files⟩
  | .ok arguments =>
    match arguments.config invocation.environment with
    | .error e =>
      ⟨2, [], logLines .info [.badConfiguration e.message], invocation.files⟩
    | .ok config =>
      let conversion := invocation.convert arguments config
      let last := conclusion conversion.result
      ⟨last.2, [], logLines config.logLevel (.starting :: conversion.events ++ [last.1]),
        conversion.files⟩

end Invocation

end FeatureMarkdown.Command
