import FeatureMarkdown.Config
import FeatureMarkdown.File.Path

namespace FeatureMarkdown

/-- What the command tells about a run, one line an event. -/
inductive Event where
  | starting
  | discovered (root : Path) (recursive : Bool) (count : Nat)
  | converting (source : Path) (count : Nat)
  | overwriting (source target : Path)
  | fileRead (path : Path) (bytes : Nat)
  | childSkipped (feature kind : Text)
  | rendered (feature : Text) (bytes : Nat)
  | written (source target : Path)
  | notWritten (source target : Path)
  | cancelled (converted : Nat)
  | stopped (converted : Nat)
  | finished (converted : Nat)
  | failed (error : Text)
  | badConfiguration (error : Text)
deriving DecidableEq

namespace Event

def level : Event → LogLevel
  | .starting | .converting .. | .written .. | .notWritten .. | .finished .. => .info
  | .discovered .. | .fileRead .. | .rendered .. => .debug
  | .childSkipped .. => .trace
  | .overwriting .. | .cancelled .. | .stopped .. => .warn
  | .failed .. | .badConfiguration .. => .error

def version : Text := "0.1.0".toList

def message : Event → Text
  | .starting => "starting butternut".toList
  | .discovered .. => "discovered feature files".toList
  | .converting .. => "converting feature files".toList
  | .overwriting .. => "output path already produced in this run; overwriting".toList
  | .fileRead .. => "read feature file".toList
  | .childSkipped .. => "skipping feature child".toList
  | .rendered .. => "rendered feature document".toList
  | .written .. => "wrote output".toList
  | .notWritten .. => "dry run; not writing".toList
  | .cancelled .. => "conversion cancelled; remaining files skipped".toList
  | .stopped .. => "stopped before all files were converted".toList
  | .finished .. => "conversion finished".toList
  | .failed .. => "conversion failed".toList
  | .badConfiguration .. => "invalid configuration".toList

def number (n : Nat) : Text :=
  Nat.toDigits 10 n

def inQuotes (t : Text) : Text :=
  ['"'] ++ t ++ ['"']

def truth : Bool → Text
  | true => "true".toList
  | false => "false".toList

def fields : Event → List (String × Text)
  | .starting => [("version", inQuotes version)]
  | .discovered root recursive count =>
    [("root", root), ("recursive", truth recursive), ("count", number count)]
  | .converting source count => [("source", source), ("count", number count)]
  | .overwriting source target => [("source", source), ("target", target)]
  | .fileRead path bytes => [("path", path), ("bytes", number bytes)]
  | .childSkipped feature kind => [("feature", feature), ("kind", inQuotes kind)]
  | .rendered feature bytes => [("feature", feature), ("bytes", number bytes)]
  | .written source target => [("source", source), ("target", target)]
  | .notWritten source target => [("source", source), ("target", target)]
  | .cancelled converted => [("converted", number converted)]
  | .stopped converted => [("converted", number converted)]
  | .finished converted => [("converted", number converted)]
  | .failed error => [("error", error)]
  | .badConfiguration error => [("error", error)]

/-- The name of a level, five characters wide. -/
def levelName : LogLevel → Text
  | .trace => "TRACE".toList
  | .debug => "DEBUG".toList
  | .info => " INFO".toList
  | .warn => " WARN".toList
  | .error => "ERROR".toList

def line (event : Event) : Text :=
  levelName event.level ++ [' '] ++ event.message ++
    event.fields.flatMap fun (name, value) => [' '] ++ name.toList ++ ['='] ++ value

end Event

end FeatureMarkdown
