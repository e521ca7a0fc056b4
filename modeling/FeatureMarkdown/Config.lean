import FeatureMarkdown.Markdown.LineEnding
import FeatureMarkdown.Text.Blank
import FeatureMarkdown.Text.Bytes

namespace FeatureMarkdown

/-- How much the command tells, from everything to failures only. -/
inductive LogLevel where
  | trace
  | debug
  | info
  | warn
  | error
deriving DecidableEq

instance : Inhabited LogLevel :=
  ⟨.info⟩

/-- A value of a setting that is none. -/
structure ConfigError where
  reason : Text
deriving DecidableEq, Inhabited

namespace ConfigError

def unknown (setting : String) (given : Text) (known : String) : ConfigError :=
  ⟨"unknown ".toList ++ setting.toList ++ " '".toList ++ given ++ "', expected one of: ".toList ++
    known.toList⟩

def message (e : ConfigError) : Text :=
  "invalid configuration: ".toList ++ e.reason

end ConfigError

/-- The form in which names of settings are compared: no blanks around, no capital letters. -/
def settingName (t : Text) : Text :=
  Text.toLowerAscii (Text.trim t)

namespace LogLevel

def name : LogLevel → Text
  | .trace => "trace".toList
  | .debug => "debug".toList
  | .info => "info".toList
  | .warn => "warn".toList
  | .error => "error".toList

def parse (t : Text) : Except ConfigError LogLevel :=
  let name := settingName t
  if name = "trace".toList then .ok .trace
  else if name = "debug".toList then .ok .debug
  else if name = "info".toList then .ok .info
  else if name = "warn".toList ∨ name = "warning".toList then .ok .warn
  else if name = "error".toList then .ok .error
  else .error (.unknown "log level" t "trace, debug, info, warn, error")

def severity : LogLevel → Nat
  | .trace => 0
  | .debug => 1
  | .info => 2
  | .warn => 3
  | .error => 4

def shows (set level : LogLevel) : Bool :=
  set.severity ≤ level.severity

end LogLevel

def LineEnding.parse (t : Text) : Except ConfigError LineEnding :=
  let name := settingName t
  if name = "lf".toList ∨ name = "unix".toList then .ok .lf
  else if name = "crlf".toList ∨ name = "windows".toList then .ok .crlf
  else if name = "native".toList then .ok .native
  else .error (.unknown "line ending" t "lf, crlf, native")

structure Config where
  logLevel : LogLevel := .info
  lineEnding : LineEnding := .native
deriving DecidableEq, Inhabited

namespace Config

def logLevelVariable : Text := "BUTTERNUT_LOG_LEVEL".toList

def lineEndingVariable : Text := "BUTTERNUT_LINE_ENDING".toList

/-- The value of a variable that is set, or else the given one. -/
def setting {α : Type} (parse : Text → Except ConfigError α) (usual : α) :
    Option Text → Except ConfigError α
  | none => .ok usual
  | some t => parse t

/-- The settings that variables give. Of two bad variables the log level is the one reported. -/
def ofLookup (lookup : Text → Option Text) : Except ConfigError Config :=
  match setting LogLevel.parse .info (lookup logLevelVariable) with
  | .error e => .error e
  | .ok logLevel =>
    match setting LineEnding.parse .native (lookup lineEndingVariable) with
    | .error e => .error e
    | .ok lineEnding => .ok ⟨logLevel, lineEnding⟩

/-- The settings of an environment, whose values are bytes. A value that is no text counts as unset,
so that it is not reported. -/
def ofEnvironment (environment : Text → Option Bytes) : Except ConfigError Config :=
  ofLookup fun name => (environment name).bind Text.ofBytes?

def override (config : Config) (logLevel : Option LogLevel) (lineEnding : Option LineEnding) :
    Config :=
  ⟨logLevel.getD config.logLevel, lineEnding.getD config.lineEnding⟩

def withLogLevel (config : Config) (level : LogLevel) : Config :=
  { config with logLevel := level }

end Config

end FeatureMarkdown
