import FeatureMarkdown.Command.Usage
import FeatureMarkdown.File.Path

namespace FeatureMarkdown.Command

/-- The arguments as far as they are known. -/
structure Arguments where
  source : Option Path := none
  output : Option Path := none
  recursive : Bool := false
  dryRun : Bool := false
  json : Bool := false
  logLevel : Option LogLevel := none
  lineEnding : Option LineEnding := none
deriving DecidableEq, Inhabited

/-- What ends the reading of the arguments before their end. -/
inductive Halt where
  | fault (error : UsageError)
  | help
  | version
deriving DecidableEq, Inhabited

namespace Arguments

def raise (arguments : Arguments) : Flag → Except Halt Arguments
  | .recursive =>
    if arguments.recursive then .error (.fault (.repeatedFlag .recursive))
    else .ok { arguments with recursive := true }
  | .dryRun =>
    if arguments.dryRun then .error (.fault (.repeatedFlag .dryRun))
    else .ok { arguments with dryRun := true }
  | .json =>
    if arguments.json then .error (.fault (.repeatedFlag .json))
    else .ok { arguments with json := true }
  | .help => .error .help
  | .version => .error .version

def holds (arguments : Arguments) : Slot → Bool
  | .source => arguments.source.isSome
  | .output => arguments.output.isSome
  | .logLevel => arguments.logLevel.isSome
  | .lineEnding => arguments.lineEnding.isSome

/-- A path must not be empty, and the other values must be known names. -/
def assign (arguments : Arguments) (slot : Slot) (value : Text) : Except UsageError Arguments :=
  match slot with
  | .source =>
    if value = [] then .error (.valueRequired slot)
    else .ok { arguments with source := some value }
  | .output =>
    if value = [] then .error (.valueRequired slot)
    else .ok { arguments with output := some value }
  | .logLevel =>
    match LogLevel.parse value with
    | .ok level => .ok { arguments with logLevel := some level }
    | .error e => .error (.invalidValue value slot e)
  | .lineEnding =>
    match LineEnding.parse value with
    | .ok ending => .ok { arguments with lineEnding := some ending }
    | .error e => .error (.invalidValue value slot e)

/-- A missing value is a fault before a repeated argument, and that before a bad value. -/
def fill (arguments : Arguments) (slot : Slot) : Option Text → Except Halt Arguments
  | none => .error (.fault (.valueRequired slot))
  | some value =>
    if arguments.holds slot then .error (.fault (.repeatedSlot slot))
    else
      match arguments.assign slot value with
      | .ok arguments => .ok arguments
      | .error e => .error (.fault e)

end Arguments

end FeatureMarkdown.Command
