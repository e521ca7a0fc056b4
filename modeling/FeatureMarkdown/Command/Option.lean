import FeatureMarkdown.Text.Basic

namespace FeatureMarkdown.Command

inductive Flag where
  | recursive
  | dryRun
  | json
  | help
  | version
deriving DecidableEq, Inhabited

/-- An argument that has a value. The source is the one without a name. -/
inductive Slot where
  | source
  | output
  | logLevel
  | lineEnding
deriving DecidableEq, Inhabited

/-- What a name on the command line stands for. -/
inductive Known where
  | flag (flag : Flag)
  | slot (slot : Slot)
deriving DecidableEq, Inhabited

def Known.ofName? (name : Text) : Option Known :=
  if name = "recursive".toList then some (.flag .recursive)
  else if name = "dry-run".toList then some (.flag .dryRun)
  else if name = "json".toList then some (.flag .json)
  else if name = "help".toList then some (.flag .help)
  else if name = "version".toList then some (.flag .version)
  else if name = "output".toList then some (.slot .output)
  else if name = "log-level".toList then some (.slot .logLevel)
  else if name = "line-ending".toList then some (.slot .lineEnding)
  else none

def Known.ofLetter? (letter : Char) : Option Known :=
  if letter = 'r' then some (.flag .recursive)
  else if letter = 'd' then some (.flag .dryRun)
  else if letter = 'j' then some (.flag .json)
  else if letter = 'h' then some (.flag .help)
  else if letter = 'V' then some (.flag .version)
  else if letter = 'o' then some (.slot .output)
  else none

def Flag.usage : Flag → Text
  | .recursive => "--recursive".toList
  | .dryRun => "--dry-run".toList
  | .json => "--json".toList
  | .help => "--help".toList
  | .version => "--version".toList

def Slot.usage : Slot → Text
  | .source => "[SOURCE]".toList
  | .output => "--output <OUTPUT>".toList
  | .logLevel => "--log-level <LOG_LEVEL>".toList
  | .lineEnding => "--line-ending <LINE_ENDING>".toList

end FeatureMarkdown.Command
