import FeatureMarkdown.Command.Option
import FeatureMarkdown.Config
import FeatureMarkdown.Text.Terminal

namespace FeatureMarkdown.Command

inductive UsageError where
  | unexpectedArgument (argument : Text)
  | valueRequired (slot : Slot)
  | repeatedFlag (flag : Flag)
  | repeatedSlot (slot : Slot)
  | unexpectedValue (value : Text) (flag : Flag)
  | invalidValue (value : Text) (slot : Slot) (cause : ConfigError)
deriving DecidableEq, Inhabited

namespace UsageError

def quoteKnown (usage : Text) : Text :=
  ['\''] ++ Terminal.bold usage ++ ['\'']

def quoteGiven (argument : Text) : Text :=
  ['\''] ++ Terminal.yellow argument ++ ['\'']

def repeatedMessage (usage : Text) : Text :=
  "the argument ".toList ++ quoteKnown usage ++ " cannot be used multiple times".toList

/-- The message in the styles of a terminal. The cause has none, also where it repeats the
value. -/
def message : UsageError → Text
  | .unexpectedArgument argument =>
    "unexpected argument ".toList ++ quoteGiven argument ++ " found".toList
  | .valueRequired slot =>
    "a value is required for ".toList ++ quoteKnown slot.usage ++ " but none was supplied".toList
  | .repeatedFlag flag => repeatedMessage flag.usage
  | .repeatedSlot slot => repeatedMessage slot.usage
  | .unexpectedValue value flag =>
    "unexpected value ".toList ++ quoteGiven value ++ " for ".toList ++ quoteKnown flag.usage ++
      " found; no more were expected".toList
  | .invalidValue value slot cause =>
    "invalid value ".toList ++ quoteGiven value ++ " for ".toList ++ quoteKnown slot.usage ++
      ": ".toList ++ cause.message

def hint : Text :=
  "For more information, try ".toList ++ quoteKnown Flag.help.usage ++ ['.']

/-- All that is printed. It is stripped as a whole, so a sequence that an argument brings along and
does not end can take some of the text behind it away. -/
def report (e : UsageError) : Text :=
  Terminal.strip ("error: ".toList ++ e.message ++ ['\n', '\n'] ++ hint)

end UsageError

end FeatureMarkdown.Command
