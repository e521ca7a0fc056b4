import FeatureMarkdown.Text.Basic

namespace FeatureMarkdown

/-- JSON values without numbers and truth values. The members of an object keep their order. -/
inductive Json where
  | null
  | string (value : Text)
  | array (members : List Json)
  | object (members : List (Text × Json))
deriving Inhabited

namespace Json

def hexDigit (n : Nat) : Char :=
  Nat.digitChar n

/-- Control characters without an escape of their own are written by number. -/
def escapeChar (c : Char) : Text :=
  if c = '"' then ['\\', '"']
  else if c = '\\' then ['\\', '\\']
  else if c = '\x08' then ['\\', 'b']
  else if c = '\x0c' then ['\\', 'f']
  else if c = '\n' then ['\\', 'n']
  else if c = '\r' then ['\\', 'r']
  else if c = '\t' then ['\\', 't']
  else if c.toNat < 0x20 then
    ['\\', 'u', '0', '0', hexDigit (c.toNat / 16), hexDigit (c.toNat % 16)]
  else [c]

def quote (value : Text) : Text :=
  ['"'] ++ value.flatMap escapeChar ++ ['"']

/-- A line break, and two spaces for each level of nesting. -/
def indentation (level : Nat) : Text :=
  '\n' :: List.replicate (2 * level) ' '

mutual

/-- The text of a value whose first character stands at the given level. -/
def textAt (level : Nat) : Json → Text
  | .null => "null".toList
  | .string value => quote value
  | .array [] => ['[', ']']
  | .array (first :: rest) =>
    ['['] ++ indentation (level + 1) ++ textAt (level + 1) first ++
      memberTexts (level + 1) rest ++ indentation level ++ [']']
  | .object [] => ['\x7b', '\x7d']
  | .object ((key, first) :: rest) =>
    ['\x7b'] ++ indentation (level + 1) ++ quote key ++ [':', ' '] ++ textAt (level + 1) first ++
      fieldTexts (level + 1) rest ++ indentation level ++ ['\x7d']

/-- The members after the first, each with the comma before it. -/
def memberTexts (level : Nat) : List Json → Text
  | [] => []
  | member :: rest =>
    [','] ++ indentation level ++ textAt level member ++ memberTexts level rest

/-- The fields after the first, each with the comma before it. -/
def fieldTexts (level : Nat) : List (Text × Json) → Text
  | [] => []
  | (key, value) :: rest =>
    [','] ++ indentation level ++ quote key ++ [':', ' '] ++ textAt level value ++
      fieldTexts level rest

end

/-- The indented text, without a line break at its end. -/
def text (value : Json) : Text :=
  value.textAt 0

end Json

end FeatureMarkdown
