import FeatureMarkdown.Text.Basic

namespace FeatureMarkdown

/-- A path as it is written. -/
abbrev Path := Text

namespace Path

/-- The parts between the slashes, empty ones included. -/
def pieces : Path → List Text
  | [] => [[]]
  | c :: path =>
    if c = '/' then [] :: pieces path
    else
      match pieces path with
      | [] => [[c]]
      | piece :: rest => (c :: piece) :: rest

def isAbsolute (path : Path) : Bool :=
  path.head? = some '/'

def endsInSlash (path : Path) : Bool :=
  path.getLast? = some '/'

/-- The parts that lead somewhere: neither empty nor a single dot. -/
def moves (path : Path) : List Text :=
  path.pieces.filter fun piece => piece ≠ [] && piece ≠ ['.']

/-- The last part, if it is a name. -/
def fileName? (path : Path) : Option Text :=
  match path.moves.getLast? with
  | some ['.', '.'] => none
  | last => last

/-- A name below a directory. An absolute name stands for itself. -/
def join (directory : Path) (name : Path) : Path :=
  if name.isAbsolute then name
  else if directory = [] || directory.endsInSlash then directory ++ name
  else directory ++ ['/'] ++ name

def takeMoves (path : Path) (n : Nat) : Path :=
  (if path.isAbsolute then ['/'] else []) ++ Text.join ['/'] (path.moves.take n)

/-- The path itself, unless it is empty, and then the directories above it, the nearest first. -/
def withAncestors (path : Path) : List Path :=
  if path = [] then []
  else path :: (List.range (path.moves.length - 1)).reverse.map fun n => path.takeMoves (n + 1)

/-- A name that ends in `.feature` and has something before that. -/
def isFeatureName (name : Text) : Bool :=
  ".feature".toList.isSuffixOf name && name ≠ ".feature".toList

end Path

end FeatureMarkdown
