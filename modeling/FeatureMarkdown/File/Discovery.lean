import FeatureMarkdown.File.Lookup
import FeatureMarkdown.Sort

namespace FeatureMarkdown

namespace FileSystem

/-- The way from one location down to another one below it. -/
def below? (root location : Location) : Option (List Name) :=
  if root.isPrefixOf location then some (location.drop root.length) else none

/-- A way down that a search takes: one step, or any number of them if it is recursive. -/
def inReach (recursive : Bool) (way : List Name) : Bool :=
  match way with
  | [] => false
  | [_] => true
  | _ => recursive

def leadsToFeature (way : List Name) : Bool :=
  match way.getLast? with
  | some name => Path.isFeatureName name
  | none => false

/-- The way to the entry, if it is a feature file that the search reaches. -/
def featureWay? (root : Location) (recursive : Bool) : Location × Entry → Option (List Name)
  | (location, .file _) =>
    (below? root location).filter fun way => inReach recursive way && leadsToFeature way
  | _ => none

/-- The order of ways: name by name, each by code points. -/
def wayLE : List Name → List Name → Bool
  | [], _ => true
  | _ :: _, [] => false
  | a :: v, b :: w => if a = b then wayLE v w else Text.le a.val b.val

def featureWays (fs : FileSystem) (root : Location) (recursive : Bool) : List (List Name) :=
  sortBy wayLE (fs.entries.filterMap (featureWay? root recursive))

def joinWay (root : Path) (way : List Name) : Path :=
  way.foldl (fun path name => path.join name.val) root

def directoryWay? (root : Location) : Location × Entry → Option (List Name)
  | (location, .directory) => (below? root location).filter (· ≠ [])
  | _ => none

def directoryWays (fs : FileSystem) (root : Location) : List (List Name) :=
  sortBy wayLE (fs.entries.filterMap (directoryWay? root))

/-- The first directory below the root that a search cannot list since its path is too long. A
search that is not recursive lists none but the root. -/
def unlistable? (fs : FileSystem) (root : Path) (location : Location) (recursive : Bool) :
    Option Path :=
  if recursive then
    ((fs.directoryWays location).map (joinWay root)).find? fun path => pathLimit < path.byteCount
  else none

/-- The feature files below the root, which is a directory, or the directory that cannot be
listed. -/
def featuresBelow (fs : FileSystem) (root : Path) (location : Location) (recursive : Bool) :
    Except (Path × FileError) (List Path) :=
  match fs.unlistable? root location recursive with
  | some path => .error (path, .nameTooLong)
  | none => .ok ((fs.featureWays location recursive).map (joinWay root))

/-- The paths of the feature files below the root. A root that is itself a file may be one; a root
that is a link counts only for the directory behind it. A failure comes with the path where it
arises. -/
def findFeatures (fs : FileSystem) (cwd : Location) (root : Path) (recursive : Bool) :
    Except (Path × FileError) (List Path) :=
  match fs.find cwd .entry root with
  | .error e => .error (root, e)
  | .ok (location, .directory) => fs.featuresBelow root location recursive
  | .ok (_, .file _) =>
    .ok (if (root.fileName?.map Path.isFeatureName).getD false then [root] else [])
  | .ok (_, .link _) =>
    match fs.find cwd .target root with
    | .error e => .error (root, e)
    | .ok (location, .directory) => fs.featuresBelow root location recursive
    | .ok _ => .ok []

end FileSystem

end FeatureMarkdown
