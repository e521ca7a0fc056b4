import FeatureMarkdown.File.Lookup

namespace FeatureMarkdown

namespace FileSystem

def create (fs : FileSystem) (cwd : Location) (path : Path) (entry : Entry) :
    Except FileError FileSystem :=
  match fs.locate cwd .entry path path.components with
  | .error e => .error e
  | .ok location =>
    match fs.get? location with
    | some _ => .error .alreadyExists
    | none => .ok (fs.add location entry)

def writeFile (fs : FileSystem) (cwd : Location) (path : Path) (content : Bytes) :
    Except FileError FileSystem :=
  match fs.locate cwd .file path path.lookupComponents with
  | .error e => .error e
  | .ok location =>
    match fs.get? location with
    | none => .ok (fs.add location (.file content))
    | some (.file _) => .ok (fs.setContent location content)
    | some _ => .error .isDirectory

/-- The first directory of the list is made, after those behind it if it needs them. A directory
that is there already is fine. What was made before a failure stays. -/
def createFirst (fs : FileSystem) (cwd : Location) : List Path → FileSystem × Option FileError
  | [] => (fs, none)
  | path :: above =>
    match fs.create cwd path .directory with
    | .ok made => (made, none)
    | .error .notFound =>
      match createFirst fs cwd above with
      | (fs, some e) => (fs, some e)
      | (fs, none) =>
        match fs.create cwd path .directory with
        | .ok made => (made, none)
        | .error e => (fs, if fs.isDirectory cwd path then none else some e)
    | .error e => (fs, if fs.isDirectory cwd path then none else some e)

def createDirectories (fs : FileSystem) (cwd : Location) (path : Path) :
    FileSystem × Option FileError :=
  fs.createFirst cwd path.withAncestors

/-- Below a location: the files that are new or have a new content, with it, and the new
directories, without one. -/
def changesSince (before after : FileSystem) (base : Location) :
    List (List Name × Option Bytes) :=
  after.entries.filterMap fun (location, entry) =>
    if base.isPrefixOf location && before.get? location ≠ some entry then
      match entry with
      | .file content => some (location.drop base.length, some content)
      | .directory => some (location.drop base.length, none)
      | .link _ => none
    else none

end FileSystem

end FeatureMarkdown
