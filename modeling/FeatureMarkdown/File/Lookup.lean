import FeatureMarkdown.File.Error
import FeatureMarkdown.File.System

/-!
What a path leads to. Paths are followed as a kernel does it, component by component, so that `..`
after a link leads to the parent of the directory behind the link.
-/

namespace FeatureMarkdown

/-- What a path is followed for: the entry that it names, even if that is a link, what is there
behind links, or a file there, to be written. -/
inductive Goal where
  | entry
  | target
  | file
deriving DecidableEq, Inhabited

namespace FileSystem

/-- The most bytes of a name. -/
def nameLimit : Nat := 255

/-- The most bytes of a path. -/
def pathLimit : Nat := 4095

/-- The most links that a path may lead through. -/
def linkLimit : Nat := 40

/-- Follows components from a directory, up to a link, from whose directory `enter` goes on with
the components that the link stands for and the rest. The last component may be missing. If it is a
link, it is entered unless the entry itself is wanted, and if a file is wanted, to be written, no
slash may come after it. -/
def walkWith (fs : FileSystem) (goal : Goal)
    (enter : Location → List Component → Except FileError Location) (here : Location) :
    List Component → Except FileError Location
  | [] => .ok here
  | .current :: rest => walkWith fs goal enter here rest
  | .slash :: rest => walkWith fs goal enter here rest
  | .parent :: rest => walkWith fs goal enter here.dropLast rest
  | .name name :: rest =>
    if goal = .file && rest = [.slash] then .error .isDirectory
    else if nameLimit < name.val.byteCount then .error .nameTooLong
    else
      let next := here ++ [name]
      match fs.get? next with
      | none => if rest = [] then .ok next else .error .notFound
      | some .directory => walkWith fs goal enter next rest
      | some (.file _) => if rest = [] then .ok next else .error .notDirectory
      | some (.link target) =>
        if rest = [] && goal = .entry then .ok next
        else if target = [] then .error .notFound
        else enter (if target.isAbsolute then [] else here) (target.lookupComponents ++ rest)

def walk (fs : FileSystem) (goal : Goal) :
    Nat → Location → List Component → Except FileError Location
  | 0 => walkWith fs goal fun _ _ => .error .tooManyLinks
  | links + 1 => walkWith fs goal (walk fs goal links)

/-- A relative path needs the working directory, which may have been removed. -/
def Starts (fs : FileSystem) (cwd : Location) (path : Path) : Prop :=
  path.isAbsolute = true ∨ fs.get? cwd = some .directory

instance (fs : FileSystem) (cwd : Location) (path : Path) : Decidable (fs.Starts cwd path) :=
  inferInstanceAs (Decidable (_ ∨ _))

/-- The location that a path leads to from the directory `cwd`, whether or not something is
there. -/
def locate (fs : FileSystem) (cwd : Location) (goal : Goal) (path : Path)
    (components : List Component) : Except FileError Location :=
  if path = [] then .error .notFound
  else if '\x00' ∈ path then .error .nulInName
  else if pathLimit < path.byteCount then .error .nameTooLong
  else if ¬fs.Starts cwd path then .error .notFound
  else fs.walk goal linkLimit (if path.isAbsolute then [] else cwd) components

def find (fs : FileSystem) (cwd : Location) (goal : Goal) (path : Path) :
    Except FileError (Location × Entry) :=
  match fs.locate cwd goal path path.lookupComponents with
  | .error e => .error e
  | .ok location =>
    match fs.get? location with
    | none => .error .notFound
    | some entry => .ok (location, entry)

def isDirectory (fs : FileSystem) (cwd : Location) (path : Path) : Bool :=
  match fs.find cwd .target path with
  | .ok (_, .directory) => true
  | _ => false

def readText (fs : FileSystem) (cwd : Location) (path : Path) : Except FileError Text :=
  match fs.find cwd .target path with
  | .error e => .error e
  | .ok (_, .file content) =>
    match Text.ofBytes? content with
    | some text => .ok text
    | none => .error .invalidText
  | .ok (_, _) => .error .isDirectory

end FileSystem

end FeatureMarkdown
