import FeatureMarkdown.Command.Run

namespace FeatureMarkdown.Main

/-- Only feature files are read, so of the others the content does not matter. -/
def contentOf (place : Path) : IO Bytes := do
  if ((Path.fileName? place).map Path.isFeatureName).getD false then
    return (← IO.FS.readBinFile (String.ofList place)).data.toList
  else
    return []

def entered (fs : FileSystem) (place : Path) (entry : Entry) : FileSystem :=
  match fs.create [] place entry with
  | .ok changed => changed
  | .error _ => fs

/-- Enters what stands at an absolute path, after the directories on the way to it, and the place
behind each link. Below a directory it enters so many levels. -/
partial def load (fs : FileSystem) (levels : Nat) (path : Path) : IO FileSystem := do
  let mut fs := fs
  for place in (Path.withAncestors path).reverse do
    fs ← enter fs (if place = path then levels else 0) place
  return fs
where
  enter (fs : FileSystem) (levels : Nat) (place : Path) : IO FileSystem := do
    let file := (← IO.FS.realPath "/") / String.ofList place
    match ← file.symlinkMetadata.toBaseIO with
    | .error _ => return fs
    | .ok metadata =>
      match metadata.type with
      | .dir => below (entered fs place .directory) levels place
      | .symlink =>
        let target := (← IO.FS.realPath file).toString.toList
        let linked := entered fs place (.link target)
        if target = place then return linked else load linked levels target
      | _ => return entered fs place (.file (← contentOf place))
  below (fs : FileSystem) (levels : Nat) (place : Path) : IO FileSystem := do
    match levels with
    | 0 => return fs
    | levels + 1 =>
      let mut fs := fs
      for child in ← ((← IO.FS.realPath "/") / String.ofList place).readDir do
        fs ← enter fs levels (Path.join place child.fileName.toList)
      return fs

/-- The number of levels that a search goes down: one, or in effect all of them. -/
def searchDepth (recursive : Bool) : Nat :=
  if recursive then 4096 else 1

/-- The files that a run with these options can see. -/
def loadFor (options : BatchOptions) (cwd : Path) : IO FileSystem := do
  let fs ← load FileSystem.empty 0 cwd
  let fs ← load fs (searchDepth options.recursive) (Path.join cwd options.source)
  load fs 1 (Path.join cwd options.output)

def location (path : Path) : Location :=
  (Path.components path).filterMap fun component =>
    match component with
    | .name name => some name
    | _ => none

/-- A location at which nothing stands, for a working directory that has been removed. -/
def removed : Location :=
  [⟨['\x00'], by decide⟩]

def carryOut (changes : List (List Name × Option Bytes)) : IO Unit := do
  for (way, content) in changes do
    let path := String.ofList (Command.locationText way)
    match content with
    | some bytes => IO.FS.writeBinFile path ⟨bytes.toArray⟩
    | none => IO.FS.createDir path

end FeatureMarkdown.Main

open FeatureMarkdown in
def main (arguments : List String) : IO UInt32 := do
  let (cwdText, cwd, current) : Path × Location × Except FileError Path :=
    match ← IO.currentDir.toBaseIO with
    | .ok directory =>
      let path := directory.toString.toList
      (path, Main.location path, .ok path)
    | .error _ => (['/'], Main.removed, .error .notFound)
  let words := arguments.map String.toList
  let level ← IO.getEnv (String.ofList Config.logLevelVariable)
  let ending ← IO.getEnv (String.ofList Config.lineEndingVariable)
  let environment (name : Text) : Option Bytes :=
    if name = Config.logLevelVariable then level.map (Text.toBytes ·.toList)
    else if name = Config.lineEndingVariable then ending.map (Text.toBytes ·.toList)
    else none
  let options := (Command.Arguments.parse words).toOption.bind fun parsed =>
    (parsed.batchOptions {} current).toOption
  let files ← match options with
    | some options => Main.loadFor options cwdText
    | none => pure FileSystem.empty
  let outcome := Command.Invocation.run ⟨words, environment, cwd, files, .never⟩
  Main.carryOut (files.changesSince outcome.files [])
  IO.print (String.ofList outcome.output)
  for message in outcome.messages do
    IO.eprintln (String.ofList message)
  return UInt32.ofNat outcome.exitCode
