import ImportSuffix.Program

/-!
# The command

The directory that the command line names is loaded as a tree, the pass runs on
that tree, and the files that it changed are written.  Contents are loaded only
of files that the pass reads.
-/

namespace ImportSuffix.Command

/-- The number of an error of the operating system, which may be negated. -/
def errorNumber (code : UInt32) : UInt32 :=
  min code (0 - code)

def causeOf : IO.Error → AccessError
  | .noFileOrDirectory _ _ _ => .notFound
  | .permissionDenied _ _ _ => .permissionDenied
  | .inappropriateType _ code _ =>
      if errorNumber code = 21 then .isDirectory else .notDirectory
  | .invalidArgument _ code _ =>
      if errorNumber code = 36 then .nameTooLong else .tooManyLinks
  | _ => .notFound

def bytesOf (text : String) : Bytes :=
  Utf8.encode text.toList

def succeeds {α : Type} (action : IO α) : IO Bool := do
  return (← action.toBaseIO).isOk

def loadFile (entry : IO.FS.DirEntry) : IO FileTree := do
  let writable ← succeeds (IO.FS.Handle.mk entry.path .readWrite)
  match ← (IO.FS.readBinFile entry.path).toBaseIO with
  | .ok data => return .file { write := writable } data.toList
  | .error _ => return .file { read := false, write := writable } []

mutual

/-- Loads the entry of a directory.  One that cannot be examined is a file that
cannot be opened. -/
partial def loadEntry (walk : Walk) (entry : IO.FS.DirEntry) : IO FileTree := do
  if walk.excludes (bytesOf entry.fileName) then return .fifo {}
  match ← entry.path.symlinkMetadata.toBaseIO with
  | .error _ => return .file { read := false } []
  | .ok metadata =>
      match metadata.type with
      | .dir => loadDirectory walk entry
      | .symlink => return .link []
      | .other => return .fifo {}
      | .file =>
          if Path.nameHasExtension walk.extension (bytesOf entry.fileName) then loadFile entry
          else return .file {} []

/-- Loads a directory and what is below it. -/
partial def loadDirectory (walk : Walk) (entry : IO.FS.DirEntry) : IO FileTree := do
  match ← entry.path.readDir.toBaseIO with
  | .error _ => return .dir { read := false } []
  | .ok children =>
      let mut tree := FileTree.empty
      for child in children do
        tree := tree.insert [bytesOf child.fileName] (← loadEntry walk child)
      return tree

end

def loadRoot (walk : Walk) (entry : IO.FS.DirEntry) : IO (Except AccessError Root) := do
  match ← entry.path.metadata.toBaseIO with
  | .error error => return .error (causeOf error)
  | .ok metadata =>
      let isLink := match ← entry.path.symlinkMetadata.toBaseIO with
        | .ok metadata => metadata.type == .symlink
        | .error _ => false
      let node ← if metadata.type == .dir then loadDirectory walk entry else pure (.fifo {})
      return .ok ⟨[], isLink, node⟩

/-- Writes the files that differ between two states of the same tree. -/
partial def store (entry : IO.FS.DirEntry) : FileTree → FileTree → IO Unit
  | .file _ before, .file _ after => do
      if before != after then IO.FS.writeBinFile entry.path ⟨after.toArray⟩
  | .dir _ before, .dir _ after => do
      for (old, new) in before.zip after do
        let name := String.ofList (Utf8.lossy old.1)
        store { root := entry.path, fileName := name } old.2 new.2
  | _, _ => pure ()

def carryOut (settings : Settings) : IO Report := do
  let walk := settings.walk ((Extension.normalize? settings.extension).getD [])
  let entry : IO.FS.DirEntry :=
    { root := ← IO.currentDir, fileName := settings.root.shown }
  let found ← loadRoot walk entry
  let outcome := settings.runFrom found
  match found, outcome.after with
  | .ok root, some (_, after) => store entry root.node after
  | _, _ => pure ()
  return settings.report outcome

end ImportSuffix.Command

open ImportSuffix in
def main (arguments : List String) : IO UInt32 := do
  let elements := Utf8.encode Settings.programName :: arguments.map Command.bytesOf
  let report ← match Settings.ofCommandLine elements with
    | .error stop => pure stop.report
    | .ok settings => Command.carryOut settings
  IO.print report.stdout
  IO.eprint report.stderr
  return UInt32.ofNat report.exitCode
