import ImportSuffix.Event
import ImportSuffix.Failure

/-!
# Editing a file

A file is read, decoded, revised, and written only if the revision changed it
and it is not a dry run.  Either all of this succeeds or the file stays as it
was.
-/

namespace ImportSuffix

/-- What was asked for: the extension to add, and whether to leave the files as
they are. -/
structure Edit where
  extension : Text
  dryRun : Bool
deriving DecidableEq, Repr

/-- What an action leaves and reports: the state after it, its records in order,
and its result. -/
structure Outcome (σ : Type) (α : Type) where
  after : σ
  log : List Event
  result : Except Failure α

/-- The outcome in a tree, when the state is the change of one location. -/
def Outcome.within {α : Type} (tree : FileTree)
    (outcome : Outcome (Option (Location × FileTree)) α) : Outcome FileTree α :=
  match outcome.after with
  | none => { outcome with after := tree }
  | some (location, node) => { outcome with after := tree.insert location node }

namespace Edit

/-- Edits the contents of a regular file at a path.  `readable` and `writable`
say whether the modes allow to open it for either.  The result counts the changed
statements. -/
def applyToData (edit : Edit) (path : Path) (readable writable : Bool) (data : Bytes) :
    Outcome Bytes Nat :=
  match path.obstacle? readable with
  | some cause => ⟨data, [], .error (.unreadable path cause)⟩
  | none =>
      match Utf8.decode? data with
      | none => ⟨data, [], .error (.unreadable path .notUtf8)⟩
      | some text =>
          let revision := revise edit.extension text
          let log := revision.events edit.extension
          if revision.isChanged && !edit.dryRun then
            match path.obstacle? writable with
            | some cause => ⟨data, log, .error (.unwritable path cause)⟩
            | none => ⟨Utf8.encode revision.text, log, .ok revision.changed.length⟩
          else ⟨data, log, .ok revision.changed.length⟩

/-- Edits the file that a path leads to, links followed.  A special file has
no contents. -/
def applyToPath (edit : Edit) (path : Path) (tree : FileTree) : Outcome FileTree Nat :=
  match tree.locate true path with
  | .error cause => ⟨tree, [], .error (.unreadable path cause)⟩
  | .ok location =>
      match tree.get? location with
      | some (.file mode data) =>
          let outcome := edit.applyToData path mode.read mode.write data
          { outcome with after := tree.insert location (.file mode outcome.after) }
      | some (.dir mode _) =>
          let cause : AccessError := if mode.read then .isDirectory else .permissionDenied
          ⟨tree, [], .error (.unreadable path cause)⟩
      | some (.fifo mode) =>
          let outcome := edit.applyToData path mode.read mode.write []
          { outcome with after := tree }
      | _ => ⟨tree, [], .error (.unreadable path .notFound)⟩

end Edit

end ImportSuffix
