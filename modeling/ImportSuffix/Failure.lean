import ImportSuffix.FileTree.Access

/-!
# Failures

Why a pass ends before its end: a cause, and the place that it concerns.
-/

namespace ImportSuffix

inductive Failure where
  /-- The extension is not one, with or without its leading dot. -/
  | invalidExtension (given : Text)
  /-- The root leads nowhere. -/
  | rootInaccessible (root : Path) (cause : AccessError)
  | rootNotDirectory (root : Path)
  | unreadable (path : Path) (cause : AccessError)
  | unwritable (path : Path) (cause : AccessError)
  /-- The entries of a directory cannot be read. -/
  | unlistable (path : Path) (cause : AccessError)
deriving DecidableEq, Repr

def Failure.message : Failure → String
  | invalidExtension given =>
      "Invalid extension '" ++ String.ofList given ++
        "': expected a non-empty name without '/', quotes or whitespace."
  | rootInaccessible root cause =>
      "Cannot proceed: root '" ++ root.shown ++ "' is not accessible. Original error: " ++
        cause.message
  | rootNotDirectory root =>
      "Cannot proceed: root '" ++ root.shown ++ "' is not a directory."
  | unreadable path cause =>
      "Cannot read '" ++ path.shown ++ "'. Original error: " ++ cause.message
  | unwritable path cause =>
      "Cannot write '" ++ path.shown ++ "'. Original error: " ++ cause.message
  | unlistable path cause =>
      "Failed to walk directory tree. Original error: IO error for operation on " ++
        path.shown ++ ": " ++ cause.message

end ImportSuffix
