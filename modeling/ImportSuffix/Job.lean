import ImportSuffix.Extension
import ImportSuffix.Walk

/-!
# One pass over a directory

A job names a root, the names to leave out and an extension as the user gave it.
The extension is checked before anything is looked at.  A pass that succeeds is
summed up in one line.
-/

namespace ImportSuffix

structure Job where
  root : Path
  exclude : List Text
  extension : Text
  dryRun : Bool
deriving DecidableEq, Repr

namespace Job

/-- The walk of a job, once its extension was accepted as `extension`. -/
def walk (job : Job) (extension : Text) : Walk :=
  ⟨⟨extension, job.dryRun⟩, job.exclude⟩

def runFrom (job : Job) (found : Except AccessError Root) :
    Outcome (Option (Location × FileTree)) Tally :=
  match Extension.normalize? job.extension with
  | none => ⟨none, [], .error (.invalidExtension job.extension)⟩
  | some extension =>
      let outcome := (job.walk extension).runFrom job.root found
      { outcome with log := .scanning job.root extension job.exclude :: outcome.log }

def run (job : Job) (tree : FileTree) : Outcome FileTree Tally :=
  (job.runFrom (tree.rootAt job.root)).within tree

def summary (job : Job) (tally : Tally) : String :=
  dryRunMark job.dryRun ++ "Rewrote " ++ tally.changed.repr ++ " import(s) in " ++
    tally.revised.repr ++ " of " ++ tally.scanned.repr ++ " file(s) under " ++
      job.root.shown ++ ".\n"

/-- What a pass prints: its summary, or nothing if it failed. -/
def printed (job : Job) {σ : Type} (outcome : Outcome σ Tally) : String :=
  match outcome.result with
  | .ok tally => job.summary tally
  | .error _ => ""

end Job

end ImportSuffix
