import ImportSuffix.Path
import ImportSuffix.Revision
import ImportSuffix.Text.Quoted

/-!
# Log records

What a pass reports while it runs.  Every record has a level and a target, which
are fixed by its kind, and a message.  A verbosity admits the records up to some
level.
-/

namespace ImportSuffix

/-- Levels of log records, from the least to the most talkative. -/
inductive Level where
  | error
  | info
  | debug
  | trace
deriving DecidableEq, Repr

namespace Level

def label : Level → String
  | error => "ERROR"
  | info => "INFO"
  | debug => "DEBUG"
  | trace => "TRACE"

def rank : Level → Nat
  | error => 0
  | info => 1
  | debug => 2
  | trace => 3

/-- The most talkative level that a verbosity admits. -/
def ofVerbosity : Nat → Level
  | 0 => error
  | 1 => info
  | 2 => debug
  | _ => trace

def admits (limit level : Level) : Bool :=
  level.rank ≤ limit.rank

end Level

inductive Event where
  /-- A pass over the files below `root` begins. -/
  | scanning (root : Path) (extension : Text) (exclude : List Text)
  /-- An entry is left out, with all below it, because of its name. -/
  | excluded (path : Path)
  /-- A directory is listed. -/
  | entered (path : Path)
  | skippedLink (path : Path)
  | skippedSpecial (path : Path)
  | skippedOther (path : Path)
  /-- A specifier, as it was, receives the extension. -/
  | extended (specifier extension : Text)
  /-- A file holds `count` statements that were changed, or on a dry run that
  would be. -/
  | revised (dryRun : Bool) (count : Nat) (path : Path)
deriving DecidableEq, Repr

def dryRunMark (dryRun : Bool) : String :=
  if dryRun then "[DRY RUN] " else ""

namespace Event

def level : Event → Level
  | scanning _ _ _ => .debug
  | excluded _ => .debug
  | entered _ => .debug
  | skippedLink _ => .debug
  | skippedSpecial _ => .debug
  | skippedOther _ => .debug
  | extended _ _ => .trace
  | revised _ _ _ => .info

/-- The part of the program that a record comes from. -/
def target : Event → String
  | scanning _ _ _ => "esmfix::cli::runner"
  | extended _ _ => "esmfix::rewriter"
  | _ => "esmfix::walker"

def message : Event → String
  | scanning root extension exclude =>
      "Scanning '" ++ root.shown ++ "' for ." ++ String.ofList extension ++
        " files, excluding " ++ String.ofList (Quoted.list exclude)
  | excluded path => "Skipping excluded entry: " ++ path.shown
  | entered path => "Entering directory: " ++ path.shown
  | skippedLink path => "Skipping symlink: " ++ path.shown
  | skippedSpecial path => "Skipping special file: " ++ path.shown
  | skippedOther path => "Skipping non-target file: " ++ path.shown
  | extended specifier extension =>
      "'" ++ String.ofList specifier ++ "' -> '" ++
        String.ofList (specifier ++ dotted extension) ++ "'"
  | revised dryRun count path =>
      dryRunMark dryRun ++ "Rewrote " ++ count.repr ++ " import(s) in '" ++ path.shown ++ "'"

/-- The record on one line: level, target and message. -/
def line (event : Event) : String :=
  event.level.label ++ " " ++ event.target ++ ": " ++ event.message

end Event

/-- The records of a revision with the extension: one for each statement that it
changed. -/
def Revision.events (extension : Text) (revision : Revision) : List Event :=
  revision.changed.map fun statement => .extended statement.specifier extension

end ImportSuffix
