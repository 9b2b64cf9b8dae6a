import ImportSuffix.Edit

/-!
# Walking a tree

A walk visits what is below a root directory, a directory before its entries and
entries in the order of their names, and edits every regular file that has
the extension.  Excluded entries are left out with all below them.  Links are
not followed, the root apart, and special files are left alone.  The first
failure ends the walk, and what was written before it stays written.
-/

namespace ImportSuffix

/-- The counts of a walk: the files with the extension that were read, those of
them that were changed, and the changed statements in all of them. -/
structure Tally where
  scanned : Nat
  revised : Nat
  changed : Nat
deriving DecidableEq, Repr

namespace Tally

def zero : Tally := ⟨0, 0, 0⟩

def add (left right : Tally) : Tally :=
  ⟨left.scanned + right.scanned, left.revised + right.revised,
    left.changed + right.changed⟩

def ofFile (changed : Nat) : Tally :=
  ⟨1, if changed = 0 then 0 else 1, changed⟩

end Tally

/-- What a walk does: the edit of every file, and the names that it leaves
out. -/
structure Walk extends Edit where
  exclude : List Text
deriving DecidableEq, Repr

namespace Walk

def excludes (walk : Walk) (name : FileName) : Bool :=
  walk.exclude.any fun excluded => Utf8.encode excluded = name

/-- Visits a regular file with the extension; `reachable` says whether all
directories above it can be searched. -/
def visitFile (walk : Walk) (reachable : Bool) (path : Path) (mode : Mode) (data : Bytes) :
    Outcome FileTree Tally :=
  let outcome := walk.applyToData path (reachable && mode.read) (reachable && mode.write) data
  match outcome.result with
  | .error failure => ⟨.file mode outcome.after, outcome.log, .error failure⟩
  | .ok changed =>
      { after := .file mode outcome.after
        log := outcome.log ++ (if changed = 0 then [] else [.revised walk.dryRun changed path])
        result := .ok (.ofFile changed) }

mutual

/-- Visits a node and what is below it.  `reachable` says whether all
directories above it can be searched. -/
def visit (walk : Walk) (reachable : Bool) (path : Path) : FileTree → Outcome FileTree Tally
  | .dir mode entries =>
      match path.obstacle? (reachable && mode.read) with
      | some cause => ⟨.dir mode entries, [.entered path], .error (.unlistable path cause)⟩
      | none =>
          let inner := visitEntries walk (reachable && mode.search) path entries
          ⟨.dir mode inner.after, .entered path :: inner.log, inner.result⟩
  | .link target => ⟨.link target, [.skippedLink path], .ok .zero⟩
  | .fifo mode => ⟨.fifo mode, [.skippedSpecial path], .ok .zero⟩
  | .file mode data =>
      if path.hasExtension walk.extension then visitFile walk reachable path mode data
      else ⟨.file mode data, [.skippedOther path], .ok .zero⟩

def visitEntries (walk : Walk) (reachable : Bool) (directory : Path) :
    List (FileName × FileTree) → Outcome (List (FileName × FileTree)) Tally
  | [] => ⟨[], [], .ok .zero⟩
  | (name, node) :: rest =>
      let path := directory.join name
      if walk.excludes name then
        let later := visitEntries walk reachable directory rest
        ⟨(name, node) :: later.after, .excluded path :: later.log, later.result⟩
      else
        let first := visit walk reachable path node
        match first.result with
        | .error failure => ⟨(name, first.after) :: rest, first.log, .error failure⟩
        | .ok tally =>
            let later := visitEntries walk reachable directory rest
            ⟨(name, first.after) :: later.after, first.log ++ later.log,
              later.result.map tally.add⟩

end

/-- Visits the directory that a root leads to.  A root that is itself a link to
it is recorded as one. -/
def visitRoot (walk : Walk) (root : Path) (isLink : Bool) (node : FileTree) :
    Outcome FileTree Tally :=
  let outcome := walk.visit true root node
  if isLink then { outcome with log := .skippedLink root :: outcome.log.tail } else outcome

/-- Walks the directory that was found for a root.  The state after it is what
is now at the root's location, or `none` if nothing was visited. -/
def runFrom (walk : Walk) (root : Path) :
    Except AccessError Root → Outcome (Option (Location × FileTree)) Tally
  | .error cause => ⟨none, [], .error (.rootInaccessible root cause)⟩
  | .ok found =>
      if found.node.isDir then
        let outcome := walk.visitRoot root found.isLink found.node
        { outcome with after := some (found.location, outcome.after) }
      else ⟨none, [], .error (.rootNotDirectory root)⟩

/-- Walks the directory that the root leads to in a tree.  Only a relative root
that stays inside the tree leads to one (`FileTree.locate`). -/
def run (walk : Walk) (root : Path) (tree : FileTree) : Outcome FileTree Tally :=
  (walk.runFrom root (tree.rootAt root)).within tree

end Walk

end ImportSuffix
