import ImportSuffix.FileTree.Basic

/-!
# Reaching a node by a path

A path is followed from the top of a tree, step by step: into entries, up, and
through symbolic links, of which at most forty are followed.  Every directory
that is searched on the way must allow it.  Names and whole paths have a greatest
length.  `locate` says where a path leads, or why it leads nowhere.

The tree is closed and its top is the working directory.  What surrounds it is
not modelled: an absolute path, a path that leads above the top and a link with
such a target find nothing there.  So what is proved of a path that leads somewhere
is proved of the relative ones whose links and double dots stay inside the tree.

Nor is there a second name for one file, so that no write is seen elsewhere, and
opening is the only part of a write that can fail.
-/

namespace ImportSuffix

/-- Why a file or directory cannot be used. -/
inductive AccessError where
  | notFound
  | permissionDenied
  | notDirectory
  | isDirectory
  | nameTooLong
  | tooManyLinks
  | notUtf8
  | nulByte
deriving DecidableEq, Repr

namespace AccessError

def message : AccessError → String
  | notFound => "No such file or directory (os error 2)"
  | permissionDenied => "Permission denied (os error 13)"
  | notDirectory => "Not a directory (os error 20)"
  | isDirectory => "Is a directory (os error 21)"
  | nameTooLong => "File name too long (os error 36)"
  | tooManyLinks => "Too many levels of symbolic links (os error 40)"
  | notUtf8 => "stream did not contain valid UTF-8"
  | nulByte => "file name contained an unexpected NUL byte"

end AccessError

inductive Step where
  /-- Into the entry of that name. -/
  | enter (name : FileName)
  /-- A single dot: the directory itself. -/
  | stay
  /-- Two dots: the directory above. -/
  | up
  /-- A slash at the end: what was reached is a directory. -/
  | directory
deriving DecidableEq, Repr

namespace Path

def lengthLimit : Nat := 4095

def isTooLong (path : Path) : Bool :=
  lengthLimit < path.length

/-- Why what is at a path cannot be opened, if it is there and `allowed` says
whether the modes allow it. -/
def obstacle? (path : Path) (allowed : Bool) : Option AccessError :=
  if path.isTooLong then some .nameTooLong
  else if allowed then none
  else some .permissionDenied

def isAbsolute (path : Path) : Bool :=
  path.head? = some slash

def stepOf? (piece : FileName) : Option Step :=
  if piece = [] then none
  else if piece = here then some .stay
  else if piece = above then some .up
  else some (.enter piece)

def steps (path : Path) : List Step :=
  (pieces path).filterMap stepOf? ++
    (if path.getLast? = some slash then [.directory] else [])

end Path

namespace FileTree

/-- Whether a link reached with these steps to go is followed: one at the end of
the path is followed only on demand. -/
def follows (followLast : Bool) (rest : List Step) : Bool :=
  followLast || !rest.isEmpty

/-- What a path that left the tree comes to: it was checked only for names that
are too long. -/
def outside (rest : List Step) : AccessError :=
  match rest.findSome? fun step => match step with
    | .enter name => some name
    | _ => none with
  | some name => if Path.nameLimit < name.length then .nameTooLong else .notFound
  | none => .notFound

/-- The entries of the directory at a location, or the reason why it cannot be
searched. -/
def searched (tree : FileTree) (location : Location) :
    Except AccessError (List (FileName × FileTree)) :=
  match tree.get? location with
  | some (.dir mode entries) =>
      if mode.search then .ok entries else .error .permissionDenied
  | some _ => .error .notDirectory
  | none => .error .notFound

/-- Follows steps from a location.  A link that has to be followed is handed to
`onLink`, with the directory that holds it, its target and the steps to go. -/
def advance (tree : FileTree) (followLast : Bool)
    (onLink : Location → Path → List Step → Except AccessError Location) :
    Location → List Step → Except AccessError Location
  | location, [] => .ok location
  | location, .directory :: rest =>
      match tree.get? location with
      | some (.dir _ _) => advance tree followLast onLink location rest
      | some _ => .error .notDirectory
      | none => .error .notFound
  | location, .stay :: rest =>
      match tree.searched location with
      | .error e => .error e
      | .ok _ => advance tree followLast onLink location rest
  | location, .up :: rest =>
      match tree.searched location with
      | .error e => .error e
      | .ok _ =>
          match location with
          | [] => .error (outside rest)
          | _ => advance tree followLast onLink location.dropLast rest
  | location, .enter name :: rest =>
      match tree.searched location with
      | .error e => .error e
      | .ok entries =>
          if Path.nameLimit < name.length then .error .nameTooLong
          else
            match entries.lookup name with
            | none => .error .notFound
            | some (.link target) =>
                if follows followLast rest then onLink location target rest
                else advance tree followLast onLink (location ++ [name]) rest
            | some _ => advance tree followLast onLink (location ++ [name]) rest

/-- Follows steps from a location, through at most `links` symbolic links. -/
def follow (tree : FileTree) (followLast : Bool) :
    (links : Nat) → Location → List Step → Except AccessError Location
  | 0 => tree.advance followLast fun _ _ _ => .error .tooManyLinks
  | links + 1 =>
      tree.advance followLast fun location target rest =>
        if target.isAbsolute then .error (outside (target.steps ++ rest))
        else follow tree followLast links location (target.steps ++ rest)

def linkLimit : Nat := 40

/-- Where a path leads, from the top of the tree.  A link at its end is followed
only with `followLast`.  An absolute path leaves the tree at once. -/
def locate (tree : FileTree) (followLast : Bool) (path : Path) :
    Except AccessError Location :=
  if 0 ∈ path then .error .nulByte
  else if path = [] then .error .notFound
  else if path.isTooLong then .error .nameTooLong
  else if path.isAbsolute then .error (outside path.steps)
  else tree.follow followLast linkLimit [] path.steps

end FileTree

/-- Where a walk begins: a location, what is there, and whether the path that
led there ends at a link. -/
structure Root where
  location : Location
  isLink : Bool
  node : FileTree

namespace FileTree

/-- Whether a path ends at a link, before that link is followed. -/
def endsAtLink (tree : FileTree) (path : Path) : Bool :=
  match tree.locate false path with
  | .error _ => false
  | .ok location => ((tree.get? location).map isLink).getD false

def rootAt (tree : FileTree) (path : Path) : Except AccessError Root :=
  match tree.locate true path with
  | .error cause => .error cause
  | .ok location =>
      match tree.get? location with
      | none => .error .notFound
      | some node => .ok ⟨location, tree.endsAtLink path, node⟩

end FileTree

end ImportSuffix
