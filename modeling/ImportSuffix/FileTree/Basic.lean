import ImportSuffix.Path

/-!
# File trees

A file tree is a regular file, a directory, a symbolic link or a special file.
The entries of a directory are kept in the order of their names, compared byte
by byte, and no name occurs twice (`WellFormed`).

A location leads from the top of a tree to a node, name by name.  `get?` looks
it up and `alter` changes what is there, without regard to links or permissions.
Every node has one location: two names of one file are two files here.
-/

namespace ImportSuffix

/-- What the owner may do: read the contents, write them, and search, that is,
reach what is inside a directory. -/
structure Mode where
  read : Bool := true
  write : Bool := true
  search : Bool := true
deriving DecidableEq, Repr

inductive FileTree where
  | file (mode : Mode) (data : Bytes)
  | dir (mode : Mode) (entries : List (FileName × FileTree))
  | link (target : Path)
  | fifo (mode : Mode)

/-- The names from the top of a tree down to a node. -/
abbrev Location := List FileName

namespace FileTree

mutual

def decEq : (left right : FileTree) → Decidable (left = right)
  | .file mode data, .file mode' data' =>
      decidable_of_iff (mode = mode' ∧ data = data') (by simp)
  | .dir mode entries, .dir mode' entries' =>
      have := decEqEntries entries entries'
      decidable_of_iff (mode = mode' ∧ entries = entries') (by simp)
  | .link target, .link target' => decidable_of_iff (target = target') (by simp)
  | .fifo mode, .fifo mode' => decidable_of_iff (mode = mode') (by simp)
  | .file _ _, .dir _ _ | .file _ _, .link _ | .file _ _, .fifo _ => isFalse nofun
  | .dir _ _, .file _ _ | .dir _ _, .link _ | .dir _ _, .fifo _ => isFalse nofun
  | .link _, .file _ _ | .link _, .dir _ _ | .link _, .fifo _ => isFalse nofun
  | .fifo _, .file _ _ | .fifo _, .dir _ _ | .fifo _, .link _ => isFalse nofun

def decEqEntries : (left right : List (FileName × FileTree)) → Decidable (left = right)
  | [], [] => isTrue rfl
  | (name, node) :: rest, (name', node') :: rest' =>
      have := decEq node node'
      have := decEqEntries rest rest'
      decidable_of_iff (name = name' ∧ node = node' ∧ rest = rest') (by simp [and_assoc])
  | [], _ :: _ => isFalse nofun
  | _ :: _, [] => isFalse nofun

end

instance : DecidableEq FileTree :=
  decEq

/-- A directory without entries, that its owner may use freely. -/
def empty : FileTree := .dir {} []

def isDir : FileTree → Bool
  | .dir _ _ => true
  | _ => false

def isLink : FileTree → Bool
  | .link _ => true
  | _ => false

def get? (tree : FileTree) : Location → Option FileTree
  | [] => some tree
  | name :: rest =>
      match tree with
      | .dir _ entries =>
          match entries.lookup name with
          | some child => child.get? rest
          | none => none
      | _ => none

/-- Changes the entry of a given name, which may be absent before or after, and
keeps the order of names. -/
def alterEntry (name : FileName) (change : Option FileTree → Option FileTree) :
    List (FileName × FileTree) → List (FileName × FileTree)
  | [] => ((change none).map fun node => (name, node)).toList
  | (other, child) :: rest =>
      if name = other then
        ((change (some child)).map fun node => (name, node)).toList ++ rest
      else if name < other then
        ((change none).map fun node => (name, node)).toList ++ (other, child) :: rest
      else (other, child) :: alterEntry name change rest

/-- Changes what is at a location, which may be absent before or after.  Missing
directories on the way are made, and nothing is put below a node that is no
directory. -/
def alter (change : Option FileTree → Option FileTree) :
    Location → Option FileTree → Option FileTree
  | [], node => change node
  | name :: rest, some (.dir mode entries) =>
      some (.dir mode (alterEntry name (alter change rest) entries))
  | name :: rest, none =>
      (alter change rest none).map fun child => .dir {} [(name, child)]
  | _ :: _, some node => some node

def alterAt (tree : FileTree) (location : Location)
    (change : Option FileTree → Option FileTree) : FileTree :=
  (alter change location (some tree)).getD empty

/-- Writes a file: an existing one keeps its mode. -/
def writeFile (tree : FileTree) (location : Location) (data : Bytes) : FileTree :=
  tree.alterAt location fun node =>
    match node with
    | some (.file mode _) => some (.file mode data)
    | _ => some (.file {} data)

def makeDir (tree : FileTree) (location : Location) : FileTree :=
  tree.alterAt location fun node =>
    match node with
    | some (.dir mode entries) => some (.dir mode entries)
    | _ => some empty

/-- Puts a node at a location, in place of what was there. -/
def insert (tree : FileTree) (location : Location) (node : FileTree) : FileTree :=
  tree.alterAt location fun _ => some node

def erase (tree : FileTree) (location : Location) : FileTree :=
  tree.alterAt location fun _ => none

/-- The node with another mode; a link has none of its own. -/
def withMode (mode : Mode) : FileTree → FileTree
  | .file _ data => .file mode data
  | .dir _ entries => .dir mode entries
  | .link target => .link target
  | .fifo _ => .fifo mode

def setMode (tree : FileTree) (location : Location) (mode : Mode) : FileTree :=
  tree.alterAt location (·.map (withMode mode))

mutual

/-- All nodes below a node, each with its path, a directory before its
entries. -/
def descendants (path : Path) : FileTree → List (Path × FileTree)
  | .dir _ entries => entryDescendants path entries
  | _ => []

def entryDescendants (path : Path) : List (FileName × FileTree) → List (Path × FileTree)
  | [] => []
  | (name, node) :: rest =>
      (path.join name, node) :: descendants (path.join name) node ++ entryDescendants path rest

end

/-- What can name an entry: bytes without a slash and NUL, but not none at all
and not one or two dots. -/
def IsEntryName (name : FileName) : Prop :=
  name ≠ [] ∧ name ≠ Path.here ∧ name ≠ Path.above ∧ Path.slash ∉ name ∧ 0 ∉ name

mutual

/-- Every directory holds its entries in strictly ascending order of names, and
each under a name that can name an entry and is not too long. -/
def WellFormed : FileTree → Prop
  | .dir _ entries => EntriesWellFormed entries
  | _ => True

def EntriesWellFormed : List (FileName × FileTree) → Prop
  | [] => True
  | (name, node) :: rest =>
      IsEntryName name ∧ name.length ≤ Path.nameLimit ∧ (∀ entry ∈ rest, name < entry.1) ∧
        WellFormed node ∧ EntriesWellFormed rest

end

end FileTree

end ImportSuffix
