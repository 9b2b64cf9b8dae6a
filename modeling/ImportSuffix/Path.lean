import ImportSuffix.Text.Utf8

/-!
# Paths and file names

A path is a byte string cut into names by slashes.  Empty pieces and single dots
stand for the directory that they follow, and two dots for the one above it.
-/

namespace ImportSuffix

/-- The name of an entry in its directory: bytes without a slash. -/
abbrev FileName := Bytes

abbrev Path := Bytes

namespace Path

def slash : UInt8 := 0x2f

/-- The name that stands for the directory itself. -/
def here : FileName := [0x2e]

/-- The name that stands for the directory above. -/
def above : FileName := [0x2e, 0x2e]

def nameLimit : Nat := 255

/-- The pieces between slashes; there is always at least one. -/
def pieces (path : Path) : List FileName :=
  path.splitOn slash

/-- The last name of a path.  Slashes and single dots behind it do not count, and
two dots are not a name. -/
def fileName? (path : Path) : Option FileName :=
  ((pieces path).reverse.find? fun piece => piece ≠ [] ∧ piece ≠ here).filter (· ≠ above)

/-- The path of an entry of a directory.  A slash is put between the two unless
the directory's path is empty or ends with one. -/
def join (directory : Path) (name : FileName) : Path :=
  if directory = [] ∨ directory.getLast? = some slash then directory ++ name
  else directory ++ slash :: name

/-- Whether a name ends with the extension, and what precedes the extension ends
with a dot.  A name that is not UTF-8 has no extension. -/
def nameHasExtension (extension : Text) (name : FileName) : Bool :=
  match Utf8.decode? name with
  | none => false
  | some text =>
      match extension.isSuffixOf? text with
      | none => false
      | some stem => stem.getLast? = some '.'

/-- Whether the last name of the path has the extension. -/
def hasExtension (extension : Text) (path : Path) : Bool :=
  match fileName? path with
  | none => false
  | some name => nameHasExtension extension name

def shown (path : Path) : String :=
  String.ofList (Utf8.lossy path)

end Path

end ImportSuffix
