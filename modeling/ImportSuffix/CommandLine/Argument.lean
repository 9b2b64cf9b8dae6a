import ImportSuffix.Text.Utf8

/-!
# What a command line may hold

An argument is a flag, or it takes a value: the root directory, which has no name
of its own, and two options.  Options and flags have a long name, and most have a
letter.
-/

namespace ImportSuffix

inductive Valued where
  | root
  | exclude
  | extension
deriving DecidableEq, Repr

/-- Arguments without a value. -/
inductive Flag where
  | verbose
  | dryRun
  | help
  | version
deriving DecidableEq, Repr

inductive Argument where
  | valued (which : Valued)
  | flag (which : Flag)
deriving DecidableEq, Repr

def Valued.usage : Valued → String
  | root => "[ROOT]"
  | exclude => "--exclude <EXCLUDE>"
  | extension => "--extension <EXTENSION>"

def Flag.usage : Flag → String
  | verbose => "--verbose..."
  | dryRun => "--dry-run"
  | help => "--help"
  | version => "--version"

namespace Argument

/-- The argument as messages name it. -/
def usage : Argument → String
  | valued which => which.usage
  | flag which => which.usage

/-- The long names, which follow two dashes. -/
def longNames : List (Bytes × Argument) :=
  [(Utf8.encode "exclude".toList, valued .exclude),
    (Utf8.encode "extension".toList, valued .extension),
    (Utf8.encode "verbose".toList, flag .verbose),
    (Utf8.encode "dry-run".toList, flag .dryRun),
    (Utf8.encode "help".toList, flag .help),
    (Utf8.encode "version".toList, flag .version)]

/-- The argument with a long name; names are not abbreviated. -/
def ofLongName? (name : Bytes) : Option Argument :=
  longNames.lookup name

/-- The letters, which follow a single dash: `e`, `v`, `h` and `V`. -/
def letters : List (UInt8 × Argument) :=
  [(0x65, valued .exclude), (0x76, flag .verbose), (0x68, flag .help), (0x56, flag .version)]

def ofLetter? (letter : UInt8) : Option Argument :=
  letters.lookup letter

end Argument

end ImportSuffix
