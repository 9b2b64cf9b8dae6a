import ImportSuffix.CommandLine.Stop
import ImportSuffix.Job

/-!
# Settings

What a command line sets, while it is read (`Given`) and at the end, when
defaults stand in for what was not given (`Settings`).
-/

namespace ImportSuffix

/-- The job to carry out, and how much of it is logged. -/
structure Settings extends Job where
  verbosity : Nat
deriving DecidableEq, Repr

/-- What was set so far. -/
structure Given where
  root : Option Path
  exclude : List Text
  extension : Option Text
  verbosity : Nat
  dryRun : Bool
deriving DecidableEq, Repr

namespace Given

def nothing : Given := ⟨none, [], none, 0, false⟩

def verbosityLimit : Nat := 255

/-- The texts between commas, of which there is always at least one. -/
def listed (text : Text) : List Text :=
  text.splitOn ','

/-- Takes the value of an argument.  A root is not empty, an extension is given
once, and excluded names add up. -/
def takeValue (given : Given) (value : Bytes) : Valued → Except Stop Given
  | .root =>
      if value = [] then .error (.missingValue .root)
      else .ok { given with root := some value }
  | .exclude =>
      match Utf8.decode? value with
      | none => .error .notUtf8
      | some text => .ok { given with exclude := given.exclude ++ listed text }
  | .extension =>
      if given.extension.isSome then .error (.usedTwice (.valued .extension))
      else
        match Utf8.decode? value with
        | none => .error .notUtf8
        | some text => .ok { given with extension := some text }

/-- Takes a flag; `program` is the name to give help under. -/
def takeFlag (given : Given) (program : Text) : Flag → Except Stop Given
  | .verbose => .ok { given with verbosity := min (given.verbosity + 1) verbosityLimit }
  | .dryRun =>
      if given.dryRun then .error (.usedTwice (.flag .dryRun))
      else .ok { given with dryRun := true }
  | .help => .error (.help program)
  | .version => .error .version

/-- The directory that is looked at when no root is given, and the extension that
is added when none is. -/
def default : Text := ['j', 's']

/-- The settings, with defaults for what was not given. -/
def settings (given : Given) : Settings :=
  { root := given.root.getD (Utf8.encode default)
    exclude := given.exclude
    extension := given.extension.getD default
    dryRun := given.dryRun
    verbosity := given.verbosity }

end Given

end ImportSuffix
