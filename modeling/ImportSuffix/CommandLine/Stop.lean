import ImportSuffix.CommandLine.Argument
import ImportSuffix.Text.ControlSequence

/-!
# Ends before the work begins

A command line may ask to be told about the program, or may be at fault.  Either
ends the program; only a fault is an error.
-/

namespace ImportSuffix

inductive Stop where
  /-- Help was asked for, under the name that the program was called by. -/
  | help (program : Text)
  | version
  /-- An option that is not known, or a second root. -/
  | unexpectedArgument (shown : Text)
  | missingValue (argument : Valued)
  /-- A flag was given a value. -/
  | unexpectedValue (value : Text) (flag : Flag)
  | usedTwice (argument : Argument)
  | notUtf8
deriving DecidableEq, Repr

namespace Stop

def isError : Stop → Bool
  | help _ => false
  | version => false
  | _ => true

def exitCode (stop : Stop) : Nat :=
  if stop.isError then 2 else 0

def helpText (program : Text) : String :=
  "esmfix: append explicit file extensions to ES module import specifiers\n\nUsage: " ++
  String.ofList program ++
  " [OPTIONS] [ROOT]\n\nArguments:\n  [ROOT]  Directory holding the compiled modules " ++
  "[default: js]\n\nOptions:\n  -e, --exclude <EXCLUDE>      File or directory names to skip " ++
  "at any depth (comma-separated or repeated)\n      --extension <EXTENSION>  Extension " ++
  "appended to import specifiers lacking it [default: js]\n  -v, --verbose...             " ++
  "Increase logging verbosity (`-v`, `-vv`, `-vvv`)\n      --dry-run                Report " ++
  "rewrites without touching the filesystem\n  -h, --help                   Print help\n" ++
  "  -V, --version                Print version\n"

/-- The first line of a text, without its end. -/
def firstLine (text : String) : String :=
  String.ofList (text.toList.takeWhile (· ≠ '\n'))

/-- The text that the program ends with: all of it when it was asked for, and the
first line of an error.  What comes from the command line is shown without control
sequences; `resumes` is that of `ControlSequence.strip`. -/
def written (resumes : Bool) : Stop → String
  | help program => helpText (ControlSequence.strip resumes program)
  | version => "esmfix 0.1.0\n"
  | unexpectedArgument shown =>
      firstLine ("error: unexpected argument '" ++
        String.ofList (ControlSequence.strip resumes shown) ++ "' found")
  | missingValue argument =>
      "error: a value is required for '" ++ argument.usage ++ "' but none was supplied"
  | unexpectedValue value flag =>
      firstLine ("error: unexpected value '" ++
        String.ofList (ControlSequence.strip resumes value) ++ "' for '" ++
          flag.usage ++ "' found; no more were expected")
  | usedTwice argument =>
      "error: the argument '" ++ argument.usage ++ "' cannot be used multiple times"
  | notUtf8 => "error: invalid UTF-8 was detected in one or more arguments"

/-- The text as a value, of which each control sequence is taken by itself. -/
def message (stop : Stop) : String :=
  stop.written false

end Stop

end ImportSuffix
