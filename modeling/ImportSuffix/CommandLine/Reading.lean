import ImportSuffix.CommandLine.Settings
import ImportSuffix.CommandLine.Token

/-!
# Reading the command line

The elements are read from left to right, up to the first `Stop`.

An option or root that was read is first held back.  It is checked, with its
value if one came, when the next known argument begins, or at the end; until then
an element that is not known has precedence over a fault in what is held.  A
value that is joined to its option is checked at once, and so is a flag.
-/

namespace ImportSuffix

/-- An argument that was read and not yet checked, with its value once that was
read. -/
structure Held where
  argument : Valued
  value : Option Bytes
deriving DecidableEq, Repr

/-- How far the command line was read. -/
structure Reading where
  given : Given
  held : Option Held
  optionsEnded : Bool
deriving DecidableEq, Repr

namespace Reading

def start : Reading := ⟨.nothing, none, false⟩

/-- The reading among options, with nothing held back. -/
def continued (given : Given) : Reading := ⟨given, none, false⟩

/-- Checks what is held back, and takes it. -/
def settled (reading : Reading) : Except Stop Given :=
  match reading.held with
  | none => .ok reading.given
  | some ⟨argument, none⟩ => .error (.missingValue argument)
  | some ⟨argument, some value⟩ => reading.given.takeValue value argument

/-- Whether a root was read, checked or not. -/
def hasRoot (reading : Reading) : Bool :=
  reading.given.root.isSome || reading.held.any (·.argument = .root)

/-- Begins an option, which may have its value joined to it. -/
def beginValued (reading : Reading) (argument : Valued) (joined : Option Bytes) :
    Except Stop Reading :=
  match reading.settled with
  | .error stop => .error stop
  | .ok given =>
      match joined with
      | none => .ok ⟨given, some ⟨argument, none⟩, false⟩
      | some value => (given.takeValue value argument).map continued

def beginFlag (program : Text) (reading : Reading) (flag : Flag) : Except Stop Reading :=
  match reading.settled with
  | .error stop => .error stop
  | .ok given => (given.takeFlag program flag).map continued

def readLong (program : Text) (reading : Reading) (name : Bytes) (joined : Option Bytes) :
    Except Stop Reading :=
  match Argument.ofLongName? name with
  | none => .error (.unexpectedArgument ('-' :: '-' :: Utf8.lossy name))
  | some (.valued argument) => reading.beginValued argument joined
  | some (.flag flag) =>
      match joined with
      | none => reading.beginFlag program flag
      | some value => .error (.unexpectedValue (Utf8.lossy value) flag)

/-- How a letter that is not known is shown: alone, or with all that follows when
no character can be read there. -/
def unknownLetter (letter : UInt8) (rest : Bytes) : Stop :=
  match (Utf8.front letter rest).1 with
  | some c => .unexpectedArgument ['-', c]
  | none => .unexpectedArgument ('-' :: Utf8.lossy (letter :: rest))

/-- The value joined to a letter: what follows it in the bundle, without one
equals sign at its front. -/
def joinedValue? : Bytes → Option Bytes
  | [] => none
  | first :: rest => if first = Token.equals then some rest else some (first :: rest)

/-- Reads the letters of a bundle.  A letter that takes a value ends it. -/
def readBundle (program : Text) (reading : Reading) : Bytes → Except Stop Reading
  | [] => .ok reading
  | letter :: rest =>
      match Argument.ofLetter? letter with
      | none => .error (unknownLetter letter rest)
      | some (.valued argument) => reading.beginValued argument (joinedValue? rest)
      | some (.flag flag) =>
          match reading.beginFlag program flag with
          | .error stop => .error stop
          | .ok reading => readBundle program reading rest

def readRoot (reading : Reading) (word : Bytes) : Except Stop Reading :=
  if reading.hasRoot then .error (.unexpectedArgument (Utf8.lossy word))
  else
    match reading.settled with
    | .error stop => .error stop
    | .ok given => .ok ⟨given, some ⟨.root, some word⟩, reading.optionsEnded⟩

/-- Reads a word: the value of the option that waits for one, or else the
root. -/
def readWord (reading : Reading) (word : Bytes) : Except Stop Reading :=
  match reading.held with
  | some ⟨argument, none⟩ => .ok { reading with held := some ⟨argument, some word⟩ }
  | _ => reading.readRoot word

def read (program : Text) (reading : Reading) (element : Bytes) : Except Stop Reading :=
  if reading.optionsEnded then reading.readRoot element
  else
    match Token.ofBytes element with
    | .endOfOptions => .ok { reading with optionsEnded := true }
    | .long name joined => reading.readLong program name joined
    | .bundle letters => reading.readBundle program letters
    | .word word => reading.readWord word

def readAll (program : Text) (reading : Reading) : List Bytes → Except Stop Reading
  | [] => .ok reading
  | element :: rest =>
      match reading.read program element with
      | .error stop => .error stop
      | .ok reading => readAll program reading rest

end Reading

namespace Settings

def programName : Text := "esmfix".toList

/-- The name that the program was called by: the last name of the path, if it is
UTF-8. -/
def calledName (path : Path) : Text :=
  (path.fileName?.bind Utf8.decode?).getD programName

/-- Reads a command line, which begins with how the program was called. -/
def ofCommandLine (elements : List Bytes) : Except Stop Settings :=
  match Reading.start.readAll (calledName (elements.headD [])) elements.tail with
  | .error stop => .error stop
  | .ok reading => reading.settled.map Given.settings

end Settings

end ImportSuffix
