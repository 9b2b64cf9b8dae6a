import ImportSuffix.CommandLine.Reading
import ImportSuffix.Text.ControlSequence

/-!
# The program

A run of the program reads its command line and carries out the job.  It ends
with an exit code and with what it wrote: the summary, or the text that was asked
for, on standard output, and on standard error the records that the verbosity
admits, followed by the message of a failure.
-/

namespace ImportSuffix

structure Report where
  exitCode : Nat
  stdout : String
  stderr : String
deriving DecidableEq, Repr

/-- The further lines of a message are indented. -/
def indented (message : String) : String :=
  String.ofList (message.toList.flatMap fun c =>
    if c = '\n' then ['\n', ' ', ' ', ' ', ' '] else [c])

/-- A record as it is written: the level, padded to five characters, and the target
between brackets, and then the message. -/
def Event.written (event : Event) : String :=
  "[" ++ String.ofList (event.level.label.toList.rightpad 5 ' ') ++ " " ++ event.target ++ "] " ++
    indented event.message ++ "\n"

/-- A record as standard error shows it: without control sequences, none of which
goes on from one record to the next. -/
def Event.formatted (event : Event) : String :=
  String.ofList (ControlSequence.strip true event.written.toList)

def formattedLog (limit : Level) (log : List Event) : String :=
  String.join ((log.filter fun event => limit.admits event.level).map Event.formatted)

def Stop.report (stop : Stop) : Report :=
  if stop.isError then ⟨stop.exitCode, "", stop.written true⟩
  else ⟨stop.exitCode, stop.written true, ""⟩

namespace Settings

def level (settings : Settings) : Level :=
  .ofVerbosity settings.verbosity

def report (settings : Settings) {σ : Type} (outcome : Outcome σ Tally) : Report :=
  let logged := formattedLog settings.level outcome.log
  match outcome.result with
  | .ok tally => ⟨0, settings.summary tally, logged⟩
  | .error failure => ⟨1, "", logged ++ failure.message ++ "\n"⟩

/-- Runs the program with its settings in a tree: how it ends, and what it
leaves. -/
def execute (settings : Settings) (tree : FileTree) : Report × FileTree :=
  let outcome := settings.toJob.run tree
  (settings.report outcome, outcome.after)

end Settings

/-- Runs the program in a tree; its command line begins with how it was
called. -/
def runProgram (elements : List Bytes) (tree : FileTree) : Report × FileTree :=
  match Settings.ofCommandLine elements with
  | .error stop => (stop.report, tree)
  | .ok settings => settings.execute tree

end ImportSuffix
