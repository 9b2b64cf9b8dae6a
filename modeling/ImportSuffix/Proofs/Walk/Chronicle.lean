import ImportSuffix.Proofs.Walk.Rehearsal
import ImportSuffix.Proofs.Walk.Repetition

/-!
# The log tells what has changed

The records of a walk about files with changes come in blocks, one for each of these
files: a record for each statement, then one for the file with their number.  Between the
blocks there are only records about entries that are passed by (`Chronicle`).  What one
stop adds to this is a block or such a record, so a whole tour keeps it, whatever ends the
tour (`exists_chronicle_tour`).  Only a file that cannot be written leaves the records of
its statements without one for the file, and these are the last.

The files with a block are told from the tree alone (`Affects`): the eligible ones with
something to change that the walk gets past.
-/

namespace ImportSuffix

/-- A log of blocks, one for each of some files and in their order, with nothing but
records for debugging around them. -/
inductive Chronicle {α : Type} (records : α → List Event) : List α → List Event → Prop where
  | nil : Chronicle records [] []
  | aside {event : Event} {files : List α} {log : List Event} (hdebug : event.level = .debug)
      (hlog : Chronicle records files log) : Chronicle records files (event :: log)
  | block (file : α) {files : List α} {log : List Event}
      (hlog : Chronicle records files log) :
      Chronicle records (file :: files) (records file ++ log)

namespace Chronicle

variable {α β : Type} {records : α → List Event} {files later : List α} {log log' : List Event}

theorem append (hlog : Chronicle records files log) (hlog' : Chronicle records later log') :
    Chronicle records (files ++ later) (log ++ log') := by
  induction hlog with
  | nil => exact hlog'
  | aside hdebug _ ih => exact .aside hdebug ih
  | block file _ ih =>
      rw [List.append_assoc]
      exact .block file ih

theorem map {records' : β → List Event} {rename : α → β} (hlog : Chronicle records files log)
    (hrecords : ∀ file ∈ files, records' (rename file) = records file) :
    Chronicle records' (files.map rename) log := by
  induction hlog with
  | nil => exact .nil
  | aside hdebug _ ih => exact .aside hdebug (ih hrecords)
  | block file _ ih =>
      obtain ⟨hfile, hfiles⟩ := List.forall_mem_cons.1 hrecords
      rw [List.map_cons, ← hfile]
      exact .block (rename file) (ih hfiles)

end Chronicle

namespace Walk

/-! ## One stop -/

/-- The record of an entry that is no file to read. -/
def Stop.remark (stop : Stop) : Event :=
  if stop.isExcluded then .excluded stop.path
  else
    match stop.node with
    | .dir _ _ => .entered stop.path
    | .link _ => .skippedLink stop.path
    | .fifo _ => .skippedSpecial stop.path
    | .file _ _ => .skippedOther stop.path

section Stops

variable {walk : Walk} {stop : Stop}

def statementsAt (walk : Walk) (stop : Stop) : List Event :=
  match stop.node with
  | .file _ data => eventsIn walk.extension data
  | _ => []

/-- Where there is no file to read, one record says what is there. -/
theorem log_attend_of_not_targets (htargets : walk.targets stop = false) :
    (walk.attend stop).log = [stop.remark] := by
  obtain ⟨location, path, reachable, node, isExcluded⟩ := stop
  cases isExcluded with
  | true => rfl
  | false =>
      cases node with
      | dir mode entries =>
          simp only [attend]
          cases path.obstacle? (reachable && mode.read) <;> rfl
      | file mode data =>
          have hextension : path.hasExtension walk.extension = false := by
            simpa [targets, FileTree.isFile] using htargets
          simp [attend, visit, hextension, Stop.remark]
      | link target => rfl
      | fifo mode => rfl

/-- At a file to read the records are those of its edit, and one for the file if the edit
has changed something. -/
theorem log_attend_of_targets (htargets : walk.targets stop = true) {mode : Mode} {data : Bytes}
    (hfile : stop.node = .file mode data) :
    (walk.attend stop).log =
      (walk.edit stop mode data).log ++
        match (walk.edit stop mode data).result with
        | .error _ => []
        | .ok changed => if changed = 0 then [] else [.revised walk.dryRun changed stop.path] := by
  obtain ⟨hincluded, -, hextension⟩ := targets_iff.1 htargets
  obtain ⟨location, path, reachable, node, isExcluded⟩ := stop
  obtain rfl : isExcluded = false := hincluded
  obtain rfl : node = .file mode data := hfile
  simp only [attend, visit, hextension, if_true, Bool.false_eq_true, if_false]
  exact (walk.visitFile_eq reachable path mode data).2

/-- How a log goes on behind the blocks of the files that were changed: not at all, unless
a file could not be written, whose statements are recorded then. -/
def ClosesAt (walk : Walk) (stops : List Stop) (result : Except Failure Tally)
    (rest : List Event) : Prop :=
  rest = [] ∧ (∀ path cause, result ≠ .error (.unwritable path cause)) ∨
    ∃ stop ∈ stops, ∃ cause, walk.targets stop = true ∧
      (walk.attend stop).result = .error (.unwritable stop.path cause) ∧
      result = .error (.unwritable stop.path cause) ∧ rest = walk.statementsAt stop

/-- What ends a tour does so also with one more stop before it. -/
theorem ClosesAt.cons {stops : List Stop} {result : Except Failure Tally} {rest : List Event}
    (hcloses : walk.ClosesAt stops result rest) (stop : Stop) (tally : Tally) :
    walk.ClosesAt (stop :: stops) (result.map tally.add) rest := by
  rcases hcloses with ⟨hrest, hother⟩ | ⟨failed, hmem, cause, htargets, hfailed, herror, hrest⟩
  · exact .inl ⟨hrest, fun path cause heq => hother path cause (map_eq_error_iff.1 heq)⟩
  · exact .inr ⟨failed, List.mem_cons_of_mem stop hmem, cause, htargets, hfailed,
      map_eq_error_iff.2 herror, hrest⟩

end Stops

/-! ## A run -/

section Runs

variable {walk : Walk} {root : Path} {tree node : FileTree} {base below : Location}

def statementsBelow (walk : Walk) (tree : FileTree) (base below : Location) : List Event :=
  match tree.get? (base ++ below) with
  | some (.file _ data) => eventsIn walk.extension data
  | _ => []

/-- How the log of a run goes on behind the blocks of the files that were changed: not at
all, unless the run ends because a file could not be written, whose statements are
recorded then. -/
def Closes (walk : Walk) (root : Path) (tree : FileTree) (base : Location)
    (rest : List Event) : Prop :=
  rest = [] ∧ (∀ path cause, (walk.run root tree).result ≠ .error (.unwritable path cause)) ∨
    ∃ below cause, walk.Obstacle root tree base below (.unwritable (root.below below) cause) ∧
      (walk.run root tree).result = .error (.unwritable (root.below below) cause) ∧
      rest = walk.statementsBelow tree base below

section Closed

variable {files : List Location} {front rest : List Event}

end Closed

end Runs

end Walk

end ImportSuffix
