import ImportSuffix.Program
import Mathlib.Data.List.Basic

/-!
# What the verbosity decides

The verbosity chooses records of the log, and nothing else: how a pass ends, what it prints
and what it leaves is that of the job, which knows no verbosity.  Standard error is the
records that are chosen and then, if the pass failed, the message of the failure, which is
there at every verbosity (`Settings.execute_of_toJob_eq`).

A verbosity chooses a record if it is at least the rank of the record's level
(`Level.admits_ofVerbosity`), so a higher one never hides what a lower one shows.
-/

namespace ImportSuffix

def admitted (verbosity : Nat) (log : List Event) : List Event :=
  log.filter fun event => event.level.rank ≤ verbosity

/-- What standard error ends with after a pass. -/
def ending : Except Failure Tally → String
  | .ok _ => ""
  | .error failure => failure.message ++ "\n"

/-- The ranks of levels count verbosities, up to the highest rank. -/
theorem Level.admits_ofVerbosity (verbosity : Nat) (level : Level) :
    (ofVerbosity verbosity).admits level = decide (level.rank ≤ verbosity) := by
  rw [admits]
  match verbosity with
  | 0 => rfl
  | 1 => rfl
  | 2 => rfl
  | verbosity + 3 =>
      have hrank : level.rank ≤ 3 := by cases level <;> decide
      have htrace : (ofVerbosity (verbosity + 3)).rank = 3 := rfl
      rw [htrace, decide_eq_decide]
      omega

/-- No record is about an error, so the lowest verbosity admits none. -/
theorem admitted_zero (log : List Event) : admitted 0 log = [] := by
  rw [admitted, List.filter_eq_nil_iff]
  intro event _
  have hlevel : event.level.rank ≠ 0 := by
    cases event <;> simp [Event.level, Level.rank]
  simpa using hlevel

/-- A higher verbosity admits all records that a lower one does, and in the same order. -/
theorem admitted_sublist {verbosity verbosity' : Nat} (hle : verbosity ≤ verbosity')
    (log : List Event) : (admitted verbosity log).Sublist (admitted verbosity' log) := by
  apply List.monotone_filter_right
  intro event hadmitted
  simp only [decide_eq_true_eq] at hadmitted ⊢
  exact Nat.le_trans hadmitted hle

theorem formattedLog_ofVerbosity (verbosity : Nat) (log : List Event) :
    formattedLog (.ofVerbosity verbosity) log =
      String.join ((admitted verbosity log).map Event.formatted) := by
  simp only [formattedLog, admitted, Level.admits_ofVerbosity]

namespace Settings

/-- Standard error holds the records that the verbosity admits, and then the message of a
failure. -/
theorem stderr_execute (settings : Settings) (tree : FileTree) :
    (settings.execute tree).1.stderr =
      String.join ((admitted settings.verbosity (settings.toJob.run tree).log).map
        Event.formatted) ++ ending (settings.toJob.run tree).result := by
  rw [← formattedLog_ofVerbosity, execute, report]
  cases (settings.toJob.run tree).result with
  | ok tally => exact (String.append_empty).symm
  | error failure => exact String.append_assoc ..

theorem stdout_execute (settings : Settings) (tree : FileTree) :
    (settings.execute tree).1.stdout = settings.printed (settings.toJob.run tree) := by
  rw [execute, report, Job.printed]
  cases (settings.toJob.run tree).result <;> rfl

/-- The exit code tells whether the pass failed, and only then does standard error end with
a message. -/
theorem exitCode_execute (settings : Settings) (tree : FileTree) :
    (settings.execute tree).1.exitCode = 0 ∧
        (∃ tally, (settings.toJob.run tree).result = .ok tally) ∧
        ending (settings.toJob.run tree).result = "" ∨
      (settings.execute tree).1.exitCode = 1 ∧
        ∃ failure, (settings.toJob.run tree).result = .error failure ∧
          ending (settings.toJob.run tree).result = failure.message ++ "\n" := by
  rw [execute, report]
  cases (settings.toJob.run tree).result with
  | ok tally => exact .inl ⟨rfl, ⟨tally, rfl⟩, rfl⟩
  | error failure => exact .inr ⟨rfl, failure, rfl, rfl⟩

/-- Two settings that differ in nothing but the verbosity make the same pass: it ends with
the same exit code, prints the same and leaves the same tree.  Standard error differs in the
records that the verbosities admit of one log, in front of one ending, which is the message
of the failure if the exit code is 1 and empty otherwise.  The lower verbosity shows some of
the records of the higher one, in their order, and the lowest shows the ending alone. -/
theorem execute_of_toJob_eq {settings settings' : Settings}
    (hjob : settings.toJob = settings'.toJob) (tree : FileTree) :
    (settings.execute tree).1.exitCode = (settings'.execute tree).1.exitCode ∧
      (settings.execute tree).1.stdout = (settings'.execute tree).1.stdout ∧
      (settings.execute tree).2 = (settings'.execute tree).2 ∧
      ∃ log last, log = (settings.toJob.run tree).log ∧
        (settings.execute tree).1.stderr =
          String.join ((admitted settings.verbosity log).map Event.formatted) ++ last ∧
        (settings'.execute tree).1.stderr =
          String.join ((admitted settings'.verbosity log).map Event.formatted) ++ last ∧
        ((settings.execute tree).1.exitCode = 0 ∧
            (∃ tally, (settings.toJob.run tree).result = .ok tally) ∧ last = "" ∨
          (settings.execute tree).1.exitCode = 1 ∧
            ∃ failure, (settings.toJob.run tree).result = .error failure ∧
              last = failure.message ++ "\n") ∧
        (settings.verbosity ≤ settings'.verbosity →
          ((admitted settings.verbosity log).map Event.formatted).Sublist
            ((admitted settings'.verbosity log).map Event.formatted)) ∧
        (settings.verbosity = 0 → (settings.execute tree).1.stderr = last) := by
  have hexit := settings.exitCode_execute tree
  have hstderr := settings.stderr_execute tree
  have hstderr' := settings'.stderr_execute tree
  rw [← hjob] at hstderr'
  refine ⟨?_, ?_, ?_, _, ending (settings.toJob.run tree).result, rfl, hstderr, hstderr', hexit,
    fun hle => (admitted_sublist hle _).map Event.formatted, fun hquiet => ?_⟩
  · simp only [execute, report, hjob]
    cases (settings'.toJob.run tree).result <;> rfl
  · rw [stdout_execute, stdout_execute, hjob]
  · simp only [execute, hjob]
  · rw [hstderr, hquiet, admitted_zero]
    exact String.empty_append

end Settings

/-- A site where `a.js` has a statement to change but must not be written. -/
def sealedSite : FileTree :=
  .dir {}
    [(Utf8.encode "a.js".toList,
        .file { write := false } (Utf8.encode "import a from './a';".toList))]

/-- At the lowest verbosity only the message of the failure is shown, and at a higher one
it follows the records. -/
theorem Settings.execute_of_toJob_eq_sealedSite :
    let quiet : Settings := ⟨⟨Path.here, [], ".js".toList, false⟩, 0⟩
    let loud : Settings := ⟨⟨Path.here, [], ".js".toList, false⟩, 2⟩
    quiet.toJob = loud.toJob ∧ quiet.verbosity ≤ loud.verbosity ∧
      (loud.execute sealedSite).1.exitCode = 1 ∧
      (quiet.execute sealedSite).1.stderr =
        "Cannot write './a.js'. Original error: Permission denied (os error 13)\n" ∧
      (loud.execute sealedSite).1.stderr =
        "[DEBUG esmfix::cli::runner] Scanning '.' for .js files, excluding []\n" ++
          "[DEBUG esmfix::walker] Entering directory: .\n" ++
          (quiet.execute sealedSite).1.stderr := by
  intro quiet loud
  have hfailed : (loud.execute sealedSite).1.exitCode = 1 := by decide +kernel
  have hshown : String.join ((admitted 2 (quiet.toJob.run sealedSite).log).map
      Event.formatted) =
        "[DEBUG esmfix::cli::runner] Scanning '.' for .js files, excluding []\n" ++
          "[DEBUG esmfix::walker] Entering directory: .\n" := by decide +kernel
  have hmessage : (quiet.execute sealedSite).1.stderr =
      "Cannot write './a.js'. Original error: Permission denied (os error 13)\n" := by
    decide +kernel
  have hjob : quiet.toJob = loud.toJob := rfl
  obtain ⟨-, -, -, log, last, rfl, -, hloud, -, -, hquiet⟩ :=
    Settings.execute_of_toJob_eq hjob sealedSite
  have hadmitted : loud.verbosity = 2 := rfl
  rw [hadmitted, hshown, ← hquiet rfl] at hloud
  exact ⟨hjob, Nat.zero_le 2, hfailed, hmessage, hloud⟩

end ImportSuffix
