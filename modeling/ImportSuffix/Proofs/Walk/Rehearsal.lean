import ImportSuffix.Job
import ImportSuffix.Proofs.Walk.FirstObstacle
import Mathlib.Data.List.Infix

/-!
# A dry run predicts the real one

A rehearsal is the same walk on a dry run.  It comes to the same stops as the walk, reads
the same files and records the same, so the two go together until the walk cannot write a
file; only there can they part (`tour_foretells`).  No write has a part in what is listed
or read later, since the stops are settled beforehand and each file is read once.

The records of the two are compared without the mark of the dry run, which is how the
messages of its counts begin (`Event.message_eq_mark_append`).
-/

namespace ImportSuffix

namespace Event

/-- The record as it is when it is of no dry run. -/
def unmarked : Event → Event
  | .revised _ count path => .revised false count path
  | event => event

/-- What the message of a record begins with when it is of a dry run. -/
def mark : Event → String
  | .revised dryRun _ _ => dryRunMark dryRun
  | _ => ""

theorem message_revised (dryRun : Bool) (count : Nat) (path : Path) :
    (Event.revised dryRun count path).message =
      dryRunMark dryRun ++ "Rewrote " ++ count.repr ++ " import(s) in '" ++ path.shown ++ "'" :=
  rfl

/-- Without its mark a record of a dry run is that of a real one. -/
theorem message_eq_mark_append (event : Event) :
    event.message = event.mark ++ event.unmarked.message ∧
      event.level = event.unmarked.level ∧ event.target = event.unmarked.target := by
  have hunmarked : dryRunMark false = "" := rfl
  cases event with
  | revised dryRun count path =>
      refine ⟨?_, rfl, rfl⟩
      simp only [mark, unmarked, message_revised, hunmarked, String.empty_append,
        String.append_assoc]
  | scanning root extension exclude => exact ⟨String.empty_append.symm, rfl, rfl⟩
  | excluded path => exact ⟨String.empty_append.symm, rfl, rfl⟩
  | entered path => exact ⟨String.empty_append.symm, rfl, rfl⟩
  | skippedLink path => exact ⟨String.empty_append.symm, rfl, rfl⟩
  | skippedSpecial path => exact ⟨String.empty_append.symm, rfl, rfl⟩
  | skippedOther path => exact ⟨String.empty_append.symm, rfl, rfl⟩
  | extended specifier extension => exact ⟨String.empty_append.symm, rfl, rfl⟩

end Event

theorem map_unmarked_events (extension : Text) (revision : Revision) :
    (revision.events extension).map Event.unmarked = revision.events extension := by
  rw [Revision.events, List.map_map]
  rfl

/-- What a dry run tells of the real one: they come to the same, but for the marks in the
log, or the real one ends because a file cannot be written, and till then it has recorded
the same. -/
inductive Foretells {σ τ α : Type} (dry : Outcome σ α) (real : Outcome τ α) : Prop where
  | agree (hresult : real.result = dry.result) (hlog : real.log = dry.log.map Event.unmarked)
  | unwritable {path : Path} {cause : AccessError}
      (hresult : real.result = .error (.unwritable path cause))
      (hlog : real.log <+: dry.log.map Event.unmarked)

/-- The edit as it is done on a dry run. -/
def Edit.rehearsal (edit : Edit) : Edit := { edit with dryRun := true }

def Walk.rehearsal (walk : Walk) : Walk := { walk with toEdit := walk.toEdit.rehearsal }

def Job.rehearsal (job : Job) : Job := { job with dryRun := true }

theorem Edit.applyToData_foretells {edit : Edit} (hreal : edit.dryRun = false) (path : Path)
    (readable writable : Bool) (data : Bytes) :
    Foretells (edit.rehearsal.applyToData path readable writable data)
      (edit.applyToData path readable writable data) := by
  simp only [applyToData, rehearsal, hreal, Bool.not_true, Bool.and_false, Bool.not_false,
    Bool.and_true]
  cases path.obstacle? readable with
  | some cause => exact .agree rfl rfl
  | none =>
      cases Utf8.decode? data with
      | none => exact .agree rfl rfl
      | some text =>
          have hlog := map_unmarked_events edit.extension (revise edit.extension text)
          dsimp only
          cases (revise edit.extension text).isChanged with
          | false => exact .agree rfl hlog.symm
          | true =>
              cases path.obstacle? writable with
              | none => exact .agree rfl hlog.symm
              | some cause => exact .unwritable rfl ⟨[], (List.append_nil _).trans hlog.symm⟩

namespace Walk

variable {walk : Walk}

/-! ## Stops -/

theorem visitFile_foretells (hreal : walk.dryRun = false) (reachable : Bool) (path : Path)
    (mode : Mode) (data : Bytes) :
    Foretells (walk.rehearsal.visitFile reachable path mode data)
      (walk.visitFile reachable path mode data) := by
  obtain ⟨hdryResult, hdryLog⟩ := walk.rehearsal.visitFile_eq reachable path mode data
  obtain ⟨hrealResult, hrealLog⟩ := walk.visitFile_eq reachable path mode data
  have hedit : Foretells
      (walk.rehearsal.applyToData path (reachable && mode.read) (reachable && mode.write) data)
      (walk.applyToData path (reachable && mode.read) (reachable && mode.write) data) :=
    Edit.applyToData_foretells hreal _ _ _ _
  cases hedit with
  | agree hresult hlog =>
      refine .agree (by rw [hrealResult, hdryResult, hresult]) ?_
      rw [hrealLog, hdryLog, List.map_append, hresult, hlog, hreal]
      congr 1
      split
      next => rfl
      next changed _ => by_cases hnone : changed = 0 <;> simp [hnone, Event.unmarked]
  | unwritable hresult hlog =>
      refine .unwritable (by rw [hrealResult, hresult]; rfl) ?_
      rw [hrealLog, hdryLog, List.map_append, hresult, List.append_nil]
      exact hlog.trans (List.prefix_append _ _)

theorem attend_foretells (hreal : walk.dryRun = false) (stop : Stop) :
    Foretells (walk.rehearsal.attend stop) (walk.attend stop) := by
  obtain ⟨location, path, reachable, node, isExcluded⟩ := stop
  cases isExcluded with
  | true => exact .agree rfl rfl
  | false =>
      cases node with
      | dir mode entries =>
          simp only [attend]
          cases path.obstacle? (reachable && mode.read) <;> exact .agree rfl rfl
      | file mode data =>
          have hextension : walk.rehearsal.extension = walk.extension := rfl
          simp only [attend, visit, hextension]
          cases path.hasExtension walk.extension with
          | true => exact visitFile_foretells hreal reachable path mode data
          | false => exact .agree rfl rfl
      | link target => exact .agree rfl rfl
      | fifo mode => exact .agree rfl rfl

mutual

/-- Where a walk comes does not depend on what it does there. -/
theorem itinerary_rehearsal (walk : Walk) (reachable : Bool) (path : Path) (node : FileTree) :
    walk.rehearsal.itinerary reachable path node = walk.itinerary reachable path node := by
  cases node with
  | dir mode entries => rw [itinerary, itinerary, entriesItinerary_rehearsal]
  | file mode data => rfl
  | link target => rfl
  | fifo mode => rfl

theorem entriesItinerary_rehearsal (walk : Walk) (reachable : Bool) (directory : Path)
    (entries : List (FileName × FileTree)) :
    walk.rehearsal.entriesItinerary reachable directory entries =
      walk.entriesItinerary reachable directory entries := by
  match entries with
  | [] => rfl
  | (name, node) :: rest =>
      have hexcludes : walk.rehearsal.excludes name = walk.excludes name := rfl
      rw [entriesItinerary, entriesItinerary, itinerary_rehearsal walk, hexcludes,
        entriesItinerary_rehearsal walk]

end

/-! ## Tours -/

/-- A tour records at least what it does at its first stop. -/
theorem log_attend_isPrefix (walk : Walk) (stop : Stop) (rest : List Stop) :
    (walk.attend stop).log <+: (walk.tour (stop :: rest)).log := by
  cases hattend : (walk.attend stop).result with
  | error failure => rw [tour_cons_of_error hattend]
  | ok tally =>
      rw [tour_cons_of_ok hattend]
      exact List.prefix_append _ _

/-- At every stop the two do the same or the real one ends, and so they do on a whole
tour. -/
theorem tour_foretells (hreal : walk.dryRun = false) (stops : List Stop) :
    Foretells (walk.rehearsal.tour stops) (walk.tour stops) := by
  induction stops with
  | nil => exact .agree rfl rfl
  | cons stop rest ih =>
      cases walk.attend_foretells hreal stop with
      | agree hresult hlog =>
          cases hdry : (walk.rehearsal.attend stop).result with
          | error failure =>
              rw [tour_cons_of_error hdry, tour_cons_of_error (hresult.trans hdry)]
              exact .agree rfl hlog
          | ok tally =>
              rw [tour_cons_of_ok hdry, tour_cons_of_ok (hresult.trans hdry)]
              cases ih with
              | agree hresult' hlog' =>
                  exact .agree (by rw [hresult']) (by rw [hlog, hlog', List.map_append])
              | unwritable hresult' hlog' =>
                  refine .unwritable (map_eq_error_iff.2 hresult') ?_
                  rw [hlog, List.map_append]
                  exact (List.prefix_append_right_inj _).2 hlog'
      | unwritable hresult hlog =>
          rw [tour_cons_of_error hresult]
          refine .unwritable rfl (hlog.trans ?_)
          exact (walk.rehearsal.log_attend_isPrefix stop rest).map Event.unmarked

/-! ## Runs -/

section Runs

variable {root : Path} {tree node : FileTree} {base below : Location}

theorem run_foretells (hwf : tree.WellFormed) (hreal : walk.dryRun = false) (root : Path) :
    Foretells (walk.rehearsal.run root tree) (walk.run root tree) := by
  by_cases hrooted : ∃ base node, RootedAt tree root base node
  · obtain ⟨base, node, hrooted⟩ := hrooted
    have htour := walk.tour_foretells hreal (walk.itinerary true root node)
    have hhead : (rootRecord tree root).unmarked = rootRecord tree root := by
      rw [rootRecord]
      split <;> rfl
    have hdry := walk.rehearsal.log_run hrooted
    have hdryResult := (walk.rehearsal.run_eq hrooted).1
    rw [itinerary_rehearsal] at hdry hdryResult
    cases htour with
    | agree hresult hlog =>
        refine .agree ?_ ?_
        · rw [(run_eq hrooted).1, hresult, hdryResult]
        · rw [log_run hrooted, hdry, hlog, List.map_cons, List.map_tail, hhead]
    | unwritable hresult hlog =>
        refine .unwritable ((run_eq hrooted).1.trans hresult) ?_
        rw [log_run hrooted, hdry, List.map_cons, List.map_tail, hhead, ← List.drop_one,
          ← List.drop_one]
        exact (List.prefix_cons_inj _).2 (hlog.drop 1)
  · obtain ⟨failure, -, hrun⟩ := exists_run_eq_of_not_rooted hwf hrooted
    rw [hrun, hrun]
    exact .agree rfl rfl

theorem after_run_of_dryRun (hwf : tree.WellFormed) (hdry : walk.dryRun = true)
    (root : Path) : (walk.run root tree).after = tree := by
  by_cases hrooted : ∃ base node, RootedAt tree root base node
  · obtain ⟨base, node, hrooted⟩ := hrooted
    have hnone : FileTree.changeBelow base
        (walk.revisedAt (walk.tour (walk.itinerary true root node)).after) =
          fun _ data => data := by
      funext location data
      simp [FileTree.changeBelow, revisedAt, hdry]
    rw [(run_eq hrooted).2, hnone, FileTree.mapData_id]
  · exact (walk.run_of_not_rooted hwf hrooted).1

theorem Eligible.of_rehearsal (heligible : walk.rehearsal.Eligible tree base below) :
    walk.Eligible tree base below :=
  ⟨heligible.isFile, heligible.included, heligible.hasExtension⟩

theorem Eligible.rehearsal (heligible : walk.Eligible tree base below) :
    walk.rehearsal.Eligible tree base below :=
  ⟨heligible.isFile, heligible.included, heligible.hasExtension⟩

/-- What stands in the way of a rehearsal stands in the way of the walk, and it is never
that a file cannot be written. -/
theorem Obstacle.of_rehearsal {failure : Failure}
    (hobstacle : walk.rehearsal.Obstacle root tree base below failure) :
    walk.Obstacle root tree base below failure ∧
      ∀ path cause, failure ≠ .unwritable path cause := by
  cases hobstacle with
  | unlistable hdir hincluded hcause => exact ⟨.unlistable hdir hincluded hcause, nofun⟩
  | unreadable heligible hcause => exact ⟨.unreadable heligible.of_rehearsal hcause, nofun⟩
  | undecodable heligible hfile hreadable hdecode =>
      exact ⟨.undecodable heligible.of_rehearsal hfile hreadable hdecode, nofun⟩
  | unwritable hreal => contradiction

/-- What stands in the way of a walk stands in the way of its rehearsal, unless a file cannot
be written. -/
theorem Obstacle.rehearsal {failure : Failure}
    (hobstacle : walk.Obstacle root tree base below failure)
    (hother : ∀ path cause, failure ≠ .unwritable path cause) :
    walk.rehearsal.Obstacle root tree base below failure := by
  cases hobstacle with
  | unlistable hdir hincluded hcause => exact .unlistable hdir hincluded hcause
  | unreadable heligible hcause => exact .unreadable heligible.rehearsal hcause
  | undecodable heligible hfile hreadable hdecode =>
      exact .undecodable heligible.rehearsal hfile hreadable hdecode
  | unwritable => exact absurd rfl (hother _ _)

/-- A rehearsal comes at least as far as the walk. -/
theorem Passes.rehearsal (hpasses : walk.Passes root tree base below) :
    walk.rehearsal.Passes root tree base below :=
  fun first failure hobstacle => hpasses first failure hobstacle.of_rehearsal.1

/-- The walk comes as far as its rehearsal, unless it ends because a file cannot be
written. -/
theorem Passes.of_rehearsal (hrooted : RootedAt tree root base node)
    (hother : ∀ path cause, (walk.run root tree).result ≠ .error (.unwritable path cause))
    (hpasses : walk.rehearsal.Passes root tree base below) :
    walk.Passes root tree base below := by
  intro first failure hobstacle
  cases hresult : (walk.run root tree).result with
  | ok tally => exact absurd hobstacle (not_obstacle_of_ok hrooted hresult first failure)
  | error failure' =>
      obtain ⟨least, hleast, hall, -⟩ := exists_first_of_error hrooted hresult
      rw [hresult] at hother
      have hless := hpasses least failure'
        (hleast.rehearsal fun path cause heq => hother path cause (congrArg Except.error heq))
      rcases hall first failure hobstacle with hbehind | ⟨rfl, -⟩
      · exact List.lt_trans hless hbehind
      · exact hless

/-- Two failures of which the first is met earlier in a walk. -/
def Precedes (walk : Walk) (root : Path) (tree : FileTree) (earlier later : Failure) : Prop :=
  ∃ base first second, tree.locate true root = .ok base ∧
    walk.Obstacle root tree base first earlier ∧
    walk.Obstacle root tree base second later ∧ first < second

end Runs

end Walk

/-- What a dry run in a tree predicts of the real one, and what the real one says of it
afterwards. -/
structure Predicts (precedes : Failure → Failure → Prop) (tree : FileTree)
    (dry real : Outcome FileTree Tally) : Prop where
  /-- The dry run changes nothing. -/
  after_eq : dry.after = tree
  of_ok : ∀ tally, real.result = .ok tally →
    dry.result = .ok tally ∧ dry.log.map Event.unmarked = real.log
  of_error : ∀ failure, real.result = .error failure →
    (∀ path cause, failure ≠ .unwritable path cause) →
      dry.result = .error failure ∧ dry.log.map Event.unmarked = real.log
  of_unwritable : ∀ path cause, real.result = .error (.unwritable path cause) →
    real.log <+: dry.log.map Event.unmarked
  ok_only : ∀ tally, dry.result = .ok tally →
    real.result = .ok tally ∨ ∃ path cause, real.result = .error (.unwritable path cause)
  error_only : ∀ failure, dry.result = .error failure →
    real.result = .error failure ∨
      ∃ path cause, real.result = .error (.unwritable path cause) ∧
        precedes (.unwritable path cause) failure

namespace Predicts

variable {precedes : Failure → Failure → Prop} {tree : FileTree}
  {dry real : Outcome FileTree Tally}

/-- A dry run that foretells the real one and changes nothing predicts it, if a write that
fails comes before whatever ends the dry run. -/
theorem of_foretells (hforetells : Foretells dry real) (hafter : dry.after = tree)
    (hprecedes : ∀ path cause failure, real.result = .error (.unwritable path cause) →
      dry.result = .error failure → precedes (.unwritable path cause) failure) :
    Predicts precedes tree dry real := by
  cases hforetells with
  | agree hresult hlog =>
      refine ⟨hafter, ?_, ?_, ?_, ?_, ?_⟩
      · exact fun tally hok => ⟨hresult.symm.trans hok, hlog.symm⟩
      · exact fun failure herror _ => ⟨hresult.symm.trans herror, hlog.symm⟩
      · exact fun path cause _ => hlog ▸ List.prefix_refl _
      · exact fun tally hok => .inl (hresult.trans hok)
      · exact fun failure herror => .inl (hresult.trans herror)
  | unwritable hresult hlog =>
      refine ⟨hafter, ?_, ?_, fun _ _ _ => hlog, ?_, ?_⟩
      · intro tally hok
        rw [hresult] at hok
        contradiction
      · intro failure herror hother
        obtain rfl := Except.error.inj (hresult.symm.trans herror)
        exact absurd rfl (hother _ _)
      · exact fun tally _ => .inr ⟨_, _, hresult⟩
      · exact fun failure herror =>
          .inr ⟨_, _, hresult, hprecedes _ _ failure hresult herror⟩

/-- A record without a mark that both begin with does not matter. -/
theorem cons (hpredicts : Predicts precedes tree dry real) {event : Event}
    (hunmarked : event.unmarked = event) :
    Predicts precedes tree { dry with log := event :: dry.log }
      { real with log := event :: real.log } where
  after_eq := hpredicts.after_eq
  of_ok tally hok := by
    obtain ⟨hdry, hlog⟩ := hpredicts.of_ok tally hok
    exact ⟨hdry, by rw [List.map_cons, hunmarked, hlog]⟩
  of_error failure herror hother := by
    obtain ⟨hdry, hlog⟩ := hpredicts.of_error failure herror hother
    exact ⟨hdry, by rw [List.map_cons, hunmarked, hlog]⟩
  of_unwritable path cause herror := by
    rw [List.map_cons, hunmarked]
    exact (List.prefix_cons_inj event).2 (hpredicts.of_unwritable path cause herror)
  ok_only := hpredicts.ok_only
  error_only := hpredicts.error_only

theorem mono {precedes' : Failure → Failure → Prop}
    (hpredicts : Predicts precedes tree dry real)
    (hmono : ∀ earlier later, precedes earlier later → precedes' earlier later) :
    Predicts precedes' tree dry real where
  after_eq := hpredicts.after_eq
  of_ok := hpredicts.of_ok
  of_error := hpredicts.of_error
  of_unwritable := hpredicts.of_unwritable
  ok_only := hpredicts.ok_only
  error_only failure herror := by
    rcases hpredicts.error_only failure herror with hreal | ⟨path, cause, hreal, hprecedes⟩
    · exact .inl hreal
    · exact .inr ⟨path, cause, hreal, hmono _ _ hprecedes⟩

end Predicts

theorem Walk.rehearsal_predicts {walk : Walk} {tree : FileTree} (hwf : tree.WellFormed)
    (hreal : walk.dryRun = false) (root : Path) :
    Predicts (walk.Precedes root tree) tree (walk.rehearsal.run root tree)
      (walk.run root tree) := by
  apply Predicts.of_foretells
  · exact run_foretells hwf hreal root
  · exact after_run_of_dryRun hwf rfl root
  · intro path cause failure herror hdry
    by_cases hrooted : ∃ base node, RootedAt tree root base node
    · obtain ⟨base, node, hrooted⟩ := hrooted
      obtain ⟨first, hfirst, hleast, -⟩ := exists_first_of_error hrooted herror
      obtain ⟨second, hsecond, -⟩ := exists_first_of_error hrooted hdry
      obtain ⟨hsecond, hother⟩ := hsecond.of_rehearsal
      refine ⟨base, first, second, hrooted.locate_eq, hfirst, hsecond, ?_⟩
      rcases hleast second failure hsecond with hless | ⟨-, rfl⟩
      · exact hless
      · exact absurd rfl (hother path cause)
    · obtain ⟨failure', hother, hrun⟩ := exists_run_eq_of_not_rooted hwf hrooted
      rw [hrun] at herror
      exact absurd (Except.error.inj herror) (hother path cause)

/-! ## Jobs -/

namespace Job

/-- A job whose extension is accepted is a walk, and records first what it is about. -/
theorem run_eq_of_normalize? {job : Job} {extension : Text}
    (hextension : Extension.normalize? job.extension = some extension) (tree : FileTree) :
    job.run tree =
      { (job.walk extension).run job.root tree with
        log := .scanning job.root extension job.exclude ::
          ((job.walk extension).run job.root tree).log } := by
  simp only [run, runFrom, hextension, Walk.run, Outcome.within]
  cases ((job.walk extension).runFrom job.root (tree.rootAt job.root)).after <;> rfl

theorem run_eq_of_not_normalize? {job : Job}
    (hextension : Extension.normalize? job.extension = none) (tree : FileTree) :
    job.run tree = ⟨tree, [], .error (.invalidExtension job.extension)⟩ := by
  simp only [run, runFrom, hextension, Outcome.within]

/-- One failure is met earlier than another in the walk of a job. -/
def Precedes (job : Job) (tree : FileTree) (earlier later : Failure) : Prop :=
  ∃ extension, Extension.normalize? job.extension = some extension ∧
    (job.walk extension).Precedes job.root tree earlier later

theorem rehearsal_predicts {job : Job} {tree : FileTree} (hwf : tree.WellFormed)
    (hreal : job.dryRun = false) :
    Predicts (job.Precedes tree) tree (job.rehearsal.run tree) (job.run tree) := by
  cases hextension : Extension.normalize? job.extension with
  | none =>
      have hextension' : Extension.normalize? job.rehearsal.extension = none := hextension
      rw [run_eq_of_not_normalize? hextension, run_eq_of_not_normalize? hextension']
      exact .of_foretells (.agree rfl rfl) rfl nofun
  | some extension =>
      have hextension' : Extension.normalize? job.rehearsal.extension = some extension :=
        hextension
      rw [run_eq_of_normalize? hextension, run_eq_of_normalize? hextension']
      have hwalk : Predicts ((job.walk extension).Precedes job.root tree) tree
          ((job.walk extension).rehearsal.run job.root tree)
          ((job.walk extension).run job.root tree) := Walk.rehearsal_predicts hwf hreal job.root
      apply Predicts.cons _ rfl
      apply hwalk.mono
      exact fun earlier later hprecedes => ⟨extension, hextension, hprecedes⟩

/-- If both passes succeed, the summary of the dry run is the real one with the mark. -/
theorem printed_rehearsal_of_ok {job : Job} (hreal : job.dryRun = false) {tree : FileTree}
    {tally : Tally} (hok : (job.run tree).result = .ok tally)
    (hdry : (job.rehearsal.run tree).result = .ok tally) :
    job.rehearsal.printed (job.rehearsal.run tree) =
      dryRunMark true ++ job.printed (job.run tree) := by
  have hunmarked : dryRunMark false = "" := rfl
  have hroot : job.rehearsal.root = job.root := rfl
  have hmarked : job.rehearsal.dryRun = true := rfl
  simp only [printed, hok, hdry, summary, hroot, hmarked, hreal, hunmarked,
    String.empty_append, String.append_assoc]

theorem printed_of_error (job : Job) {outcome : Outcome FileTree Tally} {failure : Failure}
    (herror : outcome.result = .error failure) : job.printed outcome = "" := by
  simp only [printed, herror]

end Job

/-- A dry run predicts the real one, for every walk and every job.  It changes nothing; it
has the result and, but for the marks, the log of the real one, unless that cannot write a
file, and then the real one has recorded a part of the same and failed before whatever
ends the dry run.  What a job prints differs by the mark alone, and so does a record from
what is compared of it. -/
theorem rehearsal_predicts_run (tree : FileTree) (hwf : tree.WellFormed) :
    (∀ (walk : Walk) (root : Path), walk.dryRun = false →
      Predicts (walk.Precedes root tree) tree (walk.rehearsal.run root tree)
        (walk.run root tree)) ∧
      (∀ job : Job, job.dryRun = false →
        Predicts (job.Precedes tree) tree (job.rehearsal.run tree) (job.run tree) ∧
          (∀ tally, (job.run tree).result = .ok tally →
            job.rehearsal.printed (job.rehearsal.run tree) =
              dryRunMark true ++ job.printed (job.run tree)) ∧
          ∀ failure, (job.rehearsal.run tree).result = .error failure →
            job.rehearsal.printed (job.rehearsal.run tree) = "" ∧
              job.printed (job.run tree) = "") ∧
      ∀ event : Event, event.message = event.mark ++ event.unmarked.message ∧
        event.level = event.unmarked.level ∧ event.target = event.unmarked.target := by
  refine ⟨fun walk root hreal => Walk.rehearsal_predicts hwf hreal root, fun job hreal => ?_,
    Event.message_eq_mark_append⟩
  have hpredicts := Job.rehearsal_predicts hwf hreal
  refine ⟨hpredicts, fun tally hok => ?_, fun failure herror => ⟨?_, ?_⟩⟩
  · exact job.printed_rehearsal_of_ok hreal hok (hpredicts.of_ok tally hok).1
  · exact job.rehearsal.printed_of_error herror
  · rcases hpredicts.error_only failure herror with hsame | ⟨path, cause, hunwritable, -⟩
    · exact job.printed_of_error hsame
    · exact job.printed_of_error hunwritable

/-- A site where `a.js` has a statement to change but must not be written, and `b.js` is
not UTF-8. -/
def lockedSite : FileTree :=
  .dir {}
    [(Utf8.encode "a.js".toList,
        .file { write := false } (Utf8.encode "import a from './a';".toList)),
      (Utf8.encode "b.js".toList, .file {} [0xff])]

/-- The dry run goes past `a.js`, where the real one ends, and ends at `b.js`. -/
theorem rehearsal_predicts_run_lockedSite :
    lockedSite.WellFormed ∧
      ∃ path cause failure,
        (Job.run ⟨Path.here, [], ".js".toList, true⟩ lockedSite).result = .error failure ∧
        (Job.run ⟨Path.here, [], ".js".toList, false⟩ lockedSite).result =
          .error (.unwritable path cause) ∧
        Job.Precedes ⟨Path.here, [], ".js".toList, false⟩ lockedSite (.unwritable path cause)
          failure := by
  have hwf : lockedSite.WellFormed := by decide +kernel
  have hdry : (Job.run ⟨Path.here, [], ".js".toList, true⟩ lockedSite).result =
      .error (.unreadable (Utf8.encode "./b.js".toList) .notUtf8) := by decide +kernel
  have hreal : (Job.run ⟨Path.here, [], ".js".toList, false⟩ lockedSite).result ≠
      .error (.unreadable (Utf8.encode "./b.js".toList) .notUtf8) := by decide +kernel
  have hpredicts := ((rehearsal_predicts_run lockedSite hwf).2.1
    ⟨Path.here, [], ".js".toList, false⟩ rfl).1
  obtain ⟨path, cause, hunwritable, hprecedes⟩ :=
    (hpredicts.error_only _ hdry).resolve_left hreal
  exact ⟨hwf, path, cause, _, hdry, hunwritable, hprecedes⟩

end ImportSuffix
