import ImportSuffix.Proofs.Edit
import ImportSuffix.Walk
import Mathlib.Algebra.Ring.Nat

/-!
# Tours

A stop is a place that a walk comes to, together with all that decides what the walk
does there.  A tour attends stops in turn until one of them fails.  It succeeds when
every stop does, and then it has counted each file once (`tally_of_ok`); otherwise the
first stop that fails ends it (`exists_of_tour_error`).
-/

namespace ImportSuffix

namespace FileTree

def isFile : FileTree → Bool
  | .file _ _ => true
  | _ => false

theorem isFile_iff {node : FileTree} :
    node.isFile = true ↔ ∃ mode data, node = .file mode data := by
  cases node <;> simp [isFile]

end FileTree

theorem map_eq_error_iff {α β : Type} {change : α → β} {result : Except Failure α}
    {failure : Failure} : result.map change = .error failure ↔ result = .error failure := by
  cases result <;> simp [Except.map]

theorem map_eq_ok_iff {α β : Type} {change : α → β} {result : Except Failure α} {value : β} :
    result.map change = .ok value ↔ ∃ inner, result = .ok inner ∧ change inner = value := by
  cases result <;> simp [Except.map]

namespace Tally

@[simp]
theorem zero_add (tally : Tally) : zero.add tally = tally := by
  simp [add, zero]

@[simp]
theorem add_zero (tally : Tally) : tally.add zero = tally := rfl

theorem add_assoc (first second third : Tally) :
    (first.add second).add third = first.add (second.add third) := by
  simp [add, Nat.add_assoc]

@[simp]
theorem map_zero_add (result : Except Failure Tally) : result.map zero.add = result := by
  cases result with
  | error failure => rfl
  | ok tally => simp [Except.map]

end Tally

namespace Walk

/-- A place that a walk comes to: the names that lead there from the root, the path as
it is shown, whether all directories above can be searched, what is there, and whether
it is left out because of its name. -/
structure Stop where
  location : Location
  path : Path
  reachable : Bool
  node : FileTree
  isExcluded : Bool

namespace Stop

/-- The stop as it is called from the directory above. -/
def under (name : FileName) (stop : Stop) : Stop :=
  { stop with location := name :: stop.location }

end Stop

/-- Whether a stop is at a file that the walk has to read. -/
def targets (walk : Walk) (stop : Stop) : Bool :=
  !stop.isExcluded && stop.node.isFile && stop.path.hasExtension walk.extension

/-- Whether a walk opens what is at a stop, to list it or to read it. -/
def opens (walk : Walk) (stop : Stop) : Bool :=
  !stop.isExcluded && (stop.node.isDir || walk.targets stop)

/-- What a walk does at one stop, where a directory is only listed. -/
def attend (walk : Walk) (stop : Stop) : Outcome FileTree Tally :=
  if stop.isExcluded then ⟨stop.node, [.excluded stop.path], .ok .zero⟩
  else
    match stop.node with
    | .dir mode entries =>
        match stop.path.obstacle? (stop.reachable && mode.read) with
        | some cause =>
            ⟨.dir mode entries, [.entered stop.path], .error (.unlistable stop.path cause)⟩
        | none => ⟨.dir mode entries, [.entered stop.path], .ok .zero⟩
    | node => walk.visit stop.reachable stop.path node

/-- Attends stops in turn, until one fails.  The state after it is the list of those
that did not. -/
def tour (walk : Walk) : List Stop → Outcome (List Stop) Tally
  | [] => ⟨[], [], .ok .zero⟩
  | stop :: rest =>
      match (walk.attend stop).result with
      | .error failure => ⟨[], (walk.attend stop).log, .error failure⟩
      | .ok tally =>
          { after := stop :: (tour walk rest).after
            log := (walk.attend stop).log ++ (tour walk rest).log
            result := (tour walk rest).result.map tally.add }

section Tour

variable {walk : Walk} {stop : Stop}

theorem tour_cons_of_error {failure : Failure}
    (herror : (walk.attend stop).result = .error failure) (rest : List Stop) :
    walk.tour (stop :: rest) = ⟨[], (walk.attend stop).log, .error failure⟩ := by
  rw [tour, herror]

theorem tour_cons_of_ok {tally : Tally} (hok : (walk.attend stop).result = .ok tally)
    (rest : List Stop) :
    walk.tour (stop :: rest) =
      { after := stop :: (walk.tour rest).after
        log := (walk.attend stop).log ++ (walk.tour rest).log
        result := (walk.tour rest).result.map tally.add } := by
  rw [tour, hok]

end Tour

/-- A tour goes on where its first part ends, unless that part fails. -/
theorem tour_append (walk : Walk) (first later : List Stop) :
    walk.tour (first ++ later) =
      match (walk.tour first).result with
      | .error failure => ⟨(walk.tour first).after, (walk.tour first).log, .error failure⟩
      | .ok tally =>
          { after := (walk.tour first).after ++ (walk.tour later).after
            log := (walk.tour first).log ++ (walk.tour later).log
            result := (walk.tour later).result.map tally.add } := by
  induction first with
  | nil =>
      cases hresult : (walk.tour later).result <;> simp [tour, Except.map, ← hresult]
  | cons stop rest ih =>
      rw [List.cons_append, tour, tour, ih]
      cases (walk.attend stop).result with
      | error failure => rfl
      | ok tally =>
          cases (walk.tour rest).result with
          | error failure => rfl
          | ok tally' =>
              cases (walk.tour later).result <;> simp [Except.map, Tally.add_assoc]

/-- What stands behind a part that fails does not matter. -/
theorem tour_append_of_error {walk : Walk} {first : List Stop} {failure : Failure}
    (herror : (walk.tour first).result = .error failure) (later : List Stop) :
    walk.tour (first ++ later) = walk.tour first := by
  rw [tour_append, herror]
  exact congrArg (Outcome.mk _ _) herror.symm

/-- From where a stop is called does not matter. -/
@[simp]
theorem attend_under (walk : Walk) (name : FileName) (stop : Stop) :
    walk.attend (stop.under name) = walk.attend stop := rfl

theorem tour_map_under (walk : Walk) (name : FileName) (stops : List Stop) :
    walk.tour (stops.map (Stop.under name)) =
      { walk.tour stops with after := (walk.tour stops).after.map (Stop.under name) } := by
  induction stops with
  | nil => rfl
  | cons stop rest ih =>
      rw [List.map_cons, tour, tour, attend_under, ih]
      cases (walk.attend stop).result <;> rfl

theorem after_tour_isPrefix (walk : Walk) (stops : List Stop) :
    (walk.tour stops).after <+: stops := by
  induction stops with
  | nil => exact List.prefix_refl []
  | cons stop rest ih =>
      rw [tour]
      split
      next => exact List.nil_prefix
      next => exact (List.prefix_cons_inj stop).2 ih

/-! ## One stop -/

def changesAt (walk : Walk) (stop : Stop) : Nat :=
  match stop.node with
  | .file _ data => changesIn walk.extension data
  | _ => 0

/-- The edit of a file to read, as a walk attempts it. -/
def edit (walk : Walk) (stop : Stop) (mode : Mode) (data : Bytes) : Outcome Bytes Nat :=
  walk.applyToData stop.path (stop.reachable && mode.read) (stop.reachable && mode.write) data

theorem targets_iff {walk : Walk} {stop : Stop} :
    walk.targets stop = true ↔
      stop.isExcluded = false ∧ (∃ mode data, stop.node = .file mode data) ∧
        stop.path.hasExtension walk.extension = true := by
  rw [targets, Bool.and_eq_true, Bool.and_eq_true, Bool.not_eq_true', and_assoc,
    FileTree.isFile_iff]

theorem result_attend_of_targets {walk : Walk} {stop : Stop} (htargets : walk.targets stop = true)
    {mode : Mode} {data : Bytes} (hfile : stop.node = .file mode data) :
    (walk.attend stop).result = (walk.edit stop mode data).result.map Tally.ofFile := by
  obtain ⟨hincluded, -, hextension⟩ := targets_iff.1 htargets
  simp only [attend, hincluded, hfile, visit, hextension, visitFile, if_true, edit]
  cases (walk.applyToData stop.path (stop.reachable && mode.read) (stop.reachable && mode.write)
    data).result <;> rfl

/-- Elsewhere only a directory that cannot be listed fails, and nothing is counted. -/
theorem result_attend_of_not_targets {walk : Walk} {stop : Stop}
    (htargets : walk.targets stop = false) :
    (walk.attend stop).result =
      match stop.isExcluded, stop.node with
      | false, .dir mode _ =>
          match stop.path.obstacle? (stop.reachable && mode.read) with
          | some cause => .error (.unlistable stop.path cause)
          | none => .ok .zero
      | _, _ => .ok .zero := by
  obtain ⟨location, path, reachable, node, isExcluded⟩ := stop
  cases isExcluded with
  | true => rfl
  | false =>
      cases node with
      | dir mode entries =>
          simp only [attend]
          cases path.obstacle? (reachable && mode.read) <;> rfl
      | file mode data =>
          have hextension : path.hasExtension walk.extension = false := by
            simpa [targets, FileTree.isFile] using htargets
          simp [attend, visit, hextension]
      | link target => rfl
      | fifo mode => rfl

/-- A stop fails at a directory that cannot be listed, or at a file whose edit fails. -/
theorem attend_eq_error_iff {walk : Walk} {stop : Stop} {failure : Failure} :
    (walk.attend stop).result = .error failure ↔
      (∃ mode entries cause, stop.isExcluded = false ∧ stop.node = .dir mode entries ∧
        stop.path.obstacle? (stop.reachable && mode.read) = some cause ∧
        failure = .unlistable stop.path cause) ∨
      ∃ mode data, walk.targets stop = true ∧ stop.node = .file mode data ∧
        (walk.edit stop mode data).result = .error failure := by
  cases htargets : walk.targets stop with
  | true =>
      obtain ⟨-, ⟨mode, data, hfile⟩, -⟩ := targets_iff.1 htargets
      rw [result_attend_of_targets htargets hfile]
      rw [map_eq_error_iff]
      simp [hfile, and_assoc]
  | false =>
      rw [result_attend_of_not_targets htargets]
      obtain ⟨location, path, reachable, node, isExcluded⟩ := stop
      cases isExcluded with
      | true => simp
      | false =>
          cases node with
          | dir mode entries =>
              cases hobstacle : path.obstacle? (reachable && mode.read) with
              | some cause => simpa [hobstacle] using eq_comm
              | none => simp [hobstacle]
          | file mode data => simp
          | link target => simp
          | fifo mode => simp

/-- A stop that does not fail counts the file that it is at, if the walk reads that. -/
theorem attend_eq_ok {walk : Walk} {stop : Stop} {tally : Tally}
    (hok : (walk.attend stop).result = .ok tally) :
    tally = if walk.targets stop then .ofFile (walk.changesAt stop) else .zero := by
  cases htargets : walk.targets stop with
  | true =>
      obtain ⟨-, ⟨mode, data, hfile⟩, -⟩ := targets_iff.1 htargets
      rw [result_attend_of_targets htargets hfile] at hok
      cases hedit : (walk.edit stop mode data).result with
      | error failure => simp [hedit, Except.map] at hok
      | ok changed =>
          have hchanged : changed = walk.changesAt stop := by
            rw [changesAt, hfile]
            exact (Edit.applyToData_of_ok hedit).2.2.1
          rw [hedit, hchanged] at hok
          exact (Except.ok.inj hok).symm
  | false =>
      rw [result_attend_of_not_targets htargets] at hok
      split at hok
      next =>
        split at hok
        next => contradiction
        next => exact (Except.ok.inj hok).symm
      next => exact (Except.ok.inj hok).symm

/-! ## A whole tour -/

/-- A tour that succeeds attends all its stops, and none of them fails. -/
theorem tour_of_ok {walk : Walk} {stops : List Stop} {tally : Tally}
    (hok : (walk.tour stops).result = .ok tally) :
    (walk.tour stops).after = stops ∧
      ∀ stop ∈ stops, ∃ tally, (walk.attend stop).result = .ok tally := by
  induction stops generalizing tally with
  | nil => exact ⟨rfl, by simp⟩
  | cons stop rest ih =>
      cases hattend : (walk.attend stop).result with
      | error failure =>
          rw [tour_cons_of_error hattend] at hok
          contradiction
      | ok first =>
          rw [tour_cons_of_ok hattend] at hok ⊢
          obtain ⟨later, hlater, -⟩ := map_eq_ok_iff.1 hok
          obtain ⟨hafter, hrest⟩ := ih hlater
          exact ⟨congrArg (stop :: ·) hafter, List.forall_mem_cons.2 ⟨⟨first, hattend⟩, hrest⟩⟩

/-- The counts of a tour that succeeds are those of the files that it read. -/
theorem tally_of_ok {walk : Walk} {stops : List Stop} {tally : Tally}
    (hok : (walk.tour stops).result = .ok tally) :
    tally.scanned = (stops.filter walk.targets).length ∧
      tally.revised = (stops.filter walk.targets).countP (fun stop => walk.changesAt stop ≠ 0) ∧
      tally.changed = ((stops.filter walk.targets).map walk.changesAt).sum := by
  induction stops generalizing tally with
  | nil =>
      obtain rfl : Tally.zero = tally := Except.ok.inj hok
      exact ⟨rfl, rfl, rfl⟩
  | cons stop rest ih =>
      cases hattend : (walk.attend stop).result with
      | error failure =>
          rw [tour_cons_of_error hattend] at hok
          contradiction
      | ok first =>
          rw [tour_cons_of_ok hattend] at hok
          obtain ⟨later, hlater, rfl⟩ := map_eq_ok_iff.1 hok
          obtain ⟨hscanned, hrevised, hchanged⟩ := ih hlater
          rw [attend_eq_ok hattend]
          cases htargets : walk.targets stop with
          | true =>
              rw [if_pos rfl, List.filter_cons_of_pos htargets, List.length_cons, List.countP_cons,
                List.map_cons, List.sum_cons, ← hscanned, ← hrevised, ← hchanged]
              refine ⟨Nat.add_comm _ _, ?_, rfl⟩
              by_cases hnone : walk.changesAt stop = 0 <;>
                simp [Tally.add, Tally.ofFile, hnone, Nat.add_comm]
          | false => simp [htargets, hscanned, hrevised, hchanged]

/-- A tour that fails does so at the first of its stops that fails. -/
theorem exists_of_tour_error {walk : Walk} {stops : List Stop} {failure : Failure}
    (herror : (walk.tour stops).result = .error failure) :
    ∃ stop later, stops = (walk.tour stops).after ++ stop :: later ∧
      (walk.attend stop).result = .error failure ∧
      ∀ earlier ∈ (walk.tour stops).after, ∃ tally, (walk.attend earlier).result = .ok tally := by
  induction stops with
  | nil => contradiction
  | cons stop rest ih =>
      cases hattend : (walk.attend stop).result with
      | error cause =>
          rw [tour_cons_of_error hattend] at herror ⊢
          exact ⟨stop, rest, rfl, hattend.trans herror, by simp⟩
      | ok tally =>
          rw [tour_cons_of_ok hattend] at herror ⊢
          obtain ⟨failed, later, hsplit, hfailed, hearlier⟩ := ih (map_eq_error_iff.1 herror)
          exact ⟨failed, later, congrArg (stop :: ·) hsplit, hfailed,
            List.forall_mem_cons.2 ⟨⟨tally, hattend⟩, hearlier⟩⟩

end Walk

end ImportSuffix
