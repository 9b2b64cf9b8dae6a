import ImportSuffix.Edit
import ImportSuffix.Proofs.Revision.Chain
import ImportSuffix.Proofs.Text.Utf8

/-!
# What an edit does to a file

An edit that succeeds leaves the revised contents, except on a dry run, and counts
the statements that were changed.  One that fails leaves the contents as they were.
A file whose revision changes nothing already has the revised contents, so nothing
depends on whether it is written.
-/

namespace ImportSuffix

/-- The contents of a file after its text was revised.  What is not UTF-8 has no
text and stays as it is. -/
def reviseData (extension : Text) (data : Bytes) : Bytes :=
  match Utf8.decode? data with
  | some text => Utf8.encode (revise extension text).text
  | none => data

/-- How many statements of a file a revision of its text changes. -/
def changesIn (extension : Text) (data : Bytes) : Nat :=
  match Utf8.decode? data with
  | some text => (revise extension text).changed.length
  | none => 0

/-- The records of the statements of a file that a revision of its text changes, in the
order of the text. -/
def eventsIn (extension : Text) (data : Bytes) : List Event :=
  match Utf8.decode? data with
  | some text => (revise extension text).events extension
  | none => []

theorem level_of_mem_eventsIn {extension : Text} {data : Bytes} {event : Event}
    (hmem : event ∈ eventsIn extension data) : event.level = .trace := by
  rw [eventsIn] at hmem
  split at hmem
  next =>
    obtain ⟨statement, -, rfl⟩ := List.mem_map.1 hmem
    rfl
  next => exact absurd hmem List.not_mem_nil

/-- A file has to be written when its revision changed something and it is not a dry
run. -/
theorem mustWrite_iff {edit : Edit} {revision : Revision} :
    (revision.isChanged && !edit.dryRun) = true ↔
      revision.changed ≠ [] ∧ edit.dryRun = false := by
  simp [Revision.isChanged]

theorem text_revise_of_changed_eq_nil {extension text : Text}
    (hnone : (revise extension text).changed = []) :
    (revise extension text).text = text := by
  have hcarries : ∀ statement ∈ (Outline.ofText text).statements,
      dotted extension <:+ statement.specifier := by
    rw [changed_revise, List.filter_eq_nil_iff] at hnone
    simpa using hnone
  rw [revise_eq_self hcarries]

theorem text_revise_eq_self_iff {extension text : Text} :
    (revise extension text).text = text ↔ (revise extension text).changed = [] := by
  refine ⟨fun hsame => ?_, text_revise_of_changed_eq_nil⟩
  have hlength := length_text_revise extension text
  rw [hsame, dotted, List.length_cons] at hlength
  have hnone : (revise extension text).changed.length * (extension.length + 1) = 0 := by omega
  exact List.length_eq_zero_iff.1
    ((Nat.mul_eq_zero.1 hnone).resolve_right (Nat.succ_ne_zero _))

/-- Contents without a statement to change are revised already. -/
theorem reviseData_of_changesIn_eq_zero {extension : Text} {data : Bytes}
    (hnone : changesIn extension data = 0) : reviseData extension data = data := by
  rw [changesIn] at hnone
  rw [reviseData]
  split
  next text hdecode =>
    simp only [hdecode, List.length_eq_zero_iff] at hnone
    rw [text_revise_of_changed_eq_nil hnone]
    exact Utf8.encode_of_decode? hdecode
  next => rfl

theorem decode?_reviseData {extension text : Text} {data : Bytes}
    (hdecode : Utf8.decode? data = some text) :
    Utf8.decode? (reviseData extension data) = some (revise extension text).text := by
  simp only [reviseData, hdecode, Utf8.decode?_encode]

theorem changesIn_reviseData {extension : Text} (hunquoted : Unquoted extension)
    (data : Bytes) : changesIn extension (reviseData extension data) = 0 := by
  cases hdecode : Utf8.decode? data with
  | none => simp only [reviseData, changesIn, hdecode]
  | some text =>
      simp only [changesIn, decode?_reviseData hdecode,
        revise_revise hunquoted (List.suffix_refl (dotted extension)), List.length_nil]

/-- A second revision of contents does nothing. -/
theorem reviseData_reviseData {extension : Text} (hunquoted : Unquoted extension)
    (data : Bytes) :
    reviseData extension (reviseData extension data) = reviseData extension data :=
  reviseData_of_changesIn_eq_zero (changesIn_reviseData hunquoted data)

namespace Edit

variable {edit : Edit} {path : Path} {readable writable : Bool} {data : Bytes}

/-- An edit that succeeds had everything that it needs, counts the changed statements
and leaves the revised contents, or the old ones on a dry run. -/
theorem applyToData_of_ok {changed : Nat}
    (hok : (edit.applyToData path readable writable data).result = .ok changed) :
    path.obstacle? readable = none ∧ (∃ text, Utf8.decode? data = some text) ∧
      changed = changesIn edit.extension data ∧
      (edit.applyToData path readable writable data).after =
        if edit.dryRun then data else reviseData edit.extension data := by
  revert hok
  fun_cases applyToData edit path readable writable data with
  | case1 cause hcause => exact nofun
  | case2 hreadable hdecode => exact nofun
  | case3 hreadable text hdecode revision log hwrite cause hcause => exact nofun
  | case4 hreadable text hdecode revision log hwrite hwritable =>
      intro hok
      refine ⟨hreadable, ⟨text, hdecode⟩, ?_, ?_⟩
      · simpa [changesIn, hdecode] using (Except.ok.inj hok).symm
      · simp [reviseData, hdecode, (mustWrite_iff.1 hwrite).2, revision]
  | case5 hreadable text hdecode revision log hkept =>
      intro hok
      have hchanged : changesIn edit.extension data = revision.changed.length := by
        simp [changesIn, hdecode, revision]
      refine ⟨hreadable, ⟨text, hdecode⟩, ?_, ?_⟩
      · rw [hchanged]
        exact (Except.ok.inj hok).symm
      · split
        next => rfl
        next hreal =>
          have hnone : revision.changed = [] := by
            by_cases hsome : revision.changed = []
            · exact hsome
            · exact absurd (mustWrite_iff.2 ⟨hsome, by simpa using hreal⟩) hkept
          rw [hnone, List.length_nil] at hchanged
          exact (reviseData_of_changesIn_eq_zero hchanged).symm

theorem log_applyToData_of_ok {changed : Nat}
    (hok : (edit.applyToData path readable writable data).result = .ok changed) :
    (edit.applyToData path readable writable data).log = eventsIn edit.extension data := by
  revert hok
  fun_cases applyToData edit path readable writable data with
  | case1 cause hcause => exact nofun
  | case2 hreadable hdecode => exact nofun
  | case3 hreadable text hdecode revision log hwrite cause hcause => exact nofun
  | case4 hreadable text hdecode revision log hwrite hwritable =>
      simp [eventsIn, hdecode, log, revision]
  | case5 hreadable text hdecode revision log hkept =>
      simp [eventsIn, hdecode, log, revision]

/-- One that fails has recorded them if the file could not be written, and otherwise
nothing. -/
theorem log_applyToData_of_error {failure : Failure}
    (herror : (edit.applyToData path readable writable data).result = .error failure) :
    (edit.applyToData path readable writable data).log = [] ∧
        (∀ path' cause, failure ≠ .unwritable path' cause) ∨
      (edit.applyToData path readable writable data).log = eventsIn edit.extension data ∧
        ∃ cause, failure = .unwritable path cause := by
  revert herror
  fun_cases applyToData edit path readable writable data with
  | case1 cause hcause =>
      intro herror
      obtain rfl := Except.error.inj herror
      exact .inl ⟨rfl, nofun⟩
  | case2 hreadable hdecode =>
      intro herror
      obtain rfl := Except.error.inj herror
      exact .inl ⟨rfl, nofun⟩
  | case3 hreadable text hdecode revision log hwrite cause hcause =>
      intro herror
      obtain rfl := Except.error.inj herror
      exact .inr ⟨by simp [eventsIn, hdecode, log, revision], cause, rfl⟩
  | case4 hreadable text hdecode revision log hwrite hwritable => exact nofun
  | case5 hreadable text hdecode revision log hkept => exact nofun

theorem level_of_mem_log_applyToData {event : Event}
    (hmem : event ∈ (edit.applyToData path readable writable data).log) :
    event.level = .trace := by
  cases hresult : (edit.applyToData path readable writable data).result with
  | ok changed =>
      rw [log_applyToData_of_ok hresult] at hmem
      exact level_of_mem_eventsIn hmem
  | error failure =>
      rcases log_applyToData_of_error hresult with ⟨hlog, -⟩ | ⟨hlog, -⟩
      · rw [hlog] at hmem
        exact absurd hmem List.not_mem_nil
      · rw [hlog] at hmem
        exact level_of_mem_eventsIn hmem

theorem applyToData_of_error {failure : Failure}
    (herror : (edit.applyToData path readable writable data).result = .error failure) :
    (edit.applyToData path readable writable data).after = data := by
  revert herror
  fun_cases applyToData edit path readable writable data <;>
    first | exact fun _ => rfl | exact nofun

/-- An edit fails when the file cannot be opened for reading, when it is not UTF-8, or
when it has to be written and cannot be opened for that; in this order. -/
theorem applyToData_eq_error_iff {failure : Failure} :
    (edit.applyToData path readable writable data).result = .error failure ↔
      (∃ cause, path.obstacle? readable = some cause ∧ failure = .unreadable path cause) ∨
      (path.obstacle? readable = none ∧ Utf8.decode? data = none ∧
        failure = .unreadable path .notUtf8) ∨
      ∃ text cause, path.obstacle? readable = none ∧ Utf8.decode? data = some text ∧
        (revise edit.extension text).changed ≠ [] ∧ edit.dryRun = false ∧
        path.obstacle? writable = some cause ∧ failure = .unwritable path cause := by
  fun_cases applyToData edit path readable writable data with
  | case1 cause hcause =>
      simp only [hcause]
      simpa using eq_comm
  | case2 hreadable hdecode =>
      simp only [hreadable, hdecode]
      simpa using eq_comm
  | case3 hreadable text hdecode revision log hwrite cause hcause =>
      have hwritten : (revise edit.extension text).changed ≠ [] ∧ edit.dryRun = false :=
        mustWrite_iff.1 hwrite
      simp only [hreadable, hdecode, hcause]
      simpa [hwritten] using eq_comm
  | case4 hreadable text hdecode revision log hwrite hwritable =>
      simp [hreadable, hdecode, hwritable]
  | case5 hreadable text hdecode revision log hkept =>
      have hdry : (revise edit.extension text).changed ≠ [] → ¬edit.dryRun = false :=
        fun hchanged hreal => hkept (mustWrite_iff.2 ⟨hchanged, hreal⟩)
      simp +contextual [hreadable, hdecode, hdry]

/-- A path that leads to a regular file edits the contents of that file. -/
theorem applyToPath_of_file {tree : FileTree} {location : Location} {mode : Mode}
    (hlocate : tree.locate true path = .ok location)
    (hfile : tree.get? location = some (.file mode data)) :
    edit.applyToPath path tree =
      { edit.applyToData path mode.read mode.write data with
        after := tree.insert location
          (.file mode (edit.applyToData path mode.read mode.write data).after) } := by
  simp only [applyToPath, hlocate, hfile]

end Edit

end ImportSuffix
