import ImportSuffix.Proofs.Edit
import ImportSuffix.Proofs.FileTree.Resolution

/-!
# An edit happens as a whole or not at all

What an edit of the file at a path does depends on three things: whether the path leads to a
file with a text that can be read (`TextAt`), whether a revision of that text changes
anything, and whether the file can be written.  So either the edit fails and the tree is as it
was, or it succeeds, and then no more than the contents of that one file are new: links,
modes and all other files stay as they are.
-/

namespace ImportSuffix

namespace FileTree

/-- A path leads, links followed, to a file that can be read and that holds a text. -/
structure TextAt (tree : FileTree) (path : Path) (location : Location) (mode : Mode)
    (text : Text) : Prop where
  locate_eq : tree.locate true path = .ok location
  get?_eq : tree.get? location = some (.file mode (Utf8.encode text))
  readable : mode.read = true

variable {tree : FileTree} {path : Path} {location location' : Location} {mode mode' : Mode}
  {text text' : Text}

theorem TextAt.unique (htext : tree.TextAt path location mode text)
    (htext' : tree.TextAt path location' mode' text') :
    location = location' ∧ mode = mode' ∧ text = text' := by
  obtain rfl : location = location' :=
    Except.ok.inj (htext.locate_eq.symm.trans htext'.locate_eq)
  have hfile := htext.get?_eq.symm.trans htext'.get?_eq
  simp only [Option.some.injEq, FileTree.file.injEq] at hfile
  exact ⟨rfl, hfile.1, Utf8.encode_injective hfile.2⟩

/-- Where one text was read, another one can be read once it is there. -/
theorem TextAt.withData (htext : tree.TextAt path location mode text) (text' : Text) :
    (tree.withData location (Utf8.encode text')).TextAt path location mode text' where
  locate_eq := by rw [FileTree.withData, locate_mapData, htext.locate_eq]
  get?_eq := get?_withData htext.get?_eq _
  readable := htext.readable

/-- A path that leads somewhere is short enough to be opened, if the modes allow it. -/
theorem obstacle?_of_locate {followLast allowed : Bool}
    (hlocate : tree.locate followLast path = .ok location) :
    path.obstacle? allowed = if allowed then none else some .permissionDenied := by
  have hshort := (locate_eq_ok_iff.1 hlocate).1.2.2.1
  simp [Path.obstacle?, hshort]

end FileTree

namespace Edit

/-- What an edit of the file at a path can come to, with the reason for it. -/
inductive Course (edit : Edit) (path : Path) (tree : FileTree) : Outcome FileTree Nat → Prop where
  | unreadable (cause : AccessError)
      (hnone : ∀ location mode text, ¬tree.TextAt path location mode text) :
      Course edit path tree ⟨tree, [], .error (.unreadable path cause)⟩
  | kept {location : Location} {mode : Mode} {text : Text}
      (htext : tree.TextAt path location mode text)
      (hkept : ¬((revise edit.extension text).changed ≠ [] ∧ edit.dryRun = false)) :
      Course edit path tree ⟨tree, (revise edit.extension text).events edit.extension,
        .ok (revise edit.extension text).changed.length⟩
  | written {location : Location} {mode : Mode} {text : Text}
      (htext : tree.TextAt path location mode text)
      (hwrite : (revise edit.extension text).changed ≠ [] ∧ edit.dryRun = false)
      (hmode : mode.write = true) :
      Course edit path tree
        ⟨tree.withData location (Utf8.encode (revise edit.extension text).text),
          (revise edit.extension text).events edit.extension,
          .ok (revise edit.extension text).changed.length⟩
  | unwritable {location : Location} {mode : Mode} {text : Text}
      (htext : tree.TextAt path location mode text)
      (hwrite : (revise edit.extension text).changed ≠ [] ∧ edit.dryRun = false)
      (hmode : mode.write = false) :
      Course edit path tree ⟨tree, (revise edit.extension text).events edit.extension,
        .error (.unwritable path .permissionDenied)⟩

variable {edit : Edit} {tree : FileTree} {path : Path} {location : Location} {mode : Mode}
  {text : Text} {outcome : Outcome FileTree Nat}

theorem course_of_textAt (hwf : tree.WellFormed) (htext : tree.TextAt path location mode text)
    (edit : Edit) : edit.Course path tree (edit.applyToPath path tree) := by
  have hopen : ∀ allowed, path.obstacle? allowed =
      if allowed then none else some .permissionDenied :=
    fun _ => FileTree.obstacle?_of_locate htext.locate_eq
  rw [applyToPath_of_file htext.locate_eq htext.get?_eq]
  simp only [applyToData, hopen, htext.readable, if_true, Utf8.decode?_encode, mustWrite_iff]
  split
  next hwrite =>
    cases hmode : mode.write with
    | true => simpa [FileTree.insert_file hwf htext.get?_eq] using Course.written htext hwrite hmode
    | false =>
        simpa [FileTree.insert_self hwf htext.get?_eq] using Course.unwritable htext hwrite hmode
  next hkept => simpa [FileTree.insert_self hwf htext.get?_eq] using Course.kept htext hkept

theorem course_of_no_text (hwf : tree.WellFormed)
    (hregular : ∀ location mode, tree.locate true path = .ok location →
      tree.get? location ≠ some (.fifo mode))
    (hnone : ∀ location mode text, ¬tree.TextAt path location mode text) (edit : Edit) :
    edit.Course path tree (edit.applyToPath path tree) := by
  have hstop : ∀ cause, edit.Course path tree ⟨tree, [], .error (.unreadable path cause)⟩ :=
    fun cause => .unreadable cause hnone
  cases hlocate : tree.locate true path with
  | error cause =>
      simp only [applyToPath, hlocate]
      exact hstop cause
  | ok location =>
      cases hget : tree.get? location with
      | none =>
          simp only [applyToPath, hlocate, hget]
          exact hstop .notFound
      | some node =>
          cases node with
          | dir mode entries =>
              simp only [applyToPath, hlocate, hget]
              exact hstop _
          | link target =>
              simp only [applyToPath, hlocate, hget]
              exact hstop .notFound
          | fifo mode => exact absurd hget (hregular location mode hlocate)
          | file mode data =>
              -- the file is there, so it cannot be read or it is not UTF-8
              rw [applyToPath_of_file hlocate hget]
              simp only [applyToData, FileTree.obstacle?_of_locate hlocate]
              cases hread : mode.read with
              | false => simpa [FileTree.insert_self hwf hget] using hstop .permissionDenied
              | true =>
                  cases hdecode : Utf8.decode? data with
                  | none => simpa [FileTree.insert_self hwf hget] using hstop .notUtf8
                  | some text =>
                      rw [← Utf8.encode_of_decode? hdecode] at hget
                      exact absurd ⟨hlocate, hget, hread⟩ (hnone location mode text)

/-- A special file apart, an edit takes one of these courses. -/
theorem course (hwf : tree.WellFormed)
    (hregular : ∀ location mode, tree.locate true path = .ok location →
      tree.get? location ≠ some (.fifo mode)) (edit : Edit) :
    edit.Course path tree (edit.applyToPath path tree) := by
  by_cases hsome : ∃ location mode text, tree.TextAt path location mode text
  · obtain ⟨location, mode, text, htext⟩ := hsome
    exact course_of_textAt hwf htext edit
  · exact course_of_no_text hwf hregular
      (fun location mode text htext => hsome ⟨location, mode, text, htext⟩) edit

/-- A text without a statement to change is left alone, and its file need not be writable. -/
theorem applyToPath_of_changed_eq_nil (hwf : tree.WellFormed)
    (htext : tree.TextAt path location mode text)
    (hnone : (revise edit.extension text).changed = []) :
    edit.applyToPath path tree = ⟨tree, [], .ok 0⟩ := by
  have hcourse := course_of_textAt hwf htext edit
  generalize edit.applyToPath path tree = outcome at hcourse ⊢
  cases hcourse with
  | unreadable cause hno => exact absurd htext (hno location mode text)
  | kept htext' hkept =>
      obtain ⟨rfl, rfl, rfl⟩ := htext.unique htext'
      simp [Revision.events, hnone]
  | written htext' hwrite hmode =>
      obtain ⟨rfl, rfl, rfl⟩ := htext.unique htext'
      exact absurd hnone hwrite.1
  | unwritable htext' hwrite hmode =>
      obtain ⟨rfl, rfl, rfl⟩ := htext.unique htext'
      exact absurd hnone hwrite.1

namespace Course

theorem after_of_error (hcourse : edit.Course path tree outcome) {failure : Failure}
    (herror : outcome.result = .error failure) : outcome.after = tree := by
  cases hcourse with
  | unreadable cause hnone => rfl
  | kept htext hkept => rfl
  | written htext hwrite hmode => contradiction
  | unwritable htext hwrite hmode => rfl

theorem of_ok (hwf : tree.WellFormed) (hcourse : edit.Course path tree outcome) {count : Nat}
    (hok : outcome.result = .ok count) :
    ∃ location mode text, tree.TextAt path location mode text ∧
      count = (revise edit.extension text).changed.length ∧
      (outcome.after ≠ tree ↔ 0 < count ∧ edit.dryRun = false) ∧
      (outcome.after ≠ tree → outcome.after =
        tree.withData location (Utf8.encode (revise edit.extension text).text)) := by
  cases hcourse with
  | unreadable cause hnone => contradiction
  | @kept location mode text htext hkept =>
      obtain rfl := Except.ok.inj hok
      refine ⟨location, mode, text, htext, rfl, ?_, fun hnew => absurd rfl hnew⟩
      rw [List.length_pos_iff]
      exact iff_of_false (fun hnew => hnew rfl) hkept
  | @written location mode text htext hwrite hmode =>
      obtain rfl := Except.ok.inj hok
      refine ⟨location, mode, text, htext, rfl, ?_, fun _ => rfl⟩
      rw [List.length_pos_iff]
      refine iff_of_true (fun hsame => hwrite.1 ?_) hwrite
      rw [FileTree.withData_eq_self_iff hwf htext.get?_eq] at hsame
      exact text_revise_eq_self_iff.1 (Utf8.encode_injective hsame)
  | unwritable htext hwrite hmode => contradiction

theorem unreadable_iff (hcourse : edit.Course path tree outcome) :
    (∃ cause, outcome.result = .error (.unreadable path cause)) ↔
      ∀ location mode text, ¬tree.TextAt path location mode text := by
  cases hcourse with
  | unreadable cause hnone => exact iff_of_true ⟨cause, rfl⟩ hnone
  | kept htext hkept => exact iff_of_false nofun fun hnone => hnone _ _ _ htext
  | written htext hwrite hmode => exact iff_of_false nofun fun hnone => hnone _ _ _ htext
  | unwritable htext hwrite hmode => exact iff_of_false nofun fun hnone => hnone _ _ _ htext

theorem unwritable_iff (hcourse : edit.Course path tree outcome) :
    (∃ cause, outcome.result = .error (.unwritable path cause)) ↔
      ∃ location mode text, tree.TextAt path location mode text ∧
        (revise edit.extension text).changed ≠ [] ∧ edit.dryRun = false ∧ mode.write = false := by
  constructor
  · rintro ⟨cause, herror⟩
    cases hcourse with
    | unreadable cause' hnone => exact absurd (Except.error.inj herror) nofun
    | kept htext hkept => contradiction
    | written htext hwrite hmode => contradiction
    | unwritable htext hwrite hmode => exact ⟨_, _, _, htext, hwrite.1, hwrite.2, hmode⟩
  · rintro ⟨location, mode, text, htext, hchanged, hreal, hmode⟩
    cases hcourse with
    | unreadable cause hnone => exact absurd htext (hnone location mode text)
    | kept htext' hkept =>
        obtain ⟨rfl, rfl, rfl⟩ := htext.unique htext'
        exact absurd ⟨hchanged, hreal⟩ hkept
    | written htext' hwrite hmode' =>
        obtain ⟨rfl, rfl, rfl⟩ := htext.unique htext'
        exact absurd (hmode.symm.trans hmode') Bool.false_ne_true
    | unwritable htext' hwrite hmode' => exact ⟨.permissionDenied, rfl⟩

theorem failure_of_error (hcourse : edit.Course path tree outcome) {failure : Failure}
    (herror : outcome.result = .error failure) :
    ∃ cause, failure = .unreadable path cause ∨ failure = .unwritable path cause := by
  cases hcourse with
  | unreadable cause hnone => exact ⟨cause, .inl (Except.error.inj herror).symm⟩
  | kept htext hkept => contradiction
  | written htext hwrite hmode => contradiction
  | unwritable htext hwrite hmode =>
      exact ⟨.permissionDenied, .inr (Except.error.inj herror).symm⟩

/-- After an edit that was made nothing is left to do for a second one. -/
theorem again (hwf : tree.WellFormed) (hunquoted : Unquoted edit.extension)
    (hreal : edit.dryRun = false) (hcourse : edit.Course path tree outcome) {count : Nat}
    (hok : outcome.result = .ok count) :
    edit.applyToPath path outcome.after = ⟨outcome.after, [], .ok 0⟩ := by
  cases hcourse with
  | unreadable cause hnone => contradiction
  | kept htext hkept =>
      apply applyToPath_of_changed_eq_nil hwf htext
      by_contra hchanged
      exact hkept ⟨hchanged, hreal⟩
  | written htext hwrite hmode =>
      apply applyToPath_of_changed_eq_nil (FileTree.wellFormed_mapData hwf _)
        (htext.withData _)
      rw [revise_revise hunquoted (List.suffix_refl _)]
  | unwritable htext hwrite hmode => contradiction

end Course

/-- An edit of the file at a path, special files apart, happens as a whole or not at all.  If
it fails, the tree is as it was.  If it succeeds, the path leads to a file with a text, the
count is that of the statements that a revision changes, and the tree is another one exactly
if there are any and it is no dry run; then that file holds the revised text, and all else is
as it was.  An edit fails for reading exactly if no text can be read at the path, and for
writing exactly if a text that has to be written cannot be; there is no other failure.  A
second edit with an extension without quotes and newlines has nothing left to do. -/
theorem applyToPath_all_or_nothing (edit : Edit) (tree : FileTree) (path : Path)
    (hwf : tree.WellFormed)
    (hregular : ∀ location mode, tree.locate true path = .ok location →
      tree.get? location ≠ some (.fifo mode)) :
    (∀ failure, (edit.applyToPath path tree).result = .error failure →
      (edit.applyToPath path tree).after = tree ∧
        ∃ cause, failure = .unreadable path cause ∨ failure = .unwritable path cause) ∧
    (∀ count, (edit.applyToPath path tree).result = .ok count →
      ∃ location mode text, tree.TextAt path location mode text ∧
        count = (revise edit.extension text).changed.length ∧
        ((edit.applyToPath path tree).after ≠ tree ↔ 0 < count ∧ edit.dryRun = false) ∧
        ((edit.applyToPath path tree).after ≠ tree → (edit.applyToPath path tree).after =
          tree.withData location (Utf8.encode (revise edit.extension text).text))) ∧
    ((∃ cause, (edit.applyToPath path tree).result = .error (.unreadable path cause)) ↔
      ∀ location mode text, ¬tree.TextAt path location mode text) ∧
    ((∃ cause, (edit.applyToPath path tree).result = .error (.unwritable path cause)) ↔
      ∃ location mode text, tree.TextAt path location mode text ∧
        (revise edit.extension text).changed ≠ [] ∧ edit.dryRun = false ∧
        mode.write = false) ∧
    (∀ location mode text, tree.TextAt path location mode text →
      (revise edit.extension text).changed = [] →
        (edit.applyToPath path tree).result = .ok 0) ∧
    (Unquoted edit.extension → edit.dryRun = false →
      ∀ count, (edit.applyToPath path tree).result = .ok count →
        (edit.applyToPath path (edit.applyToPath path tree).after).result = .ok 0 ∧
          (edit.applyToPath path (edit.applyToPath path tree).after).after =
            (edit.applyToPath path tree).after) := by
  have hcourse := course hwf hregular edit
  refine ⟨?_, fun count => hcourse.of_ok hwf, hcourse.unreadable_iff, hcourse.unwritable_iff,
    ?_, ?_⟩
  · exact fun failure herror =>
      ⟨hcourse.after_of_error herror, hcourse.failure_of_error herror⟩
  · intro location mode text htext hnone
    rw [applyToPath_of_changed_eq_nil hwf htext hnone]
  · intro hunquoted hreal count hok
    rw [hcourse.again hwf hunquoted hreal hok]
    exact ⟨rfl, rfl⟩

/-- A site with a link to a file to change. -/
def fileLinkSite : FileTree :=
  .dir {}
    [(Utf8.encode "b.js".toList, .file {} (Utf8.encode "import a from './a';".toList)),
      (Utf8.encode "l".toList, .link (Utf8.encode "b.js".toList))]

/-- An edit at the path of the link changes the file and not the link. -/
theorem applyToPath_all_or_nothing_fileLinkSite :
    fileLinkSite.WellFormed ∧
      (∀ location mode, fileLinkSite.locate true (Utf8.encode "l".toList) = .ok location →
        fileLinkSite.get? location ≠ some (.fifo mode)) ∧
      (applyToPath ⟨"js".toList, false⟩ (Utf8.encode "l".toList) fileLinkSite).result =
        .ok 1 ∧
      (applyToPath ⟨"js".toList, false⟩ (Utf8.encode "l".toList) fileLinkSite).after =
        fileLinkSite.withData [Utf8.encode "b.js".toList]
          (Utf8.encode "import a from './a.js';".toList) := by
  have hwf : fileLinkSite.WellFormed := by decide +kernel
  have htext : fileLinkSite.TextAt (Utf8.encode "l".toList) [Utf8.encode "b.js".toList] {}
      "import a from './a';".toList := ⟨by decide +kernel, rfl, rfl⟩
  have hregular : ∀ location mode,
      fileLinkSite.locate true (Utf8.encode "l".toList) = .ok location →
        fileLinkSite.get? location ≠ some (.fifo mode) := by
    intro location mode hlocate hfifo
    obtain rfl := Except.ok.inj (htext.locate_eq.symm.trans hlocate)
    exact absurd (htext.get?_eq.symm.trans hfifo) nofun
  have hok : (applyToPath ⟨"js".toList, false⟩ (Utf8.encode "l".toList) fileLinkSite).result =
      .ok 1 := by decide +kernel
  obtain ⟨-, hsuccess, -⟩ := applyToPath_all_or_nothing ⟨"js".toList, false⟩ fileLinkSite
    (Utf8.encode "l".toList) hwf hregular
  obtain ⟨location, mode, text, htext', -, hnew, hafter⟩ := hsuccess 1 hok
  obtain ⟨rfl, rfl, rfl⟩ := htext.unique htext'
  refine ⟨hwf, hregular, hok, (hafter (hnew.2 ⟨Nat.one_pos, rfl⟩)).trans ?_⟩
  exact congrArg (fun text => fileLinkSite.withData [Utf8.encode "b.js".toList] (Utf8.encode text))
    (by decide +kernel)

end Edit

end ImportSuffix
