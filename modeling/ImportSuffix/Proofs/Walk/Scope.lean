import ImportSuffix.Proofs.Walk.Visit

/-!
# What is in the scope of a walk

What a walk has to do with the tree below its root is said here without any order of
visits: which files are eligible, and what stands in its way.  The stops of the
itinerary are the entries in scope (`eligible_iff`, `obstacle_iff`), and a run is the
tour of the itinerary (`run_eq`), so whatever is true of the tour can be said of the
tree.
-/

namespace ImportSuffix.Walk

/-- No name on the way is excluded. -/
def Includes (walk : Walk) (below : Location) : Prop :=
  ∀ name ∈ below, ∀ excluded ∈ walk.exclude, Utf8.encode excluded ≠ name

/-- A file that a walk has to edit, at a location below the directory at `base`.  It is a
regular file reached through directories only, no name on the way is excluded, and its
own name is UTF-8 and ends with a dot and the extension. -/
structure Eligible (walk : Walk) (tree : FileTree) (base below : Location) : Prop where
  isFile : ∃ mode data, tree.get? (base ++ below) = some (.file mode data)
  included : walk.Includes below
  hasExtension : ∃ name text, below.getLast? = some name ∧ Utf8.decode? name = some text ∧
    dotted walk.extension <:+ text

/-- What stands in the way of a walk at a location below the directory at `base`, and the
failure that it leads to.  At a file that cannot be read it does not matter whether it
could be written. -/
inductive Obstacle (walk : Walk) (root : Path) (tree : FileTree) (base below : Location) :
    Failure → Prop where
  /-- A directory cannot be listed. -/
  | unlistable {mode : Mode} {entries : List (FileName × FileTree)} {cause : AccessError}
      (hdir : tree.get? (base ++ below) = some (.dir mode entries))
      (hincluded : walk.Includes below)
      (hcause : tree.openError? (root.below below) Mode.read = some cause) :
      Obstacle walk root tree base below (.unlistable (root.below below) cause)
  /-- A file cannot be opened for reading. -/
  | unreadable {cause : AccessError} (heligible : walk.Eligible tree base below)
      (hcause : tree.openError? (root.below below) Mode.read = some cause) :
      Obstacle walk root tree base below (.unreadable (root.below below) cause)
  /-- A file is not UTF-8. -/
  | undecodable {mode : Mode} {data : Bytes} (heligible : walk.Eligible tree base below)
      (hfile : tree.get? (base ++ below) = some (.file mode data))
      (hreadable : tree.openError? (root.below below) Mode.read = none)
      (hdecode : Utf8.decode? data = none) :
      Obstacle walk root tree base below (.unreadable (root.below below) .notUtf8)
  /-- A file has statements to change and cannot be opened for writing. -/
  | unwritable {mode : Mode} {data : Bytes} {text : Text} {cause : AccessError}
      (hreal : walk.dryRun = false) (heligible : walk.Eligible tree base below)
      (hfile : tree.get? (base ++ below) = some (.file mode data))
      (hreadable : tree.openError? (root.below below) Mode.read = none)
      (hdecode : Utf8.decode? data = some text)
      (hchanged : (revise walk.extension text).changed ≠ [])
      (hcause : tree.openError? (root.below below) Mode.write = some cause) :
      Obstacle walk root tree base below (.unwritable (root.below below) cause)

/-- Nothing stands in the way before a location, so the walk comes there. -/
def Reaches (walk : Walk) (root : Path) (tree : FileTree) (base below : Location) : Prop :=
  ∀ first failure, walk.Obstacle root tree base first failure → ¬first < below

/-- Nothing stands in the way up to a location, so the walk goes on from there. -/
def Passes (walk : Walk) (root : Path) (tree : FileTree) (base below : Location) : Prop :=
  ∀ first failure, walk.Obstacle root tree base first failure → below < first

theorem includes_iff {walk : Walk} {below : Location} :
    walk.Includes below ↔ ∀ name ∈ below, walk.excludes name = false := by
  simp [Includes, excludes]

theorem eligible_iff_bool {walk : Walk} {tree : FileTree} {base below : Location} :
    ((tree.get? (base ++ below)).any FileTree.isFile &&
        below.all (fun name => !walk.excludes name) &&
        below.getLast?.any (Path.nameHasExtension walk.extension)) = true ↔
      walk.Eligible tree base below := by
  simp only [Bool.and_eq_true, Option.any_eq_true, FileTree.isFile_iff, List.all_eq_true,
    Bool.not_eq_true', ← includes_iff, Path.nameHasExtension_iff]
  constructor
  · rintro ⟨⟨⟨node, hget, mode, data, rfl⟩, hincluded⟩, name, hname, text, hextension⟩
    exact ⟨⟨mode, data, hget⟩, hincluded, ⟨name, text, hname, hextension⟩⟩
  · rintro ⟨⟨mode, data, hget⟩, hincluded, ⟨name, text, hname, hextension⟩⟩
    exact ⟨⟨⟨_, hget, mode, data, rfl⟩, hincluded⟩, name, hname, text, hextension⟩

instance (walk : Walk) (tree : FileTree) (base : Location) :
    DecidablePred (walk.Eligible tree base) :=
  fun _ => decidable_of_iff _ eligible_iff_bool

/-- The directory that a root leads to, in a well-formed tree. -/
structure RootedAt (tree : FileTree) (root : Path) (base : Location) (node : FileTree) :
    Prop where
  wellFormed : tree.WellFormed
  locate_eq : tree.locate true root = .ok base
  get?_eq : tree.get? base = some node
  isDir : node.isDir = true

namespace RootedAt

variable {root : Path} {tree node target : FileTree} {base below : Location}

theorem node_wellFormed (hrooted : RootedAt tree root base node) : node.WellFormed :=
  (hrooted.wellFormed.of_get? hrooted.get?_eq).1

theorem exists_dir (hrooted : RootedAt tree root base node) :
    ∃ mode entries, node = .dir mode entries := by
  have hdir := hrooted.isDir
  cases node with
  | dir mode entries => exact ⟨mode, entries, rfl⟩
  | file mode data => contradiction
  | link target => contradiction
  | fifo mode => contradiction

theorem get?_append (hrooted : RootedAt tree root base node) (below : Location) :
    tree.get? (base ++ below) = node.get? below := by
  rw [FileTree.get?_append, hrooted.get?_eq, Option.bind_some]

/-- Opening what is below the root meets the same obstacle as the walk does there. -/
theorem openError?_eq (hrooted : RootedAt tree root base node)
    (htarget : node.get? below = some target) (hlink : target.isLink = false)
    (permits : Mode → Bool) :
    tree.openError? (root.below below) permits =
      (root.below below).obstacle? (node.searchable below && permits target.mode) :=
  FileTree.openError?_below hrooted.locate_eq hrooted.get?_eq hrooted.node_wellFormed htarget
    hlink permits

/-- The extension of a file below the root is that of its own name. -/
theorem hasExtension_iff (hrooted : RootedAt tree root base node) {mode : Mode} {data : Bytes}
    (hfile : node.get? below = some (.file mode data)) {extension : Text} :
    (root.below below).hasExtension extension = true ↔
      ∃ name text, below.getLast? = some name ∧ Utf8.decode? name = some text ∧
        dotted extension <:+ text := by
  obtain rfl | ⟨front, name, rfl⟩ := List.eq_nil_or_concat' below
  · have hdir := hrooted.isDir
    rw [Option.some.inj hfile] at hdir
    contradiction
  · have hname := ((hrooted.node_wellFormed.of_get? hfile).2 name (by simp)).1
    rw [Path.below_concat, Path.hasExtension_join hname, Path.nameHasExtension_iff]
    simp

end RootedAt

/-- The stop at a location below the root, where `target` was found. -/
def stopBelow (root : Path) (node : FileTree) (below : Location) (target : FileTree) : Stop :=
  ⟨below, root.below below, node.searchable below, target, false⟩

section Rooted

variable {walk : Walk} {root : Path} {tree node target : FileTree} {base below : Location}

theorem stopBelow_mem (hrooted : RootedAt tree root base node) (hnames : walk.Includes below)
    (hget : node.get? below = some target) :
    stopBelow root node below target ∈ walk.itinerary true root node := by
  have hcomes : walk.ComesTo true root node (stopBelow root node below target) :=
    ⟨rfl, includes_iff.1 hnames, hget, rfl, rfl⟩
  exact ((mem_itinerary_iff hrooted.node_wellFormed).2 hcomes).1

/-- There is one stop for every location in scope, excluded entries apart. -/
theorem exists_stop_iff (hrooted : RootedAt tree root base node) {property : Stop → Prop}
    (hproperty : ∀ stop, property stop → stop.isExcluded = false) :
    (∃ stop ∈ walk.itinerary true root node, stop.location = below ∧ property stop) ↔
      walk.Includes below ∧ ∃ target, node.get? below = some target ∧
        property (stopBelow root node below target) := by
  constructor
  · rintro ⟨stop, hmem, rfl, hstop⟩
    obtain ⟨hincluded, hnames, hget, hpath, hreachable⟩ :=
      (mem_itinerary_iff hrooted.node_wellFormed).1 ⟨hmem, hproperty stop hstop⟩
    refine ⟨includes_iff.2 hnames, stop.node, hget, ?_⟩
    rw [Bool.true_and] at hreachable
    rw [stopBelow, ← hpath, ← hreachable, ← hincluded]
    exact hstop
  · rintro ⟨hnames, target, hget, hstop⟩
    exact ⟨_, stopBelow_mem hrooted hnames hget, rfl, hstop⟩

theorem eligible_iff_targets (hrooted : RootedAt tree root base node) :
    walk.Eligible tree base below ↔
      walk.Includes below ∧ ∃ target, node.get? below = some target ∧
        walk.targets (stopBelow root node below target) = true := by
  constructor
  · rintro ⟨⟨mode, data, hfile⟩, hincluded, hextension⟩
    rw [hrooted.get?_append] at hfile
    exact ⟨hincluded, _, hfile, targets_iff.2
      ⟨rfl, ⟨mode, data, rfl⟩, (hrooted.hasExtension_iff hfile).2 hextension⟩⟩
  · rintro ⟨hincluded, target, hget, htargets⟩
    obtain ⟨-, ⟨mode, data, hfile⟩, hextension⟩ := targets_iff.1 htargets
    obtain rfl : target = .file mode data := hfile
    refine ⟨⟨mode, data, ?_⟩, hincluded, (hrooted.hasExtension_iff hget).1 hextension⟩
    rw [hrooted.get?_append, hget]

/-- Eligible files are the stops at files to read. -/
theorem eligible_iff (hrooted : RootedAt tree root base node) :
    walk.Eligible tree base below ↔
      ∃ stop ∈ walk.itinerary true root node, stop.location = below ∧
        walk.targets stop = true := by
  rw [eligible_iff_targets hrooted, exists_stop_iff hrooted]
  exact fun stop hstop => (targets_iff.1 hstop).1

/-- An eligible file fails when its edit does. -/
theorem attend_of_eligible (hrooted : RootedAt tree root base node)
    (heligible : walk.Eligible tree base below) {mode : Mode} {data : Bytes}
    (hfile : node.get? below = some (.file mode data)) {failure : Failure}
    (hfails : (walk.applyToData (root.below below) (node.searchable below && mode.read)
      (node.searchable below && mode.write) data).result = .error failure) :
    (walk.attend (stopBelow root node below (.file mode data))).result = .error failure := by
  obtain ⟨-, target, hget, htargets⟩ := (eligible_iff_targets hrooted).1 heligible
  obtain rfl : .file mode data = target := Option.some.inj (hfile.symm.trans hget)
  exact attend_eq_error_iff.2 (.inr ⟨mode, data, htargets, rfl, hfails⟩)

/-- What stands in the way at a location makes the stop there fail. -/
theorem Obstacle.attend (hrooted : RootedAt tree root base node) {failure : Failure}
    (hobstacle : walk.Obstacle root tree base below failure) :
    walk.Includes below ∧ ∃ target, node.get? below = some target ∧
      (walk.attend (stopBelow root node below target)).result = .error failure := by
  cases hobstacle with
  | unlistable hdir hincluded hcause =>
      rw [hrooted.get?_append] at hdir
      rw [hrooted.openError?_eq hdir rfl] at hcause
      exact ⟨hincluded, _, hdir,
        attend_eq_error_iff.2 (.inl ⟨_, _, _, rfl, rfl, hcause, rfl⟩)⟩
  | unreadable heligible hcause =>
      obtain ⟨mode, data, hfile⟩ := heligible.isFile
      rw [hrooted.get?_append] at hfile
      rw [hrooted.openError?_eq hfile rfl] at hcause
      exact ⟨heligible.included, _, hfile, attend_of_eligible hrooted heligible hfile
        (Edit.applyToData_eq_error_iff.2 (.inl ⟨_, hcause, rfl⟩))⟩
  | undecodable heligible hfile hreadable hdecode =>
      rw [hrooted.get?_append] at hfile
      rw [hrooted.openError?_eq hfile rfl] at hreadable
      exact ⟨heligible.included, _, hfile, attend_of_eligible hrooted heligible hfile
        (Edit.applyToData_eq_error_iff.2 (.inr (.inl ⟨hreadable, hdecode, rfl⟩)))⟩
  | unwritable hreal heligible hfile hreadable hdecode hchanged hcause =>
      rw [hrooted.get?_append] at hfile
      rw [hrooted.openError?_eq hfile rfl] at hreadable hcause
      exact ⟨heligible.included, _, hfile, attend_of_eligible hrooted heligible hfile
        (Edit.applyToData_eq_error_iff.2
          (.inr (.inr ⟨_, _, hreadable, hdecode, hchanged, hreal, hcause, rfl⟩)))⟩

/-- A stop fails because of what stands in the way there. -/
theorem obstacle_of_attend (hrooted : RootedAt tree root base node) {failure : Failure}
    (hincluded : walk.Includes below) (hget : node.get? below = some target)
    (herror : (walk.attend (stopBelow root node below target)).result = .error failure) :
    walk.Obstacle root tree base below failure := by
  have hfound := hrooted.get?_append below
  rw [hget] at hfound
  rcases attend_eq_error_iff.1 herror with
    ⟨mode, entries, cause, -, hdir, hcause, rfl⟩ | ⟨mode, data, htargets, hfile, hedit⟩
  · obtain rfl : target = .dir mode entries := hdir
    exact .unlistable hfound hincluded ((hrooted.openError?_eq hget rfl _).trans hcause)
  · obtain rfl : target = .file mode data := hfile
    have heligible := (eligible_iff_targets hrooted).2 ⟨hincluded, _, hget, htargets⟩
    have hopen := hrooted.openError?_eq hget rfl
    rcases Edit.applyToData_eq_error_iff.1 hedit with
      ⟨cause, hcause, rfl⟩ | ⟨hreadable, hdecode, rfl⟩ |
        ⟨text, cause, hreadable, hdecode, hchanged, hreal, hcause, rfl⟩
    · exact .unreadable heligible ((hopen _).trans hcause)
    · exact .undecodable heligible hfound ((hopen _).trans hreadable) hdecode
    · exact .unwritable hreal heligible hfound ((hopen _).trans hreadable) hdecode hchanged
        ((hopen _).trans hcause)

/-- What stands in the way of a walk are the stops that fail. -/
theorem obstacle_iff (hrooted : RootedAt tree root base node) {failure : Failure} :
    walk.Obstacle root tree base below failure ↔
      ∃ stop ∈ walk.itinerary true root node, stop.location = below ∧
        (walk.attend stop).result = .error failure := by
  rw [exists_stop_iff hrooted]
  · constructor
    · exact Obstacle.attend hrooted
    · rintro ⟨hincluded, target, hget, herror⟩
      exact obstacle_of_attend hrooted hincluded hget herror
  · intro stop herror
    rcases attend_eq_error_iff.1 herror with
      ⟨mode, entries, cause, hincluded, -⟩ | ⟨mode, data, htargets, -⟩
    · exact hincluded
    · exact (targets_iff.1 htargets).1

/-! ## Runs -/

/-- The record of a root itself: it is skipped if it is a link, though what is below it is
walked all the same. -/
def rootRecord (tree : FileTree) (root : Path) : Event :=
  if tree.endsAtLink root then .skippedLink root else .entered root

/-- A run visits the root and puts back what the visit leaves. -/
theorem run_of_rooted (hrooted : RootedAt tree root base node) :
    walk.run root tree =
      { walk.visitRoot root (tree.endsAtLink root) node with
        after := tree.insert base (walk.visit true root node).after } := by
  have hroot : tree.rootAt root = .ok ⟨base, tree.endsAtLink root, node⟩ := by
    simp only [FileTree.rootAt, hrooted.locate_eq, hrooted.get?_eq]
  simp only [run, hroot, runFrom, hrooted.isDir, if_true, Outcome.within, visitRoot]
  cases tree.endsAtLink root <;> rfl

/-- A run is the tour of the itinerary below the root, and changes contents there. -/
theorem run_eq (hrooted : RootedAt tree root base node) :
    (walk.run root tree).result = (walk.tour (walk.itinerary true root node)).result ∧
      (walk.run root tree).after = tree.mapData (FileTree.changeBelow base
        (walk.revisedAt (walk.tour (walk.itinerary true root node)).after)) := by
  rw [run_of_rooted hrooted, walk.visit_eq hrooted.node_wellFormed true root, visitRoot,
    walk.visit_eq hrooted.node_wellFormed true root]
  refine ⟨?_, FileTree.insert_mapData hrooted.wellFormed hrooted.get?_eq _⟩
  cases tree.endsAtLink root <;> rfl

/-- A tour revises nothing but eligible files. -/
theorem revisedAt_of_not_eligible (hrooted : RootedAt tree root base node)
    (hnot : ¬walk.Eligible tree base below) (data : Bytes) :
    walk.revisedAt (walk.tour (walk.itinerary true root node)).after below data = data := by
  rw [revisedAt, if_neg]
  intro hany
  obtain ⟨stop, hmem, hstop⟩ := List.any_eq_true.1 (Bool.and_eq_true_iff.1 hany).2
  obtain ⟨hlocation, htargets⟩ := Bool.and_eq_true_iff.1 hstop
  apply hnot
  rw [eligible_iff hrooted]
  exact ⟨stop, (walk.after_tour_isPrefix _).subset hmem, of_decide_eq_true hlocation, htargets⟩

theorem get?_run_of_not_eligible (hrooted : RootedAt tree root base node)
    (hnot : ∀ rest, ¬walk.Eligible tree base (below ++ rest)) :
    (walk.run root tree).after.get? (base ++ below) = tree.get? (base ++ below) := by
  have hnone : (fun rest => FileTree.changeBelow base
      (walk.revisedAt (walk.tour (walk.itinerary true root node)).after) (base ++ below ++ rest)) =
        fun _ data => data := by
    funext rest data
    rw [List.append_assoc, FileTree.changeBelow_append,
      revisedAt_of_not_eligible hrooted (hnot rest)]
  rw [(run_eq hrooted).2, FileTree.get?_mapData, hnone]
  cases tree.get? (base ++ below) with
  | none => rfl
  | some target => rw [Option.map_some, FileTree.mapData_id]

theorem log_tour_itinerary (hrooted : RootedAt tree root base node) :
    (walk.tour (walk.itinerary true root node)).log =
      .entered root :: (walk.tour (walk.itinerary true root node)).log.tail := by
  obtain ⟨mode, entries, rfl⟩ := hrooted.exists_dir
  cases hcause : root.obstacle? mode.read <;> simp [itinerary, tour, attend, hcause]

/-- The log of a run begins with the root, which is recorded as a link if it is one, and
goes on as the tour does. -/
theorem log_run (hrooted : RootedAt tree root base node) :
    (walk.run root tree).log =
      rootRecord tree root :: (walk.tour (walk.itinerary true root node)).log.tail := by
  rw [run_of_rooted hrooted, visitRoot, walk.visit_eq hrooted.node_wellFormed true root,
    rootRecord]
  cases tree.endsAtLink root
  · exact log_tour_itinerary hrooted
  · rfl

/-- A run whose root leads to no directory fails before anything is looked at, whatever
the walk has to do. -/
theorem exists_run_eq_of_not_rooted (hwf : tree.WellFormed)
    (hnone : ¬∃ base node, RootedAt tree root base node) :
    ∃ failure, (∀ path cause, failure ≠ .unwritable path cause) ∧
      ∀ walk : Walk, walk.run root tree = ⟨tree, [], .error failure⟩ := by
  cases hlocate : tree.locate true root with
  | error cause =>
      refine ⟨.rootInaccessible root cause, nofun, fun walk => ?_⟩
      simp [run, FileTree.rootAt, hlocate, runFrom, Outcome.within]
  | ok base =>
      cases hget : tree.get? base with
      | none =>
          refine ⟨.rootInaccessible root .notFound, nofun, fun walk => ?_⟩
          simp [run, FileTree.rootAt, hlocate, hget, runFrom, Outcome.within]
      | some node =>
          cases hdir : node.isDir with
          | true => exact absurd ⟨base, node, hwf, hlocate, hget, hdir⟩ hnone
          | false =>
              refine ⟨.rootNotDirectory root, nofun, fun walk => ?_⟩
              simp [run, FileTree.rootAt, hlocate, hget, hdir, runFrom, Outcome.within]

/-- A run whose root leads to no directory fails, and changes nothing. -/
theorem run_of_not_rooted (walk : Walk) (hwf : tree.WellFormed)
    (hnone : ¬∃ base node, RootedAt tree root base node) :
    (walk.run root tree).after = tree ∧
      ∃ failure, (walk.run root tree).result = .error failure := by
  obtain ⟨failure, -, hrun⟩ := exists_run_eq_of_not_rooted hwf hnone
  rw [hrun walk]
  exact ⟨rfl, failure, rfl⟩

theorem exists_rootedAt {tally : Tally} (hwf : tree.WellFormed)
    (hok : (walk.run root tree).result = .ok tally) :
    ∃ base node, RootedAt tree root base node := by
  by_cases hrooted : ∃ base node, RootedAt tree root base node
  · exact hrooted
  · obtain ⟨-, failure, herror⟩ := walk.run_of_not_rooted hwf hrooted
    rw [hok] at herror
    contradiction

end Rooted

end ImportSuffix.Walk
