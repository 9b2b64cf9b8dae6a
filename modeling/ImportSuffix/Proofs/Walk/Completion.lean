import ImportSuffix.Proofs.Walk.Scope
import Mathlib.Data.List.Nodup
import Mathlib.Data.List.Perm.Basic

/-!
# What a successful walk has done

A walk that succeeds leaves every eligible file with its revised contents and all else
as it was.  Single edits of the eligible files come to the same, in whatever order they
are made, and the tally of the walk counts these files, those of them with a change, and
all changes.
-/

namespace ImportSuffix

/-- Edits the files at some paths, one after the other, until an edit fails.  The result
has the count of each. -/
def Edit.applyInTurn (edit : Edit) : List Path → FileTree → Outcome FileTree (List Nat)
  | [], tree => ⟨tree, [], .ok []⟩
  | path :: paths, tree =>
      let first := edit.applyToPath path tree
      match first.result with
      | .error failure => ⟨first.after, first.log, .error failure⟩
      | .ok changed =>
          let later := applyInTurn edit paths first.after
          ⟨later.after, first.log ++ later.log, later.result.map (changed :: ·)⟩

namespace Walk

/-- A list of the eligible files, in any order. -/
structure Enumerates (walk : Walk) (tree : FileTree) (base : Location)
    (files : List Location) : Prop where
  nodup : files.Nodup
  mem_iff : ∀ below, below ∈ files ↔ walk.Eligible tree base below

/-- How many statements there are to change in a file below the directory at `base`. -/
def changesBelow (walk : Walk) (tree : FileTree) (base below : Location) : Nat :=
  match tree.get? (base ++ below) with
  | some (.file _ data) => changesIn walk.extension data
  | _ => 0

def reviseFiles (walk : Walk) (tree : FileTree) (base : Location) (files : List Location) :
    FileTree :=
  tree.mapData (FileTree.changeBelow base fun below data =>
    if below ∈ files then reviseData walk.extension data else data)

variable {walk : Walk} {root : Path} {tree node : FileTree} {base below : Location}
  {mode : Mode} {data : Bytes} {done : List Location}

/-! ## One file -/

/-- In a walk that succeeds the edit of every eligible file succeeds. -/
theorem edit_of_ok (hrooted : RootedAt tree root base node) {tally : Tally}
    (hok : (walk.run root tree).result = .ok tally) (heligible : walk.Eligible tree base below)
    (hfile : node.get? below = some (.file mode data)) :
    ∃ changed, (walk.applyToData (root.below below) (node.searchable below && mode.read)
      (node.searchable below && mode.write) data).result = .ok changed := by
  obtain ⟨hincluded, target, hget, htargets⟩ := (eligible_iff_targets hrooted).1 heligible
  obtain rfl : .file mode data = target := Option.some.inj (hfile.symm.trans hget)
  rw [(run_eq hrooted).1] at hok
  obtain ⟨tally', hattend⟩ := (tour_of_ok hok).2 _ (stopBelow_mem hrooted hincluded hget)
  rw [result_attend_of_targets htargets rfl] at hattend
  obtain ⟨changed, hedit, -⟩ := map_eq_ok_iff.1 hattend
  exact ⟨changed, hedit⟩

theorem get?_reviseFiles (hfile : tree.get? (base ++ below) = some (.file mode data))
    (hnew : below ∉ done) :
    (walk.reviseFiles tree base done).get? (base ++ below) = some (.file mode data) := by
  rw [reviseFiles, FileTree.get?_mapData, hfile]
  simp [FileTree.mapData, hnew]

/-- To revise one more file is to put it back with its revised contents. -/
theorem reviseFiles_concat (hwf : tree.WellFormed)
    (hfile : tree.get? (base ++ below) = some (.file mode data)) (hnew : below ∉ done) :
    (walk.reviseFiles tree base done).insert (base ++ below)
        (.file mode (reviseData walk.extension data)) =
      walk.reviseFiles tree base (done ++ [below]) := by
  have hwf' := FileTree.wellFormed_mapData hwf (FileTree.changeBelow base fun below data =>
    if below ∈ done then reviseData walk.extension data else data)
  have hput := FileTree.insert_mapData hwf' (get?_reviseFiles hfile hnew)
    fun _ => reviseData walk.extension
  rw [FileTree.mapData] at hput
  rw [reviseFiles, hput, FileTree.mapData_mapData, reviseFiles]
  apply FileTree.mapData_congr hwf
  intro location mode' data' hget
  by_cases hbase : base <+: location
  · obtain ⟨below', rfl⟩ := hbase
    simp only [FileTree.changeBelow_append]
    by_cases hsame : below' = below
    · subst hsame
      simp [FileTree.changeBelow, hnew]
    · have hother : ¬base ++ below <+: base ++ below' := by
        intro hleads
        have heq := FileTree.eq_of_isPrefix_of_file hfile hget hleads
        exact hsame (List.append_cancel_left heq).symm
      rw [FileTree.changeBelow_of_not_isPrefix hother]
      simp [hsame]
  · have hother : ¬base ++ below <+: location :=
      fun hleads => hbase ((List.prefix_append base below).trans hleads)
    rw [FileTree.changeBelow_of_not_isPrefix hbase, FileTree.changeBelow_of_not_isPrefix hother,
      FileTree.changeBelow_of_not_isPrefix hbase]

/-- By its path a file below the root is edited as the walk does it, if it is not revised
yet. -/
theorem applyToPath_reviseFiles (walk : Walk) (hrooted : RootedAt tree root base node)
    (hfile : node.get? below = some (.file mode data)) (hnew : below ∉ done) :
    walk.applyToPath (root.below below) (walk.reviseFiles tree base done) =
      { walk.applyToData (root.below below) (node.searchable below && mode.read)
          (node.searchable below && mode.write) data with
        after := (walk.reviseFiles tree base done).insert (base ++ below)
          (.file mode (walk.applyToData (root.below below) (node.searchable below && mode.read)
            (node.searchable below && mode.write) data).after) } := by
  have hget : (walk.reviseFiles tree base done).get? (base ++ below) = some (.file mode data) :=
    get?_reviseFiles ((hrooted.get?_append below).trans hfile) hnew
  have hkept : (walk.reviseFiles tree base done).insert (base ++ below) (.file mode data) =
      walk.reviseFiles tree base done :=
    FileTree.insert_self (FileTree.wellFormed_mapData hrooted.wellFormed _) hget
  have hlocate : (walk.reviseFiles tree base done).locate true (root.below below) =
      if (root.below below).isTooLong then .error .nameTooLong
      else if node.searchable below then .ok (base ++ below) else .error .permissionDenied := by
    rw [reviseFiles, FileTree.locate_mapData]
    exact FileTree.locate_below hrooted.locate_eq hrooted.get?_eq hrooted.node_wellFormed hfile rfl
  cases hlong : (root.below below).isTooLong with
  | true =>
      rw [hlong, if_pos rfl] at hlocate
      simp [Edit.applyToPath, hlocate, Edit.applyToData, Path.obstacle?, hlong, hkept]
  | false =>
      cases hsearch : node.searchable below with
      | false =>
          rw [hlong, hsearch] at hlocate
          simp [Edit.applyToPath, hlocate, Edit.applyToData, Path.obstacle?, hlong, hkept]
      | true =>
          rw [hlong, hsearch] at hlocate
          exact Edit.applyToPath_of_file hlocate hget

/-- An edit that succeeds and is no dry run has revised one more file, and otherwise nothing
has changed. -/
theorem insert_applyToData (walk : Walk) (hrooted : RootedAt tree root base node)
    (hfile : node.get? below = some (.file mode data)) (hnew : below ∉ done) (path : Path)
    (readable writable : Bool) :
    (walk.reviseFiles tree base done).insert (base ++ below)
        (.file mode (walk.applyToData path readable writable data).after) =
      match (walk.applyToData path readable writable data).result with
      | .error _ => walk.reviseFiles tree base done
      | .ok _ =>
          walk.reviseFiles tree base (done ++ if walk.dryRun then [] else [below]) := by
  have hfile' := (hrooted.get?_append below).trans hfile
  have hkept : (walk.reviseFiles tree base done).insert (base ++ below) (.file mode data) =
      walk.reviseFiles tree base done :=
    FileTree.insert_self (FileTree.wellFormed_mapData hrooted.wellFormed _)
      (get?_reviseFiles hfile' hnew)
  cases hresult : (walk.applyToData path readable writable data).result with
  | error failure => rw [Edit.applyToData_of_error hresult, hkept]
  | ok changed =>
      rw [(Edit.applyToData_of_ok hresult).2.2.2]
      cases walk.dryRun with
      | true => simpa using hkept
      | false => exact reviseFiles_concat hrooted.wellFormed hfile' hnew

/-- The edit of an eligible file revises it, whatever other files are revised
already. -/
theorem applyToPath_eq (hrooted : RootedAt tree root base node) (hreal : walk.dryRun = false)
    {tally : Tally} (hok : (walk.run root tree).result = .ok tally)
    (heligible : walk.Eligible tree base below) (hnew : below ∉ done) :
    (walk.applyToPath (root.below below) (walk.reviseFiles tree base done)).after =
        walk.reviseFiles tree base (done ++ [below]) ∧
      (walk.applyToPath (root.below below) (walk.reviseFiles tree base done)).result =
        .ok (walk.changesBelow tree base below) := by
  obtain ⟨mode, data, hfile⟩ := heligible.isFile
  have hget := (hrooted.get?_append below).symm.trans hfile
  obtain ⟨changed, hedit⟩ := edit_of_ok hrooted hok heligible hget
  have hinsert := walk.insert_applyToData hrooted hget hnew (root.below below)
    (node.searchable below && mode.read) (node.searchable below && mode.write)
  rw [hedit, hreal] at hinsert
  rw [walk.applyToPath_reviseFiles hrooted hget hnew]
  refine ⟨hinsert, ?_⟩
  rw [hedit, (Edit.applyToData_of_ok hedit).2.2.1, changesBelow, hfile]

/-! ## All of them -/

/-- The edits of eligible files one after the other revise them all. -/
theorem applyInTurn_eq (hrooted : RootedAt tree root base node) (hreal : walk.dryRun = false)
    {tally : Tally} (hok : (walk.run root tree).result = .ok tally)
    (done : List Location) {files : List Location} (hnodup : (done ++ files).Nodup)
    (heligible : ∀ file ∈ files, walk.Eligible tree base file) :
    (walk.applyInTurn (files.map root.below) (walk.reviseFiles tree base done)).after =
        walk.reviseFiles tree base (done ++ files) ∧
      (walk.applyInTurn (files.map root.below) (walk.reviseFiles tree base done)).result =
        .ok (files.map (walk.changesBelow tree base)) := by
  induction files generalizing done with
  | nil => simp [Edit.applyInTurn]
  | cons file files ih =>
      obtain ⟨hfirst, hrest⟩ := List.forall_mem_cons.1 heligible
      have hnew : file ∉ done := fun hmem =>
        (List.nodup_append.1 hnodup).2.2 file hmem file List.mem_cons_self rfl
      obtain ⟨hafter, hresult⟩ := applyToPath_eq hrooted hreal hok hfirst hnew
      rw [List.append_cons] at hnodup ⊢
      obtain ⟨hafter', hresult'⟩ := ih (done ++ [file]) hnodup hrest
      simp only [List.map_cons, Edit.applyInTurn, hafter, hresult]
      exact ⟨hafter', by rw [hresult']; rfl⟩

theorem reviseFiles_nil : walk.reviseFiles tree base [] = tree := by
  have hnone : (FileTree.changeBelow base fun below data =>
      if below ∈ [] then reviseData walk.extension data else data) = fun _ data => data := by
    funext location data
    simp [FileTree.changeBelow]
  rw [reviseFiles, hnone, FileTree.mapData_id]

/-- A walk that succeeds has revised the files of any enumeration. -/
theorem after_run_eq (hrooted : RootedAt tree root base node) (hreal : walk.dryRun = false)
    {tally : Tally} (hok : (walk.run root tree).result = .ok tally) :
    (walk.run root tree).after = tree.mapData (FileTree.changeBelow base fun below data =>
      if walk.Eligible tree base below then reviseData walk.extension data else data) := by
  obtain ⟨hresult, hafter⟩ := walk.run_eq hrooted
  rw [hresult] at hok
  rw [hafter, (tour_of_ok hok).1]
  congr 2
  funext below data
  have heligible : (walk.itinerary true root node).any
      (fun stop => stop.location = below && walk.targets stop) = true ↔
        walk.Eligible tree base below := by
    rw [eligible_iff hrooted]
    simp
  rw [revisedAt, hreal, Bool.not_false, Bool.true_and]
  congr 1
  rw [heligible]

theorem enumerates_itinerary (walk : Walk) (hrooted : RootedAt tree root base node) :
    walk.Enumerates tree base
      (((walk.itinerary true root node).filter walk.targets).map Stop.location) := by
  constructor
  · have hpairwise := (walk.pairwise_itinerary hrooted.node_wellFormed true root).filter
      walk.targets
    rw [List.Nodup, List.pairwise_map]
    apply hpairwise.imp
    intro earlier later hless heq
    rw [heq] at hless
    exact List.lt_irrefl _ hless
  · intro below
    rw [eligible_iff hrooted]
    simp only [List.mem_map, List.mem_filter]
    constructor
    · rintro ⟨stop, ⟨hmem, htargets⟩, rfl⟩
      exact ⟨stop, hmem, rfl, htargets⟩
    · rintro ⟨stop, hmem, rfl, htargets⟩
      exact ⟨stop, ⟨hmem, htargets⟩, rfl⟩

theorem changesBelow_eq (hrooted : RootedAt tree root base node) {stop : Stop}
    (hmem : stop ∈ (walk.itinerary true root node).filter walk.targets) :
    walk.changesBelow tree base stop.location = walk.changesAt stop := by
  obtain ⟨hmem, htargets⟩ := List.mem_filter.1 hmem
  have hcomes := (mem_itinerary_iff hrooted.node_wellFormed).1
    ⟨hmem, (targets_iff.1 htargets).1⟩
  rw [changesBelow, hrooted.get?_append, hcomes.get?_eq, changesAt]
  cases stop.node <;> rfl

/-- The tally of a walk that succeeds counts the eligible files, those of them with a
change, and all changes. -/
theorem tally_eq (hrooted : RootedAt tree root base node) {tally : Tally}
    (hok : (walk.run root tree).result = .ok tally) {files : List Location}
    (hfiles : walk.Enumerates tree base files) :
    tally.scanned = files.length ∧
      tally.revised = files.countP (fun file => walk.changesBelow tree base file ≠ 0) ∧
      tally.changed = (files.map (walk.changesBelow tree base)).sum := by
  have hcanonical := walk.enumerates_itinerary hrooted
  have hperm := (List.perm_ext_iff_of_nodup hfiles.nodup hcanonical.nodup).2 fun below =>
    (hfiles.mem_iff below).trans (hcanonical.mem_iff below).symm
  have hchanges : (((walk.itinerary true root node).filter walk.targets).map
      Stop.location).map (walk.changesBelow tree base) =
        ((walk.itinerary true root node).filter walk.targets).map walk.changesAt := by
    rw [List.map_map]
    exact List.map_congr_left fun stop hmem => changesBelow_eq hrooted hmem
  rw [(run_eq hrooted).1] at hok
  obtain ⟨hscanned, hrevised, hchanged⟩ := tally_of_ok hok
  refine ⟨?_, ?_, ?_⟩
  · rw [hscanned, hperm.length_eq, List.length_map]
  · rw [hrevised, hperm.countP_eq, List.countP_map]
    apply List.countP_congr
    intro stop hmem
    simp [changesBelow_eq hrooted hmem]
  · calc
      tally.changed = (((walk.itinerary true root node).filter walk.targets).map
          walk.changesAt).sum := hchanged
      _ = ((((walk.itinerary true root node).filter walk.targets).map Stop.location).map
          (walk.changesBelow tree base)).sum := by rw [hchanges]
      _ = (files.map (walk.changesBelow tree base)).sum := (hperm.map _).sum_nat.symm

/-- A walk that succeeds and is no dry run found its root, and every eligible file is
UTF-8 and has its revised contents afterwards, while all else is as it was.  Single edits
of the eligible files in any order come to the same tree, each with its count, and the
tally sums up the counts. -/
theorem run_revises_eligible_files (walk : Walk) (root : Path) (tree : FileTree)
    (hwf : tree.WellFormed) (hreal : walk.dryRun = false) {tally : Tally}
    (hok : (walk.run root tree).result = .ok tally) :
    ∃ base mode entries, tree.locate true root = .ok base ∧
      tree.get? base = some (.dir mode entries) ∧
      (∀ below mode data, walk.Eligible tree base below →
        tree.get? (base ++ below) = some (.file mode data) →
          ∃ text, Utf8.decode? data = some text) ∧
      (walk.run root tree).after = tree.mapData (FileTree.changeBelow base fun below data =>
        if walk.Eligible tree base below then reviseData walk.extension data else data) ∧
      (∃ files, walk.Enumerates tree base files) ∧
      ∀ files, walk.Enumerates tree base files →
        (walk.applyInTurn (files.map root.below) tree).after = (walk.run root tree).after ∧
        (walk.applyInTurn (files.map root.below) tree).result =
          .ok (files.map (walk.changesBelow tree base)) ∧
        tally.scanned = files.length ∧
        tally.revised = files.countP (fun file => walk.changesBelow tree base file ≠ 0) ∧
        tally.changed = (files.map (walk.changesBelow tree base)).sum := by
  obtain ⟨base, node, hrooted⟩ := exists_rootedAt hwf hok
  obtain ⟨mode, entries, rfl⟩ := hrooted.exists_dir
  have hafter := after_run_eq hrooted hreal hok
  refine ⟨base, mode, entries, hrooted.locate_eq, hrooted.get?_eq, ?_, hafter,
    ⟨_, walk.enumerates_itinerary hrooted⟩, ?_⟩
  · intro below mode data heligible hfile
    rw [hrooted.get?_append] at hfile
    obtain ⟨changed, hedit⟩ := edit_of_ok hrooted hok heligible hfile
    exact (Edit.applyToData_of_ok hedit).2.1
  · intro files hfiles
    obtain ⟨hturn, hresult⟩ := applyInTurn_eq hrooted hreal hok [] hfiles.nodup
      fun file hmem => (hfiles.mem_iff file).1 hmem
    rw [reviseFiles_nil] at hturn hresult
    refine ⟨?_, hresult, tally_eq hrooted hok hfiles⟩
    rw [hturn, hafter, reviseFiles]
    congr 2
    funext below data
    rw [List.nil_append]
    exact if_congr (hfiles.mem_iff below) rfl rfl

/-- A site with a file to change in a directory, one that is fine, one behind a link, and
one in a directory that is left out. -/
def nestedSite : FileTree :=
  .dir {}
    [(Utf8.encode "lib".toList, .dir {}
        [(Utf8.encode "a.js".toList, .file {} (Utf8.encode "import b from './b';".toList)),
          (Utf8.encode "b.ts".toList, .file {} (Utf8.encode "import a from './a';".toList))]),
      (Utf8.encode "link.js".toList, .link (Utf8.encode "lib/a.js".toList)),
      (Utf8.encode "main.js".toList, .file {} (Utf8.encode "import a from './a.js';".toList)),
      (Utf8.encode "vendor".toList, .dir {}
        [(Utf8.encode "c.js".toList, .file {} (Utf8.encode "import d from './d';".toList))])]

/-- Without `vendor` there are two eligible files in the site, and the edits of both leave
what the walk leaves: `lib/a.js` with the extension, and all else as it was. -/
theorem run_revises_eligible_files_nestedSite :
    nestedSite.WellFormed ∧
      (run ⟨⟨"js".toList, false⟩, ["vendor".toList]⟩ Path.here nestedSite).result =
        .ok ⟨2, 1, 1⟩ ∧
      ∃ base files, Enumerates ⟨⟨"js".toList, false⟩, ["vendor".toList]⟩ nestedSite base files ∧
        files.length = 2 ∧
        (Edit.applyInTurn ⟨"js".toList, false⟩ (files.map (Path.below Path.here))
            nestedSite).after =
          (run ⟨⟨"js".toList, false⟩, ["vendor".toList]⟩ Path.here nestedSite).after ∧
        (run ⟨⟨"js".toList, false⟩, ["vendor".toList]⟩ Path.here nestedSite).after =
          nestedSite.writeFile [Utf8.encode "lib".toList, Utf8.encode "a.js".toList]
            (Utf8.encode "import b from './b.js';".toList) := by
  have hwf : nestedSite.WellFormed := by decide +kernel
  have hok : (run ⟨⟨"js".toList, false⟩, ["vendor".toList]⟩ Path.here nestedSite).result =
      .ok ⟨2, 1, 1⟩ := by decide +kernel
  obtain ⟨base, -, -, -, -, -, -, ⟨files, hfiles⟩, hall⟩ :=
    run_revises_eligible_files ⟨⟨"js".toList, false⟩, ["vendor".toList]⟩ Path.here nestedSite
      hwf rfl hok
  obtain ⟨hafter, -, hscanned, -⟩ := hall files hfiles
  exact ⟨hwf, hok, base, files, hfiles, hscanned.symm, hafter, by decide +kernel⟩

end Walk

end ImportSuffix
