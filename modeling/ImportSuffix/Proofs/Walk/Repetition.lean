import ImportSuffix.Proofs.Walk.FirstObstacle

/-!
# Walking a tree again

A walk can be repeated over a tree that is revised in part.  Files that have their
revised contents already are scanned and left alone, and the walk ends where it would
have ended without them (`after_run_reviseFiles`).  They are not written, so it does not
matter whether they could be.

It follows that a second walk changes nothing, and that a walk that was cut short can be
taken up again once what stood in its way is gone.
-/

namespace ImportSuffix

namespace FileTree

/-- A repair that has nothing to do with the contents of some files: it comes to the same
before these are changed and after it. -/
def Spares (repair : FileTree → FileTree) (files : Location → Prop) : Prop :=
  ∀ (tree : FileTree) (change : Location → Bytes → Bytes),
    (∀ location data, ¬files location → change location data = data) →
      repair (tree.mapData change) = (repair tree).mapData change

theorem spares_setMode (location : Location) (mode : Mode) (files : Location → Prop) :
    Spares (fun tree => tree.setMode location mode) files := by
  intro tree change _
  apply alterAt_mapData
  intro node
  cases node with
  | none => rfl
  | some node => cases node <;> rfl

/-- Whatever is done at a location spares the files that are elsewhere. -/
theorem spares_alterAt (location : Location)
    (alteration : Option FileTree → Option FileTree) {files : Location → Prop}
    (helsewhere : ∀ file, files file → ¬location <+: file) :
    Spares (fun tree => tree.alterAt location alteration) files := by
  intro tree change hchange
  apply alterAt_mapData
  have hnone : (fun below => change (location ++ below)) = fun _ data => data := by
    funext below data
    apply hchange
    intro hfile
    exact helsewhere _ hfile (List.prefix_append location below)
  have hid : mapData (fun _ data => data) = id := funext mapData_id
  intro node
  rw [hnone, hid, Option.map_id_fun, id, id]

theorem Spares.comp {repair repair' : FileTree → FileTree} {files : Location → Prop}
    (hspares : Spares repair files) (hspares' : Spares repair' files) :
    Spares (fun tree => repair' (repair tree)) files := by
  intro tree change hchange
  change repair' (repair (tree.mapData change)) = (repair' (repair tree)).mapData change
  rw [hspares tree change hchange, hspares' _ change hchange]

end FileTree

namespace Walk

variable {walk : Walk} {root : Path} {tree node : FileTree} {base below : Location}

/-! ## Changed contents in the scope of a walk -/

section Contents

variable {change : Location → Bytes → Bytes}

theorem RootedAt.mapData (hrooted : RootedAt tree root base node)
    (change : Location → Bytes → Bytes) :
    RootedAt (tree.mapData change) root base
      (node.mapData fun below => change (base ++ below)) where
  wellFormed := FileTree.wellFormed_mapData hrooted.wellFormed change
  locate_eq := by rw [FileTree.locate_mapData, hrooted.locate_eq]
  get?_eq := by rw [FileTree.get?_mapData, hrooted.get?_eq, Option.map_some]
  isDir := by
    obtain ⟨mode, entries, rfl⟩ := hrooted.exists_dir
    rfl

theorem eligible_mapData :
    walk.Eligible (tree.mapData change) base below ↔ walk.Eligible tree base below := by
  constructor
  · rintro ⟨⟨mode, data, hfile⟩, hincluded, hextension⟩
    obtain ⟨old, hold, -⟩ := FileTree.get?_mapData_eq_file_iff.1 hfile
    exact ⟨⟨mode, old, hold⟩, hincluded, hextension⟩
  · rintro ⟨⟨mode, data, hfile⟩, hincluded, hextension⟩
    exact ⟨⟨mode, _, FileTree.get?_mapData_eq_file_iff.2 ⟨data, hfile, rfl⟩⟩, hincluded,
      hextension⟩

theorem enumerates_mapData {files : List Location} :
    walk.Enumerates (tree.mapData change) base files ↔ walk.Enumerates tree base files := by
  constructor
  · intro hfiles
    exact ⟨hfiles.nodup, fun below => (hfiles.mem_iff below).trans eligible_mapData⟩
  · intro hfiles
    exact ⟨hfiles.nodup, fun below => (hfiles.mem_iff below).trans eligible_mapData.symm⟩

end Contents

/-! ## Files that are revised already -/

section Revised

variable {done : List Location}

/-- A file that was there before is there with its contents revised or not. -/
theorem get?_reviseFiles_eq_file_iff {mode : Mode} {data : Bytes} :
    (walk.reviseFiles tree base done).get? (base ++ below) = some (.file mode data) ↔
      ∃ old, tree.get? (base ++ below) = some (.file mode old) ∧
        (if below ∈ done then reviseData walk.extension old else old) = data := by
  rw [reviseFiles, FileTree.get?_mapData_eq_file_iff]
  simp only [FileTree.changeBelow_append]

/-- A file that is revised already has nothing left to change. -/
theorem changesBelow_reviseFiles (hunquoted : Unquoted walk.extension) :
    walk.changesBelow (walk.reviseFiles tree base done) base below =
      if below ∈ done then 0 else walk.changesBelow tree base below := by
  rw [changesBelow, changesBelow, reviseFiles, FileTree.get?_mapData]
  cases tree.get? (base ++ below) with
  | none => simp
  | some node =>
      cases node with
      | file mode data =>
          by_cases hdone : below ∈ done <;>
            simp [FileTree.mapData, hdone, changesIn_reviseData hunquoted]
      | dir mode entries => simp [FileTree.mapData]
      | link target => simp [FileTree.mapData]
      | fifo mode => simp [FileTree.mapData]

/-- Revised files bring no new obstacle. -/
theorem obstacle_of_reviseFiles (hunquoted : Unquoted walk.extension) {failure : Failure}
    (hobstacle : walk.Obstacle root (walk.reviseFiles tree base done) base below failure) :
    walk.Obstacle root tree base below failure := by
  cases hobstacle with
  | unlistable hdir hincluded hcause =>
      obtain ⟨old, hold, -⟩ := FileTree.get?_mapData_eq_dir_iff.1 hdir
      rw [reviseFiles, FileTree.openError?_mapData] at hcause
      exact .unlistable hold hincluded hcause
  | unreadable heligible hcause =>
      rw [reviseFiles, FileTree.openError?_mapData] at hcause
      exact .unreadable (eligible_mapData.1 heligible) hcause
  | @undecodable mode data heligible hfile hreadable hdecode =>
      obtain ⟨old, hold, hdata⟩ := get?_reviseFiles_eq_file_iff.1 hfile
      rw [reviseFiles, FileTree.openError?_mapData] at hreadable
      apply Obstacle.undecodable (eligible_mapData.1 heligible) hold hreadable
      cases hdecode' : Utf8.decode? old with
      | none => rfl
      | some text =>
          rw [← hdata] at hdecode
          split at hdecode
          next => simp [decode?_reviseData hdecode'] at hdecode
          next => simp [hdecode'] at hdecode
  | @unwritable mode data text cause hreal heligible hfile hreadable hdecode hchanged hcause =>
      obtain ⟨old, hold, hdata⟩ := get?_reviseFiles_eq_file_iff.1 hfile
      rw [reviseFiles, FileTree.openError?_mapData] at hreadable hcause
      have hnew : below ∉ done := by
        intro hdone
        rw [if_pos hdone] at hdata
        have hnone := changesIn_reviseData hunquoted old
        rw [hdata] at hnone
        simp only [changesIn, hdecode, List.length_eq_zero_iff] at hnone
        exact hchanged hnone
      rw [if_neg hnew] at hdata
      subst hdata
      exact .unwritable hreal (eligible_mapData.1 heligible) hold hreadable hdecode hchanged
        hcause

/-- A walk that succeeds also succeeds when some files are revised already. -/
theorem run_reviseFiles_of_ok (hrooted : RootedAt tree root base node)
    (hunquoted : Unquoted walk.extension) {tally : Tally}
    (hok : (walk.run root tree).result = .ok tally) (done : List Location) :
    ∃ tally', (walk.run root (walk.reviseFiles tree base done)).result = .ok tally' := by
  cases hresult : (walk.run root (walk.reviseFiles tree base done)).result with
  | ok tally' => exact ⟨tally', rfl⟩
  | error failure =>
      obtain ⟨first, hobstacle, -⟩ := exists_first_of_error (hrooted.mapData _) hresult
      exact absurd (obstacle_of_reviseFiles hunquoted hobstacle)
        (not_obstacle_of_ok hrooted hok first failure)

/-- It ends where it would have ended without them. -/
theorem after_run_reviseFiles (hrooted : RootedAt tree root base node)
    (hreal : walk.dryRun = false) (hunquoted : Unquoted walk.extension) {tally : Tally}
    (hok : (walk.run root tree).result = .ok tally)
    (hdone : ∀ below ∈ done, walk.Eligible tree base below) :
    (walk.run root (walk.reviseFiles tree base done)).after = (walk.run root tree).after := by
  obtain ⟨tally', hok'⟩ := run_reviseFiles_of_ok hrooted hunquoted hok done
  rw [reviseFiles] at hok' ⊢
  rw [after_run_eq (hrooted.mapData _) hreal hok', after_run_eq hrooted hreal hok,
    FileTree.mapData_mapData]
  congr 1
  funext location data
  by_cases hbase : base <+: location
  · obtain ⟨below, rfl⟩ := hbase
    simp only [FileTree.changeBelow_append, eligible_mapData]
    by_cases hmem : below ∈ done
    · simp [hmem, hdone below hmem, reviseData_reviseData hunquoted]
    · simp [hmem]
  · simp only [FileTree.changeBelow_of_not_isPrefix hbase]

theorem sum_map_ite_zero (files done : List Location) (count : Location → Nat) :
    (files.map fun file => if file ∈ done then 0 else count file).sum =
      ((files.filter (· ∉ done)).map count).sum := by
  induction files with
  | nil => rfl
  | cons file files ih =>
      rw [List.map_cons, List.sum_cons, ih]
      by_cases hmem : file ∈ done <;> simp [hmem]

/-- The files that are revised already are scanned, and the others are counted. -/
theorem tally_reviseFiles (hrooted : RootedAt tree root base node)
    (hunquoted : Unquoted walk.extension) {tally : Tally}
    (hok : (walk.run root (walk.reviseFiles tree base done)).result = .ok tally)
    {files : List Location} (hfiles : walk.Enumerates tree base files) :
    tally.scanned = files.length ∧
      tally.revised =
        (files.filter (· ∉ done)).countP (fun file => walk.changesBelow tree base file ≠ 0) ∧
      tally.changed = ((files.filter (· ∉ done)).map (walk.changesBelow tree base)).sum := by
  obtain ⟨hscanned, hrevised, hchanged⟩ :=
    tally_eq (hrooted.mapData _) hok (enumerates_mapData.2 hfiles)
  have hchanges : walk.changesBelow (walk.reviseFiles tree base done) base =
      fun file => if file ∈ done then 0 else walk.changesBelow tree base file := by
    funext file
    exact changesBelow_reviseFiles hunquoted
  refine ⟨hscanned, ?_, ?_⟩
  · rw [hrevised, List.countP_filter]
    apply List.countP_congr
    intro file _
    change decide (walk.changesBelow (walk.reviseFiles tree base done) base file ≠ 0) = true ↔ _
    rw [hchanges]
    by_cases hmem : file ∈ done <;> simp [hmem]
  · rw [← sum_map_ite_zero, ← hchanges]
    exact hchanged

/-- What a walk makes of a tree in which some of the eligible files are revised
already. -/
theorem run_reviseFiles_eq (hrooted : RootedAt tree root base node)
    (hreal : walk.dryRun = false) (hunquoted : Unquoted walk.extension) {tally : Tally}
    (hok : (walk.run root tree).result = .ok tally)
    (hdone : ∀ below ∈ done, walk.Eligible tree base below) :
    (walk.run root (walk.reviseFiles tree base done)).after = (walk.run root tree).after ∧
      ∃ tally', (walk.run root (walk.reviseFiles tree base done)).result = .ok tally' ∧
        tally'.scanned = tally.scanned ∧
        ∀ files, walk.Enumerates tree base files →
          tally'.revised = (files.filter (· ∉ done)).countP
            (fun file => walk.changesBelow tree base file ≠ 0) ∧
          tally'.changed =
            ((files.filter (· ∉ done)).map (walk.changesBelow tree base)).sum := by
  obtain ⟨tally', hok'⟩ := run_reviseFiles_of_ok hrooted hunquoted hok done
  refine ⟨after_run_reviseFiles hrooted hreal hunquoted hok hdone, tally', hok', ?_, ?_⟩
  · have hfiles := walk.enumerates_itinerary hrooted
    rw [(tally_reviseFiles hrooted hunquoted hok' hfiles).1, (tally_eq hrooted hok hfiles).1]
  · intro files hfiles
    exact (tally_reviseFiles hrooted hunquoted hok' hfiles).2

/-- After a walk that succeeded there is nothing left to do. -/
theorem run_after_run (hrooted : RootedAt tree root base node)
    (hreal : walk.dryRun = false) (hunquoted : Unquoted walk.extension) {tally : Tally}
    (hok : (walk.run root tree).result = .ok tally) :
    (walk.run root (walk.run root tree).after).after = (walk.run root tree).after ∧
      (walk.run root (walk.run root tree).after).result = .ok ⟨tally.scanned, 0, 0⟩ := by
  obtain ⟨files, hfiles⟩ : ∃ files, walk.Enumerates tree base files :=
    ⟨_, walk.enumerates_itinerary hrooted⟩
  have hall : (walk.run root tree).after = walk.reviseFiles tree base files := by
    rw [after_run_eq hrooted hreal hok, reviseFiles]
    simp only [hfiles.mem_iff]
  obtain ⟨hafter, ⟨scanned, revised, changed⟩, hok', hscanned, hcounts⟩ :=
    run_reviseFiles_eq hrooted hreal hunquoted hok
      fun below hmem => (hfiles.mem_iff below).1 hmem
  have hnone : files.filter (· ∉ files) = [] := by simp
  have hcounts' := hcounts files hfiles
  rw [hnone] at hcounts'
  obtain rfl : scanned = tally.scanned := hscanned
  obtain rfl : revised = 0 := hcounts'.1
  obtain rfl : changed = 0 := hcounts'.2
  rw [← hall] at hafter hok'
  exact ⟨hafter, hok'⟩

end Revised

/-! ## After a walk that was cut short -/

/-- A walk changes the contents of the file at a location. -/
def Rewrites (walk : Walk) (root : Path) (tree : FileTree) (location : Location) : Prop :=
  ∃ mode data data', tree.get? location = some (.file mode data) ∧
    (walk.run root tree).after.get? location = some (.file mode data') ∧ data ≠ data'

/-- Every run, failed or not, gives some files their revised contents. -/
theorem exists_after_run_eq (walk : Walk) (root : Path) (hwf : tree.WellFormed) :
    ∃ change : Location → Bytes → Bytes, (walk.run root tree).after = tree.mapData change ∧
      ∀ location data, change location data = data ∨
        change location data = reviseData walk.extension data := by
  by_cases hrooted : ∃ base node, RootedAt tree root base node
  · obtain ⟨base, node, hrooted⟩ := hrooted
    refine ⟨_, (run_eq hrooted).2, fun location data => ?_⟩
    rw [FileTree.changeBelow]
    split
    next =>
      rw [revisedAt]
      split
      next => exact .inr rfl
      next => exact .inl rfl
    next => exact .inl rfl
  · refine ⟨fun _ data => data, ?_, fun _ _ => .inl rfl⟩
    rw [(walk.run_of_not_rooted hwf hrooted).1, FileTree.mapData_id]

open Classical in
/-- The files that a run changes have their revised contents after it. -/
theorem after_run_eq_rewrites (walk : Walk) (root : Path) (hwf : tree.WellFormed) :
    (walk.run root tree).after = tree.mapData fun location data =>
      if walk.Rewrites root tree location then reviseData walk.extension data else data := by
  obtain ⟨change, hafter, hchange⟩ := walk.exists_after_run_eq root hwf
  rw [hafter]
  apply FileTree.mapData_congr hwf
  intro location mode data hfile
  have hfile' : (walk.run root tree).after.get? location =
      some (.file mode (change location data)) := by
    rw [hafter]
    exact FileTree.get?_mapData_eq_file_iff.2 ⟨data, hfile, rfl⟩
  split
  next hrewrites =>
    obtain ⟨mode', old, new, hold, hnew, hne⟩ := hrewrites
    obtain ⟨rfl, rfl⟩ := FileTree.file.inj (Option.some.inj (hold.symm.trans hfile))
    obtain ⟨-, rfl⟩ := FileTree.file.inj (Option.some.inj (hnew.symm.trans hfile'))
    exact (hchange location _).resolve_left (Ne.symm hne)
  next hkept =>
    by_contra hne
    exact hkept ⟨mode, data, _, hfile, hfile', Ne.symm hne⟩

open Classical in
/-- A tree in which the files that an earlier walk changed have their revised contents
has some of its eligible files revised. -/
theorem exists_reviseFiles_eq (hrooted : RootedAt tree root base node) {broken : FileTree}
    (heligible : ∀ location, walk.Rewrites root broken location →
      ∃ below, location = base ++ below ∧ walk.Eligible tree base below) :
    ∃ done : List Location, (∀ below ∈ done, walk.Eligible tree base below) ∧
      tree.mapData (fun location data =>
          if walk.Rewrites root broken location then reviseData walk.extension data else data) =
        walk.reviseFiles tree base done := by
  have hfiles := walk.enumerates_itinerary hrooted
  generalize ((walk.itinerary true root node).filter walk.targets).map Stop.location = files
    at hfiles
  refine ⟨files.filter fun below => walk.Rewrites root broken (base ++ below), ?_, ?_⟩
  · intro below hmem
    exact (hfiles.mem_iff below).1 (List.mem_filter.1 hmem).1
  · rw [reviseFiles]
    congr 1
    funext location data
    by_cases hbase : base <+: location
    · obtain ⟨below, rfl⟩ := hbase
      rw [FileTree.changeBelow_append]
      congr 1
      rw [List.mem_filter, decide_eq_true_eq, eq_iff_iff]
      refine ⟨fun hrewrites => ⟨?_, hrewrites⟩, And.right⟩
      obtain ⟨below', hbelow, helig⟩ := heligible _ hrewrites
      rw [List.append_cancel_left hbelow]
      exact (hfiles.mem_iff below').2 helig
    · rw [FileTree.changeBelow_of_not_isPrefix hbase, if_neg]
      intro hrewrites
      obtain ⟨below, rfl, -⟩ := heligible location hrewrites
      exact hbase (List.prefix_append base below)

theorem Rewrites.eligible (hrooted : RootedAt tree root base node) {location : Location}
    (hrewrites : walk.Rewrites root tree location) :
    ∃ below, location = base ++ below ∧ walk.Eligible tree base below := by
  obtain ⟨mode, data, data', hfile, hfile', hne⟩ := hrewrites
  rw [(run_eq hrooted).2] at hfile'
  obtain ⟨old, hold, hchange⟩ := FileTree.get?_mapData_eq_file_iff.1 hfile'
  obtain ⟨-, rfl⟩ := FileTree.file.inj (Option.some.inj (hfile.symm.trans hold))
  by_cases hbase : base <+: location
  · obtain ⟨below, rfl⟩ := hbase
    refine ⟨below, rfl, ?_⟩
    by_contra hnot
    rw [FileTree.changeBelow_append, revisedAt_of_not_eligible hrooted hnot] at hchange
    exact hne hchange
  · rw [FileTree.changeBelow_of_not_isPrefix hbase] at hchange
    exact absurd hchange hne

/-- A walk that succeeds and is no dry run can be repeated and resumed.  If some of the
eligible files are revised beforehand, whichever these are, it succeeds all the same,
ends in the same tree and scans as many files, and it counts what is changed in the
others.  So a second walk changes nothing.  And if a walk of a broken tree was cut short,
the tree is repaired without regard to the files that were changed by then, and these are
still eligible, then a walk ends where it would have ended had there been no earlier
one. -/
theorem run_resumes (walk : Walk) (root : Path) (tree : FileTree) (hwf : tree.WellFormed)
    (hreal : walk.dryRun = false) (hunquoted : Unquoted walk.extension) {tally : Tally}
    (hok : (walk.run root tree).result = .ok tally) :
    ∃ base mode entries, tree.locate true root = .ok base ∧
      tree.get? base = some (.dir mode entries) ∧
      (∃ files, walk.Enumerates tree base files) ∧
      (∀ done : List Location, (∀ below ∈ done, walk.Eligible tree base below) →
        (walk.run root (walk.reviseFiles tree base done)).after = (walk.run root tree).after ∧
        ∃ tally', (walk.run root (walk.reviseFiles tree base done)).result = .ok tally' ∧
          tally'.scanned = tally.scanned ∧
          ∀ files, walk.Enumerates tree base files →
            tally'.revised = (files.filter (· ∉ done)).countP
              (fun file => walk.changesBelow tree base file ≠ 0) ∧
            tally'.changed =
              ((files.filter (· ∉ done)).map (walk.changesBelow tree base)).sum) ∧
      ((walk.run root (walk.run root tree).after).after = (walk.run root tree).after ∧
        (walk.run root (walk.run root tree).after).result = .ok ⟨tally.scanned, 0, 0⟩) ∧
      ∀ (broken : FileTree) (repair : FileTree → FileTree), broken.WellFormed →
        repair broken = tree → FileTree.Spares repair (walk.Rewrites root broken) →
        (∀ location, walk.Rewrites root broken location →
          ∃ below, location = base ++ below ∧ walk.Eligible tree base below) →
        (walk.run root (repair (walk.run root broken).after)).after =
            (walk.run root tree).after ∧
          ∃ tally', (walk.run root (repair (walk.run root broken).after)).result = .ok tally' ∧
            tally'.scanned = tally.scanned := by
  obtain ⟨base, node, hrooted⟩ := exists_rootedAt hwf hok
  obtain ⟨mode, entries, rfl⟩ := hrooted.exists_dir
  refine ⟨base, mode, entries, hrooted.locate_eq, hrooted.get?_eq,
    ⟨_, walk.enumerates_itinerary hrooted⟩, ?_, run_after_run hrooted hreal hunquoted hok, ?_⟩
  · intro done hdone
    exact run_reviseFiles_eq hrooted hreal hunquoted hok hdone
  · intro broken repair hbroken hrepair hspares heligible
    obtain ⟨done, hdone, hrevised⟩ := exists_reviseFiles_eq hrooted heligible
    have hrepaired : repair (walk.run root broken).after = walk.reviseFiles tree base done := by
      rw [walk.after_run_eq_rewrites root hbroken, hspares, hrepair, hrevised]
      intro location data hkept
      rw [if_neg hkept]
    obtain ⟨hafter, tally', hok', hscanned, -⟩ :=
      run_reviseFiles_eq hrooted hreal hunquoted hok hdone
    rw [hrepaired]
    exact ⟨hafter, tally', hok', hscanned⟩

/-- The repair of `brokenSite`: `a-b.js` is written anew, and `c.js` may be written. -/
def mend (tree : FileTree) : FileTree :=
  (tree.writeFile [Utf8.encode "a-b.js".toList]
    (Utf8.encode "import a from './a';".toList)).setMode [Utf8.encode "c.js".toList] {}

/-- The files of `brokenSite`, all of them eligible. -/
def brokenFiles : List Location :=
  [[Utf8.encode "a".toList, Utf8.encode "b.js".toList], [Utf8.encode "a-b.js".toList],
    [Utf8.encode "c.js".toList]]

/-- The walk of the broken site has changed `a/b.js` when it ends.  Once the site is
mended, a walk goes on from there as if nothing had happened. -/
theorem run_resumes_brokenSite :
    (mend brokenSite).WellFormed ∧ Unquoted "js".toList ∧
      (run ⟨⟨"js".toList, false⟩, []⟩ Path.here (mend brokenSite)).result = .ok ⟨3, 3, 3⟩ ∧
      (run ⟨⟨"js".toList, false⟩, []⟩ Path.here
          (mend (run ⟨⟨"js".toList, false⟩, []⟩ Path.here brokenSite).after)).after =
        (run ⟨⟨"js".toList, false⟩, []⟩ Path.here (mend brokenSite)).after := by
  have hbroken : brokenSite.WellFormed := by decide +kernel
  have hwf : (mend brokenSite).WellFormed := by decide +kernel
  have hunquoted : Unquoted "js".toList := by decide
  have hok : (run ⟨⟨"js".toList, false⟩, []⟩ Path.here (mend brokenSite)).result =
      .ok ⟨3, 3, 3⟩ := by decide +kernel
  have hrooted : RootedAt brokenSite Path.here [] brokenSite :=
    ⟨hbroken, by decide +kernel, rfl, rfl⟩
  have hmem : ∀ location, Rewrites ⟨⟨"js".toList, false⟩, []⟩ Path.here brokenSite location →
      location ∈ brokenFiles := by
    intro location hrewrites
    obtain ⟨below, hlocation, heligible⟩ := hrewrites.eligible hrooted
    rw [List.nil_append] at hlocation
    subst hlocation
    have hfiles := enumerates_itinerary ⟨⟨"js".toList, false⟩, []⟩ hrooted
    exact (hfiles.mem_iff location).2 heligible
  have hwrite : FileTree.Spares (fun tree => tree.writeFile [Utf8.encode "a-b.js".toList]
      (Utf8.encode "import a from './a';".toList))
      (Rewrites ⟨⟨"js".toList, false⟩, []⟩ Path.here brokenSite) := by
    apply FileTree.spares_alterAt
    intro file hrewrites hleads
    have hfile : file = [Utf8.encode "a-b.js".toList] := by
      have honly : ∀ file ∈ brokenFiles, [Utf8.encode "a-b.js".toList] <+: file →
          file = [Utf8.encode "a-b.js".toList] := by decide +kernel
      exact honly file (hmem file hrewrites) hleads
    subst hfile
    obtain ⟨mode, data, data', hold, hnew, hne⟩ := hrewrites
    have hkept : (run ⟨⟨"js".toList, false⟩, []⟩ Path.here brokenSite).after.get?
        [Utf8.encode "a-b.js".toList] = brokenSite.get? [Utf8.encode "a-b.js".toList] := by
      decide +kernel
    rw [hkept, hold] at hnew
    exact hne (FileTree.file.inj (Option.some.inj hnew)).2
  have hspares : FileTree.Spares mend
      (Rewrites ⟨⟨"js".toList, false⟩, []⟩ Path.here brokenSite) :=
    hwrite.comp (FileTree.spares_setMode _ _ _)
  obtain ⟨base, mode, entries, hroot, -, -, -, -, hresumes⟩ :=
    run_resumes ⟨⟨"js".toList, false⟩, []⟩ Path.here (mend brokenSite) hwf rfl hunquoted hok
  refine ⟨hwf, hunquoted, hok, (hresumes brokenSite mend hbroken rfl hspares ?_).1⟩
  intro location hrewrites
  have hbase : (mend brokenSite).locate true Path.here = .ok [] := by decide +kernel
  obtain rfl := Except.ok.inj (hroot.symm.trans hbase)
  have heligible : ∀ location ∈ brokenFiles,
      Eligible ⟨⟨"js".toList, false⟩, []⟩ (mend brokenSite) [] location := by decide +kernel
  exact ⟨location, rfl, heligible location (hmem location hrewrites)⟩

end Walk

end ImportSuffix
