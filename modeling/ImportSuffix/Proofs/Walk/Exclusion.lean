import ImportSuffix.Proofs.FileTree.Pruning
import ImportSuffix.Proofs.Walk.Scope

/-!
# Leaving out is pruning

To leave entries out of a walk because of their names is to remove them, with all below
them, and to walk over the rest.  The two walks go side by side through the tree and the
pruned one (`visit_without`): an excluded entry is one record of the first and nothing in
the second, and everything else is visited in both.  The root is not below itself, so its
own name has no part in this.
-/

namespace ImportSuffix

def Event.isExclusion : Event → Bool
  | .excluded _ => true
  | _ => false

def withoutExclusions (log : List Event) : List Event :=
  log.filter fun event => !event.isExclusion

namespace Walk

/-- The walk that leaves nothing out. -/
def everywhere (walk : Walk) : Walk := { walk with exclude := [] }

/-- Whether what is at a location below the root has an excluded name itself. -/
def drops (walk : Walk) (below : Location) : Bool :=
  below.getLast?.any walk.excludes

/-- Whether what is at a location is below the directory at `base` and has an excluded
name. -/
def dropsBelow (walk : Walk) (base location : Location) : Bool :=
  decide (base <+: location) && walk.drops (location.drop base.length)

/-- The tree without the entries that have an excluded name and are below the directory
that a root leads to, and without all that is below these. -/
def prune (walk : Walk) (root : Path) (tree : FileTree) : FileTree :=
  match tree.locate true root with
  | .error _ => tree
  | .ok base => tree.without (walk.dropsBelow base)

section Records

@[simp]
theorem withoutExclusions_append (first later : List Event) :
    withoutExclusions (first ++ later) = withoutExclusions first ++ withoutExclusions later :=
  List.filter_append first later

theorem withoutExclusions_eq_self {log : List Event}
    (hnone : ∀ event ∈ log, event.isExclusion = false) : withoutExclusions log = log := by
  apply List.filter_eq_self.2
  intro event hmem
  rw [hnone event hmem]
  rfl

theorem withoutExclusions_applyToData (edit : Edit) (path : Path) (readable writable : Bool)
    (data : Bytes) :
    withoutExclusions (edit.applyToData path readable writable data).log =
      (edit.applyToData path readable writable data).log := by
  apply withoutExclusions_eq_self
  have hevents : ∀ revision : Revision, ∀ event ∈ revision.events edit.extension,
      event.isExclusion = false := by
    intro revision event hmem
    obtain ⟨statement, -, rfl⟩ := List.mem_map.1 hmem
    rfl
  fun_cases Edit.applyToData edit path readable writable data with
  | case1 cause hcause => exact fun _ hmem => absurd hmem List.not_mem_nil
  | case2 hreadable hdecode => exact fun _ hmem => absurd hmem List.not_mem_nil
  | case3 => exact hevents _
  | case4 => exact hevents _
  | case5 => exact hevents _

theorem withoutExclusions_visitFile (walk : Walk) (reachable : Bool) (path : Path) (mode : Mode)
    (data : Bytes) :
    withoutExclusions (walk.visitFile reachable path mode data).log =
      (walk.visitFile reachable path mode data).log := by
  rw [(walk.visitFile_eq reachable path mode data).2, withoutExclusions_append,
    withoutExclusions_applyToData]
  congr 1
  split
  next => rfl
  next changed _ => by_cases hnone : changed = 0 <;> simp [hnone, withoutExclusions,
      Event.isExclusion]

theorem without_visitFile (walk : Walk) (drop : Location → Bool) (reachable : Bool)
    (path : Path) (mode : Mode) (data : Bytes) :
    (walk.visitFile reachable path mode data).after.without drop =
      (walk.visitFile reachable path mode data).after := by
  rw [visitFile]
  split <;> rfl

end Records

/-! ## Visits -/

theorem drops_singleton (walk : Walk) (name : FileName) :
    walk.drops [name] = walk.excludes name := by
  simp [drops]

/-- Below an entry that is not left out, names count as they do at the root. -/
theorem drops_cons {walk : Walk} {name : FileName} (hincluded : walk.excludes name = false) :
    (fun below => walk.drops (name :: below)) = walk.drops := by
  funext below
  cases below with
  | nil => rw [drops_singleton, hincluded, drops, List.getLast?_nil, Option.any_none]
  | cons next below => rw [drops, drops, List.getLast?_cons_cons]

mutual

/-- The visit of a pruned node leaves nothing out and does otherwise what the visit of the
node does. -/
theorem visit_without (walk : Walk) (reachable : Bool) (path : Path) (node : FileTree) :
    walk.everywhere.visit reachable path (node.without walk.drops) =
      { after := (walk.visit reachable path node).after.without walk.drops
        log := withoutExclusions (walk.visit reachable path node).log
        result := (walk.visit reachable path node).result } := by
  cases node with
  | dir mode entries =>
      rw [FileTree.without, visit, visit]
      cases path.obstacle? (reachable && mode.read) with
      | some cause => rfl
      | none =>
          rw [visitEntries_without]
          rfl
  | file mode data =>
      have hextension : walk.everywhere.extension = walk.extension := rfl
      have hfile : walk.everywhere.visitFile reachable path mode data =
          walk.visitFile reachable path mode data := rfl
      rw [FileTree.without, visit, visit, hextension, hfile]
      split
      next => rw [without_visitFile, withoutExclusions_visitFile]
      next => rfl
  | link target => rfl
  | fifo mode => rfl

theorem visitEntries_without (walk : Walk) (reachable : Bool) (directory : Path)
    (entries : List (FileName × FileTree)) :
    walk.everywhere.visitEntries reachable directory
        (FileTree.entriesWithout walk.drops entries) =
      { after := FileTree.entriesWithout walk.drops
          (walk.visitEntries reachable directory entries).after
        log := withoutExclusions (walk.visitEntries reachable directory entries).log
        result := (walk.visitEntries reachable directory entries).result } := by
  match entries with
  | [] => rfl
  | (name, node) :: rest =>
      have hrest := walk.visitEntries_without reachable directory rest
      have hfirst := walk.visit_without reachable (directory.join name) node
      have hnone : walk.everywhere.excludes name = false := rfl
      rw [FileTree.entriesWithout, drops_singleton]
      cases hexcluded : walk.excludes name with
      | true =>
          simp only [visitEntries, hexcluded, if_true, List.nil_append, hrest,
            FileTree.entriesWithout, drops_singleton]
          rfl
      | false =>
          simp only [visitEntries, hexcluded, hnone, drops_cons hexcluded, hfirst, hrest,
            List.singleton_append, Bool.false_eq_true, if_false]
          cases (walk.visit reachable (directory.join name) node).result with
          | error failure =>
              simp [FileTree.entriesWithout, drops_singleton, hexcluded, drops_cons hexcluded]
          | ok tally =>
              simp [FileTree.entriesWithout, drops_singleton, hexcluded, drops_cons hexcluded]

end

theorem exists_log_visit_dir (walk : Walk) (reachable : Bool) (path : Path) (mode : Mode)
    (entries : List (FileName × FileTree)) :
    ∃ later, (walk.visit reachable path (.dir mode entries)).log = .entered path :: later := by
  rw [visit]
  split
  next => exact ⟨[], rfl⟩
  next => exact ⟨_, rfl⟩

theorem visitRoot_without (walk : Walk) (root : Path) (isLink : Bool) (mode : Mode)
    (entries : List (FileName × FileTree)) :
    walk.everywhere.visitRoot root isLink ((FileTree.dir mode entries).without walk.drops) =
      { after := (walk.visit true root (.dir mode entries)).after.without walk.drops
        log := withoutExclusions (walk.visitRoot root isLink (.dir mode entries)).log
        result := (walk.visitRoot root isLink (.dir mode entries)).result } := by
  obtain ⟨later, hlater⟩ := walk.exists_log_visit_dir true root mode entries
  cases isLink with
  | false => exact walk.visit_without true root (.dir mode entries)
  | true =>
      rw [visitRoot, visit_without, visitRoot, hlater]
      rfl

/-! ## Pruned trees -/

section Pruned

variable {walk : Walk} {root : Path} {tree node : FileTree} {base below : Location}

theorem prune_of_locate (hlocate : tree.locate true root = .ok base) :
    walk.prune root tree = tree.without (walk.dropsBelow base) := by
  rw [prune, hlocate]

theorem dropsBelow_append (walk : Walk) (base below : Location) :
    walk.dropsBelow base (base ++ below) = walk.drops below := by
  simp [dropsBelow]

theorem includes_iff_drops :
    walk.Includes below ↔ FileTree.Keeps walk.drops below := by
  rw [includes_iff]
  constructor
  · intro hnames front hfront hne
    rw [← List.dropLast_append_getLast hne] at hfront ⊢
    rw [drops, List.getLast?_concat, Option.any_some]
    exact hnames _ (hfront.subset (by simp))
  · intro hkeeps name hmem
    obtain ⟨front, later, rfl⟩ := List.append_of_mem hmem
    rw [← drops_singleton]
    have hdrops := hkeeps (front ++ [name]) ⟨later, by simp⟩ (by simp)
    simpa [drops] using hdrops

/-- Nothing above the root is dropped, nor the root itself. -/
theorem keeps_dropsBelow_append_iff :
    FileTree.Keeps (walk.dropsBelow base) (base ++ below) ↔ walk.Includes below := by
  rw [includes_iff_drops]
  constructor
  · intro hkeeps front hfront hne
    rw [← dropsBelow_append walk base]
    exact hkeeps _ ((List.prefix_append_right_inj base).2 hfront) (by simp [hne])
  · intro hkeeps front hfront hne
    by_cases hbase : base <+: front
    · obtain ⟨below', rfl⟩ := hbase
      rw [dropsBelow_append]
      by_cases hempty : below' = []
      · subst hempty
        rfl
      · exact hkeeps below' ((List.prefix_append_right_inj base).1 hfront) hempty
    · simp [dropsBelow, hbase]

/-- What is below the root is in the pruned tree when no name on the way is excluded. -/
theorem get?_prune_eq_some_iff (hlocate : tree.locate true root = .ok base) {pruned : FileTree} :
    (walk.prune root tree).get? (base ++ below) = some pruned ↔
      walk.Includes below ∧ ∃ node, tree.get? (base ++ below) = some node ∧
        node.without (fun rest => walk.drops (below ++ rest)) = pruned := by
  rw [prune_of_locate hlocate, FileTree.get?_without_eq_some_iff, keeps_dropsBelow_append_iff]
  simp only [List.append_assoc, dropsBelow_append]

theorem wellFormed_prune (hwf : tree.WellFormed) (walk : Walk) (root : Path) :
    (walk.prune root tree).WellFormed := by
  rw [prune]
  split
  next => exact hwf
  next => exact FileTree.wellFormed_without hwf _

theorem prune_mapData (walk : Walk) (root : Path) (tree : FileTree)
    (change : Location → Bytes → Bytes) :
    walk.prune root (tree.mapData change) = (walk.prune root tree).mapData change := by
  rw [prune, prune, FileTree.locate_mapData]
  cases tree.locate true root with
  | error cause => rfl
  | ok base => exact FileTree.without_mapData _ _ _

/-- A root that leads to the same place without the excluded entries leads to the pruned
directory. -/
theorem RootedAt.prune (hrooted : RootedAt tree root base node)
    (hroot : (walk.prune root tree).locate true root = tree.locate true root) :
    RootedAt (walk.prune root tree) root base (node.without walk.drops) where
  wellFormed := wellFormed_prune hrooted.wellFormed walk root
  locate_eq := hroot.trans hrooted.locate_eq
  get?_eq := by
    have hget := hrooted.get?_append []
    have hpruned := (@get?_prune_eq_some_iff walk _ _ _ _ hrooted.locate_eq _).2
      ⟨includes_iff.2 (by simp), node, hget, rfl⟩
    simpa using hpruned
  isDir := by rw [FileTree.isDir_without, hrooted.isDir]

/-- When a root leads to no directory there is nothing to prune. -/
theorem prune_of_not_rooted (walk : Walk) (hwf : tree.WellFormed)
    (hnone : ¬∃ base node, RootedAt tree root base node) : walk.prune root tree = tree := by
  rw [prune]
  split
  next => rfl
  next base hlocate =>
    apply FileTree.without_eq_self hwf
    intro location target hget _
    by_cases hbase : base <+: location
    · obtain ⟨below, rfl⟩ := hbase
      rw [FileTree.get?_append] at hget
      obtain ⟨node, hnode, htarget⟩ := Option.bind_eq_some_iff.1 hget
      rw [dropsBelow_append]
      cases below with
      | nil => rfl
      | cons name below =>
          cases node with
          | dir mode entries => exact absurd ⟨base, _, hwf, hlocate, hnode, rfl⟩ hnone
          | file mode data => contradiction
          | link target => contradiction
          | fifo mode => contradiction
    · simp [dropsBelow, hbase]

/-- The walk that leaves nothing out does in the pruned tree what the walk does. -/
theorem run_prune_of_rooted (hrooted : RootedAt tree root base node)
    (hroot : (walk.prune root tree).locate true root = tree.locate true root) :
    walk.everywhere.run root (walk.prune root tree) =
      { after := walk.prune root (walk.run root tree).after
        log := withoutExclusions (walk.run root tree).log
        result := (walk.run root tree).result } := by
  have hpruned := hrooted.prune hroot
  have hlink : (walk.prune root tree).endsAtLink root = tree.endsAtLink root := by
    have hlocate := hpruned.locate_eq
    rw [prune_of_locate hrooted.locate_eq] at hlocate ⊢
    exact FileTree.endsAtLink_without hlocate
  have hafter : (walk.prune root tree).insert base
      ((walk.visit true root node).after.without walk.drops) =
        walk.prune root (walk.run root tree).after := by
    rw [walk.visit_eq hrooted.node_wellFormed, FileTree.without_mapData,
      FileTree.insert_mapData hpruned.wellFormed hpruned.get?_eq, (run_eq hrooted).2,
      prune_mapData]
  obtain ⟨mode, entries, rfl⟩ := hrooted.exists_dir
  rw [run_of_rooted hpruned, visit_without, hafter, hlink, visitRoot_without,
    run_of_rooted hrooted]

theorem get?_run_of_not_includes (hrooted : RootedAt tree root base node)
    (hexcluded : ¬walk.Includes below) :
    (walk.run root tree).after.get? (base ++ below) = tree.get? (base ++ below) := by
  apply get?_run_of_not_eligible hrooted
  intro rest heligible
  exact hexcluded fun name hname => heligible.included name (List.mem_append_left rest hname)

end Pruned

/-- A walk that leaves entries out does what the walk that leaves nothing out does where
these entries are missing, if the root leads to the same place there or nowhere for the
same reason: it has the same result and records, those of the entries left out apart, and
it makes the same of what is kept.  What is left out stays as it was with all below it,
but the root is entered whatever its name is. -/
theorem run_prune (walk : Walk) (root : Path) (tree : FileTree) (hwf : tree.WellFormed)
    (hroot : (walk.prune root tree).locate true root = tree.locate true root) :
    (walk.everywhere.run root (walk.prune root tree)).result = (walk.run root tree).result ∧
      (walk.everywhere.run root (walk.prune root tree)).log =
        withoutExclusions (walk.run root tree).log ∧
      (walk.everywhere.run root (walk.prune root tree)).after =
        walk.prune root (walk.run root tree).after ∧
      ∀ base mode entries, tree.locate true root = .ok base →
        tree.get? base = some (.dir mode entries) →
          (∀ below, ¬walk.Includes below →
            (walk.run root tree).after.get? (base ++ below) = tree.get? (base ++ below)) ∧
          (walk.run root tree).log.head? =
            some (if tree.endsAtLink root then .skippedLink root else .entered root) := by
  by_cases hrooted : ∃ base node, RootedAt tree root base node
  · obtain ⟨base, node, hrooted⟩ := hrooted
    rw [run_prune_of_rooted hrooted hroot]
    refine ⟨rfl, rfl, rfl, fun base' mode entries hlocate _ => ⟨fun below hexcluded => ?_, ?_⟩⟩
    · obtain rfl := Except.ok.inj (hrooted.locate_eq.symm.trans hlocate)
      exact get?_run_of_not_includes hrooted hexcluded
    · rw [log_run hrooted, List.head?_cons, rootRecord]
  · obtain ⟨failure, -, hrun⟩ := exists_run_eq_of_not_rooted hwf hrooted
    rw [walk.prune_of_not_rooted hwf hrooted, hrun, hrun, walk.prune_of_not_rooted hwf hrooted]
    refine ⟨rfl, rfl, rfl, fun base mode entries hlocate hget => ?_⟩
    exact absurd ⟨base, _, hwf, hlocate, hget, rfl⟩ hrooted

/-- A site whose only directory is called `vendor` and has another `vendor` in it, where a
file is not UTF-8. -/
def vendorSite : FileTree :=
  .dir {}
    [(Utf8.encode "vendor".toList, .dir {}
        [(Utf8.encode "a.js".toList, .file {} (Utf8.encode "import b from './b';".toList)),
          (Utf8.encode "vendor".toList, .dir {}
            [(Utf8.encode "b.js".toList, .file {} [0xff])])])]

/-- With `vendor` for its root and left out, a walk goes through the outer `vendor` and
succeeds as it would without the inner one, where a walk that leaves nothing out fails. -/
theorem run_prune_vendorSite :
    vendorSite.WellFormed ∧
      (run ⟨⟨"js".toList, false⟩, ["vendor".toList]⟩ (Utf8.encode "vendor".toList)
        vendorSite).result = .ok ⟨1, 1, 1⟩ ∧
      (run ⟨⟨"js".toList, false⟩, []⟩ (Utf8.encode "vendor".toList)
        (prune ⟨⟨"js".toList, false⟩, ["vendor".toList]⟩ (Utf8.encode "vendor".toList)
          vendorSite)).result = .ok ⟨1, 1, 1⟩ ∧
      (run ⟨⟨"js".toList, false⟩, []⟩ (Utf8.encode "vendor".toList) vendorSite).result =
        .error (.unreadable (Utf8.encode "vendor/vendor/b.js".toList) .notUtf8) := by
  have hwf : vendorSite.WellFormed := by decide +kernel
  have hroot : (prune ⟨⟨"js".toList, false⟩, ["vendor".toList]⟩ (Utf8.encode "vendor".toList)
      vendorSite).locate true (Utf8.encode "vendor".toList) =
        vendorSite.locate true (Utf8.encode "vendor".toList) := by decide +kernel
  have hresult : (run ⟨⟨"js".toList, false⟩, ["vendor".toList]⟩ (Utf8.encode "vendor".toList)
      vendorSite).result = .ok ⟨1, 1, 1⟩ := by decide +kernel
  have hprune := (run_prune ⟨⟨"js".toList, false⟩, ["vendor".toList]⟩
    (Utf8.encode "vendor".toList) vendorSite hwf hroot).1
  exact ⟨hwf, hresult, hprune.trans hresult, by decide +kernel⟩

end Walk

end ImportSuffix
