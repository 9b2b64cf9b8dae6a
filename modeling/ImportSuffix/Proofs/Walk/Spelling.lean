import ImportSuffix.Proofs.Walk.FirstObstacle
import Mathlib.Data.List.Forall2

/-!
# The spelling of a root

Two paths that lead to the same directory give walks that come to the same places in the
same order.  The stops differ in their paths only (`map_seenFrom_itinerary`), and what a
walk does at a stop depends on the path by its length alone, which has a limit
(`attend_withPath`).  So the two walks do the same, and their records and failures differ
in the front of the paths that they show, unless a path that the walk comes to open is too
long from one of the roots only (`run_respelled`).
-/

namespace ImportSuffix

def Event.withPath (path : Path) : Event → Event
  | .scanning _ extension exclude => .scanning path extension exclude
  | .excluded _ => .excluded path
  | .entered _ => .entered path
  | .skippedLink _ => .skippedLink path
  | .skippedSpecial _ => .skippedSpecial path
  | .skippedOther _ => .skippedOther path
  | .extended specifier extension => .extended specifier extension
  | .revised dryRun count _ => .revised dryRun count path

def Failure.withPath (path : Path) : Failure → Failure
  | .invalidExtension given => .invalidExtension given
  | .rootInaccessible _ cause => .rootInaccessible path cause
  | .rootNotDirectory _ => .rootNotDirectory path
  | .unreadable _ cause => .unreadable path cause
  | .unwritable _ cause => .unwritable path cause
  | .unlistable _ cause => .unlistable path cause

def Outcome.withPath {σ α : Type} (path : Path) (outcome : Outcome σ α) : Outcome σ α where
  after := outcome.after
  log := outcome.log.map (Event.withPath path)
  result := outcome.result.mapError (Failure.withPath path)

theorem map_withPath_events (path : Path) (extension : Text) (revision : Revision) :
    (revision.events extension).map (Event.withPath path) = revision.events extension := by
  rw [Revision.events, List.map_map]
  rfl

/-! ## Single places -/

theorem Path.obstacle?_congr {path path' : Path} (hlength : path.isTooLong = path'.isTooLong)
    (allowed : Bool) : path.obstacle? allowed = path'.obstacle? allowed := by
  rw [obstacle?, obstacle?, hlength]

/-- An edit depends on its path by the length alone. -/
theorem Edit.applyToData_withPath (edit : Edit) {path path' : Path}
    (hlength : path.isTooLong = path'.isTooLong) (readable writable : Bool) (data : Bytes) :
    edit.applyToData path' readable writable data =
      (edit.applyToData path readable writable data).withPath path' := by
  have hobstacle := Path.obstacle?_congr hlength
  simp only [applyToData, hobstacle]
  cases path'.obstacle? readable with
  | some cause => rfl
  | none =>
      cases Utf8.decode? data with
      | none => rfl
      | some text =>
          dsimp only
          split
          next =>
            cases path'.obstacle? writable <;>
              simp [Outcome.withPath, map_withPath_events, Except.mapError, Failure.withPath]
          next => simp [Outcome.withPath, map_withPath_events, Except.mapError]

namespace Walk

theorem visitFile_withPath (walk : Walk) {path path' : Path}
    (hlength : path.isTooLong = path'.isTooLong) (reachable : Bool) (mode : Mode)
    (data : Bytes) :
    walk.visitFile reachable path' mode data =
      (walk.visitFile reachable path mode data).withPath path' := by
  rw [visitFile, visitFile, walk.applyToData_withPath hlength]
  generalize walk.applyToData path (reachable && mode.read) (reachable && mode.write) data =
    outcome
  obtain ⟨after, log, result⟩ := outcome
  cases result with
  | error failure => rfl
  | ok changed =>
      by_cases hnone : changed = 0 <;>
        simp [Outcome.withPath, Except.mapError, hnone, Event.withPath]

/-- What a walk does at a stop depends on the path by the length alone, and that only if
the path is opened. -/
theorem attend_withPath (walk : Walk) {stop : Stop} {path : Path}
    (hlength : walk.opens stop = true → stop.path.isTooLong = path.isTooLong)
    (htargets : walk.targets { stop with path } = walk.targets stop) :
    walk.attend { stop with path } = (walk.attend stop).withPath path := by
  obtain ⟨location, path', reachable, node, isExcluded⟩ := stop
  cases isExcluded with
  | true => rfl
  | false =>
      cases node with
      | dir mode entries =>
          simp only [attend, Path.obstacle?_congr (hlength rfl)]
          cases path.obstacle? (reachable && mode.read) <;> rfl
      | file mode data =>
          have hextension : path.hasExtension walk.extension =
              path'.hasExtension walk.extension := htargets
          simp only [attend, visit, hextension]
          cases htarget : path'.hasExtension walk.extension with
          | true => exact walk.visitFile_withPath (hlength htarget) reachable mode data
          | false => rfl
      | link target => rfl
      | fifo mode => rfl

/-! ## Stops as seen from a root -/

namespace Stop

/-- The stop with the path that leads there from a root. -/
def seenFrom (root : Path) (stop : Stop) : Stop :=
  { stop with path := root.below stop.location }

end Stop

theorem map_seenFrom_map_under (directory : Path) (name : FileName) (stops : List Stop) :
    (stops.map (Stop.under name)).map (Stop.seenFrom directory) =
      (stops.map (Stop.seenFrom (directory.join name))).map (Stop.under name) := by
  rw [List.map_map, List.map_map]
  rfl

mutual

/-- From another root a walk comes to the same places, under other paths. -/
theorem map_seenFrom_itinerary (walk : Walk) (reachable : Bool) (root root' : Path)
    (node : FileTree) :
    (walk.itinerary reachable root node).map (Stop.seenFrom root') =
      walk.itinerary reachable root' node := by
  cases node with
  | dir mode entries =>
      rw [itinerary, itinerary, List.map_cons,
        map_seenFrom_entriesItinerary walk _ root root' entries]
      rfl
  | file mode data => rfl
  | link target => rfl
  | fifo mode => rfl

theorem map_seenFrom_entriesItinerary (walk : Walk) (reachable : Bool)
    (directory directory' : Path) (entries : List (FileName × FileTree)) :
    (walk.entriesItinerary reachable directory entries).map (Stop.seenFrom directory') =
      walk.entriesItinerary reachable directory' entries := by
  match entries with
  | [] => rfl
  | (name, node) :: rest =>
      rw [entriesItinerary, entriesItinerary, List.map_append,
        map_seenFrom_entriesItinerary walk reachable directory directory' rest]
      congr 1
      split
      next => rfl
      next =>
        rw [map_seenFrom_map_under,
          map_seenFrom_itinerary walk reachable _ (directory'.join name) node]

end

/-! ## Records and results -/

/-- Two records of the same entry below a directory, which differ in the root that the path
of the entry starts from. -/
def RespelledEvent (root root' : Path) (node : FileTree) (event event' : Event) : Prop :=
  ∃ below target, node.get? below = some target ∧
    event = event.withPath (root.below below) ∧ event' = event.withPath (root'.below below)

/-- Two failures at the same entry below a directory, which differ in the root that the
path of the entry starts from. -/
def RespelledFailure (root root' : Path) (node : FileTree) (failure failure' : Failure) :
    Prop :=
  ∃ below target, node.get? below = some target ∧
    failure = failure.withPath (root.below below) ∧
    failure' = failure.withPath (root'.below below)

/-- The same result from two roots, where a failure starts its path from its own. -/
inductive RespelledResult (root root' : Path) (node : FileTree) :
    Except Failure Tally → Except Failure Tally → Prop where
  | ok (tally : Tally) : RespelledResult root root' node (.ok tally) (.ok tally)
  | error {failure failure' : Failure}
      (hfailure : RespelledFailure root root' node failure failure') :
      RespelledResult root root' node (.error failure) (.error failure')

/-- What two outcomes at places below a directory have in common. -/
structure Respells (root root' : Path) (node : FileTree) {σ τ : Type}
    (outcome : Outcome σ Tally) (outcome' : Outcome τ Tally) : Prop where
  log : List.Forall₂ (RespelledEvent root root' node) outcome.log outcome'.log
  result : RespelledResult root root' node outcome.result outcome'.result

section Respelled

variable {walk : Walk} {root root' : Path} {node : FileTree}
  {result' : Except Failure Tally}

theorem RespelledResult.eq_ok {tally : Tally}
    (hresult : RespelledResult root root' node (.ok tally) result') : result' = .ok tally := by
  cases hresult
  rfl

theorem RespelledResult.exists_error {failure : Failure}
    (hresult : RespelledResult root root' node (.error failure) result') :
    ∃ failure', result' = .error failure' := by
  cases hresult
  exact ⟨_, rfl⟩

/-- An outcome whose paths are all of one entry. -/
theorem Respells.of_withPath {σ : Type} {outcome outcome' : Outcome σ Tally}
    {below : Location} {target : FileTree} (hget : node.get? below = some target)
    (hself : outcome = outcome.withPath (root.below below))
    (hother : outcome' = outcome.withPath (root'.below below)) :
    Respells root root' node outcome outcome' := by
  subst hother
  obtain ⟨after, log, result⟩ := outcome
  obtain ⟨-, hlog, hresult⟩ := Outcome.mk.inj hself
  constructor
  · rw [Outcome.withPath, List.forall₂_map_right_iff, List.forall₂_same]
    intro event hmem
    have hevent : event = event.withPath (root.below below) := by
      have hall := List.map_eq_map_iff.1 (hlog.symm.trans (List.map_id log).symm)
      exact (hall event hmem).symm
    exact ⟨below, target, hget, hevent, rfl⟩
  · cases result with
    | error failure =>
        exact .error ⟨below, target, hget, Except.error.inj hresult, rfl⟩
    | ok tally => exact .ok tally

/-- The walks from two roots do the same at a stop of the one that is seen from the
other. -/
def SeenAlike (walk : Walk) (root root' : Path) (stop : Stop) : Prop :=
  walk.attend stop = (walk.attend stop).withPath (root.below stop.location) ∧
    walk.attend (stop.seenFrom root') = (walk.attend stop).withPath (root'.below stop.location)

/-- A tour does the same from two roots if it does so at every stop. -/
theorem tour_respells {stops : List Stop}
    (hget : ∀ stop ∈ stops, node.get? stop.location = some stop.node)
    (halike : ∀ stop ∈ stops, walk.SeenAlike root root' stop) :
    Respells root root' node (walk.tour stops) (walk.tour (stops.map (Stop.seenFrom root'))) ∧
      (walk.tour (stops.map (Stop.seenFrom root'))).after =
        (walk.tour stops).after.map (Stop.seenFrom root') := by
  induction stops with
  | nil => exact ⟨⟨.nil, .ok _⟩, rfl⟩
  | cons stop rest ih =>
      obtain ⟨hgetStop, hgetRest⟩ := List.forall_mem_cons.1 hget
      obtain ⟨hstop, hrest⟩ := List.forall_mem_cons.1 halike
      have hattend : Respells root root' node (walk.attend stop)
          (walk.attend (stop.seenFrom root')) := .of_withPath hgetStop hstop.1 hstop.2
      obtain ⟨⟨hlog, hresult⟩, hafter⟩ := ih hgetRest hrest
      obtain ⟨hlogStop, hresultStop⟩ := hattend
      rw [List.map_cons]
      cases hfirst : (walk.attend stop).result with
      | error failure =>
          rw [hfirst] at hresultStop
          obtain ⟨failure', hsecond⟩ := hresultStop.exists_error
          rw [hsecond] at hresultStop
          rw [tour_cons_of_error hfirst, tour_cons_of_error hsecond]
          exact ⟨⟨hlogStop, hresultStop⟩, rfl⟩
      | ok tally =>
          rw [hfirst] at hresultStop
          rw [tour_cons_of_ok hfirst, tour_cons_of_ok hresultStop.eq_ok]
          refine ⟨⟨List.rel_append hlogStop hlog, ?_⟩, congrArg _ hafter⟩
          dsimp only
          generalize (walk.tour (rest.map (Stop.seenFrom root'))).result = result' at hresult
          generalize (walk.tour rest).result = result at hresult
          cases hresult with
          | ok tally' => exact .ok _
          | error hfailure => exact .error hfailure

end Respelled

/-! ## Runs -/

/-- What a walk opens, or fails to open, below the directory at `base`: the directories in
scope, to list them, and the eligible files, as far as it comes. -/
def Opens (walk : Walk) (root : Path) (tree : FileTree) (base below : Location) : Prop :=
  walk.Reaches root tree base below ∧
    ((walk.Includes below ∧
        ∃ mode entries, tree.get? (base ++ below) = some (.dir mode entries)) ∨
      walk.Eligible tree base below)

section Rooted

variable {walk : Walk} {root root' : Path} {tree node : FileTree} {base : Location}
  {stop : Stop}

theorem opens_of_mem (hrooted : RootedAt tree root base node)
    (hmem : stop ∈ walk.itinerary true root node)
    (hreached : walk.Reaches root tree base stop.location) (hopens : walk.opens stop = true) :
    walk.Opens root tree base stop.location := by
  refine ⟨hreached, ?_⟩
  obtain ⟨hincluded, hopened⟩ := Bool.and_eq_true_iff.1 hopens
  rcases Bool.or_eq_true_iff.1 hopened with hdir | htargets
  · left
    have hcomes := (mem_itinerary_iff hrooted.node_wellFormed).1
      ⟨hmem, by simpa using hincluded⟩
    refine ⟨includes_iff.2 hcomes.included, ?_⟩
    rw [hrooted.get?_append, hcomes.get?_eq]
    cases hnode : stop.node with
    | dir mode entries => exact ⟨mode, entries, rfl⟩
    | file mode data => simp [hnode, FileTree.isDir] at hdir
    | link target => simp [hnode, FileTree.isDir] at hdir
    | fifo mode => simp [hnode, FileTree.isDir] at hdir
  · exact .inr ((eligible_iff hrooted).2 ⟨stop, hmem, rfl, htargets⟩)

theorem targets_seenFrom (hrooted : RootedAt tree root base node)
    (hrooted' : RootedAt tree root' base node) (hmem : stop ∈ walk.itinerary true root node) :
    walk.targets (stop.seenFrom root') = walk.targets stop := by
  have hstop := isStopBelow_of_mem hrooted.node_wellFormed hmem
  have hget := hstop.get?_eq
  have hpath := hstop.path_eq
  obtain ⟨location, path, reachable, target, isExcluded⟩ := stop
  dsimp only at hget hpath
  subst hpath
  cases target with
  | file mode data =>
      have hextension : (root'.below location).hasExtension walk.extension =
          (root.below location).hasExtension walk.extension := by
        rw [Bool.eq_iff_iff, hrooted'.hasExtension_iff hget, hrooted.hasExtension_iff hget]
      simp only [targets, Stop.seenFrom, hextension]
  | dir mode entries => simp [targets, Stop.seenFrom, FileTree.isFile]
  | link target => simp [targets, Stop.seenFrom, FileTree.isFile]
  | fifo mode => simp [targets, Stop.seenFrom, FileTree.isFile]

/-- Two walks do the same wherever the limit on paths treats their paths alike. -/
theorem seenAlike_of_mem (hrooted : RootedAt tree root base node)
    (hrooted' : RootedAt tree root' base node)
    (hlengths : ∀ below, walk.Opens root tree base below →
      (root.below below).isTooLong = (root'.below below).isTooLong)
    (hmem : stop ∈ walk.itinerary true root node)
    (hreached : walk.Reaches root tree base stop.location) : walk.SeenAlike root root' stop := by
  have hpath := (isStopBelow_of_mem hrooted.node_wellFormed hmem).path_eq
  have hself : stop = { stop with path := root.below stop.location } := by rw [← hpath]
  constructor
  · have hattend : walk.attend { stop with path := root.below stop.location } =
        (walk.attend stop).withPath (root.below stop.location) :=
      walk.attend_withPath (fun _ => by rw [hpath]) (by rw [← hself])
    rwa [← hself] at hattend
  · apply walk.attend_withPath
    · intro hopens
      rw [hpath]
      exact hlengths _ (opens_of_mem hrooted hmem hreached hopens)
    · exact targets_seenFrom hrooted hrooted' hmem

/-- The tours from two roots do the same, since what is behind the stop that ends the one has
no part in either. -/
theorem tour_itinerary_respells (hrooted : RootedAt tree root base node)
    (hrooted' : RootedAt tree root' base node)
    (hlengths : ∀ below, walk.Opens root tree base below →
      (root.below below).isTooLong = (root'.below below).isTooLong) :
    Respells root root' node (walk.tour (walk.itinerary true root node))
        (walk.tour ((walk.itinerary true root node).map (Stop.seenFrom root'))) ∧
      (walk.tour ((walk.itinerary true root node).map (Stop.seenFrom root'))).after =
        (walk.tour (walk.itinerary true root node)).after.map (Stop.seenFrom root') := by
  obtain ⟨front, later, hstops, hends, hreached⟩ := walk.exists_reached hrooted
  have hfront : ∀ stop ∈ front, stop ∈ walk.itinerary true root node := by
    intro stop hmem
    rw [hstops]
    exact List.mem_append_left later hmem
  obtain ⟨hrespells, hafter⟩ := tour_respells
    (fun stop hmem => (isStopBelow_of_mem hrooted.node_wellFormed (hfront stop hmem)).get?_eq)
    (fun stop hmem =>
      seenAlike_of_mem hrooted hrooted' hlengths (hfront stop hmem) (hreached stop hmem))
  rw [hstops, List.map_append]
  rcases hends with rfl | ⟨failure, herror⟩
  · simpa using And.intro hrespells hafter
  · have hresults := hrespells.result
    rw [herror] at hresults
    obtain ⟨failure', herror'⟩ := hresults.exists_error
    rw [tour_append_of_error herror, tour_append_of_error herror']
    exact ⟨hrespells, hafter⟩

/-- The stops as seen from another root change the same contents. -/
theorem revisedAt_map_seenFrom (hrooted : RootedAt tree root base node)
    (hrooted' : RootedAt tree root' base node) {stops : List Stop}
    (hstops : ∀ stop ∈ stops, stop ∈ walk.itinerary true root node) :
    walk.revisedAt (stops.map (Stop.seenFrom root')) = walk.revisedAt stops := by
  funext below data
  have hany : (stops.map (Stop.seenFrom root')).any
      (fun stop => stop.location = below && walk.targets stop) =
        stops.any fun stop => stop.location = below && walk.targets stop := by
    rw [List.any_map, Bool.eq_iff_iff, List.any_eq_true, List.any_eq_true]
    apply exists_congr
    intro stop
    apply and_congr_right
    intro hmem
    simp only [Function.comp_apply, targets_seenFrom hrooted hrooted' (hstops stop hmem)]
    rfl
  rw [revisedAt, revisedAt, hany]

/-- Two paths that lead to the same directory are the same to a walk, as long as the limit
on the length of paths treats alike, from the one and from the other, what the walk comes to
open.  The walks leave the same tree, they have the same result or fail at the same entry for
the same cause, and they record the same of the same entries, the root itself apart if a path
to it is that of a link. -/
theorem run_respelled (walk : Walk) (root root' : Path) (tree : FileTree)
    (hwf : tree.WellFormed) {base : Location} {mode : Mode}
    {entries : List (FileName × FileTree)} (hroot : tree.locate true root = .ok base)
    (hroot' : tree.locate true root' = .ok base)
    (hbase : tree.get? base = some (.dir mode entries))
    (hlengths : ∀ below, walk.Opens root tree base below →
      (root.below below).isTooLong = (root'.below below).isTooLong) :
    (walk.run root tree).after = (walk.run root' tree).after ∧
      RespelledResult root root' (.dir mode entries) (walk.run root tree).result
        (walk.run root' tree).result ∧
      ∃ later later',
        (walk.run root tree).log = rootRecord tree root :: later ∧
        (walk.run root' tree).log = rootRecord tree root' :: later' ∧
        List.Forall₂ (RespelledEvent root root' (.dir mode entries)) later later' := by
  have hrooted : RootedAt tree root base (.dir mode entries) := ⟨hwf, hroot, hbase, rfl⟩
  have hrooted' : RootedAt tree root' base (.dir mode entries) := ⟨hwf, hroot', hbase, rfl⟩
  obtain ⟨hresult, hafter⟩ := walk.run_eq hrooted
  obtain ⟨hresult', hafter'⟩ := walk.run_eq hrooted'
  have hlog := walk.log_run hrooted
  have hlog' := walk.log_run hrooted'
  rw [← map_seenFrom_itinerary walk true root root'] at hresult' hafter' hlog'
  obtain ⟨⟨hlogs, hresults⟩, hstops⟩ := tour_itinerary_respells hrooted hrooted' hlengths
  refine ⟨?_, ?_, _, _, hlog, hlog', ?_⟩
  · rw [hafter, hafter', hstops, revisedAt_map_seenFrom hrooted hrooted']
    exact fun stop hmem => (walk.after_tour_isPrefix _).subset hmem
  · rw [hresult, hresult']
    exact hresults
  · rw [← List.drop_one, ← List.drop_one]
    exact List.forall₂_drop 1 hlogs

end Rooted

def linkedDirectory : FileTree :=
  .dir {} [(Utf8.encode "a.js".toList, .file {} (Utf8.encode "import b from './b';".toList))]

/-- A site with a directory and a link to it. -/
def linkedSite : FileTree :=
  .dir {}
    [(Utf8.encode "js".toList, linkedDirectory),
      (Utf8.encode "link".toList, .link (Utf8.encode "js".toList))]

/-- The directory of the site is the same by its name with slashes behind it and by the
link, and only the record of the root shows that the link is one. -/
theorem run_respelled_linkedSite :
    linkedSite.WellFormed ∧
      linkedSite.locate true (Utf8.encode "./js//".toList) = .ok [Utf8.encode "js".toList] ∧
      linkedSite.locate true (Utf8.encode "link".toList) = .ok [Utf8.encode "js".toList] ∧
      (run ⟨⟨"js".toList, false⟩, []⟩ (Utf8.encode "./js//".toList) linkedSite).after =
        (run ⟨⟨"js".toList, false⟩, []⟩ (Utf8.encode "link".toList) linkedSite).after ∧
      ∃ later later',
        (run ⟨⟨"js".toList, false⟩, []⟩ (Utf8.encode "./js//".toList) linkedSite).log =
          .entered (Utf8.encode "./js//".toList) :: later ∧
        (run ⟨⟨"js".toList, false⟩, []⟩ (Utf8.encode "link".toList) linkedSite).log =
          .skippedLink (Utf8.encode "link".toList) :: later' ∧
        later.length = 2 ∧ later'.length = 2 := by
  have hwf : linkedSite.WellFormed := by decide +kernel
  have hroot : linkedSite.locate true (Utf8.encode "./js//".toList) =
      .ok [Utf8.encode "js".toList] := by decide +kernel
  have hroot' : linkedSite.locate true (Utf8.encode "link".toList) =
      .ok [Utf8.encode "js".toList] := by decide +kernel
  have hrooted : RootedAt linkedSite (Utf8.encode "./js//".toList) [Utf8.encode "js".toList]
      linkedDirectory := ⟨hwf, hroot, rfl, rfl⟩
  have hlengths : ∀ below,
      Opens ⟨⟨"js".toList, false⟩, []⟩ (Utf8.encode "./js//".toList) linkedSite
          [Utf8.encode "js".toList] below →
        (Path.below (Utf8.encode "./js//".toList) below).isTooLong =
          (Path.below (Utf8.encode "link".toList) below).isTooLong := by
    intro below hopens
    obtain ⟨hincluded, target, hget⟩ : Includes ⟨⟨"js".toList, false⟩, []⟩ below ∧
        ∃ target, linkedSite.get? ([Utf8.encode "js".toList] ++ below) = some target := by
      rcases hopens.2 with ⟨hincluded, mode, entries, hget⟩ | heligible
      · exact ⟨hincluded, _, hget⟩
      · obtain ⟨mode, data, hget⟩ := heligible.isFile
        exact ⟨heligible.included, _, hget⟩
    rw [hrooted.get?_append] at hget
    have hall : ∀ stop ∈ itinerary ⟨⟨"js".toList, false⟩, []⟩ true
        (Utf8.encode "./js//".toList) linkedDirectory,
          (Path.below (Utf8.encode "./js//".toList) stop.location).isTooLong =
            (Path.below (Utf8.encode "link".toList) stop.location).isTooLong := by decide +kernel
    exact hall _ (stopBelow_mem hrooted hincluded hget)
  obtain ⟨hafter, -, later, later', hlog, hlog', hsame⟩ :=
    run_respelled ⟨⟨"js".toList, false⟩, []⟩ (Utf8.encode "./js//".toList)
      (Utf8.encode "link".toList) linkedSite hwf hroot hroot' rfl hlengths
  have hrecord : rootRecord linkedSite (Utf8.encode "./js//".toList) =
      .entered (Utf8.encode "./js//".toList) := by decide +kernel
  have hrecord' : rootRecord linkedSite (Utf8.encode "link".toList) =
      .skippedLink (Utf8.encode "link".toList) := by decide +kernel
  have hlength : (run ⟨⟨"js".toList, false⟩, []⟩ (Utf8.encode "./js//".toList)
      linkedSite).log.length = 3 := by decide +kernel
  rw [hrecord] at hlog
  rw [hrecord'] at hlog'
  rw [hlog, List.length_cons] at hlength
  have htwo : later.length = 2 := Nat.succ.inj hlength
  exact ⟨hwf, hroot, hroot', hafter, later, later', hlog, hlog', htwo, hsame.length_eq ▸ htwo⟩

/-- The current directory by so many single dots, and one more. -/
def windingPath : Nat → Path
  | 0 => Path.here
  | dots + 1 => Path.here ++ Path.slash :: windingPath dots

theorem length_windingPath (dots : Nat) : (windingPath dots).length = 2 * dots + 1 := by
  induction dots with
  | zero => rfl
  | succ dots ih =>
      rw [windingPath, List.length_append, List.length_cons, ih]
      simp [Path.here]
      omega

theorem windingPath_ne_nil (dots : Nat) : windingPath dots ≠ [] :=
  List.ne_nil_of_length_pos (by rw [length_windingPath]; omega)

theorem steps_windingPath (dots : Nat) :
    (windingPath dots).steps = List.replicate (dots + 1) .stay := by
  induction dots with
  | zero => decide
  | succ dots ih =>
      have hhere : Path.moves Path.here = [.stay] := by decide
      rw [windingPath, Path.steps_append_slash _ (windingPath_ne_nil dots), ih, hhere]
      rfl

/-- To stay where it is a path needs no more than a directory that can be searched. -/
theorem advance_replicate_stay {tree : FileTree} {location : Location}
    {entries : List (FileName × FileTree)} (hsearched : tree.searched location = .ok entries)
    (followLast : Bool)
    (onLink : Location → Path → List Step → Except AccessError Location) (count : Nat) :
    tree.advance followLast onLink location (List.replicate count .stay) = .ok location := by
  induction count with
  | zero => rfl
  | succ count ih =>
      rw [List.replicate_succ, FileTree.advance, hsearched]
      exact ih

/-- A path by single dots leads to the current directory, unless it is too long. -/
theorem locate_windingPath {tree : FileTree} {entries : List (FileName × FileTree)}
    (hsearched : tree.searched [] = .ok entries) {dots : Nat}
    (hlength : 2 * dots + 1 ≤ Path.lengthLimit) :
    tree.locate true (windingPath dots) = .ok [] := by
  have hzero : 0 ∉ windingPath dots := by
    induction dots with
    | zero => decide
    | succ dots ih => simp [windingPath, Path.here, Path.slash, ih (by omega)]
  have hshort : (windingPath dots).isTooLong = false := by
    rw [Path.isTooLong, length_windingPath, decide_eq_false (by omega)]
  have hrelative : (windingPath dots).isAbsolute = false := by
    cases dots <;> rfl
  rw [FileTree.locate_eq_ok_iff]
  refine ⟨⟨hzero, windingPath_ne_nil dots, hshort, hrelative⟩, ?_⟩
  rw [steps_windingPath]
  exact advance_replicate_stay hsearched _ _ _

/-- In a directory that has a path, a file to read may have a path that is too long. -/
theorem result_tour_of_isTooLong {walk : Walk} {root : Path} {name : FileName} {data : Bytes}
    (hincluded : walk.excludes name = false)
    (hextension : (root.join name).hasExtension walk.extension = true)
    (hshort : root.isTooLong = false) (hlong : (root.join name).isTooLong = true) :
    (walk.tour (walk.itinerary true root (.dir {} [(name, .file {} data)]))).result =
      .error (.unreadable (root.join name) .nameTooLong) := by
  have hedit : ∀ readable writable,
      (walk.applyToData (root.join name) readable writable data).result =
        .error (.unreadable (root.join name) .nameTooLong) := by
    intro readable writable
    rw [Edit.applyToData_eq_error_iff, Path.obstacle?, hlong]
    exact .inl ⟨_, rfl, rfl⟩
  simp [itinerary, entriesItinerary, hincluded, tour, attend, Path.obstacle?, hshort,
    Stop.under, visit, hextension, visitFile, hedit, Except.map]

/-- A dry run finds a statement to change in a directory, and fails if the root is spelled
so long that the path of the file is too long. -/
theorem not_respelled_windingPath :
    linkedDirectory.WellFormed ∧ linkedDirectory.locate true Path.here = .ok [] ∧
      linkedDirectory.locate true (windingPath 2047) = .ok [] ∧
      (run ⟨⟨"js".toList, true⟩, []⟩ Path.here linkedDirectory).result = .ok ⟨1, 1, 1⟩ ∧
      (run ⟨⟨"js".toList, true⟩, []⟩ (windingPath 2047) linkedDirectory).result =
        .error (.unreadable (Path.below (windingPath 2047) [Utf8.encode "a.js".toList])
          .nameTooLong) := by
  have hwf : linkedDirectory.WellFormed := by decide +kernel
  have hroot : linkedDirectory.locate true (windingPath 2047) = .ok [] :=
    locate_windingPath rfl (by decide)
  have hrooted : RootedAt linkedDirectory (windingPath 2047) [] linkedDirectory :=
    ⟨hwf, hroot, rfl, rfl⟩
  have hshort : (windingPath 2047).isTooLong = false := by
    rw [Path.isTooLong, length_windingPath]
    decide
  have hlong : (Path.join (windingPath 2047) (Utf8.encode "a.js".toList)).isTooLong = true := by
    have hname : Utf8.encode "a.js".toList ≠ [] := by decide
    have hjoin := Path.length_lt_length_join (windingPath 2047) hname
    rw [length_windingPath] at hjoin
    exact decide_eq_true hjoin
  have hextension : (Path.join (windingPath 2047) (Utf8.encode "a.js".toList)).hasExtension
      "js".toList = true := by
    rw [Path.hasExtension_join (by decide)]
    decide +kernel
  refine ⟨hwf, by decide +kernel, hroot, by decide +kernel, ?_⟩
  rw [(run_eq hrooted).1, Path.below_cons, Path.below_nil]
  have hincluded : excludes ⟨⟨"js".toList, true⟩, []⟩ (Utf8.encode "a.js".toList) = false := rfl
  generalize windingPath 2047 = root at hshort hlong hextension
  exact result_tour_of_isTooLong hincluded hextension hshort hlong

end Walk

end ImportSuffix
