import ImportSuffix.Proofs.Walk.Chronicle
import ImportSuffix.Proofs.Walk.Spelling

/-!
# What is skipped is left alone

A walk says of an entry that it skips it where it opens neither a directory to list nor a
file to read.  Nothing below such an entry is a stop of the walk (`not_mem_below_skipped`),
so no record is about it, nothing there is changed, and the contents of files there have no
part in anything that the walk does (`run_mapData`).

The root is the only exception.  A root that is itself a link is recorded as a skipped link,
and yet what it leads to is walked.
-/

namespace ImportSuffix

namespace Event

/-- The path that a record is about; those of single statements show none. -/
def path? : Event → Option Path
  | scanning root _ _ => some root
  | excluded path => some path
  | entered path => some path
  | skippedLink path => some path
  | skippedSpecial path => some path
  | skippedOther path => some path
  | extended _ _ => none
  | revised _ _ path => some path

/-- The path of an entry that a record says is skipped. -/
def skipped? : Event → Option Path
  | excluded path => some path
  | skippedLink path => some path
  | skippedSpecial path => some path
  | skippedOther path => some path
  | _ => none

end Event

namespace Walk

variable {walk : Walk} {stop : Stop}

/-! ## The records of a stop -/

/-- Every record of a tour is made at one of its stops. -/
theorem exists_of_mem_log_tour {stops : List Stop} {event : Event}
    (hmem : event ∈ (walk.tour stops).log) : ∃ stop ∈ stops, event ∈ (walk.attend stop).log := by
  induction stops with
  | nil => exact absurd hmem List.not_mem_nil
  | cons stop rest ih =>
      cases hattend : (walk.attend stop).result with
      | error failure =>
          rw [tour_cons_of_error hattend] at hmem
          exact ⟨stop, List.mem_cons_self, hmem⟩
      | ok tally =>
          rw [tour_cons_of_ok hattend] at hmem
          rcases List.mem_append.1 hmem with hmem | hmem
          · exact ⟨stop, List.mem_cons_self, hmem⟩
          · obtain ⟨later, hlater, hevent⟩ := ih hmem
            exact ⟨later, List.mem_cons_of_mem stop hlater, hevent⟩

/-- A stop that is not at a file to read is recorded by what is there; at a file to read
there are records of statements, and one of the file. -/
theorem eq_of_mem_log_attend {event : Event} (hmem : event ∈ (walk.attend stop).log) :
    (walk.targets stop = false ∧ event = stop.remark) ∨
      event.level = .trace ∨ ∃ changed, event = .revised walk.dryRun changed stop.path := by
  cases htargets : walk.targets stop with
  | false =>
      rw [log_attend_of_not_targets htargets, List.mem_singleton] at hmem
      exact .inl ⟨rfl, hmem⟩
  | true =>
      right
      obtain ⟨-, ⟨mode, data, hfile⟩, -⟩ := targets_iff.1 htargets
      rw [log_attend_of_targets htargets hfile] at hmem
      rcases List.mem_append.1 hmem with hmem | hmem
      · exact .inl (Edit.level_of_mem_log_applyToData hmem)
      · right
        split at hmem
        next => exact absurd hmem List.not_mem_nil
        next changed _ =>
          split at hmem
          next => exact absurd hmem List.not_mem_nil
          next => exact ⟨changed, List.mem_singleton.1 hmem⟩

/-- The records of a stop are about its path, if about any. -/
theorem path_of_mem_log_attend {event : Event} (hmem : event ∈ (walk.attend stop).log)
    {path : Path} (hpath : event.path? = some path) : path = stop.path := by
  rcases eq_of_mem_log_attend hmem with ⟨-, rfl⟩ | hlevel | ⟨changed, rfl⟩
  · obtain ⟨location, path', reachable, node, isExcluded⟩ := stop
    cases isExcluded <;> cases node <;> exact (Option.some.inj hpath).symm
  · cases event <;> contradiction
  · exact (Option.some.inj hpath).symm

/-- Where the record says that the entry is skipped nothing is opened. -/
theorem not_opens_of_mem_log_attend {event : Event} (hmem : event ∈ (walk.attend stop).log)
    {path : Path} (hskipped : event.skipped? = some path) :
    path = stop.path ∧ walk.opens stop = false := by
  rcases eq_of_mem_log_attend hmem with ⟨htargets, rfl⟩ | hlevel | ⟨changed, rfl⟩
  · rw [opens, htargets, Bool.or_false]
    obtain ⟨location, path', reachable, node, isExcluded⟩ := stop
    cases isExcluded <;> cases node <;>
      first | exact ⟨(Option.some.inj hskipped).symm, rfl⟩ | contradiction
  · cases event <;> contradiction
  · contradiction

/-- Nothing below a stop that is not opened is a stop. -/
theorem not_mem_below_skipped {reachable : Bool} {path : Path} {node : FileTree}
    (hwf : node.WellFormed) (hmem : stop ∈ walk.itinerary reachable path node)
    (hopens : walk.opens stop = false) {other : Stop} {name : FileName} {rest : Location}
    (hlocation : other.location = stop.location ++ name :: rest) :
    other ∉ walk.itinerary reachable path node := by
  intro hother
  have hstop := isStopBelow_of_mem hwf hmem
  have hbelow := isStopBelow_of_mem hwf hother
  -- below an excluded entry its name is on the way, and below anything else there is nothing
  cases hexcluded : stop.isExcluded with
  | true =>
      rw [hstop.isExcluded_eq, Option.any_eq_true] at hexcluded
      obtain ⟨last, hlast, hname⟩ := hexcluded
      obtain ⟨front, hfront⟩ := List.getLast?_eq_some_iff.1 hlast
      have hincluded := hbelow.included last
      rw [hlocation, hfront, List.dropLast_append_cons] at hincluded
      rw [hincluded (by simp)] at hname
      contradiction
  | false =>
      have hget := hbelow.get?_eq
      rw [hlocation, FileTree.get?_append, hstop.get?_eq, Option.bind_some] at hget
      rw [opens, hexcluded, Bool.not_false, Bool.true_and, Bool.or_eq_false_iff] at hopens
      cases hnode : stop.node with
      | dir mode entries => simp [hnode, FileTree.isDir] at hopens
      | file mode data =>
          rw [hnode] at hget
          contradiction
      | link target =>
          rw [hnode] at hget
          contradiction
      | fifo mode =>
          rw [hnode] at hget
          contradiction

/-! ## Contents that are not read -/

def Stop.mapData (change : Location → Bytes → Bytes) (stop : Stop) : Stop :=
  { stop with node := stop.node.mapData fun rest => change (stop.location ++ rest) }

mutual

/-- Contents have no part in where a walk comes. -/
theorem itinerary_mapData (walk : Walk) (reachable : Bool) (path : Path) (node : FileTree)
    (change : Location → Bytes → Bytes) :
    walk.itinerary reachable path (node.mapData change) =
      (walk.itinerary reachable path node).map (Stop.mapData change) := by
  cases node with
  | dir mode entries =>
      rw [FileTree.mapData, itinerary, itinerary, List.map_cons,
        entriesItinerary_mapData walk _ path entries]
      rfl
  | file mode data => rfl
  | link target => rfl
  | fifo mode => rfl

theorem entriesItinerary_mapData (walk : Walk) (reachable : Bool) (directory : Path)
    (entries : List (FileName × FileTree)) (change : Location → Bytes → Bytes) :
    walk.entriesItinerary reachable directory (FileTree.mapEntries change entries) =
      (walk.entriesItinerary reachable directory entries).map (Stop.mapData change) := by
  match entries with
  | [] => rfl
  | (name, node) :: rest =>
      rw [FileTree.mapEntries, entriesItinerary, entriesItinerary, List.map_append,
        entriesItinerary_mapData walk reachable directory rest]
      congr 1
      split
      next => rfl
      next =>
        rw [itinerary_mapData walk reachable _ node, List.map_map, List.map_map]
        rfl

end

/-- Contents that are not read have no part in what a walk does at a stop. -/
theorem attend_mapData {change : Location → Bytes → Bytes}
    (hkept : ∀ data, walk.targets stop = true → change stop.location data = data) :
    (walk.attend (stop.mapData change)).log = (walk.attend stop).log ∧
      (walk.attend (stop.mapData change)).result = (walk.attend stop).result := by
  cases htargets : walk.targets stop with
  | true =>
      obtain ⟨-, ⟨mode, data, hfile⟩, -⟩ := targets_iff.1 htargets
      have hsame : stop.mapData change = stop := by
        obtain ⟨location, path, reachable, node, isExcluded⟩ := stop
        obtain rfl : node = .file mode data := hfile
        simp [Stop.mapData, FileTree.mapData, hkept data htargets]
      rw [hsame]
      exact ⟨rfl, rfl⟩
  | false =>
      have htargets' : walk.targets (stop.mapData change) = false := by
        obtain ⟨location, path, reachable, node, isExcluded⟩ := stop
        cases node <;> exact htargets
      rw [log_attend_of_not_targets htargets, log_attend_of_not_targets htargets',
        result_attend_of_not_targets htargets, result_attend_of_not_targets htargets']
      obtain ⟨location, path, reachable, node, isExcluded⟩ := stop
      cases isExcluded <;> cases node <;> exact ⟨rfl, rfl⟩

/-- Nor have they in a whole tour. -/
theorem tour_mapData {change : Location → Bytes → Bytes} {stops : List Stop}
    (hkept : ∀ stop ∈ stops, ∀ data, walk.targets stop = true →
      change stop.location data = data) :
    walk.tour (stops.map (Stop.mapData change)) =
      { walk.tour stops with after := (walk.tour stops).after.map (Stop.mapData change) } := by
  induction stops with
  | nil => rfl
  | cons stop rest ih =>
      obtain ⟨hstop, hrest⟩ := List.forall_mem_cons.1 hkept
      obtain ⟨hlog, hresult⟩ := attend_mapData hstop
      rw [List.map_cons]
      cases hattend : (walk.attend stop).result with
      | error failure =>
          rw [tour_cons_of_error hattend, tour_cons_of_error (hresult.trans hattend), hlog]
          rfl
      | ok tally =>
          rw [tour_cons_of_ok hattend, tour_cons_of_ok (hresult.trans hattend), hlog, ih hrest]
          rfl

/-- The same stops change the same contents, whatever else is there. -/
theorem revisedAt_map_mapData (walk : Walk) (change : Location → Bytes → Bytes)
    (stops : List Stop) :
    walk.revisedAt (stops.map (Stop.mapData change)) = walk.revisedAt stops := by
  have htargets : ∀ stop : Stop, walk.targets (stop.mapData change) = walk.targets stop := by
    intro stop
    obtain ⟨location, path, reachable, node, isExcluded⟩ := stop
    cases node <;> rfl
  funext location data
  simp only [revisedAt, List.any_map, Function.comp_def, htargets]
  rfl

section Runs

variable {root : Path} {tree node : FileTree} {base below : Location}

/-- Contents that are not read have no part in a run: they are what they are before it and
after it, and nothing else depends on them. -/
theorem run_mapData (hrooted : RootedAt tree root base node)
    {change : Location → Bytes → Bytes}
    (hkept : ∀ below data, walk.Eligible tree base below → change (base ++ below) data = data) :
    walk.run root (tree.mapData change) =
      { walk.run root tree with after := (walk.run root tree).after.mapData change } := by
  have hmapped := hrooted.mapData change
  have htour : walk.tour (walk.itinerary true root
      (node.mapData fun below => change (base ++ below))) =
        { walk.tour (walk.itinerary true root node) with
          after := (walk.tour (walk.itinerary true root node)).after.map
            (Stop.mapData fun below => change (base ++ below)) } := by
    rw [itinerary_mapData]
    apply tour_mapData
    intro stop hmem data htargets
    exact hkept _ data ((eligible_iff hrooted).2 ⟨stop, hmem, rfl, htargets⟩)
  obtain ⟨hresult, hafter⟩ := walk.run_eq hmapped
  obtain ⟨hresult', hafter'⟩ := walk.run_eq hrooted
  have hlog := walk.log_run hmapped
  rw [htour] at hresult hafter hlog
  rw [rootRecord, FileTree.endsAtLink_mapData, ← rootRecord] at hlog
  have hchanges : (walk.run root (tree.mapData change)).after =
      (walk.run root tree).after.mapData change := by
    rw [hafter, hafter', revisedAt_map_mapData, FileTree.mapData_mapData,
      FileTree.mapData_mapData]
    congr 1
    -- the change keeps the eligible files and the walk all others, so the two commute
    funext location data
    by_cases hbase : base <+: location
    · obtain ⟨below, rfl⟩ := hbase
      rw [FileTree.changeBelow_append, FileTree.changeBelow_append]
      by_cases heligible : walk.Eligible tree base below
      · rw [hkept below _ heligible, hkept below _ heligible]
      · rw [revisedAt_of_not_eligible hrooted heligible,
          revisedAt_of_not_eligible hrooted heligible]
    · rw [FileTree.changeBelow_of_not_isPrefix hbase, FileTree.changeBelow_of_not_isPrefix hbase]
  calc
    walk.run root (tree.mapData change) =
        ⟨(walk.run root (tree.mapData change)).after, (walk.run root (tree.mapData change)).log,
          (walk.run root (tree.mapData change)).result⟩ := rfl
    _ = ⟨(walk.run root tree).after.mapData change, (walk.run root tree).log,
          (walk.run root tree).result⟩ := by
      rw [hchanges, hlog, ← walk.log_run hrooted, hresult, hresult']

/-- What a walk does not touch: no file at a location below the directory at `base` or
further below is one to scan, all there stays as it was, the contents there have no part in
what the walk does, and no record shows a path that goes on from there. -/
structure LeavesAlone (walk : Walk) (root : Path) (tree : FileTree) (base below : Location) :
    Prop where
  not_eligible : ∀ rest, ¬walk.Eligible tree base (below ++ rest)
  get?_eq : (walk.run root tree).after.get? (base ++ below) = tree.get? (base ++ below)
  run_eq : ∀ change : Location → Bytes → Bytes,
    (∀ location data, ¬base ++ below <+: location → change location data = data) →
      walk.run root (tree.mapData change) =
        { walk.run root tree with after := (walk.run root tree).after.mapData change }
  no_record : ∀ event ∈ (walk.run root tree).log, ∀ path, event.path? = some path →
    ¬root.below below ++ [Path.slash] <+: path

/-- A record of a run is that of the root or is made at a stop. -/
theorem exists_of_mem_log_run (hrooted : RootedAt tree root base node) {event : Event}
    (hmem : event ∈ (walk.run root tree).log) :
    event = rootRecord tree root ∨
      ∃ stop ∈ walk.itinerary true root node, event ∈ (walk.attend stop).log := by
  rw [log_run hrooted, List.mem_cons] at hmem
  exact hmem.imp id fun htail => exists_of_mem_log_tour (List.mem_of_mem_tail htail)

/-- At one location there is one file to read or none. -/
theorem targets_eq_of_location_eq {path : Path} {stop other : Stop}
    (hstop : walk.IsStopBelow path node stop) (hother : walk.IsStopBelow path node other)
    (hlocation : other.location = stop.location) : walk.targets other = walk.targets stop := by
  have hnode : other.node = stop.node := by
    have hget := hother.get?_eq
    rw [hlocation, hstop.get?_eq] at hget
    exact (Option.some.inj hget).symm
  rw [targets, targets, hnode, hother.isExcluded_eq, hstop.isExcluded_eq, hother.path_eq,
    hstop.path_eq, hlocation]

/-- No file is eligible at a stop that is not opened, or below it. -/
theorem not_eligible_below_skipped (hrooted : RootedAt tree root base node)
    (hmem : stop ∈ walk.itinerary true root node) (hopens : walk.opens stop = false)
    (rest : Location) : ¬walk.Eligible tree base (stop.location ++ rest) := by
  intro heligible
  obtain ⟨other, hother, hlocation, htargets⟩ := (eligible_iff hrooted).1 heligible
  cases rest with
  | cons name rest =>
      exact not_mem_below_skipped hrooted.node_wellFormed hmem hopens hlocation hother
  | nil =>
      rw [List.append_nil] at hlocation
      rw [targets_eq_of_location_eq (isStopBelow_of_mem hrooted.node_wellFormed hmem)
        (isStopBelow_of_mem hrooted.node_wellFormed hother) hlocation] at htargets
      rw [opens, htargets, (targets_iff.1 htargets).1, Bool.or_true] at hopens
      contradiction

/-- Only the root has a record of its own. -/
theorem location_ne_nil_of_not_opens (hrooted : RootedAt tree root base node)
    (hmem : stop ∈ walk.itinerary true root node) (hopens : walk.opens stop = false) :
    stop.location ≠ [] := by
  intro hlocation
  have hstop := isStopBelow_of_mem hrooted.node_wellFormed hmem
  have hget := hstop.get?_eq
  have hexcluded := hstop.isExcluded_eq
  rw [hlocation] at hget hexcluded
  obtain rfl : node = stop.node := Option.some.inj hget
  rw [opens, hexcluded, hrooted.isDir] at hopens
  contradiction

/-- What is at a stop that is not opened is left alone. -/
theorem leavesAlone_of_not_opens (hrooted : RootedAt tree root base node)
    (hmem : stop ∈ walk.itinerary true root node) (hopens : walk.opens stop = false) :
    walk.LeavesAlone root tree base stop.location := by
  have hnot := not_eligible_below_skipped hrooted hmem hopens
  refine ⟨hnot, get?_run_of_not_eligible hrooted hnot, fun change hchange => ?_, ?_⟩
  · apply run_mapData hrooted
    intro below data heligible
    apply hchange
    intro hleads
    obtain ⟨rest, rfl⟩ := (List.prefix_append_right_inj base).1 hleads
    exact hnot rest heligible
  · intro event hevent path hpath hleads
    have hnames : ∀ other ∈ walk.itinerary true root node, ∀ name ∈ other.location,
        FileTree.IsEntryName name := by
      intro other hother name hname
      have hget := (isStopBelow_of_mem hrooted.node_wellFormed hother).get?_eq
      exact ((hrooted.node_wellFormed.of_get? hget).2 name hname).1
    have hnonempty := location_ne_nil_of_not_opens hrooted hmem hopens
    rcases exists_of_mem_log_run hrooted hevent with rfl | ⟨other, hother, hrecord⟩
    · have hroot : path = root.below [] := by
        rw [rootRecord] at hpath
        split at hpath <;> exact (Option.some.inj hpath).symm
      rw [hroot] at hleads
      obtain ⟨name, rest, hlocation⟩ := Path.exists_eq_append_of_isPrefix hnonempty
        (hnames stop hmem) (by simp) hleads
      simp at hlocation
    · rw [path_of_mem_log_attend hrecord hpath,
        (isStopBelow_of_mem hrooted.node_wellFormed hother).path_eq] at hleads
      obtain ⟨name, rest, hlocation⟩ := Path.exists_eq_append_of_isPrefix hnonempty
        (hnames stop hmem) (hnames other hother) hleads
      exact not_mem_below_skipped hrooted.node_wellFormed hmem hopens hlocation hother

end Runs

/-- What a walk says it skips is left alone, with all below it: no file there is scanned or
changed, what these files hold does not matter, and nothing below is recorded.  The only
exception is a root that is itself a link, which is recorded as skipped and walked. -/
theorem run_leaves_skipped_alone (walk : Walk) (root : Path) (tree : FileTree)
    (hwf : tree.WellFormed) {event : Event} {path : Path}
    (hmem : event ∈ (walk.run root tree).log) (hskipped : event.skipped? = some path) :
    (event = .skippedLink root ∧ tree.endsAtLink root = true) ∨
      ∃ base below, tree.locate true root = .ok base ∧ below ≠ [] ∧ path = root.below below ∧
        (∃ node, tree.get? (base ++ below) = some node) ∧
        walk.LeavesAlone root tree base below := by
  by_cases hrooted : ∃ base node, RootedAt tree root base node
  · obtain ⟨base, node, hrooted⟩ := hrooted
    rcases exists_of_mem_log_run hrooted hmem with rfl | ⟨stop, hstop, hrecord⟩
    · left
      rw [rootRecord] at hskipped ⊢
      cases hlink : tree.endsAtLink root with
      | true => exact ⟨rfl, rfl⟩
      | false =>
          rw [hlink] at hskipped
          contradiction
    · right
      obtain ⟨rfl, hopens⟩ := not_opens_of_mem_log_attend hrecord hskipped
      have hbelow := isStopBelow_of_mem hrooted.node_wellFormed hstop
      refine ⟨base, stop.location, hrooted.locate_eq,
        location_ne_nil_of_not_opens hrooted hstop hopens, hbelow.path_eq, ⟨stop.node, ?_⟩,
        leavesAlone_of_not_opens hrooted hstop hopens⟩
      rw [hrooted.get?_append, hbelow.get?_eq]
  · obtain ⟨failure, -, hrun⟩ := exists_run_eq_of_not_rooted hwf hrooted
    rw [hrun] at hmem
    exact absurd hmem List.not_mem_nil

/-- From the directory above it the link of the site is skipped, and what is at the link is
left alone. -/
theorem run_leaves_skipped_alone_linkedSite :
    linkedSite.WellFormed ∧
      Event.skippedLink (Utf8.encode "./link".toList) ∈
        (run ⟨⟨"js".toList, false⟩, []⟩ Path.here linkedSite).log ∧
      ∃ below, Path.below Path.here below = Utf8.encode "./link".toList ∧
        LeavesAlone ⟨⟨"js".toList, false⟩, []⟩ Path.here linkedSite [] below := by
  have hwf : linkedSite.WellFormed := by decide +kernel
  have hmem : Event.skippedLink (Utf8.encode "./link".toList) ∈
      (run ⟨⟨"js".toList, false⟩, []⟩ Path.here linkedSite).log := by decide +kernel
  have hroot : linkedSite.locate true Path.here = .ok [] := by decide +kernel
  rcases run_leaves_skipped_alone ⟨⟨"js".toList, false⟩, []⟩ Path.here linkedSite hwf hmem rfl with
    ⟨hevent, -⟩ | ⟨base, below, hlocate, -, hpath, -, hleft⟩
  · exact absurd hevent (by decide +kernel)
  · obtain rfl := Except.ok.inj (hroot.symm.trans hlocate)
    exact ⟨hwf, hmem, below, hpath.symm, hleft⟩

/-- With the link for its root a walk says that it skips the link, and scans and changes
the file below it, which it records under the link. -/
theorem not_leaves_skipped_alone_linkedSite :
    linkedSite.WellFormed ∧
      (run ⟨⟨"js".toList, false⟩, []⟩ (Utf8.encode "link".toList) linkedSite).log =
        [.skippedLink (Utf8.encode "link".toList), .extended "./b".toList "js".toList,
          .revised false 1 (Utf8.encode "link/a.js".toList)] ∧
      (run ⟨⟨"js".toList, false⟩, []⟩ (Utf8.encode "link".toList) linkedSite).result =
        .ok ⟨1, 1, 1⟩ ∧
      (run ⟨⟨"js".toList, false⟩, []⟩ (Utf8.encode "link".toList) linkedSite).after.get?
          [Utf8.encode "js".toList, Utf8.encode "a.js".toList] =
        some (.file {} (Utf8.encode "import b from './b.js';".toList)) := by
  decide +kernel

end Walk

end ImportSuffix
