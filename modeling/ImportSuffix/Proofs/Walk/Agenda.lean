import ImportSuffix.Proofs.Walk.Completion

/-!
# Working off an agenda

A walk can be done entry by entry.  What is still to come stands on an agenda: a path, what
the listing of the directory above said of it, and whether its name is excluded.  The first
task is taken up in the tree as the tasks before it have left it, by its path alone.  A
directory is listed then, which puts its entries in front of what is left, and a file is
edited (`takeUp`).

A run comes to the same as this loop, failed or not (`worksOff_iff`), so no write has a part
in what is listed or read later.
-/

namespace ImportSuffix

inductive Kind where
  | file
  | directory
  | link
  | special

namespace FileTree

def kind : FileTree → Kind
  | .file _ _ => .file
  | .dir _ _ => .directory
  | .link _ => .link
  | .fifo _ => .special

def listing (tree : FileTree) (path : Path) : Except AccessError (List (FileName × FileTree)) :=
  match tree.locate true path with
  | .error cause => .error cause
  | .ok location =>
      match tree.get? location with
      | none => .error .notFound
      | some (.dir mode entries) => if mode.read then .ok entries else .error .permissionDenied
      | some _ => .error .notDirectory

end FileTree

namespace Walk

structure Task where
  path : Path
  kind : Kind
  isExcluded : Bool

def tasksOf (walk : Walk) (directory : Path) (entries : List (FileName × FileTree)) :
    List Task :=
  entries.map fun entry =>
    ⟨directory.join entry.1, entry.2.kind, walk.excludes entry.1⟩

/-- What a walk does with a task.  The result counts a file and has the tasks that follow
from a directory. -/
def takeUp (walk : Walk) (task : Task) (tree : FileTree) : Outcome FileTree (Tally × List Task) :=
  if task.isExcluded then ⟨tree, [.excluded task.path], .ok (.zero, [])⟩
  else
    match task.kind with
    | .directory =>
        match tree.listing task.path with
        | .error cause => ⟨tree, [.entered task.path], .error (.unlistable task.path cause)⟩
        | .ok entries =>
            ⟨tree, [.entered task.path], .ok (.zero, walk.tasksOf task.path entries)⟩
    | .link => ⟨tree, [.skippedLink task.path], .ok (.zero, [])⟩
    | .special => ⟨tree, [.skippedSpecial task.path], .ok (.zero, [])⟩
    | .file =>
        if task.path.hasExtension walk.extension then
          let outcome := walk.applyToPath task.path tree
          match outcome.result with
          | .error failure => ⟨outcome.after, outcome.log, .error failure⟩
          | .ok changed =>
              { after := outcome.after
                log := outcome.log ++
                  (if changed = 0 then [] else [.revised walk.dryRun changed task.path])
                result := .ok (.ofFile changed, []) }
        else ⟨tree, [.skippedOther task.path], .ok (.zero, [])⟩

/-- To work off an agenda is to take up its tasks one after the other, each in the tree that
is there by then, until one fails or none is left. -/
inductive WorksOff (walk : Walk) : List Task → FileTree → Outcome FileTree Tally → Prop where
  | done (tree : FileTree) : WorksOff walk [] tree ⟨tree, [], .ok .zero⟩
  | fails {task : Task} {tree : FileTree} {failure : Failure} (rest : List Task)
      (herror : (walk.takeUp task tree).result = .error failure) :
      WorksOff walk (task :: rest) tree
        ⟨(walk.takeUp task tree).after, (walk.takeUp task tree).log, .error failure⟩
  | goesOn {task : Task} {tree : FileTree} {tally : Tally} {more rest : List Task}
      {later : Outcome FileTree Tally}
      (hok : (walk.takeUp task tree).result = .ok (tally, more))
      (hlater : WorksOff walk (more ++ rest) (walk.takeUp task tree).after later) :
      WorksOff walk (task :: rest) tree
        { after := later.after
          log := (walk.takeUp task tree).log ++ later.log
          result := later.result.map tally.add }

theorem WorksOff.unique {walk : Walk} {agenda : List Task} {tree : FileTree}
    {outcome outcome' : Outcome FileTree Tally} (hworks : walk.WorksOff agenda tree outcome)
    (hworks' : walk.WorksOff agenda tree outcome') : outcome = outcome' := by
  induction hworks generalizing outcome' with
  | done tree =>
      cases hworks'
      rfl
  | fails rest herror =>
      cases hworks' with
      | fails _ herror' =>
          obtain rfl := Except.error.inj (herror.symm.trans herror')
          rfl
      | goesOn hok _ =>
          rw [herror] at hok
          contradiction
  | goesOn hok _ ih =>
      cases hworks' with
      | fails _ herror =>
          rw [hok] at herror
          contradiction
      | goesOn hok' hlater' =>
          obtain ⟨rfl, rfl⟩ := Prod.mk.inj (Except.ok.inj (hok.symm.trans hok'))
          rw [ih hlater']

/-! ## Stops as tasks -/

namespace Stop

def task (stop : Stop) : Task :=
  ⟨stop.path, stop.node.kind, stop.isExcluded⟩

def underAll (base : Location) (stop : Stop) : Stop :=
  { stop with location := base ++ stop.location }

def child (walk : Walk) (stop : Stop) (mode : Mode) (entry : FileName × FileTree) : Stop :=
  ⟨stop.location ++ [entry.1], stop.path.join entry.1, stop.reachable && mode.search, entry.2,
    walk.excludes entry.1⟩

/-- The stops that follow from a stop: those at the entries, if it is a directory. -/
def children (walk : Walk) (stop : Stop) : List Stop :=
  if stop.isExcluded then []
  else
    match stop.node with
    | .dir mode entries => entries.map (stop.child walk mode)
    | _ => []

/-- A stop and all the stops below it. -/
def expand (walk : Walk) (stop : Stop) : List Stop :=
  if stop.isExcluded then [stop]
  else (walk.itinerary stop.reachable stop.path stop.node).map (underAll stop.location)

end Stop

theorem map_underAll_entriesItinerary (walk : Walk) (stop : Stop) (mode : Mode)
    (entries : List (FileName × FileTree)) :
    (walk.entriesItinerary (stop.reachable && mode.search) stop.path entries).map
        (Stop.underAll stop.location) =
      (entries.map (stop.child walk mode)).flatMap (Stop.expand walk) := by
  induction entries with
  | nil => rfl
  | cons entry rest ih =>
      obtain ⟨name, node⟩ := entry
      rw [entriesItinerary, List.map_append, ih, List.map_cons, List.flatMap_cons]
      congr 1
      rw [Stop.expand, Stop.child]
      cases walk.excludes name with
      | true => rfl
      | false =>
          simp only [Bool.false_eq_true, if_false, List.map_map]
          apply List.map_congr_left
          intro inner _
          simp [Stop.underAll, Stop.under]

/-- What is below a stop is what is below those that follow from it. -/
theorem expand_eq_cons (walk : Walk) (stop : Stop) :
    stop.expand walk = stop :: (stop.children walk).flatMap (Stop.expand walk) := by
  obtain ⟨location, path, reachable, node, isExcluded⟩ := stop
  cases isExcluded with
  | true => rfl
  | false =>
      cases node with
      | dir mode entries =>
          have hbelow := map_underAll_entriesItinerary walk
            ⟨location, path, reachable, .dir mode entries, false⟩ mode entries
          dsimp only at hbelow
          simp [Stop.expand, Stop.children, itinerary, hbelow, Stop.underAll]
      | file mode data => simp [Stop.expand, Stop.children, itinerary, Stop.underAll]
      | link target => simp [Stop.expand, Stop.children, itinerary, Stop.underAll]
      | fifo mode => simp [Stop.expand, Stop.children, itinerary, Stop.underAll]

theorem map_task_children {walk : Walk} {stop : Stop} {mode : Mode}
    {entries : List (FileName × FileTree)} (hincluded : stop.isExcluded = false)
    (hnode : stop.node = .dir mode entries) :
    (stop.children walk).map Stop.task = walk.tasksOf stop.path entries := by
  simp [Stop.children, hincluded, hnode, tasksOf, Stop.child, Stop.task]

theorem tasksOf_mapEntries (walk : Walk) (directory : Path) (change : Location → Bytes → Bytes)
    (entries : List (FileName × FileTree)) :
    walk.tasksOf directory (FileTree.mapEntries change entries) =
      walk.tasksOf directory entries := by
  induction entries with
  | nil => rfl
  | cons entry rest ih =>
      obtain ⟨name, node⟩ := entry
      have hkind : ∀ change, (node.mapData change).kind = node.kind := by
        intro change
        cases node <;> rfl
      rw [tasksOf] at ih
      simp [tasksOf, FileTree.mapEntries, hkind, ih]

/-! ## One task -/

def revisedFiles (walk : Walk) (stops : List Stop) : List Location :=
  if walk.dryRun then [] else (stops.filter walk.targets).map Stop.location

theorem revisedFiles_append (walk : Walk) (stops later : List Stop) :
    walk.revisedFiles (stops ++ later) = walk.revisedFiles stops ++ walk.revisedFiles later := by
  rw [revisedFiles, revisedFiles, revisedFiles]
  cases walk.dryRun <;> simp

theorem revisedFiles_of_not_targets {walk : Walk} {stop : Stop}
    (htargets : walk.targets stop = false) : walk.revisedFiles [stop] = [] := by
  rw [revisedFiles, List.filter_cons_of_neg (by simp [htargets])]
  cases walk.dryRun <;> rfl

theorem reviseFiles_revisedFiles (walk : Walk) (tree : FileTree) (base : Location)
    (stops : List Stop) :
    walk.reviseFiles tree base (walk.revisedFiles stops) =
      tree.mapData (FileTree.changeBelow base (walk.revisedAt stops)) := by
  rw [reviseFiles]
  congr 2
  funext below data
  rw [revisedAt, revisedFiles]
  congr 1
  rw [eq_iff_iff]
  cases walk.dryRun with
  | true => simp
  | false => simp [and_comm, and_left_comm]

section Rooted

variable {root : Path} {tree node : FileTree} {base below : Location} {mode : Mode}
  {done : List Location}

/-- To list a directory below the root fails where the walk does. -/
theorem listing_mapData (hrooted : RootedAt tree root base node)
    {entries : List (FileName × FileTree)} (hdir : node.get? below = some (.dir mode entries))
    (change : Location → Bytes → Bytes) :
    (tree.mapData change).listing (root.below below) =
      match (root.below below).obstacle? (node.searchable below && mode.read) with
      | some cause => .error cause
      | none => .ok (FileTree.mapEntries (fun rest => change (base ++ below ++ rest)) entries) := by
  have hget : (tree.mapData change).get? (base ++ below) =
      some (.dir mode (FileTree.mapEntries (fun rest => change (base ++ below ++ rest)) entries)) :=
    FileTree.get?_mapData_eq_dir_iff.2 ⟨entries, (hrooted.get?_append below).trans hdir, rfl⟩
  rw [FileTree.listing, FileTree.locate_mapData, FileTree.locate_below hrooted.locate_eq
    hrooted.get?_eq hrooted.node_wellFormed hdir rfl, Path.obstacle?]
  cases (root.below below).isTooLong <;> cases node.searchable below <;> cases hread : mode.read <;>
    simp [hget, hread]

/-- A file to read is edited by its path as the walk does it in passing. -/
theorem takeUp_of_targets {walk : Walk} (hrooted : RootedAt tree root base node) {stop : Stop}
    (hcomes : walk.ComesTo true root node stop) (htargets : walk.targets stop = true)
    (hnew : stop.location ∉ done) :
    walk.takeUp stop.task (walk.reviseFiles tree base done) =
      { after :=
          match (walk.attend stop).result with
          | .error _ => walk.reviseFiles tree base done
          | .ok _ => walk.reviseFiles tree base (done ++ walk.revisedFiles [stop])
        log := (walk.attend stop).log
        result := (walk.attend stop).result.map (·, (stop.children walk).map Stop.task) } := by
  obtain ⟨-, ⟨mode, data, hfile⟩, hextension⟩ := targets_iff.1 htargets
  have hrevised : walk.revisedFiles [stop] = if walk.dryRun then [] else [stop.location] := by
    rw [revisedFiles, List.filter_cons_of_pos htargets]
    rfl
  obtain ⟨location, path, reachable, target, isExcluded⟩ := stop
  obtain ⟨hincluded, -, hget, hpath, hreachable⟩ := hcomes
  dsimp only at hfile hincluded hget hpath hreachable hextension hnew hrevised
  subst hfile hincluded hpath hreachable
  have hedit := walk.applyToPath_reviseFiles hrooted hget hnew
  have hinsert := walk.insert_applyToData hrooted hget hnew (root.below location)
    (node.searchable location && mode.read) (node.searchable location && mode.write)
  obtain ⟨hresult, hlog⟩ := walk.visitFile_eq (node.searchable location) (root.below location)
    mode data
  rw [hrevised]
  simp only [takeUp, Stop.task, FileTree.kind, attend, visit, hextension, Bool.true_and,
    Bool.false_eq_true, if_false, if_true, hedit, hinsert, hresult, hlog]
  cases (walk.applyToData (root.below location) (node.searchable location && mode.read)
    (node.searchable location && mode.write) data).result with
  | error failure => simp [Except.map]
  | ok changed => simp [Except.map, Stop.children]

/-- An entry that is no file to read is taken up without regard to contents. -/
theorem takeUp_of_not_targets {walk : Walk} (hrooted : RootedAt tree root base node)
    {stop : Stop} (hcomes : walk.ComesTo true root node stop)
    (htargets : walk.targets stop = false) :
    walk.takeUp stop.task (walk.reviseFiles tree base done) =
      { after := walk.reviseFiles tree base done
        log := (walk.attend stop).log
        result := (walk.attend stop).result.map (·, (stop.children walk).map Stop.task) } := by
  obtain ⟨location, path, reachable, target, isExcluded⟩ := stop
  obtain ⟨hincluded, -, hget, hpath, hreachable⟩ := hcomes
  dsimp only at hincluded hget hpath hreachable
  subst hincluded hpath hreachable
  cases target with
  | dir mode entries =>
      have hlisting := listing_mapData hrooted hget
        (FileTree.changeBelow base fun below data =>
          if below ∈ done then reviseData walk.extension data else data)
      rw [← reviseFiles] at hlisting
      rw [map_task_children rfl rfl]
      simp only [takeUp, Stop.task, FileTree.kind, attend, hlisting, Bool.true_and,
        Bool.false_eq_true, if_false]
      cases (root.below location).obstacle? (node.searchable location && mode.read) with
      | some cause => simp [Except.map]
      | none => simp [Except.map, tasksOf_mapEntries]
  | file mode data =>
      have hextension : (root.below location).hasExtension walk.extension = false := by
        simpa [targets, FileTree.isFile] using htargets
      simp [takeUp, Stop.task, FileTree.kind, attend, visit, hextension, Except.map,
        Stop.children]
  | link path =>
      simp [takeUp, Stop.task, FileTree.kind, attend, visit, Except.map, Stop.children]
  | fifo mode =>
      simp [takeUp, Stop.task, FileTree.kind, attend, visit, Except.map, Stop.children]

/-- A task is taken up as its stop is attended, in a tree where files are revised that come
before it. -/
theorem takeUp_eq (walk : Walk) (hrooted : RootedAt tree root base node) {stop : Stop}
    (hmem : stop ∈ walk.itinerary true root node) (hnew : stop.location ∉ done) :
    walk.takeUp stop.task (walk.reviseFiles tree base done) =
      { after :=
          match (walk.attend stop).result with
          | .error _ => walk.reviseFiles tree base done
          | .ok _ => walk.reviseFiles tree base (done ++ walk.revisedFiles [stop])
        log := (walk.attend stop).log
        result := (walk.attend stop).result.map (·, (stop.children walk).map Stop.task) } := by
  cases hexcluded : stop.isExcluded with
  | true =>
      have htargets : walk.targets stop = false := by simp [targets, hexcluded]
      simp [takeUp, Stop.task, attend, Stop.children, hexcluded, Except.map,
        revisedFiles_of_not_targets htargets]
  | false =>
      have hcomes := (mem_itinerary_iff hrooted.node_wellFormed).1 ⟨hmem, hexcluded⟩
      cases htargets : walk.targets stop with
      | true => exact takeUp_of_targets hrooted hcomes htargets hnew
      | false =>
          rw [takeUp_of_not_targets hrooted hcomes htargets,
            revisedFiles_of_not_targets htargets, List.append_nil]
          cases (walk.attend stop).result <;> rfl

/-! ## The whole agenda -/

/-- No stop is at the location of an earlier one. -/
theorem location_notMem_revisedFiles {walk : Walk} (hrooted : RootedAt tree root base node)
    {earlier later : List Stop} {stop : Stop}
    (hstops : walk.itinerary true root node = earlier ++ stop :: later) :
    stop.location ∉ walk.revisedFiles earlier := by
  have hpairwise := walk.pairwise_itinerary hrooted.node_wellFormed true root
  rw [hstops] at hpairwise
  rw [revisedFiles]
  split
  next => exact List.not_mem_nil
  next =>
    intro hmem
    obtain ⟨other, hother, heq⟩ := List.mem_map.1 hmem
    have hless := (List.pairwise_append.1 hpairwise).2.2 other (List.mem_filter.1 hother).1
      stop List.mem_cons_self
    rw [heq] at hless
    exact List.lt_irrefl _ hless

/-- The rest of the itinerary is toured as its agenda is worked off, when what comes before is
revised. -/
theorem worksOff_tour {walk : Walk} (hrooted : RootedAt tree root base node)
    {done stops agenda : List Stop}
    (hstops : walk.itinerary true root node = done ++ stops)
    (hagenda : agenda.flatMap (Stop.expand walk) = stops) :
    walk.WorksOff (agenda.map Stop.task) (walk.reviseFiles tree base (walk.revisedFiles done))
      { after :=
          walk.reviseFiles tree base (walk.revisedFiles (done ++ (walk.tour stops).after))
        log := (walk.tour stops).log
        result := (walk.tour stops).result } := by
  induction stops generalizing done agenda with
  | nil =>
      cases agenda with
      | nil => simpa [tour] using WorksOff.done _
      | cons first later => simp [expand_eq_cons] at hagenda
  | cons stop rest ih =>
      cases agenda with
      | nil => contradiction
      | cons first later =>
          rw [List.flatMap_cons, expand_eq_cons, List.cons_append, ← List.flatMap_append] at hagenda
          obtain ⟨rfl, hrest⟩ := List.cons.inj hagenda
          have hnew := location_notMem_revisedFiles hrooted hstops
          have htake := walk.takeUp_eq hrooted (by rw [hstops]; simp) hnew
          rw [List.map_cons]
          cases hattend : (walk.attend first).result with
          | error failure =>
              rw [hattend] at htake
              rw [tour_cons_of_error hattend]
              have hfails := WorksOff.fails (later.map Stop.task)
                (congrArg Outcome.result htake)
              rw [htake] at hfails
              simpa using hfails
          | ok tally =>
              rw [hattend] at htake
              rw [tour_cons_of_ok hattend]
              have hlater := ih (by rw [hstops, List.append_cons]) hrest
              have hafter : (walk.takeUp first.task
                  (walk.reviseFiles tree base (walk.revisedFiles done))).after =
                    walk.reviseFiles tree base (walk.revisedFiles (done ++ [first])) := by
                rw [htake, revisedFiles_append]
              rw [List.map_append, ← hafter] at hlater
              have hgoesOn := WorksOff.goesOn (congrArg Outcome.result htake) hlater
              rw [htake] at hgoesOn
              simpa using hgoesOn

end Rooted

/-- To work off the agenda that has nothing but the root on it comes to the same as a run,
whatever that comes to, but for the record of the root. -/
theorem worksOff_iff (walk : Walk) {root : Path} {tree node : FileTree} {base : Location}
    (hrooted : RootedAt tree root base node) {outcome : Outcome FileTree Tally} :
    walk.WorksOff [⟨root, .directory, false⟩] tree outcome ↔
      outcome = { walk.run root tree with
        log := .entered root :: (walk.run root tree).log.tail } := by
  have hsame : Stop.underAll [] = id := rfl
  have hagenda : [(⟨[], root, true, node, false⟩ : Stop)].flatMap (Stop.expand walk) =
      walk.itinerary true root node := by
    simp [Stop.expand, hsame]
  have hnone : walk.reviseFiles tree base (walk.revisedFiles []) = tree := by
    rw [revisedFiles, List.filter_nil, List.map_nil, ite_self, reviseFiles_nil]
  have hworks := worksOff_tour hrooted (List.nil_append _).symm hagenda
  obtain ⟨hresult, hafter⟩ := walk.run_eq hrooted
  rw [hnone, List.nil_append, reviseFiles_revisedFiles, ← hafter, ← hresult,
    log_tour_itinerary hrooted] at hworks
  have hrun : walk.WorksOff [⟨root, .directory, false⟩] tree
      { walk.run root tree with log := .entered root :: (walk.run root tree).log.tail } := by
    obtain ⟨mode, entries, rfl⟩ := hrooted.exists_dir
    rw [log_run hrooted, List.tail_cons]
    exact hworks
  constructor
  · exact fun hworks' => hworks'.unique hrun
  · rintro rfl
    exact hrun

end Walk

end ImportSuffix
