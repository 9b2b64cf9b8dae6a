import ImportSuffix.Proofs.Walk.Agenda

/-!
# The first obstacle ends a walk

A walk succeeds when nothing in its scope stands in its way.  Otherwise the first
obstacle ends it, in the order of the names on the way, which is not the order of whole
paths: what is in `a` comes before `a-b`.  By then the eligible files before it have
their revised contents, and nothing else has changed (`exists_first_of_error`).  So the
places that a walk comes to are those with no obstacle before them (`exists_reached`).
-/

namespace ImportSuffix.Walk

/-- In an itinerary, the stops before one of them are those at smaller locations. -/
theorem mem_earlier_iff {earlier later : List Stop} {stop other : Stop}
    (hpairwise : (earlier ++ stop :: later).Pairwise fun before after =>
      before.location < after.location) :
    other ∈ earlier ↔ other ∈ earlier ++ stop :: later ∧ other.location < stop.location := by
  obtain ⟨-, hlater, hearlier⟩ := List.pairwise_append.1 hpairwise
  constructor
  · intro hmem
    exact ⟨List.mem_append_left _ hmem, hearlier other hmem stop List.mem_cons_self⟩
  · rintro ⟨hmem, hless⟩
    rcases List.mem_append.1 hmem with hmem | hmem
    · exact hmem
    rcases List.mem_cons.1 hmem with rfl | hmem
    · exact absurd hless (List.lt_irrefl _)
    · have hgreater := (List.pairwise_cons.1 hlater).1 other hmem
      exact absurd (List.lt_trans hless hgreater) (List.lt_irrefl _)

/-- When a tour ends at a stop, the eligible files before it have their revised
contents. -/
theorem revisedAt_earlier {walk : Walk} {root : Path} {tree node : FileTree}
    {base : Location} (hrooted : RootedAt tree root base node) {earlier later : List Stop}
    {stop : Stop} (hstops : walk.itinerary true root node = earlier ++ stop :: later)
    (below : Location) (data : Bytes) :
    walk.revisedAt earlier below data =
      if walk.dryRun = false ∧ walk.Eligible tree base below ∧ below < stop.location then
        reviseData walk.extension data
      else data := by
  have hpairwise := walk.pairwise_itinerary hrooted.node_wellFormed true root
  rw [hstops] at hpairwise
  have heligible : (earlier.any fun other => other.location = below && walk.targets other) =
      true ↔ walk.Eligible tree base below ∧ below < stop.location := by
    rw [eligible_iff hrooted, hstops]
    simp only [List.any_eq_true, Bool.and_eq_true, decide_eq_true_eq]
    constructor
    · rintro ⟨other, hmem, rfl, htargets⟩
      obtain ⟨hmem, hless⟩ := (mem_earlier_iff hpairwise).1 hmem
      exact ⟨⟨other, hmem, rfl, htargets⟩, hless⟩
    · rintro ⟨⟨other, hmem, rfl, htargets⟩, hless⟩
      exact ⟨other, (mem_earlier_iff hpairwise).2 ⟨hmem, hless⟩, rfl, htargets⟩
  rw [revisedAt]
  congr 1
  rw [Bool.and_eq_true, heligible, Bool.not_eq_true']

section Rooted

variable {walk : Walk} {root : Path} {tree node : FileTree} {base : Location}

theorem not_obstacle_of_ok (hrooted : RootedAt tree root base node) {tally : Tally}
    (hok : (walk.run root tree).result = .ok tally) (below : Location) (failure : Failure) :
    ¬walk.Obstacle root tree base below failure := by
  intro hobstacle
  obtain ⟨stop, hmem, -, herror⟩ := (obstacle_iff hrooted).1 hobstacle
  rw [(run_eq hrooted).1] at hok
  obtain ⟨tally', hattend⟩ := (tour_of_ok hok).2 stop hmem
  rw [herror] at hattend
  contradiction

/-- What stands in the way of a walk is at the first stop that fails or behind it. -/
theorem eq_or_lt_of_obstacle (hrooted : RootedAt tree root base node)
    {earlier later : List Stop} {stop : Stop} {failure : Failure}
    (hstops : walk.itinerary true root node = earlier ++ stop :: later)
    (hstop : (walk.attend stop).result = .error failure)
    (hearlier : ∀ other ∈ earlier, ∃ tally, (walk.attend other).result = .ok tally)
    {below : Location} {failure' : Failure}
    (hobstacle : walk.Obstacle root tree base below failure') :
    stop.location < below ∨ (stop.location = below ∧ failure = failure') := by
  have hpairwise := walk.pairwise_itinerary hrooted.node_wellFormed true root
  obtain ⟨other, hmem, rfl, hother⟩ := (obstacle_iff hrooted).1 hobstacle
  rw [hstops] at hmem hpairwise
  rcases List.mem_append.1 hmem with hmem | hmem
  · obtain ⟨tally, hattend⟩ := hearlier other hmem
    rw [hother] at hattend
    contradiction
  rcases List.mem_cons.1 hmem with rfl | hmem
  · exact .inr ⟨rfl, Except.error.inj (hstop.symm.trans hother)⟩
  · exact .inl ((List.pairwise_cons.1 (List.pairwise_append.1 hpairwise).2.1).1 other hmem)

/-- The stops that a walk comes to are a front of its itinerary, and if they are not all of
it then the last of them has failed. -/
theorem exists_reached (walk : Walk) (hrooted : RootedAt tree root base node) :
    ∃ front later, walk.itinerary true root node = front ++ later ∧
      (later = [] ∨ ∃ failure, (walk.tour front).result = .error failure) ∧
      ∀ stop ∈ front, walk.Reaches root tree base stop.location := by
  cases hresult : (walk.tour (walk.itinerary true root node)).result with
  | ok tally =>
      refine ⟨_, [], (List.append_nil _).symm, .inl rfl, fun stop _ first failure hobstacle => ?_⟩
      exact absurd hobstacle (not_obstacle_of_ok hrooted ((run_eq hrooted).1.trans hresult) _ _)
  | error failure =>
      obtain ⟨stop, later, hstops, hstop, hearlier⟩ := exists_of_tour_error hresult
      generalize (walk.tour (walk.itinerary true root node)).after = earlier at hstops hearlier
      refine ⟨earlier ++ [stop], later, by simp [hstops], .inr ?_, fun other hmem => ?_⟩
      · cases hfront : (walk.tour (earlier ++ [stop])).result with
        | error failure' => exact ⟨failure', rfl⟩
        | ok tally =>
            obtain ⟨tally', hok⟩ := (tour_of_ok hfront).2 stop (by simp)
            rw [hstop] at hok
            contradiction
      · have hpairwise := walk.pairwise_itinerary hrooted.node_wellFormed true root
        rw [hstops] at hpairwise
        have hupTo : ¬stop.location < other.location := by
          rcases List.mem_append.1 hmem with hmem | hmem
          · exact List.lt_asymm ((mem_earlier_iff hpairwise).1 hmem).2
          · rw [List.mem_singleton.1 hmem]
            exact List.lt_irrefl _
        intro first failure' hobstacle hless
        rcases eq_or_lt_of_obstacle hrooted hstops hstop hearlier hobstacle with
          hbehind | ⟨rfl, -⟩
        · exact hupTo (List.lt_trans hbehind hless)
        · exact hupTo hless

/-- A walk that fails has met the first obstacle. -/
theorem exists_first_of_error (hrooted : RootedAt tree root base node) {failure : Failure}
    (herror : (walk.run root tree).result = .error failure) :
    ∃ first, walk.Obstacle root tree base first failure ∧
      (∀ below failure', walk.Obstacle root tree base below failure' →
        first < below ∨ (first = below ∧ failure = failure')) ∧
      (walk.run root tree).after =
        tree.mapData (FileTree.changeBelow base fun below data =>
          if walk.dryRun = false ∧ walk.Eligible tree base below ∧ below < first then
            reviseData walk.extension data
          else data) := by
  obtain ⟨hresult, hafter⟩ := walk.run_eq hrooted
  rw [hresult] at herror
  obtain ⟨stop, later, hstops, hstop, hearlier⟩ := exists_of_tour_error herror
  refine ⟨stop.location, ?_, ?_, ?_⟩
  · rw [obstacle_iff hrooted]
    exact ⟨stop, by rw [hstops]; simp, rfl, hstop⟩
  · intro below failure' hobstacle
    exact eq_or_lt_of_obstacle hrooted hstops hstop hearlier hobstacle
  · rw [hafter]
    congr 2
    funext below data
    exact revisedAt_earlier hrooted hstops below data

end Rooted

/-- A walk succeeds when there is no obstacle.  Otherwise it reports the first one, and
it has revised the eligible files before that one and changed nothing else; on a dry
run it has changed nothing at all.  Whatever it comes to, a loop that takes up one entry
after the other, each in the tree that is there by then, comes to the same. -/
theorem run_ends_at_first_obstacle (walk : Walk) (root : Path) (tree : FileTree)
    (hwf : tree.WellFormed) {base : Location} {mode : Mode}
    {entries : List (FileName × FileTree)} (hroot : tree.locate true root = .ok base)
    (hbase : tree.get? base = some (.dir mode entries)) :
    ((∃ tally, (walk.run root tree).result = .ok tally) ↔
        ∀ below failure, ¬walk.Obstacle root tree base below failure) ∧
      ((∃ below failure, walk.Obstacle root tree base below failure) →
        ∃ first failure, walk.Obstacle root tree base first failure ∧
          (∀ below failure', walk.Obstacle root tree base below failure' →
            first < below ∨ (first = below ∧ failure = failure')) ∧
          (walk.run root tree).result = .error failure ∧
          (walk.run root tree).after =
            tree.mapData (FileTree.changeBelow base fun below data =>
              if walk.dryRun = false ∧ walk.Eligible tree base below ∧ below < first then
                reviseData walk.extension data
              else data)) ∧
      ∀ outcome, walk.WorksOff [⟨root, .directory, false⟩] tree outcome ↔
        outcome = { walk.run root tree with
          log := .entered root :: (walk.run root tree).log.tail } := by
  have hrooted : RootedAt tree root base (.dir mode entries) := ⟨hwf, hroot, hbase, rfl⟩
  rw [← and_assoc]
  refine ⟨?_, fun outcome => walk.worksOff_iff hrooted⟩
  cases hresult : (walk.run root tree).result with
  | ok tally =>
      have hnone := not_obstacle_of_ok hrooted hresult
      refine ⟨⟨fun _ => hnone, fun _ => ⟨tally, rfl⟩⟩, ?_⟩
      rintro ⟨below, failure, hobstacle⟩
      exact absurd hobstacle (hnone below failure)
  | error failure =>
      obtain ⟨first, hfirst, hleast, hafter⟩ := exists_first_of_error hrooted hresult
      refine ⟨⟨fun hok => ?_, fun hnone => absurd hfirst (hnone first failure)⟩, fun _ => ?_⟩
      · obtain ⟨tally, hok⟩ := hok
        contradiction
      · exact ⟨first, failure, hfirst, hleast, rfl, hafter⟩

/-- A site where what is in `a` is fine, `a-b.js` is not UTF-8, and `c.js` has a statement
to change but must not be written. -/
def brokenSite : FileTree :=
  .dir {}
    [(Utf8.encode "a".toList, .dir {}
        [(Utf8.encode "b.js".toList, .file {} (Utf8.encode "import b from './b';".toList))]),
      (Utf8.encode "a-b.js".toList, .file {} [0xff]),
      (Utf8.encode "c.js".toList,
        .file { write := false } (Utf8.encode "import c from './c';".toList))]

/-- Of the two obstacles in the site `a-b.js` is the first.  The walk ends there, and by then
it has revised `a/b.js` and nothing else. -/
theorem run_ends_at_first_obstacle_brokenSite :
    brokenSite.WellFormed ∧ brokenSite.locate true Path.here = .ok [] ∧
      (∃ first failure, Obstacle ⟨⟨"js".toList, false⟩, []⟩ Path.here brokenSite [] first failure ∧
        failure = .unreadable (Utf8.encode "./a-b.js".toList) .notUtf8 ∧
        (∀ below failure', Obstacle ⟨⟨"js".toList, false⟩, []⟩ Path.here brokenSite [] below
          failure' → first < below ∨ (first = below ∧ failure = failure')) ∧
        (run ⟨⟨"js".toList, false⟩, []⟩ Path.here brokenSite).result = .error failure) ∧
      (run ⟨⟨"js".toList, false⟩, []⟩ Path.here brokenSite).after =
        brokenSite.writeFile [Utf8.encode "a".toList, Utf8.encode "b.js".toList]
          (Utf8.encode "import b from './b.js';".toList) := by
  have hwf : brokenSite.WellFormed := by decide +kernel
  have hroot : brokenSite.locate true Path.here = .ok [] := by decide +kernel
  have hresult : (run ⟨⟨"js".toList, false⟩, []⟩ Path.here brokenSite).result =
      .error (.unreadable (Utf8.encode "./a-b.js".toList) .notUtf8) := by decide +kernel
  have hobstacle : Obstacle ⟨⟨"js".toList, false⟩, []⟩ Path.here brokenSite []
      [Utf8.encode "c.js".toList]
      (.unwritable (Path.below Path.here [Utf8.encode "c.js".toList]) .permissionDenied) :=
    .unwritable rfl (by decide +kernel) rfl (by decide +kernel)
      (Utf8.decode?_encode "import c from './c';".toList) (by decide +kernel) (by decide +kernel)
  obtain ⟨first, failure, hfirst, hleast, hfailure, -⟩ :=
    (run_ends_at_first_obstacle ⟨⟨"js".toList, false⟩, []⟩ Path.here brokenSite hwf hroot rfl).2.1
      ⟨_, _, hobstacle⟩
  have hsame := Except.error.inj (hfailure.symm.trans hresult)
  exact ⟨hwf, hroot, ⟨first, failure, hfirst, hsame, hleast, hfailure⟩, by decide +kernel⟩

end ImportSuffix.Walk
