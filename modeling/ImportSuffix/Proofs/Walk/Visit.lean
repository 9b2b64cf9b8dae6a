import ImportSuffix.Proofs.Walk.Itinerary

/-!
# A visit is a tour

A visit goes through the tree while it changes it, and stops at the first failure.  It
does the same as a tour of the itinerary, which was settled beforehand (`visit_eq`):
the stops of the tour that did not fail, and no others, are where contents were
revised.
-/

namespace ImportSuffix.Walk

/-- The change of contents that is due to some stops. -/
def revisedAt (walk : Walk) (stops : List Stop) (location : Location) (data : Bytes) : Bytes :=
  if !walk.dryRun && stops.any fun stop => stop.location = location && walk.targets stop then
    reviseData walk.extension data
  else data

theorem revisedAt_nil (walk : Walk) : walk.revisedAt [] = fun _ data => data := by
  funext location data
  simp [revisedAt]

/-- Nothing is due to a stop that is not at a file to read. -/
theorem revisedAt_cons_of_not_targets {walk : Walk} {stop : Stop}
    (htargets : walk.targets stop = false) (rest : List Stop) :
    walk.revisedAt (stop :: rest) = walk.revisedAt rest := by
  funext location data
  simp [revisedAt, htargets]

/-- Below one entry only the stops there count. -/
theorem revisedAt_under_append {name : FileName} {later : List Stop}
    (hlater : ∀ stop ∈ later, stop.location.head? ≠ some name) (walk : Walk)
    (stops : List Stop) (below : Location) (data : Bytes) :
    walk.revisedAt (stops.map (Stop.under name) ++ later) (name :: below) data =
      walk.revisedAt stops below data := by
  have hnone : (later.any fun stop =>
      stop.location = name :: below && walk.targets stop) = false := by
    rw [List.any_eq_false]
    intro stop hmem htrue
    have hlocation : stop.location = name :: below := by simp_all
    exact hlater stop hmem (by rw [hlocation]; rfl)
  have hsome : ((stops.map (Stop.under name)).any fun stop =>
      stop.location = name :: below && walk.targets stop) =
        stops.any fun stop => stop.location = below && walk.targets stop := by
    simp [List.any_map, Function.comp_def, Stop.under, targets]
  rw [revisedAt, List.any_append, hnone, hsome, Bool.or_false, revisedAt]

/-- Below the entries of other names the stops under one name do not count. -/
theorem revisedAt_under_append_of_ne {name other : FileName} (hne : name ≠ other)
    (walk : Walk) (stops later : List Stop) (below : Location) (data : Bytes) :
    walk.revisedAt (stops.map (Stop.under name) ++ later) (other :: below) data =
      walk.revisedAt later (other :: below) data := by
  have hnone : ((stops.map (Stop.under name)).any fun stop =>
      stop.location = other :: below && walk.targets stop) = false := by
    simp [Stop.under, hne]
  rw [revisedAt, List.any_append, hnone, Bool.false_or, revisedAt]

/-- The stops under one name change what is under it, and the later ones the other
entries. -/
theorem mapEntries_revisedAt {name : FileName} {node : FileTree}
    {rest : List (FileName × FileTree)}
    (hwf : FileTree.EntriesWellFormed ((name, node) :: rest)) (walk : Walk)
    (stops later : List Stop)
    (hlater : ∀ stop ∈ later, ∃ entry ∈ rest, stop.location.head? = some entry.1) :
    FileTree.mapEntries (walk.revisedAt (stops.map (Stop.under name) ++ later))
        ((name, node) :: rest) =
      (name, node.mapData (walk.revisedAt stops)) ::
        FileTree.mapEntries (walk.revisedAt later) rest := by
  have hne := FileTree.ne_of_mem_rest hwf
  have hhead : ∀ stop ∈ later, stop.location.head? ≠ some name := by
    intro stop hmem hname
    obtain ⟨entry, hentry, hlocation⟩ := hlater stop hmem
    rw [hlocation] at hname
    exact hne entry hentry (Option.some.inj hname).symm
  have hunder : (fun below => walk.revisedAt (stops.map (Stop.under name) ++ later)
      (name :: below)) = walk.revisedAt stops := by
    funext below data
    exact revisedAt_under_append hhead walk stops below data
  have hothers : FileTree.mapEntries (walk.revisedAt (stops.map (Stop.under name) ++ later))
      rest = FileTree.mapEntries (walk.revisedAt later) rest := by
    apply FileTree.mapEntries_congr hwf.2.2.2.2
    intro other child hmem below mode data hget
    exact revisedAt_under_append_of_ne (hne _ hmem) walk stops later below data
  rw [FileTree.mapEntries, hunder, hothers]

/-! ## The tour of the itinerary -/

/-- What a visit of a file records and comes to, given what the edit does. -/
theorem visitFile_eq (walk : Walk) (reachable : Bool) (path : Path) (mode : Mode)
    (data : Bytes) :
    (walk.visitFile reachable path mode data).result =
        (walk.applyToData path (reachable && mode.read) (reachable && mode.write)
          data).result.map Tally.ofFile ∧
      (walk.visitFile reachable path mode data).log =
        (walk.applyToData path (reachable && mode.read) (reachable && mode.write) data).log ++
          match (walk.applyToData path (reachable && mode.read) (reachable && mode.write)
            data).result with
          | .error _ => []
          | .ok changed => if changed = 0 then [] else [.revised walk.dryRun changed path] := by
  rw [visitFile]
  cases (walk.applyToData path (reachable && mode.read) (reachable && mode.write)
    data).result with
  | error failure => exact ⟨rfl, (List.append_nil _).symm⟩
  | ok changed => exact ⟨rfl, rfl⟩

theorem after_visit_file (walk : Walk) (reachable : Bool) (path : Path) (mode : Mode)
    (data : Bytes) :
    (walk.visit reachable path (.file mode data)).after =
      match (walk.visit reachable path (.file mode data)).result with
      | .error _ => .file mode data
      | .ok _ => .file mode
          (if !walk.dryRun && path.hasExtension walk.extension then
            reviseData walk.extension data
          else data) := by
  rw [visit]
  split
  next hextension =>
    rw [visitFile]
    cases hresult : (walk.applyToData path (reachable && mode.read) (reachable && mode.write)
        data).result with
    | error failure => simp [Edit.applyToData_of_error hresult]
    | ok changed =>
        rw [(Edit.applyToData_of_ok hresult).2.2.2, hextension]
        cases walk.dryRun <;> rfl
  next hextension => simp [hextension]

theorem visit_file_eq (walk : Walk) (reachable : Bool) (path : Path) (mode : Mode)
    (data : Bytes) :
    walk.visit reachable path (.file mode data) =
      { walk.tour [⟨[], path, reachable, .file mode data, false⟩] with
        after := (FileTree.file mode data).mapData
          (walk.revisedAt (walk.tour [⟨[], path, reachable, .file mode data, false⟩]).after) } := by
  have hattend : walk.attend ⟨[], path, reachable, .file mode data, false⟩ =
      walk.visit reachable path (.file mode data) := rfl
  have hafter := walk.after_visit_file reachable path mode data
  cases hvisit : walk.visit reachable path (.file mode data) with
  | mk after log result =>
      rw [hvisit] at hattend hafter
      cases result with
      | error failure =>
          rw [tour_cons_of_error (by rw [hattend])]
          simpa [hattend, FileTree.mapData, revisedAt_nil] using hafter
      | ok tally =>
          rw [tour_cons_of_ok (by rw [hattend])]
          simpa [hattend, FileTree.mapData, tour, Except.map, revisedAt, targets,
            FileTree.isFile] using hafter

mutual

/-- A walk is the tour of its itinerary, and contents are revised at the stops that did
not fail. -/
theorem visit_eq (walk : Walk) {node : FileTree} (hwf : node.WellFormed) (reachable : Bool)
    (path : Path) :
    walk.visit reachable path node =
      { walk.tour (walk.itinerary reachable path node) with
        after := node.mapData
          (walk.revisedAt (walk.tour (walk.itinerary reachable path node)).after) } := by
  cases node with
  | dir mode entries =>
      have hdir : walk.targets ⟨[], path, reachable, .dir mode entries, false⟩ = false := rfl
      rw [visit, itinerary]
      cases hobstacle : path.obstacle? (reachable && mode.read) with
      | some cause => simp [tour, attend, hobstacle, revisedAt_nil]
      | none =>
          rw [visitEntries_eq walk hwf]
          simp [tour, attend, hobstacle, revisedAt_cons_of_not_targets hdir, FileTree.mapData]
  | file mode data => exact walk.visit_file_eq reachable path mode data
  | link target => simp [visit, itinerary, tour, attend, FileTree.mapData, Except.map]
  | fifo mode => simp [visit, itinerary, tour, attend, FileTree.mapData, Except.map]

theorem visitEntries_eq (walk : Walk) {entries : List (FileName × FileTree)}
    (hwf : FileTree.EntriesWellFormed entries) (reachable : Bool) (directory : Path) :
    walk.visitEntries reachable directory entries =
      { walk.tour (walk.entriesItinerary reachable directory entries) with
        after := FileTree.mapEntries
          (walk.revisedAt (walk.tour (walk.entriesItinerary reachable directory entries)).after)
          entries } := by
  match entries with
  | [] => rfl
  | (name, node) :: rest =>
      have hlater : ∀ stop ∈ (walk.tour (walk.entriesItinerary reachable directory rest)).after,
          ∃ entry ∈ rest, stop.location.head? = some entry.1 :=
        fun stop hmem => head?_location_of_mem
          ((walk.after_tour_isPrefix _).subset hmem)
      have hfirst := walk.visit_eq hwf.2.2.2.1 reachable (directory.join name)
      have hrest := walk.visitEntries_eq hwf.2.2.2.2 reachable directory
      rw [visitEntries, entriesItinerary]
      by_cases hexcluded : walk.excludes name
      · have hentries := mapEntries_revisedAt hwf walk [] _ hlater
        simp only [if_pos hexcluded, List.singleton_append]
        rw [tour_cons_of_ok rfl, hrest, revisedAt_cons_of_not_targets rfl]
        simpa [attend, revisedAt_nil] using hentries.symm
      · simp only [if_neg hexcluded]
        rw [hfirst, hrest, tour_append, tour_map_under]
        dsimp only
        cases (walk.tour (walk.itinerary reachable (directory.join name) node)).result with
        | error failure =>
            have hentries := mapEntries_revisedAt hwf walk
              (walk.tour (walk.itinerary reachable (directory.join name) node)).after [] (by simp)
            simpa [revisedAt_nil] using hentries.symm
        | ok tally =>
            rw [mapEntries_revisedAt hwf walk _ _ hlater]

end

end ImportSuffix.Walk
