import ImportSuffix.Proofs.FileTree.Contents
import ImportSuffix.Proofs.FileTree.Resolution
import ImportSuffix.Proofs.Walk.Tour

/-!
# The itinerary of a walk

The itinerary lists the stops of a walk in order, and is settled by the names and kinds
in the tree before anything is read.  It has one stop for every location that is not
below an excluded name (`mem_itinerary_iff`), in ascending order of the names on the
way, byte by byte, each directory before what is in it (`pairwise_itinerary`).
-/

namespace ImportSuffix.Walk

mutual

/-- The stops at a node and below it, in the order of the walk. -/
def itinerary (walk : Walk) (reachable : Bool) (path : Path) : FileTree → List Stop
  | .dir mode entries =>
      ⟨[], path, reachable, .dir mode entries, false⟩ ::
        entriesItinerary walk (reachable && mode.search) path entries
  | node => [⟨[], path, reachable, node, false⟩]

def entriesItinerary (walk : Walk) (reachable : Bool) (directory : Path) :
    List (FileName × FileTree) → List Stop
  | [] => []
  | (name, node) :: rest =>
      (if walk.excludes name then [⟨[name], directory.join name, reachable, node, true⟩]
        else (itinerary walk reachable (directory.join name) node).map (Stop.under name)) ++
        entriesItinerary walk reachable directory rest

end

theorem itinerary_leaf (walk : Walk) {node : FileTree} (hleaf : node.isDir = false)
    (reachable : Bool) (path : Path) :
    walk.itinerary reachable path node = [⟨[], path, reachable, node, false⟩] := by
  cases node with
  | dir mode entries => contradiction
  | file mode data => rfl
  | link target => rfl
  | fifo mode => rfl

/-- The stops below a directory are under the names of its entries. -/
theorem head?_location_of_mem {walk : Walk} {reachable : Bool} {directory : Path}
    {entries : List (FileName × FileTree)} {stop : Stop}
    (hmem : stop ∈ walk.entriesItinerary reachable directory entries) :
    ∃ entry ∈ entries, stop.location.head? = some entry.1 := by
  induction entries with
  | nil => simp [entriesItinerary] at hmem
  | cons entry rest ih =>
      rw [entriesItinerary, List.mem_append] at hmem
      rcases hmem with hfirst | hrest
      · refine ⟨entry, List.mem_cons_self, ?_⟩
        split at hfirst
        next =>
          obtain rfl := List.mem_singleton.1 hfirst
          rfl
        next =>
          obtain ⟨inner, -, rfl⟩ := List.mem_map.1 hfirst
          rfl
      · obtain ⟨other, hother, hhead⟩ := ih hrest
        exact ⟨other, List.mem_cons_of_mem entry hother, hhead⟩

/-! ## Where a walk comes -/

/-- A walk that starts at a node comes to a stop: no name on the way is excluded, and the
stop has the path and the node that the names lead to. -/
structure ComesTo (walk : Walk) (reachable : Bool) (path : Path) (node : FileTree)
    (stop : Stop) : Prop where
  isExcluded_eq : stop.isExcluded = false
  included : ∀ name ∈ stop.location, walk.excludes name = false
  get?_eq : node.get? stop.location = some stop.node
  path_eq : stop.path = path.below stop.location
  reachable_eq : stop.reachable = (reachable && node.searchable stop.location)

section ComesTo

variable {walk : Walk} {reachable : Bool} {path : Path}

theorem comesTo_here (node : FileTree) :
    walk.ComesTo reachable path node ⟨[], path, reachable, node, false⟩ where
  isExcluded_eq := rfl
  included := by simp
  get?_eq := rfl
  path_eq := rfl
  reachable_eq := by simp [FileTree.searchable]

theorem ComesTo.eq_here {node : FileTree} {stop : Stop}
    (hcomes : walk.ComesTo reachable path node stop) (hhere : stop.location = []) :
    stop = ⟨[], path, reachable, node, false⟩ := by
  obtain ⟨location, path', reachable', node', isExcluded⟩ := stop
  obtain ⟨hincluded, -, hget, hpath, hreachable⟩ := hcomes
  simp_all [FileTree.get?, FileTree.searchable]

/-- To come to what is under a name of a directory is to come to it from the entry of
that name. -/
theorem comesTo_under_iff {mode : Mode} {entries : List (FileName × FileTree)}
    {name : FileName} {stop : Stop} :
    walk.ComesTo reachable path (.dir mode entries) (stop.under name) ↔
      walk.excludes name = false ∧ ∃ child, entries.lookup name = some child ∧
        walk.ComesTo (reachable && mode.search) (path.join name) child stop := by
  constructor
  · rintro ⟨hexcluded, hnames, hget, hpath, hreachable⟩
    obtain ⟨hname, hnames⟩ := List.forall_mem_cons.1 hnames
    simp only [Stop.under, FileTree.get?, FileTree.searchable] at hget hreachable
    cases hlookup : entries.lookup name with
    | none => simp [hlookup] at hget
    | some child =>
        rw [hlookup] at hget hreachable
        refine ⟨hname, child, rfl, hexcluded, hnames, hget, hpath, ?_⟩
        rw [hreachable, Bool.and_assoc]
  · rintro ⟨hname, child, hlookup, hexcluded, hnames, hget, hpath, hreachable⟩
    refine ⟨hexcluded, List.forall_mem_cons.2 ⟨hname, hnames⟩, ?_, hpath, ?_⟩
    · simpa [Stop.under, FileTree.get?, hlookup] using hget
    · simpa [Stop.under, FileTree.searchable, hlookup, Bool.and_assoc] using hreachable

/-- From what is no directory a walk comes nowhere else. -/
theorem mem_itinerary_leaf_iff {node : FileTree} {stop : Stop} (hleaf : node.isDir = false) :
    stop ∈ walk.itinerary reachable path node ∧ stop.isExcluded = false ↔
      walk.ComesTo reachable path node stop := by
  rw [itinerary_leaf walk hleaf, List.mem_singleton]
  constructor
  · rintro ⟨rfl, -⟩
    exact comesTo_here node
  · intro hcomes
    refine ⟨hcomes.eq_here ?_, hcomes.isExcluded_eq⟩
    have hget := hcomes.get?_eq
    cases hlocation : stop.location with
    | nil => rfl
    | cons name below =>
        rw [hlocation] at hget
        cases node with
        | dir mode entries => contradiction
        | file mode data => contradiction
        | link target => contradiction
        | fifo mode => contradiction

end ComesTo

mutual

/-- The itinerary has exactly the stops that the walk comes to, excluded entries
apart. -/
theorem mem_itinerary_iff {walk : Walk} {node : FileTree} (hwf : node.WellFormed)
    {reachable : Bool} {path : Path} {stop : Stop} :
    stop ∈ walk.itinerary reachable path node ∧ stop.isExcluded = false ↔
      walk.ComesTo reachable path node stop := by
  cases node with
  | dir mode entries =>
      rw [itinerary, List.mem_cons]
      constructor
      · rintro ⟨rfl | hmem, hexcluded⟩
        · exact comesTo_here _
        · obtain ⟨name, child, inner, hchild, hname, hcomes, rfl⟩ :=
            (mem_entriesItinerary_iff hwf).1 ⟨hmem, hexcluded⟩
          exact comesTo_under_iff.2 ⟨hname, child, FileTree.lookup_of_mem hwf hchild, hcomes⟩
      · intro hcomes
        refine ⟨?_, hcomes.isExcluded_eq⟩
        obtain ⟨location, path', reachable', node', isExcluded⟩ := stop
        cases location with
        | nil => exact .inl (hcomes.eq_here rfl)
        | cons name below =>
            obtain ⟨hname, child, hlookup, hinner⟩ :=
              comesTo_under_iff.1 (show walk.ComesTo reachable path (.dir mode entries)
                (Stop.under name ⟨below, path', reachable', node', isExcluded⟩) from hcomes)
            exact .inr ((mem_entriesItinerary_iff hwf).2
              ⟨name, child, _, FileTree.mem_of_lookup hlookup, hname, hinner, rfl⟩).1
  | file mode data => exact mem_itinerary_leaf_iff rfl
  | link target => exact mem_itinerary_leaf_iff rfl
  | fifo mode => exact mem_itinerary_leaf_iff rfl

theorem mem_entriesItinerary_iff {walk : Walk} {entries : List (FileName × FileTree)}
    (hwf : FileTree.EntriesWellFormed entries) {reachable : Bool} {directory : Path}
    {stop : Stop} :
    stop ∈ walk.entriesItinerary reachable directory entries ∧ stop.isExcluded = false ↔
      ∃ name child inner, (name, child) ∈ entries ∧ walk.excludes name = false ∧
        walk.ComesTo reachable (directory.join name) child inner ∧ stop = inner.under name := by
  match entries with
  | [] => simp [entriesItinerary]
  | (name, node) :: rest =>
      have hfirst : stop ∈ (if walk.excludes name then
            [⟨[name], directory.join name, reachable, node, true⟩]
          else (walk.itinerary reachable (directory.join name) node).map (Stop.under name)) ∧
            stop.isExcluded = false ↔
          walk.excludes name = false ∧ ∃ inner,
            walk.ComesTo reachable (directory.join name) node inner ∧
              stop = inner.under name := by
        cases hexcluded : walk.excludes name with
        | true => simp +contextual
        | false =>
            simp only [Bool.false_eq_true, if_false, List.mem_map, true_and]
            constructor
            · rintro ⟨⟨inner, hmem, rfl⟩, hinner⟩
              exact ⟨inner, (mem_itinerary_iff hwf.2.2.2.1).1 ⟨hmem, hinner⟩, rfl⟩
            · rintro ⟨inner, hcomes, rfl⟩
              obtain ⟨hmem, hinner⟩ := (mem_itinerary_iff hwf.2.2.2.1).2 hcomes
              exact ⟨⟨inner, hmem, rfl⟩, hinner⟩
      rw [entriesItinerary, List.mem_append, or_and_right, hfirst,
        mem_entriesItinerary_iff hwf.2.2.2.2]
      constructor
      · rintro (⟨hname, inner, hcomes, rfl⟩ | ⟨other, child, inner, hmem, hother, hcomes, rfl⟩)
        · exact ⟨name, node, inner, List.mem_cons_self, hname, hcomes, rfl⟩
        · exact ⟨other, child, inner, List.mem_cons_of_mem _ hmem, hother, hcomes, rfl⟩
      · rintro ⟨other, child, inner, hmem, hother, hcomes, rfl⟩
        rcases List.mem_cons.1 hmem with heq | hmem
        · obtain ⟨rfl, rfl⟩ := Prod.mk.inj heq
          exact .inl ⟨hother, inner, hcomes, rfl⟩
        · exact .inr ⟨other, child, inner, hmem, hother, hcomes, rfl⟩

end

/-! ## What stands at a stop -/

/-- A stop of a walk that starts at a node, left out or not: it has the path and the node
that the names lead to, and no name on the way is excluded but the last, if the stop is
left out. -/
structure IsStopBelow (walk : Walk) (path : Path) (node : FileTree) (stop : Stop) : Prop where
  get?_eq : node.get? stop.location = some stop.node
  path_eq : stop.path = path.below stop.location
  included : ∀ name ∈ stop.location.dropLast, walk.excludes name = false
  isExcluded_eq : stop.isExcluded = stop.location.getLast?.any walk.excludes

theorem isStopBelow_here (walk : Walk) (reachable : Bool) (path : Path) (node : FileTree) :
    walk.IsStopBelow path node ⟨[], path, reachable, node, false⟩ where
  get?_eq := rfl
  path_eq := rfl
  included := by simp
  isExcluded_eq := rfl

/-- A stop below an entry that is not left out is a stop below its directory. -/
theorem IsStopBelow.under {walk : Walk} {path : Path} {mode : Mode}
    {entries : List (FileName × FileTree)} {name : FileName} {child : FileTree} {stop : Stop}
    (hstop : walk.IsStopBelow (path.join name) child stop)
    (hlookup : entries.lookup name = some child) (hname : walk.excludes name = false) :
    walk.IsStopBelow path (.dir mode entries) (stop.under name) where
  get?_eq := by simpa [Stop.under, FileTree.get?, hlookup] using hstop.get?_eq
  path_eq := hstop.path_eq
  included := by
    intro other hother
    cases hlocation : stop.location with
    | nil => simp [Stop.under, hlocation] at hother
    | cons next below =>
        have hincluded := hstop.included
        simp only [Stop.under, hlocation, List.dropLast_cons_cons, List.mem_cons] at hother
        rw [hlocation] at hincluded
        rcases hother with rfl | hother
        · exact hname
        · exact hincluded other hother
  isExcluded_eq := by
    have hexcluded := hstop.isExcluded_eq
    cases hlocation : stop.location with
    | nil =>
        rw [hlocation] at hexcluded
        simpa [Stop.under, hlocation, hname] using hexcluded
    | cons next below =>
        rw [hlocation] at hexcluded
        simpa [Stop.under, hlocation] using hexcluded

mutual

theorem isStopBelow_of_mem {walk : Walk} {node : FileTree} (hwf : node.WellFormed)
    {reachable : Bool} {path : Path} {stop : Stop}
    (hmem : stop ∈ walk.itinerary reachable path node) : walk.IsStopBelow path node stop := by
  cases node with
  | dir mode entries =>
      rw [itinerary, List.mem_cons] at hmem
      rcases hmem with rfl | hmem
      · exact walk.isStopBelow_here _ _ _
      · exact isStopBelow_of_mem_entries hwf
          (fun name child hchild => FileTree.lookup_of_mem hwf hchild) hmem
  | file mode data =>
      obtain rfl := List.mem_singleton.1 hmem
      exact walk.isStopBelow_here _ _ _
  | link target =>
      obtain rfl := List.mem_singleton.1 hmem
      exact walk.isStopBelow_here _ _ _
  | fifo mode =>
      obtain rfl := List.mem_singleton.1 hmem
      exact walk.isStopBelow_here _ _ _

/-- The same for some of the entries of a directory. -/
theorem isStopBelow_of_mem_entries {walk : Walk} {mode : Mode}
    {all entries : List (FileName × FileTree)} (hwf : FileTree.EntriesWellFormed entries)
    (hlookup : ∀ name child, (name, child) ∈ entries → all.lookup name = some child)
    {reachable : Bool} {directory : Path} {stop : Stop}
    (hmem : stop ∈ walk.entriesItinerary reachable directory entries) :
    walk.IsStopBelow directory (.dir mode all) stop := by
  match entries with
  | [] => exact absurd hmem List.not_mem_nil
  | (name, child) :: rest =>
      have hchild := hlookup name child List.mem_cons_self
      rw [entriesItinerary, List.mem_append] at hmem
      rcases hmem with hmem | hmem
      · cases hname : walk.excludes name with
        | true =>
            rw [hname, if_pos rfl, List.mem_singleton] at hmem
            subst hmem
            exact ⟨by simp [FileTree.get?, hchild], rfl, by simp, by simp [hname]⟩
        | false =>
            rw [hname, if_neg Bool.false_ne_true] at hmem
            obtain ⟨inner, hinner, rfl⟩ := List.mem_map.1 hmem
            exact (isStopBelow_of_mem hwf.2.2.2.1 hinner).under hchild hname
      · exact isStopBelow_of_mem_entries hwf.2.2.2.2
          (fun other node hother => hlookup other node (List.mem_cons_of_mem _ hother)) hmem

end

/-! ## Order -/

mutual

/-- The stops come in ascending order of the names that lead to them, a directory before
what is in it. -/
theorem pairwise_itinerary (walk : Walk) {node : FileTree} (hwf : node.WellFormed)
    (reachable : Bool) (path : Path) :
    (walk.itinerary reachable path node).Pairwise
      fun earlier later => earlier.location < later.location := by
  cases node with
  | dir mode entries =>
      rw [itinerary, List.pairwise_cons]
      refine ⟨?_, walk.pairwise_entriesItinerary hwf _ path⟩
      intro later hmem
      obtain ⟨entry, -, hhead⟩ := head?_location_of_mem hmem
      obtain ⟨below, hlocation⟩ := List.head?_eq_some_iff.1 hhead
      rw [hlocation]
      exact List.nil_lt_cons entry.1 below
  | file mode data => exact List.pairwise_singleton _ _
  | link target => exact List.pairwise_singleton _ _
  | fifo mode => exact List.pairwise_singleton _ _

theorem pairwise_entriesItinerary (walk : Walk) {entries : List (FileName × FileTree)}
    (hwf : FileTree.EntriesWellFormed entries) (reachable : Bool) (directory : Path) :
    (walk.entriesItinerary reachable directory entries).Pairwise
      fun earlier later => earlier.location < later.location := by
  match entries with
  | [] => exact .nil
  | (name, node) :: rest =>
      rw [entriesItinerary, List.pairwise_append]
      refine ⟨?_, walk.pairwise_entriesItinerary hwf.2.2.2.2 reachable directory, ?_⟩
      · split
        next => exact List.pairwise_singleton _ _
        next =>
          rw [List.pairwise_map]
          apply (walk.pairwise_itinerary hwf.2.2.2.1 reachable (directory.join name)).imp
          intro earlier later hless
          exact List.cons_lt_cons_self.2 hless
      · intro earlier hearlier later hlater
        have hfirst : earlier ∈ walk.entriesItinerary reachable directory [(name, node)] := by
          simpa [entriesItinerary] using hearlier
        obtain ⟨entry, hentry, hhead⟩ := head?_location_of_mem hfirst
        obtain rfl := List.mem_singleton.1 hentry
        obtain ⟨other, hother, hhead'⟩ := head?_location_of_mem hlater
        obtain ⟨below, hlocation⟩ := List.head?_eq_some_iff.1 hhead
        obtain ⟨below', hlocation'⟩ := List.head?_eq_some_iff.1 hhead'
        rw [hlocation, hlocation']
        exact List.cons_lt_cons_iff.2 (.inl (hwf.2.2.1 other hother))

end

end ImportSuffix.Walk
