import ImportSuffix.Proofs.FileTree.Resolution

/-!
# Removing entries

`without` removes entries by their locations, each with all below it, and leaves the
rest as it was (`get?_without_eq_some_iff`).  Fewer entries make fewer paths lead
anywhere, but a path that leads somewhere without them leads to the same place with them
(`locate_of_without`), and ends at a link in either case or in none
(`endsAtLink_without`).
-/

namespace ImportSuffix.FileTree

mutual

/-- The tree without the entries at some locations and all that is below these. -/
def without (drop : Location → Bool) : FileTree → FileTree
  | .file mode data => .file mode data
  | .dir mode entries => .dir mode (entriesWithout drop entries)
  | .link target => .link target
  | .fifo mode => .fifo mode

def entriesWithout (drop : Location → Bool) :
    List (FileName × FileTree) → List (FileName × FileTree)
  | [] => []
  | (name, node) :: rest =>
      (if drop [name] then [] else [(name, without (fun below => drop (name :: below)) node)]) ++
        entriesWithout drop rest

end

/-- Neither the entry at a location is dropped nor any above it. -/
def Keeps (drop : Location → Bool) (location : Location) : Prop :=
  ∀ front, front <+: location → front ≠ [] → drop front = false

theorem keeps_nil (drop : Location → Bool) : Keeps drop [] := by
  intro front hfront hne
  exact absurd (List.prefix_nil.1 hfront) hne

theorem keeps_cons_iff {drop : Location → Bool} {name : FileName} {rest : Location} :
    Keeps drop (name :: rest) ↔
      drop [name] = false ∧ Keeps (fun below => drop (name :: below)) rest := by
  constructor
  · intro hkeeps
    refine ⟨hkeeps [name] (by simp) (by simp), fun front hfront _ => ?_⟩
    exact hkeeps (name :: front) ((List.prefix_cons_inj name).2 hfront) (by simp)
  · rintro ⟨hname, hrest⟩ front hfront hne
    cases front with
    | nil => contradiction
    | cons other front =>
        obtain ⟨rfl, hbelow⟩ := List.cons_prefix_cons.1 hfront
        cases front with
        | nil => exact hname
        | cons next front => exact hrest (next :: front) hbelow (by simp)

section Lookup

variable {drop : Location → Bool}

theorem lookup_entriesWithout (name : FileName) (entries : List (FileName × FileTree)) :
    (entriesWithout drop entries).lookup name =
      if drop [name] then none
      else (entries.lookup name).map (without fun below => drop (name :: below)) := by
  induction entries with
  | nil => simp [entriesWithout]
  | cons entry rest ih =>
      obtain ⟨other, node⟩ := entry
      rw [entriesWithout]
      by_cases hname : name = other
      · subst hname
        by_cases hdrop : drop [name] = true <;> simp [hdrop, ih]
      · have hbeq : (name == other) = false := by simpa using hname
        by_cases hdrop : drop [other] = true <;> simp [hdrop, List.lookup_cons, hbeq, ih]

/-- What is still found at a location is what was there, if that is kept. -/
theorem get?_without_eq_some_iff {tree : FileTree} {location : Location} {pruned : FileTree} :
    (tree.without drop).get? location = some pruned ↔
      Keeps drop location ∧ ∃ node, tree.get? location = some node ∧
        node.without (fun below => drop (location ++ below)) = pruned := by
  induction location generalizing tree drop with
  | nil => simp [get?, keeps_nil]
  | cons name rest ih =>
      rw [keeps_cons_iff]
      cases tree with
      | dir mode entries =>
          simp only [without, get?, lookup_entriesWithout]
          cases drop [name] with
          | true => simp
          | false =>
              cases entries.lookup name with
              | none => simp
              | some child => simpa using ih
      | file mode data => simp [without, get?]
      | link target => simp [without, get?]
      | fifo mode => simp [without, get?]

@[simp]
theorem isDir_without (drop : Location → Bool) (node : FileTree) :
    (node.without drop).isDir = node.isDir := by
  cases node <;> rfl

@[simp]
theorem isLink_without (drop : Location → Bool) (node : FileTree) :
    (node.without drop).isLink = node.isLink := by
  cases node <;> rfl

end Lookup

/-! ## What stays as it was -/

mutual

theorem without_mapData (drop : Location → Bool) (change : Location → Bytes → Bytes)
    (tree : FileTree) :
    (tree.mapData change).without drop = (tree.without drop).mapData change := by
  cases tree with
  | dir mode entries =>
      rw [mapData, without, without, mapData, entriesWithout_mapEntries]
  | file mode data => rfl
  | link target => rfl
  | fifo mode => rfl

theorem entriesWithout_mapEntries (drop : Location → Bool) (change : Location → Bytes → Bytes)
    (entries : List (FileName × FileTree)) :
    entriesWithout drop (mapEntries change entries) =
      mapEntries change (entriesWithout drop entries) := by
  match entries with
  | [] => rfl
  | (name, node) :: rest =>
      rw [mapEntries, entriesWithout, entriesWithout, entriesWithout_mapEntries]
      cases drop [name] with
      | true => rfl
      | false => simp [mapEntries, without_mapData]

end

theorem exists_of_mem_entriesWithout {drop : Location → Bool}
    {entries : List (FileName × FileTree)} {entry : FileName × FileTree}
    (hmem : entry ∈ entriesWithout drop entries) :
    ∃ original ∈ entries, original.1 = entry.1 := by
  induction entries with
  | nil => simp [entriesWithout] at hmem
  | cons first rest ih =>
      rw [entriesWithout, List.mem_append] at hmem
      rcases hmem with hfirst | hrest
      · refine ⟨first, List.mem_cons_self, ?_⟩
        split at hfirst
        next => contradiction
        next => rw [List.mem_singleton.1 hfirst]
      · obtain ⟨original, horiginal, hname⟩ := ih hrest
        exact ⟨original, List.mem_cons_of_mem first horiginal, hname⟩

mutual

theorem wellFormed_without {tree : FileTree} (hwf : tree.WellFormed) (drop : Location → Bool) :
    (tree.without drop).WellFormed := by
  cases tree with
  | dir mode entries => exact entriesWellFormed_without hwf drop
  | file mode data => trivial
  | link target => trivial
  | fifo mode => trivial

theorem entriesWellFormed_without {entries : List (FileName × FileTree)}
    (hwf : EntriesWellFormed entries) (drop : Location → Bool) :
    EntriesWellFormed (entriesWithout drop entries) := by
  match entries with
  | [] => trivial
  | (name, node) :: rest =>
      obtain ⟨hname, hlength, hless, hnode, hrest⟩ := hwf
      have hlater := entriesWellFormed_without hrest drop
      rw [entriesWithout]
      cases drop [name] with
      | true => exact hlater
      | false =>
          refine ⟨hname, hlength, ?_, wellFormed_without hnode _, hlater⟩
          intro entry hmem
          obtain ⟨original, horiginal, heq⟩ := exists_of_mem_entriesWithout hmem
          rw [← heq]
          exact hless original horiginal

end

mutual

theorem without_eq_self {tree : FileTree} (hwf : tree.WellFormed) {drop : Location → Bool}
    (hkept : ∀ location node, tree.get? location = some node → location ≠ [] →
      drop location = false) : tree.without drop = tree := by
  cases tree with
  | dir mode entries =>
      rw [without]
      apply congrArg (FileTree.dir mode)
      apply entriesWithout_eq_self hwf
      intro name node hmem below target hget
      apply hkept (name :: below) target _ (by simp)
      rw [get?, lookup_of_mem hwf hmem]
      exact hget
  | file mode data => rfl
  | link target => rfl
  | fifo mode => rfl

theorem entriesWithout_eq_self {entries : List (FileName × FileTree)}
    (hwf : EntriesWellFormed entries) {drop : Location → Bool}
    (hkept : ∀ name node, (name, node) ∈ entries → ∀ below target,
      node.get? below = some target → drop (name :: below) = false) :
    entriesWithout drop entries = entries := by
  match entries with
  | [] => rfl
  | (name, node) :: rest =>
      obtain ⟨-, -, -, hnode, hrest⟩ := hwf
      have hfirst := hkept name node List.mem_cons_self
      have hname : drop [name] = false := hfirst [] node rfl
      have hself := without_eq_self hnode fun below target hget _ => hfirst below target hget
      have hlater := entriesWithout_eq_self hrest fun name node hmem =>
        hkept name node (List.mem_cons_of_mem _ hmem)
      rw [entriesWithout, hname, hself, hlater]
      rfl

end

/-! ## One step along a path -/

def target? : FileTree → Option Path
  | .link target => some target
  | _ => none

@[simp]
theorem target?_without (drop : Location → Bool) (node : FileTree) :
    (node.without drop).target? = node.target? := by
  cases node <;> rfl

/-- What one step from a location comes to: the next location, and the target of the link
that is there. -/
inductive Leads (tree : FileTree) (location : Location) : Step → Location → Option Path → Prop
  where
  | directory {mode : Mode} {entries : List (FileName × FileTree)}
      (hdir : tree.get? location = some (.dir mode entries)) :
      Leads tree location .directory location none
  | stay {entries : List (FileName × FileTree)} (hsearched : tree.searched location = .ok entries) :
      Leads tree location .stay location none
  | up {entries : List (FileName × FileTree)} (hsearched : tree.searched location = .ok entries)
      (hinside : location ≠ []) : Leads tree location .up location.dropLast none
  | enter {entries : List (FileName × FileTree)} {name : FileName} {child : FileTree}
      (hsearched : tree.searched location = .ok entries)
      (hlength : ¬Path.nameLimit < name.length) (hlookup : entries.lookup name = some child) :
      Leads tree location (.enter name) (location ++ [name]) child.target?

theorem searched_eq_ok_iff {tree : FileTree} {location : Location}
    {entries : List (FileName × FileTree)} :
    tree.searched location = .ok entries ↔
      ∃ mode, tree.get? location = some (.dir mode entries) ∧ mode.search = true := by
  rw [searched]
  cases tree.get? location with
  | none => simp
  | some node =>
      cases node with
      | dir mode entries' => cases hsearch : mode.search <;> simp [hsearch]
      | file mode data => simp
      | link target => simp
      | fifo mode => simp

/-- Where a path leads on from the place that its first step comes to: from a link that has
to be followed, as links are. -/
def onward (tree : FileTree) (followLast : Bool)
    (onLink : Location → Path → List Step → Except AccessError Location)
    (location next : Location) (link : Option Path) (rest : List Step) :
    Except AccessError Location :=
  match link, follows followLast rest with
  | some target, true => onLink location target rest
  | _, _ => tree.advance followLast onLink next rest

/-- A path that leads somewhere has a first step that does. -/
theorem exists_leads_of_advance_cons {tree : FileTree} {followLast : Bool}
    {onLink : Location → Path → List Step → Except AccessError Location} {location : Location}
    {step : Step} {rest : List Step} {final : Location}
    (hok : tree.advance followLast onLink location (step :: rest) = .ok final) :
    ∃ next link, tree.Leads location step next link ∧
      tree.onward followLast onLink location next link rest = .ok final := by
  cases step with
  | directory =>
      simp only [advance] at hok
      split at hok
      next mode entries hdir => exact ⟨location, none, .directory hdir, hok⟩
      next => contradiction
      next => contradiction
  | stay =>
      simp only [advance] at hok
      split at hok
      next => contradiction
      next entries hsearched => exact ⟨location, none, .stay hsearched, hok⟩
  | up =>
      simp only [advance] at hok
      split at hok
      next => contradiction
      next entries hsearched =>
        split at hok
        next => contradiction
        next hinside => exact ⟨location.dropLast, none, .up hsearched hinside, hok⟩
  | enter name =>
      simp only [advance] at hok
      split at hok
      next => contradiction
      next entries hsearched =>
        split at hok
        next => contradiction
        next hlength =>
          split at hok
          next => contradiction
          next target hlookup =>
            refine ⟨location ++ [name], some target, .enter hsearched hlength hlookup, ?_⟩
            cases hfollows : follows followLast rest <;> simpa [onward, hfollows] using hok
          next child hlink hlookup =>
            refine ⟨location ++ [name], child.target?, .enter hsearched hlength hlookup, ?_⟩
            cases child with
            | link target => exact absurd rfl (hlink target)
            | file mode data => exact hok
            | dir mode entries => exact hok
            | fifo mode => exact hok

theorem Leads.advance_cons {tree : FileTree} {location next : Location} {step : Step}
    {link : Option Path} (hleads : tree.Leads location step next link) (followLast : Bool)
    (onLink : Location → Path → List Step → Except AccessError Location) (rest : List Step) :
    tree.advance followLast onLink location (step :: rest) =
      tree.onward followLast onLink location next link rest := by
  cases hleads with
  | directory hdir => simp [advance, onward, hdir]
  | stay hsearched => simp [advance, onward, hsearched]
  | up hsearched hinside =>
      cases location with
      | nil => contradiction
      | cons name below => simp [advance, onward, hsearched]
  | @enter entries name child hsearched hlength hlookup =>
      cases child with
      | link target =>
          cases hfollows : follows followLast rest <;>
            simp [advance, onward, hsearched, hlength, hlookup, target?, hfollows]
      | file mode data => simp [advance, onward, hsearched, hlength, hlookup, target?]
      | dir mode entries' => simp [advance, onward, hsearched, hlength, hlookup, target?]
      | fifo mode => simp [advance, onward, hsearched, hlength, hlookup, target?]

/-- A path leads somewhere when its first step does and, from where that comes to, the
rest. -/
theorem advance_cons_eq_ok_iff {tree : FileTree} {followLast : Bool}
    {onLink : Location → Path → List Step → Except AccessError Location} {location : Location}
    {step : Step} {rest : List Step} {final : Location} :
    tree.advance followLast onLink location (step :: rest) = .ok final ↔
      ∃ next link, tree.Leads location step next link ∧
        tree.onward followLast onLink location next link rest = .ok final := by
  constructor
  · exact exists_leads_of_advance_cons
  · rintro ⟨next, link, hleads, hok⟩
    rw [hleads.advance_cons, hok]

theorem Leads.exists_get? {tree : FileTree} {location next : Location} {step : Step}
    {link : Option Path} (hleads : tree.Leads location step next link) :
    ∃ node, tree.get? next = some node := by
  cases hleads with
  | directory hdir => exact ⟨_, hdir⟩
  | stay hsearched =>
      obtain ⟨mode, hdir, -⟩ := searched_eq_ok_iff.1 hsearched
      exact ⟨_, hdir⟩
  | up hsearched hinside =>
      obtain ⟨mode, hdir, -⟩ := searched_eq_ok_iff.1 hsearched
      rw [← List.dropLast_append_getLast hinside, get?_append] at hdir
      obtain ⟨node, hnode, -⟩ := Option.bind_eq_some_iff.1 hdir
      exact ⟨node, hnode⟩
  | @enter entries name child hsearched hlength hlookup =>
      obtain ⟨mode, hdir, -⟩ := searched_eq_ok_iff.1 hsearched
      exact ⟨child, by simp [get?_append, hdir, get?, hlookup]⟩

theorem exists_dir_of_without {tree : FileTree} {drop : Location → Bool} {location : Location}
    {mode : Mode} {entries : List (FileName × FileTree)}
    (hget : (tree.without drop).get? location = some (.dir mode entries)) :
    ∃ entries', tree.get? location = some (.dir mode entries') ∧
      entriesWithout (fun below => drop (location ++ below)) entries' = entries := by
  obtain ⟨-, node, hnode, hwithout⟩ := get?_without_eq_some_iff.1 hget
  cases node with
  | dir mode' entries' =>
      obtain ⟨rfl, hentries⟩ := FileTree.dir.inj hwithout
      exact ⟨entries', hnode, hentries⟩
  | file mode' data => contradiction
  | link target => contradiction
  | fifo mode' => contradiction

theorem exists_searched_of_without {tree : FileTree} {drop : Location → Bool}
    {location : Location} {entries : List (FileName × FileTree)}
    (hok : (tree.without drop).searched location = .ok entries) :
    ∃ entries', tree.searched location = .ok entries' ∧
      entriesWithout (fun below => drop (location ++ below)) entries' = entries := by
  obtain ⟨mode, hget, hsearch⟩ := searched_eq_ok_iff.1 hok
  obtain ⟨entries', hnode, hentries⟩ := exists_dir_of_without hget
  exact ⟨entries', searched_eq_ok_iff.2 ⟨mode, hnode, hsearch⟩, hentries⟩

/-- A step that leads somewhere without the dropped entries leads there with them. -/
theorem Leads.of_without {tree : FileTree} {drop : Location → Bool} {location next : Location}
    {step : Step} {link : Option Path}
    (hleads : (tree.without drop).Leads location step next link) :
    tree.Leads location step next link := by
  cases hleads with
  | directory hget =>
      obtain ⟨entries', hnode, -⟩ := exists_dir_of_without hget
      exact .directory hnode
  | stay hok =>
      obtain ⟨entries', hok', -⟩ := exists_searched_of_without hok
      exact .stay hok'
  | up hok hinside =>
      obtain ⟨entries', hok', -⟩ := exists_searched_of_without hok
      exact .up hok' hinside
  | enter hok hlength hlookup =>
      obtain ⟨entries', hok', rfl⟩ := exists_searched_of_without hok
      rw [lookup_entriesWithout] at hlookup
      split at hlookup
      next => contradiction
      next =>
        obtain ⟨child, hlookup', rfl⟩ := Option.map_eq_some_iff.1 hlookup
        rw [target?_without]
        exact .enter hok' hlength hlookup'

/-! ## Whole paths -/

section Paths

variable {tree : FileTree} {drop : Location → Bool} {followLast : Bool} {links : Nat}
  {onLink onLink' : Location → Path → List Step → Except AccessError Location}
  {location final : Location} {steps : List Step}

theorem exists_get?_of_advance
    (hlink : ∀ {location target steps final}, (∃ node, tree.get? location = some node) →
      onLink location target steps = .ok final → ∃ node, tree.get? final = some node)
    (hthere : ∃ node, tree.get? location = some node)
    (hok : tree.advance followLast onLink location steps = .ok final) :
    ∃ node, tree.get? final = some node := by
  induction steps generalizing location with
  | nil =>
      obtain rfl := Except.ok.inj hok
      exact hthere
  | cons step rest ih =>
      obtain ⟨next, link, hleads, hrest⟩ := advance_cons_eq_ok_iff.1 hok
      unfold onward at hrest
      split at hrest
      next => exact hlink hthere hrest
      next => exact ih hleads.exists_get? hrest

theorem exists_get?_of_follow (hthere : ∃ node, tree.get? location = some node)
    (hok : tree.follow followLast links location steps = .ok final) :
    ∃ node, tree.get? final = some node := by
  induction links generalizing location steps final with
  | zero =>
      apply exists_get?_of_advance _ hthere hok
      intro location target steps final _ hlink
      contradiction
  | succ links ih =>
      apply exists_get?_of_advance _ hthere hok
      intro location target steps final hthere hok
      split at hok
      next => contradiction
      next => exact ih hthere hok

theorem advance_of_without
    (hlink : ∀ {location target steps}, onLink location target steps = .ok final →
      onLink' location target steps = .ok final)
    (hok : (tree.without drop).advance followLast onLink location steps = .ok final) :
    tree.advance followLast onLink' location steps = .ok final := by
  induction steps generalizing location with
  | nil => exact hok
  | cons step rest ih =>
      obtain ⟨next, link, hleads, hrest⟩ := advance_cons_eq_ok_iff.1 hok
      refine advance_cons_eq_ok_iff.2 ⟨next, link, hleads.of_without, ?_⟩
      unfold onward at hrest ⊢
      split at hrest
      next => exact hlink hrest
      next => exact ih hrest

theorem follow_of_without
    (hok : (tree.without drop).follow followLast links location steps = .ok final) :
    tree.follow followLast links location steps = .ok final := by
  induction links generalizing location steps with
  | zero => exact advance_of_without (fun hlink => hlink) hok
  | succ links ih =>
      apply advance_of_without _ hok
      intro location target steps hlink
      split at hlink
      next => contradiction
      next habsolute =>
        rw [if_neg habsolute]
        exact ih hlink

theorem exists_advance_of_followLast
    (hlink : ∀ {location target steps final}, onLink location target steps = .ok final →
      ∃ final', onLink' location target steps = .ok final')
    (hok : tree.advance true onLink location steps = .ok final) :
    ∃ final', tree.advance false onLink' location steps = .ok final' := by
  induction steps generalizing location with
  | nil => exact ⟨location, rfl⟩
  | cons step rest ih =>
      obtain ⟨next, link, hleads, hrest⟩ := advance_cons_eq_ok_iff.1 hok
      cases rest with
      | nil => exact ⟨next, advance_cons_eq_ok_iff.2 ⟨next, link, hleads, by cases link <;> rfl⟩⟩
      | cons step' rest =>
          cases link with
          | none =>
              obtain ⟨final', hfinal⟩ := ih hrest
              exact ⟨final', advance_cons_eq_ok_iff.2 ⟨next, none, hleads, hfinal⟩⟩
          | some target =>
              obtain ⟨final', hfinal⟩ := hlink hrest
              exact ⟨final', advance_cons_eq_ok_iff.2 ⟨next, some target, hleads, hfinal⟩⟩

/-- A path that leads somewhere when a link at its end is followed does so when it is
not. -/
theorem exists_follow_of_followLast (hok : tree.follow true links location steps = .ok final) :
    ∃ final', tree.follow false links location steps = .ok final' := by
  induction links generalizing location steps final with
  | zero => exact exists_advance_of_followLast (fun hlink => ⟨_, hlink⟩) hok
  | succ links ih =>
      apply exists_advance_of_followLast _ hok
      intro location target steps final hlink
      split at hlink
      next => contradiction
      next habsolute =>
        obtain ⟨final', hfinal⟩ := ih hlink
        exact ⟨final', by rw [if_neg habsolute, hfinal]⟩

end Paths

/-- A path that leads somewhere without the dropped entries leads to the same place with
them. -/
theorem locate_of_without {tree : FileTree} {drop : Location → Bool} {followLast : Bool}
    {path : Path} {location : Location}
    (hok : (tree.without drop).locate followLast path = .ok location) :
    tree.locate followLast path = .ok location := by
  rw [locate_eq_ok_iff] at hok ⊢
  exact ⟨hok.1, follow_of_without hok.2⟩

/-- A path that leads somewhere without the dropped entries ends at a link there if it
does so with them. -/
theorem endsAtLink_without {tree : FileTree} {drop : Location → Bool} {path : Path}
    {location : Location} (hok : (tree.without drop).locate true path = .ok location) :
    (tree.without drop).endsAtLink path = tree.endsAtLink path := by
  obtain ⟨hpath, hfollow⟩ := locate_eq_ok_iff.1 hok
  obtain ⟨final, hfinal⟩ := exists_follow_of_followLast hfollow
  obtain ⟨pruned, hpruned⟩ := exists_get?_of_follow ⟨_, rfl⟩ hfinal
  obtain ⟨-, node, hnode, rfl⟩ := get?_without_eq_some_iff.1 hpruned
  have hlocate : (tree.without drop).locate false path = .ok final :=
    locate_eq_ok_iff.2 ⟨hpath, hfinal⟩
  simp only [endsAtLink, hlocate, locate_of_without hlocate, hpruned, hnode, Option.map_some,
    isLink_without]

end ImportSuffix.FileTree
