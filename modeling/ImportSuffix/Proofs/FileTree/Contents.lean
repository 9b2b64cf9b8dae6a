import ImportSuffix.FileTree.Basic
import Mathlib.Data.List.Basic

/-!
# Changing contents only

`mapData` gives every regular file new contents, which may depend on its location
and its old contents, and keeps all else: names, kinds, modes and link targets.
Nothing that is looked up in the tree moves (`get?_mapData`).  In a well-formed
tree, putting back a node with changed contents changes contents of the whole tree
(`insert_mapData`).
-/

namespace ImportSuffix.FileTree

mutual

def mapData (change : Location → Bytes → Bytes) : FileTree → FileTree
  | .file mode data => .file mode (change [] data)
  | .dir mode entries => .dir mode (mapEntries change entries)
  | .link target => .link target
  | .fifo mode => .fifo mode

def mapEntries (change : Location → Bytes → Bytes) :
    List (FileName × FileTree) → List (FileName × FileTree)
  | [] => []
  | (name, node) :: rest =>
      (name, mapData (fun below => change (name :: below)) node) :: mapEntries change rest

end

section Lookup

variable {change : Location → Bytes → Bytes}

theorem lookup_mapEntries (name : FileName) (entries : List (FileName × FileTree)) :
    (mapEntries change entries).lookup name =
      (entries.lookup name).map (mapData fun below => change (name :: below)) := by
  induction entries with
  | nil => simp [mapEntries]
  | cons entry rest ih =>
      obtain ⟨other, node⟩ := entry
      by_cases hname : name = other
      · simp [mapEntries, hname]
      · have hbeq : (name == other) = false := by simpa using hname
        simp [mapEntries, List.lookup_cons, hbeq, ih]

/-- What is at a location stays there, with its contents changed. -/
theorem get?_mapData (tree : FileTree) (location : Location) :
    (tree.mapData change).get? location =
      (tree.get? location).map (mapData fun below => change (location ++ below)) := by
  induction location generalizing tree change with
  | nil => simp [get?]
  | cons name rest ih =>
      cases tree with
      | dir mode entries =>
          simp only [mapData, get?, lookup_mapEntries]
          cases entries.lookup name with
          | none => rfl
          | some child => simp [ih]
      | file mode data => rfl
      | link target => rfl
      | fifo mode => rfl

theorem get?_mapData_eq_file_iff {tree : FileTree} {location : Location} {mode : Mode}
    {data : Bytes} :
    (tree.mapData change).get? location = some (.file mode data) ↔
      ∃ old, tree.get? location = some (.file mode old) ∧ change location old = data := by
  rw [get?_mapData]
  cases tree.get? location with
  | none => simp
  | some node => cases node <;> simp [mapData]

theorem get?_mapData_eq_dir_iff {tree : FileTree} {location : Location} {mode : Mode}
    {entries : List (FileName × FileTree)} :
    (tree.mapData change).get? location = some (.dir mode entries) ↔
      ∃ old, tree.get? location = some (.dir mode old) ∧
        mapEntries (fun below => change (location ++ below)) old = entries := by
  rw [get?_mapData]
  cases tree.get? location with
  | none => simp
  | some node => cases node <;> simp [mapData]

theorem get?_append (tree : FileTree) (left right : Location) :
    tree.get? (left ++ right) = (tree.get? left).bind fun node => node.get? right := by
  induction left generalizing tree with
  | nil => rfl
  | cons name left ih =>
      cases tree with
      | dir mode entries =>
          simp only [List.cons_append, get?]
          cases entries.lookup name with
          | none => rfl
          | some child => exact ih child
      | file mode data => rfl
      | link target => rfl
      | fifo mode => rfl

/-- Nothing is below a file. -/
theorem eq_of_isPrefix_of_file {tree : FileTree} {location location' : Location}
    {mode mode' : Mode} {data data' : Bytes}
    (hfile : tree.get? location = some (.file mode data))
    (hfile' : tree.get? location' = some (.file mode' data')) (hleads : location <+: location') :
    location = location' := by
  obtain ⟨rest, rfl⟩ := hleads
  rw [get?_append, hfile, Option.bind_some] at hfile'
  cases rest with
  | nil => rw [List.append_nil]
  | cons name rest => contradiction

end Lookup

/-! ## Well-formed trees -/

instance (name : FileName) : Decidable (IsEntryName name) :=
  inferInstanceAs (Decidable (_ ∧ _ ∧ _ ∧ _ ∧ _))

mutual

def decidableWellFormed : (tree : FileTree) → Decidable tree.WellFormed
  | .dir _ entries => decidableEntriesWellFormed entries
  | .file _ _ => isTrue trivial
  | .link _ => isTrue trivial
  | .fifo _ => isTrue trivial

def decidableEntriesWellFormed : (entries : List (FileName × FileTree)) →
    Decidable (EntriesWellFormed entries)
  | [] => isTrue trivial
  | (_, node) :: rest =>
      have := decidableWellFormed node
      have := decidableEntriesWellFormed rest
      inferInstanceAs (Decidable (_ ∧ _ ∧ _ ∧ _ ∧ _))

end

instance (tree : FileTree) : Decidable tree.WellFormed :=
  decidableWellFormed tree

theorem wellFormed_of_mem {entries : List (FileName × FileTree)}
    (hwf : EntriesWellFormed entries) {name : FileName} {node : FileTree}
    (hmem : (name, node) ∈ entries) :
    IsEntryName name ∧ name.length ≤ Path.nameLimit ∧ node.WellFormed := by
  induction entries with
  | nil => simp at hmem
  | cons entry rest ih =>
      obtain ⟨hname, hlength, -, hnode, hrest⟩ := hwf
      rcases List.mem_cons.1 hmem with rfl | hmem
      · exact ⟨hname, hlength, hnode⟩
      · exact ih hrest hmem

theorem ne_of_mem_rest {name : FileName} {node : FileTree}
    {rest : List (FileName × FileTree)} (hwf : EntriesWellFormed ((name, node) :: rest)) :
    ∀ entry ∈ rest, name ≠ entry.1 := by
  intro entry hmem heq
  have hless := hwf.2.2.1 entry hmem
  rw [heq] at hless
  exact List.lt_irrefl _ hless

theorem mem_of_lookup {entries : List (FileName × FileTree)} {name : FileName}
    {node : FileTree} (hlookup : entries.lookup name = some node) : (name, node) ∈ entries := by
  obtain ⟨left, right, rfl, -⟩ := List.lookup_eq_some_iff.1 hlookup
  simp

/-- No name occurs twice, so every entry is found under its name. -/
theorem lookup_of_mem {entries : List (FileName × FileTree)} (hwf : EntriesWellFormed entries)
    {name : FileName} {node : FileTree} (hmem : (name, node) ∈ entries) :
    entries.lookup name = some node := by
  induction entries with
  | nil => simp at hmem
  | cons entry rest ih =>
      rcases List.mem_cons.1 hmem with rfl | hmem
      · simp
      · have hbeq : (name == entry.1) = false := by
          simpa using (ne_of_mem_rest hwf _ hmem).symm
        rw [List.lookup_cons, hbeq]
        exact ih hwf.2.2.2.2 hmem

/-- What is found in a well-formed tree is well-formed, and every name on the way to
it can name an entry. -/
theorem WellFormed.of_get? {tree node : FileTree} {location : Location}
    (hwf : tree.WellFormed) (hget : tree.get? location = some node) :
    node.WellFormed ∧
      ∀ name ∈ location, IsEntryName name ∧ name.length ≤ Path.nameLimit := by
  induction location generalizing tree with
  | nil =>
      obtain rfl := Option.some.inj hget
      simpa using hwf
  | cons name rest ih =>
      cases tree with
      | dir mode entries =>
          simp only [get?] at hget
          cases hlookup : entries.lookup name with
          | none => simp [hlookup] at hget
          | some child =>
              rw [hlookup] at hget
              obtain ⟨hname, hlength, hchild⟩ := wellFormed_of_mem hwf (mem_of_lookup hlookup)
              obtain ⟨hnode, hnames⟩ := ih hchild hget
              exact ⟨hnode, List.forall_mem_cons.2 ⟨⟨hname, hlength⟩, hnames⟩⟩
      | file mode data => simp [get?] at hget
      | link target => simp [get?] at hget
      | fifo mode => simp [get?] at hget

theorem map_fst_mapEntries (change : Location → Bytes → Bytes)
    (entries : List (FileName × FileTree)) :
    (mapEntries change entries).map Prod.fst = entries.map Prod.fst := by
  induction entries with
  | nil => rfl
  | cons entry rest ih => simp [mapEntries, ih]

mutual

theorem wellFormed_mapData {tree : FileTree} (hwf : tree.WellFormed)
    (change : Location → Bytes → Bytes) : (tree.mapData change).WellFormed := by
  cases tree with
  | dir mode entries => exact entriesWellFormed_mapEntries hwf change
  | file mode data => trivial
  | link target => trivial
  | fifo mode => trivial

theorem entriesWellFormed_mapEntries {entries : List (FileName × FileTree)}
    (hwf : EntriesWellFormed entries) (change : Location → Bytes → Bytes) :
    EntriesWellFormed (mapEntries change entries) := by
  cases entries with
  | nil => trivial
  | cons entry rest =>
      obtain ⟨hname, hlength, hless, hnode, hrest⟩ := hwf
      refine ⟨hname, hlength, ?_, wellFormed_mapData hnode _,
        entriesWellFormed_mapEntries hrest change⟩
      intro other hother
      have hmem : other.1 ∈ rest.map Prod.fst := by
        rw [← map_fst_mapEntries change]
        exact List.mem_map_of_mem hother
      obtain ⟨original, horiginal, heq⟩ := List.mem_map.1 hmem
      rw [← heq]
      exact hless original horiginal

end

/-! ## Laws -/

mutual

@[simp]
theorem mapData_id (tree : FileTree) : tree.mapData (fun _ data => data) = tree := by
  cases tree with
  | dir mode entries => rw [mapData, mapEntries_id]
  | file mode data => rfl
  | link target => rfl
  | fifo mode => rfl

@[simp]
theorem mapEntries_id (entries : List (FileName × FileTree)) :
    mapEntries (fun _ data => data) entries = entries := by
  cases entries with
  | nil => rfl
  | cons entry rest => rw [mapEntries, mapData_id, mapEntries_id]

end

mutual

theorem mapData_mapData (change change' : Location → Bytes → Bytes) (tree : FileTree) :
    (tree.mapData change).mapData change' =
      tree.mapData fun location data => change' location (change location data) := by
  cases tree with
  | dir mode entries => rw [mapData, mapData, mapData, mapEntries_mapEntries]
  | file mode data => rfl
  | link target => rfl
  | fifo mode => rfl

theorem mapEntries_mapEntries (change change' : Location → Bytes → Bytes)
    (entries : List (FileName × FileTree)) :
    mapEntries change' (mapEntries change entries) =
      mapEntries (fun location data => change' location (change location data)) entries := by
  cases entries with
  | nil => rfl
  | cons entry rest =>
      rw [mapEntries, mapEntries, mapEntries, mapData_mapData, mapEntries_mapEntries]

end

mutual

/-- Only what happens to the files of the tree matters. -/
theorem mapData_congr {tree : FileTree} (hwf : tree.WellFormed)
    {change change' : Location → Bytes → Bytes}
    (hchange : ∀ location mode data, tree.get? location = some (.file mode data) →
      change location data = change' location data) :
    tree.mapData change = tree.mapData change' := by
  cases tree with
  | dir mode entries =>
      rw [mapData, mapData]
      apply congrArg (FileTree.dir mode)
      apply mapEntries_congr hwf
      intro name node hmem location mode' data hget
      apply hchange (name :: location) mode' data
      rw [get?, lookup_of_mem hwf hmem]
      exact hget
  | file mode data => rw [mapData, mapData, hchange [] mode data rfl]
  | link target => rfl
  | fifo mode => rfl

theorem mapEntries_congr {entries : List (FileName × FileTree)}
    (hwf : EntriesWellFormed entries) {change change' : Location → Bytes → Bytes}
    (hchange : ∀ name node, (name, node) ∈ entries → ∀ location mode data,
      node.get? location = some (.file mode data) →
        change (name :: location) data = change' (name :: location) data) :
    mapEntries change entries = mapEntries change' entries := by
  cases entries with
  | nil => rfl
  | cons entry rest =>
      obtain ⟨-, -, -, hnode, hrest⟩ := hwf
      have hfirst := mapData_congr hnode (hchange entry.1 entry.2 List.mem_cons_self)
      have hlater := mapEntries_congr hrest fun name node hmem =>
        hchange name node (List.mem_cons_of_mem entry hmem)
      rw [mapEntries, mapEntries, hfirst, hlater]

end

/-! ## Putting a node back -/

def changeBelow (base : Location) (change : Location → Bytes → Bytes) :
    Location → Bytes → Bytes := fun location data =>
  if base <+: location then change (location.drop base.length) data else data

@[simp]
theorem changeBelow_append (base below : Location) (change : Location → Bytes → Bytes)
    (data : Bytes) : changeBelow base change (base ++ below) data = change below data := by
  simp [changeBelow]

theorem changeBelow_of_not_isPrefix {base location : Location} (hleads : ¬base <+: location)
    (change : Location → Bytes → Bytes) (data : Bytes) :
    changeBelow base change location data = data :=
  if_neg hleads

theorem changeBelow_cons_of_ne {name other : FileName} (hne : name ≠ other) (base : Location)
    (change : Location → Bytes → Bytes) :
    (fun below => changeBelow (name :: base) change (other :: below)) = fun _ data => data := by
  funext below data
  apply changeBelow_of_not_isPrefix
  rw [List.cons_prefix_cons]
  exact fun hboth => hne hboth.1

theorem changeBelow_cons_self (name : FileName) (base : Location)
    (change : Location → Bytes → Bytes) :
    (fun below => changeBelow (name :: base) change (name :: below)) =
      changeBelow base change := by
  funext below data
  simp [changeBelow, List.cons_prefix_cons]

theorem mapEntries_changeBelow_of_ne {name : FileName} {entries : List (FileName × FileTree)}
    (hne : ∀ entry ∈ entries, name ≠ entry.1) (base : Location)
    (change : Location → Bytes → Bytes) :
    mapEntries (changeBelow (name :: base) change) entries = entries := by
  induction entries with
  | nil => rfl
  | cons entry rest ih =>
      obtain ⟨hfirst, hrest⟩ := List.forall_mem_cons.1 hne
      rw [mapEntries, changeBelow_cons_of_ne hfirst, mapData_id, ih hrest]

theorem alterEntry_eq_mapEntries {entries : List (FileName × FileTree)}
    (hwf : EntriesWellFormed entries) {name : FileName} {child : FileTree}
    (hlookup : entries.lookup name = some child) {base : Location}
    {change : Location → Bytes → Bytes} {alteration : Option FileTree → Option FileTree}
    (halter : alteration (some child) = some (child.mapData (changeBelow base change))) :
    alterEntry name alteration entries =
      mapEntries (changeBelow (name :: base) change) entries := by
  induction entries with
  | nil => simp at hlookup
  | cons entry rest ih =>
      obtain ⟨other, node⟩ := entry
      by_cases hname : name = other
      · subst hname
        obtain rfl : node = child := by simpa using hlookup
        rw [mapEntries, changeBelow_cons_self, mapEntries_changeBelow_of_ne (ne_of_mem_rest hwf),
          alterEntry, if_pos rfl, halter]
        rfl
      · have hbeq : (name == other) = false := by simpa using hname
        rw [List.lookup_cons, hbeq] at hlookup
        have hgreater : other < name := hwf.2.2.1 _ (mem_of_lookup hlookup)
        have hnotless : ¬name < other := fun hlt => List.lt_irrefl _ (List.lt_trans hlt hgreater)
        rw [mapEntries, changeBelow_cons_of_ne hname, mapData_id, alterEntry, if_neg hname,
          if_neg hnotless, ih hwf.2.2.2.2 hlookup]

theorem alter_mapData {tree node : FileTree} {base : Location} (hwf : tree.WellFormed)
    (hget : tree.get? base = some node) (change : Location → Bytes → Bytes) :
    alter (fun _ => some (node.mapData change)) base (some tree) =
      some (tree.mapData (changeBelow base change)) := by
  induction base generalizing tree with
  | nil =>
      obtain rfl := Option.some.inj hget
      rfl
  | cons name base ih =>
      cases tree with
      | dir mode entries =>
          simp only [get?] at hget
          cases hlookup : entries.lookup name with
          | none => simp [hlookup] at hget
          | some child =>
              rw [hlookup] at hget
              have hchild := (wellFormed_of_mem hwf (mem_of_lookup hlookup)).2.2
              rw [alter, mapData, alterEntry_eq_mapEntries hwf hlookup (ih hchild hget)]
      | file mode data => simp [get?] at hget
      | link target => simp [get?] at hget
      | fifo mode => simp [get?] at hget

/-- To put a node back with changed contents is to change the contents below it. -/
theorem insert_mapData {tree node : FileTree} {base : Location} (hwf : tree.WellFormed)
    (hget : tree.get? base = some node) (change : Location → Bytes → Bytes) :
    tree.insert base (node.mapData change) = tree.mapData (changeBelow base change) := by
  rw [insert, alterAt, alter_mapData hwf hget, Option.getD_some]

theorem insert_self {tree node : FileTree} {base : Location} (hwf : tree.WellFormed)
    (hget : tree.get? base = some node) : tree.insert base node = tree := by
  have hput := insert_mapData hwf hget fun _ data => data
  have hsame : changeBelow base (fun _ data => data) = fun _ data => data := by
    funext location data
    simp [changeBelow]
  rwa [hsame, mapData_id, mapData_id] at hput

def withData (tree : FileTree) (location : Location) (data : Bytes) : FileTree :=
  tree.mapData fun other old => if other = location then data else old

/-- To put a file back with other contents is to change these contents only. -/
theorem insert_file {tree : FileTree} {location : Location} {mode : Mode} {data : Bytes}
    (hwf : tree.WellFormed) (hfile : tree.get? location = some (.file mode data))
    (data' : Bytes) :
    tree.insert location (.file mode data') = tree.withData location data' := by
  have hput := insert_mapData hwf hfile fun _ _ => data'
  rw [mapData] at hput
  rw [hput]
  apply mapData_congr hwf
  intro other mode' old hother
  by_cases hleads : location <+: other
  · obtain rfl := eq_of_isPrefix_of_file hfile hother hleads
    simp [changeBelow]
  · have hne : other ≠ location := by
      rintro rfl
      exact hleads (List.prefix_refl other)
    rw [changeBelow_of_not_isPrefix hleads, if_neg hne]

theorem get?_withData {tree : FileTree} {location : Location} {mode : Mode} {data : Bytes}
    (hfile : tree.get? location = some (.file mode data)) (data' : Bytes) :
    (tree.withData location data').get? location = some (.file mode data') := by
  simp [withData, get?_mapData, hfile, mapData]

theorem withData_eq_self_iff {tree : FileTree} {location : Location} {mode : Mode}
    {data data' : Bytes} (hwf : tree.WellFormed)
    (hfile : tree.get? location = some (.file mode data)) :
    tree.withData location data' = tree ↔ data' = data := by
  constructor
  · intro hsame
    have hget := get?_withData hfile data'
    rw [hsame, hfile] at hget
    simpa using hget.symm
  · rintro rfl
    rw [← insert_file hwf hfile, insert_self hwf hfile]

/-! ## Alterations before and after a change of contents -/

theorem alterEntry_mapEntries {change : Location → Bytes → Bytes} {name : FileName}
    {alteration alteration' : Option FileTree → Option FileTree}
    (halteration : ∀ node, alteration' (node.map (mapData fun below => change (name :: below))) =
      (alteration node).map (mapData fun below => change (name :: below)))
    (entries : List (FileName × FileTree)) :
    alterEntry name alteration' (mapEntries change entries) =
      mapEntries change (alterEntry name alteration entries) := by
  have habsent := halteration none
  rw [Option.map_none] at habsent
  induction entries with
  | nil =>
      rw [mapEntries, alterEntry, alterEntry, habsent]
      cases alteration none <;> rfl
  | cons entry rest ih =>
      obtain ⟨other, child⟩ := entry
      rw [mapEntries, alterEntry, alterEntry]
      split
      next hsame =>
        subst hsame
        have hpresent := halteration (some child)
        rw [Option.map_some] at hpresent
        rw [hpresent]
        cases alteration (some child) <;> rfl
      next =>
        split
        next =>
          rw [habsent]
          cases alteration none <;> rfl
        next => rw [ih, mapEntries]

theorem alter_map_mapData {change : Location → Bytes → Bytes} {location : Location}
    {alteration : Option FileTree → Option FileTree}
    (halteration : ∀ node,
      alteration (node.map (mapData fun below => change (location ++ below))) =
        (alteration node).map (mapData fun below => change (location ++ below)))
    (node : Option FileTree) :
    alter alteration location (node.map (mapData change)) =
      (alter alteration location node).map (mapData change) := by
  induction location generalizing node change with
  | nil => exact halteration node
  | cons name rest ih =>
      have hbelow := @ih (fun below => change (name :: below)) halteration
      cases node with
      | none =>
          have habsent := hbelow none
          rw [Option.map_none] at habsent ⊢
          rw [alter]
          cases hmade : alter alteration rest none with
          | none => rfl
          | some child =>
              rw [hmade] at habsent
              exact congrArg (fun child => some (dir {} [(name, child)])) (Option.some.inj habsent)
      | some tree =>
          cases tree with
          | dir mode entries =>
              simp only [Option.map_some, mapData, alter, alterEntry_mapEntries hbelow]
          | file mode data => rfl
          | link target => rfl
          | fifo mode => rfl

/-- An alteration that has nothing to do with a change of contents may be made before it
or after it. -/
theorem alterAt_mapData {change : Location → Bytes → Bytes} {location : Location}
    {alteration : Option FileTree → Option FileTree}
    (halteration : ∀ node,
      alteration (node.map (mapData fun below => change (location ++ below))) =
        (alteration node).map (mapData fun below => change (location ++ below)))
    (tree : FileTree) :
    (tree.mapData change).alterAt location alteration =
      (tree.alterAt location alteration).mapData change := by
  rw [alterAt, alterAt, ← Option.map_some, alter_map_mapData halteration]
  cases alter alteration location (some tree) <;> rfl

end ImportSuffix.FileTree
