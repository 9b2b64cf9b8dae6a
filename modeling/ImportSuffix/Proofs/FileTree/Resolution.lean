import ImportSuffix.Proofs.FileTree.Contents
import ImportSuffix.Proofs.Path

/-!
# Where paths below a directory lead

Contents have no part in where a path leads (`locate_mapData`).  A path goes on from
where its first steps lead (`follow_append`), so the path of an entry leads below the
place that the directory's own path leads to, as long as every directory on the way
can be searched and the path is not too long (`locate_below`).
-/

namespace ImportSuffix.FileTree

/-- The mode of a node; a link has none of its own. -/
def mode : FileTree → Mode
  | .file mode _ => mode
  | .dir mode _ => mode
  | .fifo mode => mode
  | .link _ => {}

/-- Why what is at a path cannot be opened for what `permits` asks of its mode. -/
def openError? (tree : FileTree) (path : Path) (permits : Mode → Bool) : Option AccessError :=
  match tree.locate true path with
  | .error cause => some cause
  | .ok location =>
      match tree.get? location with
      | none => some .notFound
      | some node => if permits node.mode then none else some .permissionDenied

/-- Whether all directories from a node down to what is at a location below it can
be searched. -/
def searchable : FileTree → Location → Bool
  | _, [] => true
  | .dir mode entries, name :: rest =>
      mode.search &&
        match entries.lookup name with
        | some child => child.searchable rest
        | none => false
  | _, _ :: _ => false

/-! ## Contents -/

section Contents

variable (change : Location → Bytes → Bytes) (tree : FileTree)

theorem searched_mapData (location : Location) :
    (tree.mapData change).searched location =
      (tree.searched location).map (mapEntries fun below => change (location ++ below)) := by
  rw [searched, searched, get?_mapData]
  cases tree.get? location with
  | none => rfl
  | some node =>
      cases node with
      | dir mode entries =>
          simp only [Option.map_some, mapData]
          split <;> rfl
      | file mode data => rfl
      | link target => rfl
      | fifo mode => rfl

theorem advance_mapData (followLast : Bool)
    (onLink : Location → Path → List Step → Except AccessError Location)
    (location : Location) (steps : List Step) :
    (tree.mapData change).advance followLast onLink location steps =
      tree.advance followLast onLink location steps := by
  induction steps generalizing location with
  | nil => rfl
  | cons step rest ih =>
      cases step with
      | directory =>
          rw [advance, advance, get?_mapData]
          cases tree.get? location with
          | none => rfl
          | some node =>
              cases node with
              | dir mode entries => simpa [mapData] using ih location
              | file mode data => rfl
              | link target => rfl
              | fifo mode => rfl
      | stay =>
          rw [advance, advance, searched_mapData]
          cases tree.searched location with
          | error cause => rfl
          | ok entries => exact ih location
      | up =>
          cases location with
          | nil =>
              simp only [advance, searched_mapData]
              cases tree.searched [] <;> rfl
          | cons name location =>
              simp only [advance, searched_mapData]
              cases tree.searched (name :: location) with
              | error cause => rfl
              | ok entries => exact ih _
      | enter name =>
          rw [advance, advance, searched_mapData]
          cases tree.searched location with
          | error cause => rfl
          | ok entries =>
              simp only [Except.map, lookup_mapEntries]
              split
              next => rfl
              next =>
                cases entries.lookup name with
                | none => rfl
                | some child =>
                    cases child with
                    | dir mode entries => exact ih _
                    | file mode data => exact ih _
                    | link target => simp only [Option.map_some, mapData, ih]
                    | fifo mode => exact ih _

theorem follow_mapData (followLast : Bool) (links : Nat) (location : Location)
    (steps : List Step) :
    (tree.mapData change).follow followLast links location steps =
      tree.follow followLast links location steps := by
  induction links generalizing location steps with
  | zero => exact advance_mapData change tree followLast _ location steps
  | succ links ih =>
      rw [follow, follow, advance_mapData]
      simp only [ih]

/-- Contents have no part in where a path leads. -/
theorem locate_mapData (followLast : Bool) (path : Path) :
    (tree.mapData change).locate followLast path = tree.locate followLast path := by
  rw [locate, locate, follow_mapData]

theorem endsAtLink_mapData (path : Path) :
    (tree.mapData change).endsAtLink path = tree.endsAtLink path := by
  rw [endsAtLink, endsAtLink, locate_mapData]
  cases tree.locate false path with
  | error cause => rfl
  | ok location =>
      simp only [get?_mapData]
      cases tree.get? location with
      | none => rfl
      | some node => cases node <;> rfl

theorem openError?_mapData (path : Path) (permits : Mode → Bool) :
    (tree.mapData change).openError? path permits = tree.openError? path permits := by
  rw [openError?, openError?, locate_mapData]
  cases tree.locate true path with
  | error cause => rfl
  | ok location =>
      simp only [get?_mapData]
      cases tree.get? location with
      | none => rfl
      | some node => cases node <;> rfl

end Contents

/-! ## Going on -/

/-- A run of steps ends at a place, and every continuation goes on from there; or it
fails, and so does every continuation. -/
def Continues (tree : FileTree) (run : List Step → Except AccessError Location)
    (steps : List Step) : Prop :=
  (∃ location links, run steps = .ok location ∧
      ∀ more, run (steps ++ more) = tree.follow true links location more) ∨
    ∃ cause, run steps = .error cause ∧ ∀ more, ∃ cause', run (steps ++ more) = .error cause'

theorem Continues.of_error {tree : FileTree} {run : List Step → Except AccessError Location}
    {steps : List Step} (herror : ∀ more, ∃ cause, run (steps ++ more) = .error cause) :
    Continues tree run steps := by
  obtain ⟨cause, hcause⟩ := herror []
  rw [List.append_nil] at hcause
  exact .inr ⟨cause, hcause, herror⟩

theorem advance_continues {tree : FileTree} (links : Nat)
    {onLink : Location → Path → List Step → Except AccessError Location}
    (hself : ∀ location steps,
      tree.advance true onLink location steps = tree.follow true links location steps)
    (hlink : ∀ location target steps, Continues tree (onLink location target) steps)
    (location : Location) (steps : List Step) :
    Continues tree (tree.advance true onLink location) steps := by
  induction steps generalizing location with
  | nil => exact .inl ⟨location, links, rfl, fun more => hself location more⟩
  | cons step rest ih =>
      cases step with
      | directory =>
          cases hget : tree.get? location with
          | none => exact .of_error fun more => ⟨.notFound, by simp [advance, hget]⟩
          | some node =>
              cases node with
              | dir mode entries =>
                  have hstep := ih location
                  simpa [Continues, advance, hget] using hstep
              | file mode data =>
                  exact .of_error fun more => ⟨.notDirectory, by simp [advance, hget]⟩
              | link target =>
                  exact .of_error fun more => ⟨.notDirectory, by simp [advance, hget]⟩
              | fifo mode =>
                  exact .of_error fun more => ⟨.notDirectory, by simp [advance, hget]⟩
      | stay =>
          cases hsearched : tree.searched location with
          | error cause => exact .of_error fun more => ⟨cause, by simp [advance, hsearched]⟩
          | ok entries =>
              have hstep := ih location
              simpa [Continues, advance, hsearched] using hstep
      | up =>
          cases hsearched : tree.searched location with
          | error cause => exact .of_error fun more => ⟨cause, by simp [advance, hsearched]⟩
          | ok entries =>
              cases location with
              | nil =>
                  exact .of_error fun more => ⟨outside (rest ++ more), by
                    simp [advance, hsearched]⟩
              | cons name location =>
                  have hstep := ih (name :: location).dropLast
                  simpa [Continues, advance, hsearched] using hstep
      | enter name =>
          cases hsearched : tree.searched location with
          | error cause => exact .of_error fun more => ⟨cause, by simp [advance, hsearched]⟩
          | ok entries =>
              by_cases hlong : Path.nameLimit < name.length
              · exact .of_error fun more => ⟨.nameTooLong, by simp [advance, hsearched, hlong]⟩
              · cases hlookup : entries.lookup name with
                | none =>
                    exact .of_error fun more => ⟨.notFound, by
                      simp [advance, hsearched, hlong, hlookup]⟩
                | some child =>
                    have hstep := ih (location ++ [name])
                    cases child with
                    | link target =>
                        have hstep' := hlink location target rest
                        simpa [Continues, advance, hsearched, hlong, hlookup, follows]
                          using hstep'
                    | dir mode entries' =>
                        simpa [Continues, advance, hsearched, hlong, hlookup] using hstep
                    | file mode data =>
                        simpa [Continues, advance, hsearched, hlong, hlookup] using hstep
                    | fifo mode =>
                        simpa [Continues, advance, hsearched, hlong, hlookup] using hstep

/-- A path goes on from where its first steps lead, if they lead anywhere. -/
theorem follow_continues (tree : FileTree) (links : Nat) (location : Location)
    (steps : List Step) : Continues tree (tree.follow true links location) steps := by
  induction links generalizing location steps with
  | zero =>
      apply advance_continues 0 (fun _ _ => rfl)
      intro location target steps
      exact .of_error fun more => ⟨.tooManyLinks, rfl⟩
  | succ links ih =>
      apply advance_continues (links + 1) (fun _ _ => rfl)
      intro location target steps
      by_cases habsolute : target.isAbsolute
      · exact .of_error fun more => ⟨outside (target.steps ++ (steps ++ more)), by
          simp [habsolute]⟩
      · simpa [Continues, habsolute] using ih location (target.steps ++ steps)

theorem follow_nil (tree : FileTree) (followLast : Bool) (links : Nat) (location : Location) :
    tree.follow followLast links location [] = .ok location := by
  cases links <;> rfl

/-- The demand of a slash at the end moves nothing. -/
theorem follow_directory {tree : FileTree} {followLast : Bool} {links : Nat}
    {location base : Location}
    (hfollow : tree.follow followLast links location [.directory] = .ok base) :
    location = base := by
  have hadvance : ∀ onLink, tree.advance followLast onLink location [.directory] = .ok base →
      location = base := by
    intro onLink hbase
    simp only [advance] at hbase
    split at hbase
    next => exact Except.ok.inj hbase
    next => contradiction
    next => contradiction
  cases links <;> exact hadvance _ hfollow

/-- A path that leads somewhere goes on from there, with or without a slash at its
end. -/
theorem follow_moves_append {tree : FileTree} {root : Path} {links : Nat}
    {start base : Location} (hroot : tree.follow true links start root.steps = .ok base) :
    ∃ links', ∀ more,
      tree.follow true links start (root.moves ++ more) = tree.follow true links' base more := by
  have hsteps : root.steps =
      root.moves ++ if root.getLast? = some Path.slash then [Step.directory] else [] := rfl
  rw [hsteps] at hroot
  rcases follow_continues tree links start root.moves with
    ⟨location, links', -, hmore⟩ | ⟨-, -, hmore⟩
  · have hbase : location = base := by
      rw [hmore] at hroot
      split at hroot
      next => exact follow_directory hroot
      next =>
        rw [follow_nil] at hroot
        exact Except.ok.inj hroot
    rw [hbase] at hmore
    exact ⟨links', hmore⟩
  · obtain ⟨cause, hcause⟩ := hmore _
    rw [hcause] at hroot
    contradiction

/-- A directory that can be searched leads on to its entries, links apart. -/
theorem advance_enter {tree child : FileTree} {mode : Mode}
    {entries : List (FileName × FileTree)} {location : Location} {name : FileName}
    {onLink : Location → Path → List Step → Except AccessError Location}
    (hdir : tree.get? location = some (.dir mode entries))
    (hlookup : entries.lookup name = some child) (hlength : name.length ≤ Path.nameLimit)
    (hlink : child.isLink = false) (rest : List Step) :
    tree.advance true onLink location (.enter name :: rest) =
      if mode.search then tree.advance true onLink (location ++ [name]) rest
      else .error .permissionDenied := by
  rw [advance, searched, hdir]
  cases hsearch : mode.search with
  | false => simp [hsearch]
  | true =>
      simp only [hsearch, if_true, if_neg (Nat.not_lt.2 hlength), hlookup]
      cases child with
      | link target => contradiction
      | dir mode entries => rfl
      | file mode data => rfl
      | fifo mode => rfl

theorem isLink_of_get? {node target : FileTree} {location : Location}
    (hget : node.get? location = some target) (hlink : target.isLink = false) :
    node.isLink = false := by
  cases node with
  | link path =>
      cases location with
      | nil =>
          obtain rfl := Option.some.inj hget
          exact hlink
      | cons name rest => contradiction
  | dir mode entries => rfl
  | file mode data => rfl
  | fifo mode => rfl

/-- Names are entered one after the other, if all directories on the way can be
searched. -/
theorem advance_map_enter {tree node target : FileTree} {base below : Location}
    {onLink : Location → Path → List Step → Except AccessError Location}
    (hbase : tree.get? base = some node) (htarget : node.get? below = some target)
    (hwf : node.WellFormed) (hlink : target.isLink = false) :
    tree.advance true onLink base (below.map .enter) =
      if node.searchable below then .ok (base ++ below) else .error .permissionDenied := by
  induction below generalizing base node with
  | nil => simp [advance, searchable]
  | cons name rest ih =>
      cases node with
      | dir mode entries =>
          simp only [get?] at htarget
          cases hlookup : entries.lookup name with
          | none => simp [hlookup] at htarget
          | some child =>
              rw [hlookup] at htarget
              obtain ⟨-, hlength, hchild⟩ := wellFormed_of_mem hwf (mem_of_lookup hlookup)
              have hnext : tree.get? (base ++ [name]) = some child := by
                simp [get?_append, hbase, get?, hlookup]
              have hrest := ih hnext htarget hchild
              rw [List.map_cons, advance_enter hbase hlookup hlength
                (isLink_of_get? htarget hlink), hrest, searchable, hlookup]
              cases mode.search <;> simp
      | file mode data => contradiction
      | link path => contradiction
      | fifo mode => contradiction

theorem locate_eq_ok_iff {tree : FileTree} {followLast : Bool} {path : Path}
    {location : Location} :
    tree.locate followLast path = .ok location ↔
      (0 ∉ path ∧ path ≠ [] ∧ path.isTooLong = false ∧ path.isAbsolute = false) ∧
        tree.follow followLast linkLimit [] path.steps = .ok location := by
  rw [locate]
  split_ifs <;> simp_all

/-- The path of what is below the place that a root leads to leads there, if it is not
too long and all directories on the way can be searched. -/
theorem locate_below {tree node target : FileTree} {root : Path} {base below : Location}
    (hroot : tree.locate true root = .ok base) (hbase : tree.get? base = some node)
    (hwf : node.WellFormed) (htarget : node.get? below = some target)
    (hlink : target.isLink = false) :
    tree.locate true (root.below below) =
      if (root.below below).isTooLong then .error .nameTooLong
      else if node.searchable below then .ok (base ++ below)
      else .error .permissionDenied := by
  obtain ⟨⟨hnul, hnonempty, hlength, habsolute⟩, hfollow⟩ := locate_eq_ok_iff.1 hroot
  by_cases hempty : below = []
  · subst hempty
    simp [hroot, hlength, searchable]
  · have hnames : ∀ name ∈ below, IsEntryName name :=
      fun name hname => ((hwf.of_get? htarget).2 name hname).1
    obtain ⟨links, hmore⟩ := follow_moves_append hfollow
    rw [locate, if_neg (Path.zero_notMem_below hnul hnames),
      if_neg (Path.below_ne_nil hnonempty below), Path.isAbsolute_below hnonempty, habsolute,
      Path.steps_below hnames hempty, hmore]
    have henter : tree.follow true links base (below.map .enter) =
        if node.searchable below then .ok (base ++ below) else .error .permissionDenied := by
      cases links <;> exact advance_map_enter hbase htarget hwf hlink
    simp [henter]

/-- What is below the place that a root leads to can be opened if its path is not too
long, all directories on the way can be searched, and its own mode permits it. -/
theorem openError?_below {tree node target : FileTree} {root : Path} {base below : Location}
    (hroot : tree.locate true root = .ok base) (hbase : tree.get? base = some node)
    (hwf : node.WellFormed) (htarget : node.get? below = some target)
    (hlink : target.isLink = false) (permits : Mode → Bool) :
    tree.openError? (root.below below) permits =
      (root.below below).obstacle? (node.searchable below && permits target.mode) := by
  have hget : tree.get? (base ++ below) = some target := by
    rw [get?_append, hbase, Option.bind_some, htarget]
  rw [openError?, locate_below hroot hbase hwf htarget hlink, Path.obstacle?]
  cases (root.below below).isTooLong <;> cases node.searchable below <;> simp [hget]

end ImportSuffix.FileTree
