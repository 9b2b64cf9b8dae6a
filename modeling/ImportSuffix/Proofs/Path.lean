import ImportSuffix.FileTree.Access
import ImportSuffix.Revision
import Mathlib.Data.List.Basic
import Mathlib.Data.List.Induction

/-!
# The paths of entries

A path below a directory is the path of the directory with names joined to it, one
after the other.  Its steps are those of the directory and then one step into each
name (`steps_below`), however the directory's own path is spelled, and its file
name is the name that was joined last (`fileName?_join`).
-/

namespace ImportSuffix.Path

open FileTree

theorem nameHasExtension_iff {extension : Text} {name : FileName} :
    nameHasExtension extension name = true ↔
      ∃ text, Utf8.decode? name = some text ∧ dotted extension <:+ text := by
  rw [nameHasExtension]
  split
  next hnone => simp [hnone]
  next text htext =>
    simp only [htext, Option.some.injEq, exists_eq_left']
    split
    next hnone =>
      have hsuffix : ¬dotted extension <:+ text := by
        rintro ⟨stem, heq⟩
        have hsome : extension.isSuffixOf? text = some (stem ++ ['.']) :=
          isSuffixOf?_eq_some_iff.2 (by simp [← heq, dotted])
        rw [hnone] at hsome
        contradiction
      simp [hsuffix]
    next stem hstem =>
      rw [isSuffixOf?_eq_some_iff.1 hstem, decide_eq_true_eq, List.getLast?_eq_some_iff]
      constructor
      · rintro ⟨front, rfl⟩
        exact ⟨front, by simp [dotted]⟩
      · rintro ⟨front, heq⟩
        refine ⟨front, List.append_cancel_right (?_ : stem ++ extension = _ ++ extension)⟩
        simpa [dotted] using heq.symm

theorem obstacle?_eq_none_iff {path : Path} {allowed : Bool} :
    path.obstacle? allowed = none ↔ path.isTooLong = false ∧ allowed = true := by
  rw [obstacle?]
  split_ifs <;> simp_all

/-! ## Steps -/

/-- The steps of a path, without the demand of a slash at its end. -/
def moves (path : Path) : List Step :=
  (pieces path).filterMap stepOf?

theorem pieces_append_slash (left right : Path) :
    pieces (left ++ slash :: right) = pieces left ++ pieces right :=
  List.splitOnP_append_cons left right (by simp)

theorem pieces_eq_singleton {name : FileName} (hname : slash ∉ name) :
    pieces name = [name] :=
  List.splitOn_eq_singleton hname

theorem stepOf?_entryName {name : FileName} (hname : IsEntryName name) :
    stepOf? name = some (.enter name) := by
  obtain ⟨hnonempty, hhere, habove, -, -⟩ := hname
  rw [stepOf?, if_neg hnonempty, if_neg hhere, if_neg habove]

/-- The last piece of an entry's path is its name, and the pieces before it lead
where its directory does. -/
theorem exists_pieces_join (directory : Path) :
    ∃ front, front.filterMap stepOf? = directory.moves ∧
      ∀ name, slash ∉ name → pieces (directory.join name) = front ++ [name] := by
  by_cases hends : directory = [] ∨ directory.getLast? = some slash
  · simp only [join, if_pos hends]
    rcases hends with rfl | hslash
    · exact ⟨[], by simp [moves, pieces, stepOf?], fun name hname => by
        simpa using pieces_eq_singleton hname⟩
    · obtain ⟨front, rfl⟩ := List.getLast?_eq_some_iff.1 hslash
      refine ⟨pieces front, ?_, fun name hname => ?_⟩
      · rw [moves, pieces_append_slash, List.filterMap_append]
        simp [pieces, stepOf?]
      · rw [List.append_assoc, List.singleton_append, pieces_append_slash,
          pieces_eq_singleton hname]
  · simp only [join, if_neg hends]
    refine ⟨pieces directory, rfl, fun name hname => ?_⟩
    rw [pieces_append_slash, pieces_eq_singleton hname]

/-- A last piece that is not empty and not a single dot is the name of the path, unless it
is two dots. -/
theorem fileName?_of_pieces {path : Path} {front : List FileName} {name : FileName}
    (hpieces : pieces path = front ++ [name]) (hnonempty : name ≠ []) (hhere : name ≠ here) :
    fileName? path = if name = above then none else some name := by
  have hlast : (pieces path).reverse.find? (fun piece => piece ≠ [] ∧ piece ≠ here) =
      some name := by
    simp [hpieces, hnonempty, hhere]
  rw [fileName?, hlast]
  by_cases habove : name = above <;> simp [habove]

theorem fileName?_join {name : FileName} (hname : IsEntryName name) (directory : Path) :
    fileName? (directory.join name) = some name := by
  obtain ⟨front, -, hpieces⟩ := exists_pieces_join directory
  obtain ⟨hnonempty, hhere, habove, hslash, -⟩ := hname
  rw [fileName?_of_pieces (hpieces name hslash) hnonempty hhere, if_neg habove]

theorem hasExtension_join {name : FileName} (hname : IsEntryName name) (extension : Text)
    (directory : Path) :
    hasExtension extension (directory.join name) = nameHasExtension extension name := by
  rw [hasExtension, fileName?_join hname]

theorem moves_join {name : FileName} (hname : IsEntryName name) (directory : Path) :
    (directory.join name).moves = directory.moves ++ [.enter name] := by
  obtain ⟨front, hfront, hpieces⟩ := exists_pieces_join directory
  rw [moves, hpieces name hname.2.2.2.1, List.filterMap_append, hfront]
  simp [stepOf?_entryName hname]

theorem getLast?_join {name : FileName} (hname : IsEntryName name) (directory : Path) :
    (directory.join name).getLast? ≠ some slash := by
  obtain ⟨hnonempty, -, -, hslash, -⟩ := hname
  have hlast : (directory.join name).getLast? = name.getLast? := by
    rw [join]
    split
    next => exact List.getLast?_append_of_ne_nil directory hnonempty
    next =>
      rw [List.append_cons]
      exact List.getLast?_append_of_ne_nil _ hnonempty
  rw [hlast]
  exact fun heq => hslash (List.mem_of_getLast? heq)

theorem steps_append_slash (left : Path) {right : Path} (hright : right ≠ []) :
    (left ++ slash :: right).steps = left.moves ++ right.steps := by
  have hlast : (left ++ slash :: right).getLast? = right.getLast? := by
    rw [List.append_cons, List.getLast?_append_of_ne_nil _ hright]
  rw [steps, steps, hlast, pieces_append_slash, List.filterMap_append, moves,
    List.append_assoc]

/-! ## Locations below a directory -/

def below (directory : Path) (location : Location) : Path :=
  location.foldl join directory

@[simp]
theorem below_nil (directory : Path) : directory.below [] = directory := rfl

@[simp]
theorem below_cons (directory : Path) (name : FileName) (location : Location) :
    directory.below (name :: location) = (directory.join name).below location := rfl

theorem below_concat (directory : Path) (location : Location) (name : FileName) :
    directory.below (location ++ [name]) = (directory.below location).join name := by
  simp [below]

theorem moves_below {location : Location} (hnames : ∀ name ∈ location, IsEntryName name)
    (directory : Path) :
    (directory.below location).moves = directory.moves ++ location.map .enter := by
  induction location generalizing directory with
  | nil => simp
  | cons name location ih =>
      obtain ⟨hname, hnames⟩ := List.forall_mem_cons.1 hnames
      rw [below_cons, ih hnames, moves_join hname]
      simp

/-- The steps to what is below a directory do not depend on slashes at the end of
the directory's path. -/
theorem steps_below {location : Location} (hnames : ∀ name ∈ location, IsEntryName name)
    (hnonempty : location ≠ []) (directory : Path) :
    (directory.below location).steps = directory.moves ++ location.map .enter := by
  have hlast : (directory.below location).getLast? ≠ some slash := by
    obtain hempty | ⟨front, name, rfl⟩ := List.eq_nil_or_concat' location
    · exact absurd hempty hnonempty
    · rw [below_concat]
      exact getLast?_join (hnames name (by simp)) _
  have hmoves := moves_below hnames directory
  rw [moves] at hmoves
  rw [steps, hmoves, if_neg hlast, List.append_nil]

theorem zero_notMem_join {directory : Path} {name : FileName} (hdirectory : 0 ∉ directory)
    (hname : 0 ∉ name) : 0 ∉ directory.join name := by
  rw [join]
  split <;> simp [slash, hdirectory, hname]

theorem join_ne_nil {directory : Path} (hnonempty : directory ≠ []) (name : FileName) :
    directory.join name ≠ [] := by
  rw [join]
  split <;> simp [hnonempty]

theorem length_lt_length_join (directory : Path) {name : FileName} (hname : name ≠ []) :
    directory.length < (directory.join name).length := by
  have hpos := List.length_pos_of_ne_nil hname
  rw [join]
  split
  next =>
    rw [List.length_append]
    omega
  next =>
    rw [List.length_append, List.length_cons]
    omega

theorem isAbsolute_join {directory : Path} (hnonempty : directory ≠ []) (name : FileName) :
    (directory.join name).isAbsolute = directory.isAbsolute := by
  obtain ⟨first, rest, rfl⟩ := List.exists_cons_of_ne_nil hnonempty
  rw [join]
  split <;> simp [isAbsolute]

theorem zero_notMem_below {directory : Path} {location : Location} (hdirectory : 0 ∉ directory)
    (hnames : ∀ name ∈ location, IsEntryName name) : 0 ∉ directory.below location := by
  induction location generalizing directory with
  | nil => exact hdirectory
  | cons name location ih =>
      obtain ⟨hname, hnames⟩ := List.forall_mem_cons.1 hnames
      exact ih (zero_notMem_join hdirectory hname.2.2.2.2) hnames

theorem below_ne_nil {directory : Path} (hnonempty : directory ≠ []) (location : Location) :
    directory.below location ≠ [] := by
  induction location generalizing directory with
  | nil => exact hnonempty
  | cons name location ih => exact ih (join_ne_nil hnonempty name)

theorem isAbsolute_below {directory : Path} (hnonempty : directory ≠ []) (location : Location) :
    (directory.below location).isAbsolute = directory.isAbsolute := by
  induction location generalizing directory with
  | nil => rfl
  | cons name location ih =>
      rw [below_cons, ih (join_ne_nil hnonempty name), isAbsolute_join hnonempty]

theorem length_le_length_below {location : Location}
    (hnames : ∀ name ∈ location, IsEntryName name) (directory : Path) :
    directory.length ≤ (directory.below location).length := by
  induction location generalizing directory with
  | nil => exact Nat.le_refl _
  | cons name location ih =>
      obtain ⟨hname, hnames⟩ := List.forall_mem_cons.1 hnames
      exact Nat.le_trans (Nat.le_of_lt (length_lt_length_join directory hname.1))
        (ih hnames (directory.join name))

/-- The last pieces of a path below a directory are the names that lead there. -/
theorem exists_pieces_below (directory : Path) :
    ∃ front, ∀ location : Location, location ≠ [] → (∀ name ∈ location, IsEntryName name) →
      pieces (directory.below location) = front ++ location := by
  obtain ⟨front, -, hfront⟩ := exists_pieces_join directory
  refine ⟨front, fun location hnonempty hnames => ?_⟩
  induction location using List.reverseRecOn with
  | nil => exact absurd rfl hnonempty
  | append_singleton location name ih =>
      have hslash : slash ∉ name := (hnames name (by simp)).2.2.2.1
      obtain hempty | ⟨above, last, rfl⟩ := List.eq_nil_or_concat' location
      · subst hempty
        exact hfront name hslash
      · have hlast : IsEntryName last := hnames last (by simp)
        have hends : ¬(directory.below (above ++ [last]) = [] ∨
            (directory.below (above ++ [last])).getLast? = some slash) := by
          rw [below_concat]
          rintro (hnil | hends)
          · have hpos := length_lt_length_join (directory.below above) hlast.1
            rw [hnil] at hpos
            exact Nat.not_lt_zero _ hpos
          · exact getLast?_join hlast _ hends
        rw [below_concat, join, if_neg hends, pieces_append_slash, pieces_eq_singleton hslash,
          ih (by simp) fun other hother => hnames other (List.mem_append_left _ hother),
          List.append_assoc]

/-- A path that goes on behind that of an entry and a slash is that of something below the
entry. -/
theorem exists_eq_append_of_isPrefix {directory : Path} {location location' : Location}
    (hnonempty : location ≠ []) (hnames : ∀ name ∈ location, IsEntryName name)
    (hnames' : ∀ name ∈ location', IsEntryName name)
    (hleads : directory.below location ++ [slash] <+: directory.below location') :
    ∃ name rest, location' = location ++ name :: rest := by
  obtain ⟨tail, htail⟩ := hleads
  rw [List.append_assoc, List.singleton_append] at htail
  by_cases hempty : location' = []
  · subst hempty
    have hlength := length_le_length_below hnames directory
    have hsum := congrArg List.length htail
    rw [below_nil, List.length_append, List.length_cons] at hsum
    omega
  · obtain ⟨front, hfront⟩ := exists_pieces_below directory
    have hpieces := congrArg pieces htail
    rw [pieces_append_slash, hfront location hnonempty hnames, hfront location' hempty hnames',
      List.append_assoc] at hpieces
    have hlocation := List.append_cancel_left hpieces
    cases hrest : pieces tail with
    | nil => exact absurd hrest (List.splitOn_ne_nil _ _)
    | cons name rest =>
        rw [hrest] at hlocation
        exact ⟨name, rest, hlocation.symm⟩

end ImportSuffix.Path
