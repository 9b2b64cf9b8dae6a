import ImportSuffix.Extension
import ImportSuffix.Proofs.Walk.Scope

/-!
# Specifiers and target files

A revision asks whether a specifier ends with a dot and the extension, and a walk asks
the same of the name of a file.  The two agree on every text that, taken for a path, ends
in a name (`hasExtension_encode_append`), since no extension holds a slash.  They part in
one place only: with a single dot for the extension, two dots end with a dot and the
extension but are not the name of a file (`hasExtension_encode_iff`).

A walk makes its test on the whole path of an entry.  Since an entry's name is the last name of
that path, however the directory's path is spelled, the test is one of the bare name
(`hasExtension_join_iff`).
-/

namespace ImportSuffix

/-! ## The last piece of a text -/

/-- A text without slashes that stands at the beginning or behind a slash. -/
structure IsLastPiece (front piece : Text) : Prop where
  slash_notMem : '/' ∉ piece
  front_eq : front = [] ∨ ∃ before, front = before ++ ['/']

theorem exists_isLastPiece (text : Text) :
    ∃ front piece, text = front ++ piece ∧ IsLastPiece front piece := by
  induction text with
  | nil => exact ⟨[], [], rfl, by simp, .inl rfl⟩
  | cons c text ih =>
      obtain ⟨front, piece, rfl, hslash, hfront⟩ := ih
      rcases hfront with rfl | ⟨before, rfl⟩
      · by_cases hc : c = '/'
        · subst hc
          exact ⟨['/'], piece, rfl, hslash, .inr ⟨[], rfl⟩⟩
        · exact ⟨[], c :: piece, rfl, by simp [hslash, Ne.symm hc], .inl rfl⟩
      · exact ⟨c :: before ++ ['/'], piece, rfl, hslash, .inr ⟨c :: before, rfl⟩⟩

namespace IsLastPiece

variable {front piece : Text}

/-- What holds no slash ends a text just when it ends the last piece. -/
theorem isSuffix_append_iff (hlast : IsLastPiece front piece) {tail : Text}
    (htail : '/' ∉ tail) : tail <:+ front ++ piece ↔ tail <:+ piece := by
  constructor
  · intro hsuffix
    rcases List.suffix_or_suffix_of_suffix hsuffix (List.suffix_append front piece) with
      hinside | ⟨more, rfl⟩
    · exact hinside
    · have hmore : more <:+ front := List.suffix_append_self_iff.1 hsuffix
      rcases hlast.front_eq with rfl | ⟨before, rfl⟩
      · rw [List.suffix_nil.1 hmore]
        exact List.suffix_refl piece
      · rcases List.suffix_concat_iff.1 hmore with rfl | ⟨rest, rfl, -⟩
        · exact List.suffix_refl piece
        · exact absurd (by simp) htail
  · exact fun hsuffix => hsuffix.trans (List.suffix_append front piece)

/-- The last piece is the whole text or what stands behind a slash at its end. -/
theorem eq_iff (hlast : IsLastPiece front piece) {other : Text} (hother : '/' ∉ other) :
    piece = other ↔ front ++ piece = other ∨ '/' :: other <:+ front ++ piece := by
  constructor
  · rintro rfl
    rcases hlast.front_eq with rfl | ⟨before, rfl⟩
    · exact .inl rfl
    · exact .inr ⟨before, by simp⟩
  · rintro (rfl | ⟨before, heq⟩)
    · rcases hlast.front_eq with rfl | ⟨before, rfl⟩
      · rfl
      · exact absurd (by simp) hother
    · rcases hlast.front_eq with rfl | ⟨before', rfl⟩
      · have hmem : '/' ∈ piece := by
          rw [← List.nil_append piece, ← heq]
          simp
        exact absurd hmem hlast.slash_notMem
      · have hreverse := congrArg List.reverse heq
        simp only [List.reverse_append, List.reverse_cons, List.append_assoc,
          List.singleton_append] at hreverse
        have hsame := (append_cons_inj_of_notMem (by simpa using hother)
          (by simpa using hlast.slash_notMem) hreverse).1
        exact (List.reverse_injective hsame).symm

end IsLastPiece

/-! ## The last name of a text that is taken for a path -/

namespace Path

theorem slash_mem_encode_iff {text : Text} : slash ∈ Utf8.encode text ↔ '/' ∈ text :=
  Utf8.mem_encode_iff (by decide)

/-- The pieces of a text, taken for a path, end with its last piece. -/
theorem exists_pieces_encode {front piece : Text} (hlast : IsLastPiece front piece) :
    ∃ before, pieces (Utf8.encode (front ++ piece)) = before ++ [Utf8.encode piece] := by
  have hpiece : slash ∉ Utf8.encode piece :=
    fun hmem => hlast.slash_notMem (slash_mem_encode_iff.1 hmem)
  rcases hlast.front_eq with rfl | ⟨before, rfl⟩
  · exact ⟨[], pieces_eq_singleton hpiece⟩
  · have hslash : Utf8.encode ['/'] = [slash] := by decide
    refine ⟨pieces (Utf8.encode before), ?_⟩
    rw [Utf8.encode_append, Utf8.encode_append, hslash, List.append_assoc,
      List.singleton_append, pieces_append_slash, pieces_eq_singleton hpiece]

theorem encode_eq_iff {left right : Text} :
    Utf8.encode left = Utf8.encode right ↔ left = right :=
  ⟨Utf8.encode_injective, congrArg Utf8.encode⟩

/-- A text whose last piece is not empty and not a single dot has that piece for its name,
two dots apart. -/
theorem fileName?_encode_append {front piece : Text} (hlast : IsLastPiece front piece)
    (hnonempty : piece ≠ []) (hhere : piece ≠ ['.']) :
    fileName? (Utf8.encode (front ++ piece)) =
      if piece = ['.', '.'] then none else some (Utf8.encode piece) := by
  have hnil : Utf8.encode [] = [] := rfl
  have hdot : Utf8.encode ['.'] = here := by decide
  have hdots : Utf8.encode ['.', '.'] = above := by decide
  obtain ⟨before, hpieces⟩ := exists_pieces_encode hlast
  rw [fileName?_of_pieces hpieces (by rwa [← hnil, ne_eq, encode_eq_iff])
    (by rwa [← hdot, ne_eq, encode_eq_iff]), ← hdots]
  simp only [encode_eq_iff]

/-- A text that ends in a name has the extension, taken for a path, just when it ends with
a dot and the extension. -/
theorem hasExtension_encode_append {front piece extension : Text}
    (hlast : IsLastPiece front piece) (hnonempty : piece ≠ []) (hhere : piece ≠ ['.'])
    (hslash : '/' ∉ extension) :
    hasExtension extension (Utf8.encode (front ++ piece)) = true ↔
      piece ≠ ['.', '.'] ∧ dotted extension <:+ front ++ piece := by
  have hdotted : '/' ∉ dotted extension := by simpa [dotted] using hslash
  rw [hasExtension, fileName?_encode_append hlast hnonempty hhere,
    hlast.isSuffix_append_iff hdotted]
  by_cases habove : piece = ['.', '.']
  · simp [habove]
  · simp [habove, nameHasExtension_iff]

end Path

/-! ## Extensions that were accepted -/

/-- The text, taken for a path, ends with the directory above. -/
def EndsAbove (text : Text) : Prop :=
  text = ['.', '.'] ∨ ['/', '.', '.'] <:+ text

section Accepted

variable {given extension : Text}

theorem slash_notMem_of_normalize? (hextension : Extension.normalize? given = some extension) :
    '/' ∉ extension := by
  intro hmem
  have hallowed := (Extension.normalize?_eq_some_iff.1 hextension).2.2 '/' hmem
  simp [Extension.isForbidden] at hallowed

theorem not_dotted_isSuffix_of_length_lt (hnonempty : extension ≠ []) {text : Text}
    (hshort : text.length < 2) : ¬dotted extension <:+ text := by
  intro hsuffix
  have hlength := hsuffix.length_le
  have hpos := List.length_pos_of_ne_nil hnonempty
  rw [dotted, List.length_cons] at hlength
  omega

/-- Only a single dot makes two dots end with a dot and the extension. -/
theorem eq_dot_of_dotted_isSuffix (hnonempty : extension ≠ [])
    (hsuffix : dotted extension <:+ ['.', '.']) : extension = ['.'] := by
  have hlength := hsuffix.length_le
  obtain ⟨c, rest, rfl⟩ := List.exists_cons_of_ne_nil hnonempty
  cases rest with
  | nil => simpa [dotted] using hsuffix.eq_of_length rfl
  | cons d rest => simp [dotted] at hlength

/-- The test of a walk and the test of a revision agree on a text that does not end in a
slash or in a slash and a dot, two dots apart. -/
theorem hasExtension_encode_iff (hextension : Extension.normalize? given = some extension)
    {text : Text} (hslash : ¬['/'] <:+ text) (hhere : ¬['/', '.'] <:+ text) :
    Path.hasExtension extension (Utf8.encode text) = true ↔
      dotted extension <:+ text ∧ ¬(extension = ['.'] ∧ EndsAbove text) := by
  obtain ⟨-, hnonempty, -⟩ := Extension.normalize?_eq_some_iff.1 hextension
  have hnoslash := slash_notMem_of_normalize? hextension
  obtain ⟨front, piece, rfl, hlast⟩ := exists_isLastPiece text
  -- a text that is no longer than a dot has no name
  have hnameless : ∀ {short : Text}, Path.fileName? (Utf8.encode short) = none →
      short.length < 2 → (Path.hasExtension extension (Utf8.encode short) = true ↔
        dotted extension <:+ short ∧ ¬(extension = ['.'] ∧ EndsAbove short)) := by
    intro short hname hshort
    rw [Path.hasExtension, hname]
    refine iff_of_false Bool.false_ne_true fun hboth => ?_
    exact not_dotted_isSuffix_of_length_lt hnonempty hshort hboth.1
  by_cases hempty : piece = []
  · rw [((hlast.eq_iff (by simp)).1 hempty).resolve_right hslash]
    exact hnameless (by decide) (by decide)
  by_cases hdot : piece = ['.']
  · rw [((hlast.eq_iff (by simp)).1 hdot).resolve_right hhere]
    exact hnameless (by decide) (by decide)
  rw [Path.hasExtension_encode_append hlast hempty hdot hnoslash, and_comm, EndsAbove,
    ← hlast.eq_iff (by simp)]
  apply and_congr_right
  intro hsuffix
  rw [not_and, ne_eq]
  constructor
  · exact fun habove _ => habove
  · rintro hother rfl
    have hdotted : '/' ∉ dotted extension := by simpa [dotted] using hnoslash
    have hinside := (hlast.isSuffix_append_iff hdotted).1 hsuffix
    exact hother (eq_dot_of_dotted_isSuffix hnonempty hinside) rfl

/-- A short end of an extended specifier lies within the dot and the extension, and so it
holds no slash. -/
theorem slash_notMem_of_isSuffix_extended
    (hextension : Extension.normalize? given = some extension) {specifier tail : Text}
    (hlength : tail.length ≤ 2) (hsuffix : tail <:+ specifier ++ dotted extension) :
    '/' ∉ tail := by
  obtain ⟨-, hnonempty, -⟩ := Extension.normalize?_eq_some_iff.1 hextension
  have hpos := List.length_pos_of_ne_nil hnonempty
  have hinside : tail <:+ dotted extension := by
    apply List.suffix_of_suffix_length_le hsuffix (List.suffix_append specifier _)
    rw [dotted, List.length_cons]
    omega
  intro hmem
  have hmem' := hinside.subset hmem
  simp [dotted, slash_notMem_of_normalize? hextension] at hmem'

/-- A specifier with a single dot for its extension ends with the directory above if it
names nothing itself. -/
theorem endsAbove_append_dots_iff {specifier : Text} :
    EndsAbove (specifier ++ dotted ['.']) ↔ specifier = [] ∨ ['/'] <:+ specifier := by
  have hdots : dotted ['.'] = ['.', '.'] := rfl
  have hbehind : ['/', '.', '.'] = ['/'] ++ ['.', '.'] := rfl
  rw [EndsAbove, hdots, hbehind, List.suffix_append_self_iff, List.append_left_eq_self]

/-- A specifier with the extension is a path whose file a walk reads, unless it ends with
the directory above. -/
theorem hasExtension_encode_extended (hextension : Extension.normalize? given = some extension)
    {specifier : Text}
    (hnamed : ¬(extension = ['.'] ∧ (specifier = [] ∨ ['/'] <:+ specifier))) :
    Path.hasExtension extension (Utf8.encode (specifier ++ dotted extension)) = true := by
  rw [hasExtension_encode_iff hextension]
  · refine ⟨List.suffix_append specifier _, ?_⟩
    rintro ⟨rfl, habove⟩
    exact hnamed ⟨rfl, endsAbove_append_dots_iff.1 habove⟩
  · intro hslash
    exact slash_notMem_of_isSuffix_extended hextension (by decide) hslash List.mem_cons_self
  · intro hslash
    exact slash_notMem_of_isSuffix_extended hextension (by decide) hslash List.mem_cons_self

end Accepted

/-- A regular file in the scope of a walk is eligible if it has the name of a path with
the extension. -/
theorem Walk.eligible_of_hasExtension {walk : Walk} {path : Path} {tree : FileTree}
    {base below : Location} (hpath : path.hasExtension walk.extension = true)
    (hname : below.getLast? = path.fileName?) (hincluded : walk.Includes below)
    (hfile : ∃ mode data, tree.get? (base ++ below) = some (.file mode data)) :
    walk.Eligible tree base below := by
  refine ⟨hfile, hincluded, ?_⟩
  rw [Path.hasExtension] at hpath
  split at hpath
  next => contradiction
  next name hfound =>
    obtain ⟨text, htext⟩ := Path.nameHasExtension_iff.1 hpath
    exact ⟨name, text, hname.trans hfound, htext⟩

/-- The test of a specifier and the test of a file agree, for every extension that is
accepted.  A text that does not end in a slash or in a slash and a dot passes for a path
with the extension just when it ends with a dot and the extension, except for two dots
behind which there is no file.  So a specifier that a revision extends is then the path of
a file that a walk reads. -/
theorem hasExtension_iff_dotted_isSuffix {given extension : Text}
    (hextension : Extension.normalize? given = some extension) :
    (∀ text : Text, ¬['/'] <:+ text → ¬['/', '.'] <:+ text →
      (Path.hasExtension extension (Utf8.encode text) = true ↔
        dotted extension <:+ text ∧ ¬(extension = ['.'] ∧ EndsAbove text))) ∧
      ∀ text : Text, ∀ statement ∈ (revise extension text).changed,
        ¬(extension = ['.'] ∧ (statement.specifier = [] ∨ ['/'] <:+ statement.specifier)) →
          Path.hasExtension extension
              (Utf8.encode (statement.specifier ++ dotted extension)) = true ∧
            ∀ (walk : Walk) (tree : FileTree) (base below : Location),
              walk.extension = extension → walk.Includes below →
              (∃ mode data, tree.get? (base ++ below) = some (.file mode data)) →
              below.getLast? =
                Path.fileName? (Utf8.encode (statement.specifier ++ dotted extension)) →
              walk.Eligible tree base below := by
  refine ⟨fun text hslash hhere => hasExtension_encode_iff hextension hslash hhere, ?_⟩
  intro text statement _ hnamed
  have htarget := hasExtension_encode_extended hextension hnamed
  refine ⟨htarget, ?_⟩
  rintro walk tree base below rfl hincluded hfile hname
  exact Walk.eligible_of_hasExtension htarget hname hincluded hfile

/-- With `.js` for the extension, `./lib` is extended to the path of a file that is read. -/
theorem hasExtension_iff_dotted_isSuffix_lib :
    Extension.normalize? ".js".toList = some "js".toList ∧
      (∃ statement ∈ (revise "js".toList "import a from './lib';".toList).changed,
        Path.hasExtension "js".toList
          (Utf8.encode (statement.specifier ++ dotted "js".toList)) = true) ∧
      (Path.hasExtension "js".toList (Utf8.encode "lib/a.js".toList) = true ↔
        dotted "js".toList <:+ "lib/a.js".toList ∧
          ¬("js".toList = ['.'] ∧ EndsAbove "lib/a.js".toList)) := by
  have hextension : Extension.normalize? ".js".toList = some "js".toList := by decide
  obtain ⟨htexts, hspecifiers⟩ := hasExtension_iff_dotted_isSuffix hextension
  have hmem : (⟨"a".toList, "./lib".toList⟩ : Statement) ∈
      (revise "js".toList "import a from './lib';".toList).changed := by decide +kernel
  exact ⟨hextension, ⟨_, hmem, (hspecifiers _ _ hmem (by decide)).1⟩,
    htexts _ (by decide) (by decide)⟩

/-- With a single dot for the extension, two dots end with a dot and the extension but do
not pass for a path with it, and neither does what becomes of `./`. -/
theorem not_hasExtension_endsAbove :
    Extension.normalize? "..".toList = some ".".toList ∧
      (¬['/'] <:+ "..".toList ∧ ¬['/', '.'] <:+ "..".toList ∧
        dotted ".".toList <:+ "..".toList ∧
        Path.hasExtension ".".toList (Utf8.encode "..".toList) = false) ∧
      ∃ statement ∈ (revise ".".toList "import a from './';".toList).changed,
        Path.hasExtension ".".toList
          (Utf8.encode (statement.specifier ++ dotted ".".toList)) = false := by
  refine ⟨by decide, by decide, ⟨⟨"a".toList, "./".toList⟩, ?_⟩⟩
  decide +kernel

/-! ## The entries of a directory -/

/-- A text ends with a dot and the extension just when its bytes do: a dot is one byte, and no
other character has that byte. -/
theorem encode_dotted_isSuffix_iff {extension text : Text} :
    Utf8.encode (dotted extension) <:+ Utf8.encode text ↔ dotted extension <:+ text :=
  Utf8.cons_encode_isSuffix_iff (by decide : (0x2e : UInt8).toNat < 0x80)

/-- Of the path of an entry only the name of the entry counts, whatever its directory's path
is: it has the extension just when the name is UTF-8 and ends with a dot and the extension. -/
theorem hasExtension_join_iff {name : FileName} (hname : FileTree.IsEntryName name)
    (directory : Path) (extension : Text) :
    Path.hasExtension extension (directory.join name) = true ↔
      (∃ text, Utf8.encode text = name) ∧ Utf8.encode (dotted extension) <:+ name := by
  rw [Path.hasExtension_join hname, Path.nameHasExtension_iff]
  constructor
  · rintro ⟨text, hdecode, hsuffix⟩
    have hencode : Utf8.encode text = name := Utf8.encode_of_decode? hdecode
    refine ⟨⟨text, hencode⟩, ?_⟩
    rwa [← hencode, encode_dotted_isSuffix_iff]
  · rintro ⟨⟨text, rfl⟩, hsuffix⟩
    exact ⟨text, Utf8.decode?_encode text, encode_dotted_isSuffix_iff.1 hsuffix⟩

/-- Below a directory whose path is not UTF-8 and ends with two dots, a name with the extension
passes.  The same bytes with one that is not UTF-8 before them do not, and neither do they pass
for an extension with a slash that the joined path ends with. -/
theorem hasExtension_join_iff_unevenPath :
    (FileTree.IsEntryName (Utf8.encode "x.min.js".toList) ∧
      Path.hasExtension "min.js".toList
        (Path.join (0xff :: Utf8.encode "/..".toList) (Utf8.encode "x.min.js".toList)) = true) ∧
    (FileTree.IsEntryName (0xff :: Utf8.encode "x.min.js".toList) ∧
      Path.hasExtension "js".toList
        (Path.join (Utf8.encode "a.js/".toList) (0xff :: Utf8.encode "x.min.js".toList)) = false) ∧
      Path.hasExtension "/x.min.js".toList
        (Path.join (Utf8.encode "a.".toList) (Utf8.encode "x.min.js".toList)) = false := by
  have hname : FileTree.IsEntryName (Utf8.encode "x.min.js".toList) := by
    refine ⟨?_, ?_, ?_, ?_, ?_⟩ <;> decide +kernel
  have hname' : FileTree.IsEntryName (0xff :: Utf8.encode "x.min.js".toList) := by
    refine ⟨?_, ?_, ?_, ?_, ?_⟩ <;> decide +kernel
  refine ⟨⟨hname, ?_⟩, ⟨hname', ?_⟩, ?_⟩
  · exact (hasExtension_join_iff hname _ _).2 ⟨⟨_, rfl⟩, by decide +kernel⟩
  · rw [Bool.eq_false_iff, ne_eq, hasExtension_join_iff hname']
    rintro ⟨⟨text, htext⟩, -⟩
    have hdecode := Utf8.decode?_encode text
    have hnone : Utf8.decode? (0xff :: Utf8.encode "x.min.js".toList) = none := by
      decide +kernel
    rw [htext, hnone] at hdecode
    contradiction
  · rw [Bool.eq_false_iff, ne_eq, hasExtension_join_iff hname]
    rintro ⟨-, hsuffix⟩
    exact absurd hsuffix (by decide +kernel)

end ImportSuffix
