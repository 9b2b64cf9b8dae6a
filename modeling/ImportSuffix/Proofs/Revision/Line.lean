import ImportSuffix.Proofs.Revision.Composition
import ImportSuffix.Proofs.Revision.Parts

/-!
# A text line by line

A reading ends with its line at the latest.  So what is begun on a line and not ended there
takes nothing of the next line, and the search goes on at the beginning of that line as at
the beginning of a text: the outlines of two texts, put together at a newline, are the
outline of both (`ofText_append_newline`).  A revision may be made line by line.

Nothing but a newline ends a line.  Characters that are line ends elsewhere may stand in the
bindings and in the specifier of a statement like any other.
-/

namespace ImportSuffix

namespace Statement

theorem not_readable_nil : ¬Readable [] := by
  rintro ⟨statement, rest, hreads⟩
  simpa [render, opening] using hreads.text_eq

/-- What stands behind the end of a line has no part in whether something can be read. -/
theorem readable_append_newline_iff {left right : Text} :
    Readable (left ++ '\n' :: right) ↔ Readable left := by
  constructor
  · rintro ⟨statement, rest, hreads⟩
    obtain ⟨rest', hreads', -⟩ := reads_append_newline_iff.1 hreads
    exact ⟨statement, rest', hreads'⟩
  · rintro ⟨statement, rest, hreads⟩
    exact ⟨statement, _, hreads.append _⟩

end Statement

namespace Outline

def append (first second : Outline) : Outline :=
  ⟨first.sections ++ (second.prepend first.rest).sections, (second.prepend first.rest).rest⟩

theorem cons_append (gap : Text) (statement : Statement) (first second : Outline) :
    (first.cons gap statement).append second = (first.append second).cons gap statement := rfl

theorem statements_prepend (gap : Text) (outline : Outline) :
    (outline.prepend gap).statements = outline.statements := by
  obtain ⟨sections, rest⟩ := outline
  cases sections <;> rfl

theorem render_append (first second : Outline) :
    (first.append second).render = first.render ++ second.render := by
  have hbehind := render_prepend first.rest second
  rw [render] at hbehind
  simp only [append, render, List.flatMap_append, List.append_assoc, hbehind]

theorem statements_append (first second : Outline) :
    (first.append second).statements = first.statements ++ second.statements := by
  have hbehind := statements_prepend first.rest second
  rw [statements] at hbehind
  simp only [append, statements, List.map_append, hbehind]

theorem map_append (change : Statement → Statement) (first second : Outline) :
    (first.append second).map change = (first.map change).append (second.map change) := by
  have hbehind := map_prepend change first.rest second
  simp only [append, map, List.map_append]
  rw [← map, ← hbehind]
  rfl

/-- Nothing can be read from a text with a newline behind it if nothing can be read from the
text alone. -/
theorem Quiet.before_newline {text : Text} (hquiet : Quiet text []) (behind : Text) :
    Quiet text ('\n' :: behind) := by
  intro tail htail hnonempty hreadable
  rw [Statement.readable_append_newline_iff] at hreadable
  exact hquiet tail htail hnonempty (by rwa [List.append_nil])

theorem quiet_newline (behind : Text) : Quiet ['\n'] behind := by
  intro tail htail hnonempty hreadable
  obtain rfl : tail = ['\n'] := by
    rcases List.suffix_cons_iff.1 htail with rfl | hnil
    · rfl
    · exact absurd (List.suffix_nil.1 hnil) hnonempty
  exact Statement.not_readable_nil (Statement.readable_append_newline_iff.1 hreadable)

/-- What is found before a newline and what is found behind it is found in the whole. -/
theorem IsLeftmost.append_newline {first second : Outline} (hfirst : first.IsLeftmost)
    (hsecond : second.IsLeftmost) : (first.append (second.prepend ['\n'])).IsLeftmost := by
  have hbehind : (second.prepend ['\n']).IsLeftmost := hsecond.prepend (quiet_newline _)
  induction hfirst with
  | rest hquiet =>
      apply hbehind.prepend
      rw [render_prepend]
      exact hquiet.before_newline second.render
  | cons hquiet hlegible _ ih =>
      rw [cons_append]
      exact .cons (hquiet.replace hlegible hlegible) hlegible ih

/-- The outline of two texts with a newline between them is that of the first and behind it
that of the second. -/
theorem ofText_append_newline (first second : Text) :
    ofText (first ++ '\n' :: second) = (ofText first).append ((ofText second).prepend ['\n']) := by
  rw [ofText_eq_iff]
  refine ⟨(isLeftmost_ofText first).append_newline (isLeftmost_ofText second), ?_⟩
  rw [render_append, render_prepend, render_ofText, render_ofText, List.singleton_append]

end Outline

theorem revise_append_newline (extension first second : Text) :
    revise extension (first ++ '\n' :: second) =
      ⟨(revise extension first).text ++ '\n' :: (revise extension second).text,
        (revise extension first).changed ++ (revise extension second).changed⟩ := by
  have houtline := Outline.ofText_append_newline first second
  simp only [revise, houtline, Outline.map_append, Outline.map_prepend, Outline.render_append,
    Outline.render_prepend, Outline.statements_append, Outline.statements_prepend,
    List.filter_append, List.singleton_append]

/-- Lines that are put together are revised each on its own. -/
theorem revise_intercalate (extension : Text) (lines : List Text) :
    revise extension (['\n'].intercalate lines) =
      ⟨['\n'].intercalate (lines.map fun line => (revise extension line).text),
        lines.flatMap fun line => (revise extension line).changed⟩ := by
  induction lines with
  | nil => simp [revise, Outline.ofText, Outline.scanFrom, Outline.map, Outline.render,
      Outline.statements]
  | cons line lines ih =>
      cases lines with
      | nil => simp
      | cons next lines =>
          rw [List.intercalate_cons_cons, List.append_assoc, List.singleton_append,
            revise_append_newline, ih]
          simp only [List.map_cons, List.flatMap_cons, List.intercalate_cons_cons,
            List.append_assoc, List.singleton_append]

theorem revise_render_of_isPlain {statement : Statement} (hplain : statement.IsPlain)
    (extension : Text) :
    revise extension statement.render =
      ⟨(statement.extend extension).render,
        [statement].filter fun statement => ¬dotted extension <:+ statement.specifier⟩ := by
  have hcomposed : Outline.IsComposed ⟨[([], statement)], []⟩ :=
    ⟨by simp [hplain, Statement.opening], by simp [Statement.opening]⟩
  simpa [Outline.render, Outline.map, Outline.statements] using
    Outline.revise_render_of_isComposed hcomposed extension

/-- A revision by any extension goes line by line: two texts with a newline between them, and
the lines of any text, are revised each on its own, and their changes are reported one after
the other.  A carriage return, a next line, a line separator and a paragraph separator end no
line: a statement with one of them in its bindings or in its specifier is revised as a
whole. -/
theorem revise_line_by_line (extension : Text) :
    (∀ first second, revise extension (first ++ '\n' :: second) =
      ⟨(revise extension first).text ++ '\n' :: (revise extension second).text,
        (revise extension first).changed ++ (revise extension second).changed⟩) ∧
    (∀ text, revise extension text =
      ⟨['\n'].intercalate ((text.splitOn '\n').map fun line => (revise extension line).text),
        (text.splitOn '\n').flatMap fun line => (revise extension line).changed⟩) ∧
    ∀ c ∈ ['\r', '\u0085', '\u2028', '\u2029'], ∀ statement : Statement,
      c ∈ statement.bindings ∨ c ∈ statement.specifier → Unquoted statement.bindings →
        Unquoted statement.specifier → revise extension statement.render =
          ⟨(statement.extend extension).render,
            [statement].filter fun statement => ¬dotted extension <:+ statement.specifier⟩ := by
  refine ⟨revise_append_newline extension, ?_, ?_⟩
  · intro text
    have hlines := revise_intercalate extension (text.splitOn '\n')
    rwa [List.intercalate_splitOn] at hlines
  · intro c _ statement _ hbindings hspecifier
    exact revise_render_of_isPlain ⟨hbindings, hspecifier⟩ extension

/-- A carriage return in the bindings and a line separator in the specifier end no line, and
the newline does. -/
theorem revise_line_by_line_separators :
    ('\r' ∈ "a\r".toList ∧ Unquoted "a\r".toList ∧ Unquoted "./b\u2028".toList) ∧
      revise "js".toList "import a\r from './b\u2028';".toList =
        ⟨"import a\r from './b\u2028.js';".toList, [⟨"a\r".toList, "./b\u2028".toList⟩]⟩ ∧
      revise "js".toList "import a\n from './b';".toList =
        ⟨"import a\n from './b';".toList, []⟩ := by
  have hmem : '\r' ∈ "a\r".toList := by decide
  have hbindings : Unquoted "a\r".toList := by decide
  have hspecifier : Unquoted "./b\u2028".toList := by decide
  obtain ⟨htwo, -, hone⟩ := revise_line_by_line "js".toList
  refine ⟨⟨hmem, hbindings, hspecifier⟩, ?_, ?_⟩
  · have hwhole := hone '\r' (by decide) ⟨"a\r".toList, "./b\u2028".toList⟩ (.inl hmem) hbindings
      hspecifier
    exact (congrArg (revise "js".toList) (by decide)).trans (hwhole.trans (by decide +kernel))
  · exact (congrArg (revise "js".toList) (by decide)).trans
      ((htwo "import a".toList " from './b';".toList).trans (by decide +kernel))

end ImportSuffix
