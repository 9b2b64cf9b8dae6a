import ImportSuffix.Proofs.Revision.Occurrence
import ImportSuffix.Proofs.Statement.Clauseless

/-!
# Texts composed of statements and fillers

A text can be written from plain statements and from fillers around them.  If no filler holds
an opening, the statements are found again where they were put, whatever else the fillers
hold (`ofText_render_of_isComposed`): an opening that begins in a filler would have to end
in it, a plain statement has no quote before the one that opens its specifier, and the search
goes on right behind it.  So a revision of the text extends the statements that were put in,
and no other.
-/

namespace ImportSuffix

theorem Statement.IsPlain.legible {statement : Statement} (hplain : statement.IsPlain) :
    statement.Legible := by
  obtain ⟨hbindings, hspecifier⟩ := hplain
  refine ⟨hbindings.newline_notMem, hspecifier, ?_, ?_⟩
  · intro tail htail _ hstarts
    exact hbindings.quote_notMem (htail.subset (quote_mem_of_startsClause hstarts))
  · intro _ specifier _ htail
    exact hbindings.quote_notMem (htail.subset (by simp [fromQuote]))

namespace Outline

open Statement

variable {filler behind : Text} {outline : Outline}

/-- From inside a text without an opening nothing can be read, if an opening stands right
behind it. -/
theorem quiet_before_opening (hfiller : ¬opening <:+: filler) :
    Quiet filler (opening ++ behind) := by
  intro tail htail hnonempty hreadable
  have hleads := opening_isPrefix_of_readable hreadable
  rw [opening_isPrefix_append_iff hnonempty] at hleads
  exact hfiller (hleads.isInfix.trans htail.isInfix)

theorem quiet_of_not_isInfix (hfiller : ¬opening <:+: filler) : Quiet filler [] := by
  intro tail htail _ hreadable
  rw [List.append_nil] at hreadable
  exact hfiller ((opening_isPrefix_of_readable hreadable).isInfix.trans htail.isInfix)

/-- The outline is made of plain statements, and no text between them holds an opening. -/
structure IsComposed (outline : Outline) : Prop where
  sections : ∀ part ∈ outline.sections, ¬opening <:+: part.1 ∧ part.2.IsPlain
  rest : ¬opening <:+: outline.rest

theorem IsComposed.isLeftmost (hcomposed : outline.IsComposed) : outline.IsLeftmost := by
  obtain ⟨sections, rest⟩ := outline
  obtain ⟨hsections, hrest⟩ := hcomposed
  induction sections with
  | nil => exact .rest (quiet_of_not_isInfix hrest)
  | cons part sections ih =>
      obtain ⟨⟨hfiller, hplain⟩, hsections⟩ := List.forall_mem_cons.1 hsections
      refine .cons ?_ hplain.legible (ih hsections hrest)
      simp only [Statement.render, List.append_assoc]
      exact quiet_before_opening hfiller

/-- What was written from statements and fillers is cut at these statements. -/
theorem ofText_render_of_isComposed (hcomposed : outline.IsComposed) :
    ofText outline.render = outline :=
  ofText_eq_iff.2 ⟨hcomposed.isLeftmost, rfl⟩

theorem revise_render_of_isComposed (hcomposed : outline.IsComposed) (extension : Text) :
    revise extension outline.render =
      ⟨(outline.map (Statement.extend extension)).render,
        outline.statements.filter fun statement => ¬dotted extension <:+ statement.specifier⟩ := by
  simp only [revise, ofText_render_of_isComposed hcomposed, ← carries_iff, Bool.not_eq_true,
    Bool.decide_eq_false]

end Outline

/-- A text is written from statements without quotes, and from fillers without an opening
before, between and behind them.  A revision finds these statements and no other, reports
those that lack the extension, in their order, and writes the same text with their specifiers
extended. -/
theorem revise_composed (extension : Text) (parts : List (Text × Statement)) (last : Text)
    (hparts : ∀ part ∈ parts, ¬"import ".toList <:+: part.1 ∧ Unquoted part.2.bindings ∧
      Unquoted part.2.specifier)
    (hlast : ¬"import ".toList <:+: last) :
    revise extension
        (parts.flatMap (fun part => part.1 ++ ("import ".toList ++ part.2.bindings ++
          " from '".toList ++ part.2.specifier ++ "';".toList)) ++ last) =
      { text := parts.flatMap (fun part => part.1 ++ ("import ".toList ++ part.2.bindings ++
            " from '".toList ++
              (if dotted extension <:+ part.2.specifier then part.2.specifier
                else part.2.specifier ++ dotted extension) ++ "';".toList)) ++ last
        changed := (parts.map Prod.snd).filter
          fun statement => ¬dotted extension <:+ statement.specifier } := by
  have hcomposed : Outline.IsComposed ⟨parts, last⟩ := ⟨hparts, hlast⟩
  refine (Outline.revise_render_of_isComposed hcomposed extension).trans ?_
  simp only [Outline.map, Outline.render, Outline.statements, List.flatMap_map,
    Statement.extend_eq]
  rfl

/-- Three statements on two lines, the second right behind the first.  The bindings of the
first hold an opening, and the fillers hold clauses and the beginning of an opening. -/
def crowdedParts : List (Text × Statement) :=
  [("from 'x';impor".toList, ⟨"import a;".toList, "./a".toList⟩),
    ([], ⟨[], "./b.js".toList⟩),
    (" from 'y';\n".toList, ⟨"c".toList, []⟩)]

/-- The clauses in the fillers stay as they are, and so does the second statement. -/
theorem revise_composed_crowded :
    (∀ part ∈ crowdedParts, ¬"import ".toList <:+: part.1 ∧ Unquoted part.2.bindings ∧
        Unquoted part.2.specifier) ∧
      ¬"import ".toList <:+: " from 'z';".toList ∧
      revise "js".toList ("from 'x';imporimport import a; from './a';".toList ++
          "import  from './b.js'; from 'y';\nimport c from ''; from 'z';".toList) =
        ⟨"from 'x';imporimport import a; from './a.js';".toList ++
            "import  from './b.js'; from 'y';\nimport c from '.js'; from 'z';".toList,
          [⟨"import a;".toList, "./a".toList⟩, ⟨"c".toList, []⟩]⟩ := by
  have hparts : ∀ part ∈ crowdedParts, ¬"import ".toList <:+: part.1 ∧
      Unquoted part.2.bindings ∧ Unquoted part.2.specifier := by decide +kernel
  have hlast : ¬"import ".toList <:+: " from 'z';".toList := by decide
  have hrevise := revise_composed "js".toList crowdedParts " from 'z';".toList hparts hlast
  refine ⟨hparts, hlast, ?_⟩
  exact (congrArg (revise "js".toList) (by decide +kernel)).trans
    (hrevise.trans (by decide +kernel))

end ImportSuffix
